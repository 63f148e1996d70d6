import SystemT.Proofs.Inference.Renaming
import SystemT.Proofs.Session.Sound
import SystemT.Proofs.Ty.Canonical

/-!
# Sessions with other names

The type variables of an axiom may be called otherwise, and every form of a session leads to the
same as before, with the types renamed (`Session.processAll_rename`). A renaming of the finitely
many names that are written is the part of one of all names that matters
(`exists_injective_extension`).

This holds as long as display names stay what they are. The type that is recorded for a definition
has display names for its generated variables, and a variable of an axiom that is called alike is
the same variable from then on. So it does matter whether a written name is one of the display names
(`Session.processAll_displayName`).
-/

namespace SystemT

open Function (Injective)

/-! ## What is renamed -/

/-- Rename the type variables that a form writes. -/
def Form.rename (ρ : String → String) : Form → Form
  | define x t span => define x t span
  | declare x A span => declare x (A.rename ρ) span
  | expr t span => expr t span

/-- Rename the type variables of what a form led to. -/
def Outcome.rename (ρ : String → String) : Outcome → Outcome
  | defined x A => defined x (A.rename ρ)
  | declared x A => declared x (A.rename ρ)
  | typed t A => typed t (A.rename ρ)
  | evaluated v A => evaluated v (A.rename ρ)

/-- Rename the type variables that an error is about. -/
def SessionError.rename (ρ : String → String) : SessionError → SessionError
  | read e => read e
  | type e span => type (e.rename ρ) span
  | eval e span => eval e span

/-- Rename a result by `f`, or the type variables that the error is about. -/
def renameResult {α β : Type} (ρ : String → String) (f : α → β) :
    Except (Failure SessionError) α → Except (Failure SessionError) β
  | .ok a => .ok (f a)
  | .error e => .error (e.map (SessionError.rename ρ))

/-- Rename the type variables of what is declared. -/
def Session.rename (ρ : String → String) (s : Session) : Session := ⟨s.ctx.rename ρ, s.defs⟩

/-- Process forms one after the other; one that fails changes nothing. -/
def Session.processAll (s : Session) (fuel : Nat) (mode : Mode) :
    List Form → List (Except (Failure SessionError) Outcome)
  | [] => []
  | form :: forms =>
    match s.process fuel mode form with
    | .ok (outcome, next) => .ok outcome :: next.processAll fuel mode forms
    | .error e => .error e :: s.processAll fuel mode forms

/-! ## Processing -/

namespace Session

variable {ρ : String → String}

theorem infer_rename (hρ : Injective ρ) (hdisplay : ∀ i, ρ (displayName i) = displayName i)
    (s : Session) (t : Term) (span : Span) :
    (s.rename ρ).infer t span = renameResult ρ (Ty.rename ρ) (s.infer t span) := by
  unfold infer
  rcases typeCheck_rename hρ s.ctx t with ⟨r, r', h, h', hr⟩ | ⟨e, h, h'⟩
  · rw [h, show typeCheck t (s.rename ρ).ctx = _ from h']
    show Except.ok r'.ty.withDisplayNames = .ok (r.ty.withDisplayNames.rename ρ)
    rw [hr.ty, Ty.withDisplayNames_rename hρ hdisplay]
  · rw [h, show typeCheck t (s.rename ρ).ctx = _ from h']
    cases e <;> rfl

theorem renameResult_bind {α α' β β' : Type} {f : α → α'} {g : β → β'}
    {next : α → Except (Failure SessionError) β} {next' : α' → Except (Failure SessionError) β'}
    (h : ∀ a, next' (f a) = renameResult ρ g (next a)) (x : Except (Failure SessionError) α) :
    renameResult ρ f x >>= next' = renameResult ρ g (x >>= next) := by
  cases x with
  | ok a => exact h a
  | error e => rfl

/-- The same for a computation in which no type variable appears. -/
theorem renameResult_bind_same {α β β' : Type} {g : β → β'} {x : Except (Failure SessionError) α}
    {next : α → Except (Failure SessionError) β} {next' : α → Except (Failure SessionError) β'}
    (hx : renameResult ρ id x = x) (h : ∀ a, next' a = renameResult ρ g (next a)) :
    x >>= next' = renameResult ρ g (x >>= next) := by
  have hbind := renameResult_bind (f := id) h x
  rwa [hx] at hbind

theorem renameResult_expand (s : Session) (t : Term) :
    renameResult ρ id (s.expand t) = s.expand t := by
  unfold expand
  cases t.substConsts? s.defs <;> rfl

theorem renameResult_evaluate (t : Term) (fuel : Nat) (span : Span) :
    renameResult ρ id ((t.tryEvaluate fuel).mapError (Failure.map (SessionError.eval · span))) =
      (t.tryEvaluate fuel).mapError (Failure.map (.eval · span)) := by
  cases t.tryEvaluate fuel with
  | ok v => rfl
  | error e => cases e <;> rfl

/-- The renamed form leads to the renamed outcome and session, or to the renamed error. -/
theorem process_rename (hρ : Injective ρ) (hdisplay : ∀ i, ρ (displayName i) = displayName i)
    (s : Session) (fuel : Nat) (mode : Mode) (form : Form) :
    (s.rename ρ).process fuel mode (form.rename ρ) =
      renameResult ρ (fun r => (r.1.rename ρ, r.2.rename ρ)) (s.process fuel mode form) := by
  have hdeclare : ∀ x A, (s.rename ρ).ctx.declare x (A.rename ρ) = (s.ctx.declare x A).rename ρ :=
    fun x A => (s.ctx.declare_rename x A).symm
  cases form with
  | define x t span =>
    rw [Form.rename, process_define_eq, process_define_eq, infer_rename hρ hdisplay]
    refine renameResult_bind ?_ _
    intro A
    refine renameResult_bind_same (renameResult_expand s t) ?_
    intro d
    rw [hdeclare]
    rfl
  | declare x A span =>
    show Except.ok (Outcome.declared x (A.rename ρ), _) = _
    rw [hdeclare]
    rfl
  | expr t span =>
    cases mode with
    | check =>
      rw [Form.rename, process_check_eq, process_check_eq, infer_rename hρ hdisplay]
      refine renameResult_bind ?_ _
      intro A
      rfl
    | eval =>
      rw [Form.rename, process_eval_eq, process_eval_eq, infer_rename hρ hdisplay]
      refine renameResult_bind ?_ _
      intro A
      refine renameResult_bind_same (renameResult_expand s t) ?_
      intro u
      refine renameResult_bind_same (renameResult_evaluate u fuel span) ?_
      intro v
      rfl

/-- Renamed forms lead to the renamed results, one by one. -/
theorem processAll_rename (hρ : Injective ρ) (hdisplay : ∀ i, ρ (displayName i) = displayName i)
    (s : Session) (fuel : Nat) (mode : Mode) (forms : List Form) :
    (s.rename ρ).processAll fuel mode (forms.map (Form.rename ρ)) =
      (s.processAll fuel mode forms).map (renameResult ρ (Outcome.rename ρ)) := by
  induction forms generalizing s with
  | nil => rfl
  | cons form forms ih =>
    rw [List.map_cons, processAll, process_rename hρ hdisplay, processAll]
    cases s.process fuel mode form with
    | ok r => exact congrArg (_ :: ·) (ih r.2)
    | error e => exact congrArg (_ :: ·) (ih s)

end Session

/-! ## Renaming the names that are written -/

/-- The written names among the variables of a type. -/
def Ty.names (A : Ty) : List String :=
  A.vars.toList.filterMap fun
    | .named s => some s
    | .fresh _ => none

/-- The type variables that a form writes. -/
def Form.typeNames : Form → List String
  | define _ _ _ => []
  | declare _ A _ => A.names
  | expr _ _ => []

theorem Ty.mem_names {A : Ty} {s : String} (h : A.occurs (.named s) = true) : s ∈ A.names := by
  refine List.mem_filterMap.mpr ⟨.named s, ?_, rfl⟩
  rw [Std.ExtTreeSet.mem_toList, mem_vars]
  exact h

theorem Ty.rename_congr {ρ σ : String → String} {A : Ty} (h : ∀ s ∈ A.names, σ s = ρ s) :
    A.rename σ = A.rename ρ := by
  have hvars : ∀ s, A.occurs (.named s) = true → σ s = ρ s := fun s hs => h s (mem_names hs)
  clear h
  induction A with
  | nat | bool => rfl
  | var x =>
    cases x with
    | named s => rw [rename, rename, Ident.rename, Ident.rename, hvars s (decide_eq_true rfl)]
    | fresh n => rfl
  | arrow a b iha ihb | prod a b iha ihb =>
    rw [rename, rename, iha fun s hs => hvars s (Bool.or_eq_true_iff.mpr (.inl hs)),
      ihb fun s hs => hvars s (Bool.or_eq_true_iff.mpr (.inr hs))]

theorem Form.rename_congr {ρ σ : String → String} {form : Form}
    (h : ∀ s ∈ form.typeNames, σ s = ρ s) : form.rename σ = form.rename ρ := by
  cases form with
  | declare x A span => exact congrArg (declare x · span) (Ty.rename_congr h)
  | define | expr => rfl

/-- A display name is a capital letter, and then digits. -/
theorem toList_displayName (i : Nat) :
    ∃ cs, (displayName i).toList = Char.ofNat (65 + i % 26) :: cs ∧ ∀ c ∈ cs, c.isDigit = true := by
  refine ⟨_, toList_displayName_eq i, ?_⟩
  split
  · exact nofun
  · rw [Nat.repr_eq_ofList_toDigits, String.toList_ofList]
    exact fun c hc => Nat.isDigit_of_mem_toDigits (by decide) (by decide) hc

/-- A text that ends in exclamation marks is no display name. -/
theorem displayName_ne_append (i n : Nat) (s : String) :
    displayName i ≠ s ++ String.ofList (List.replicate (n + 1) '!') := by
  intro h
  obtain ⟨cs, hcs, hdigits⟩ := toList_displayName i
  have hmem : '!' ∈ (displayName i).toList := by
    rw [h, String.toList_append, String.toList_ofList]
    exact List.mem_append_right _ (List.mem_replicate.mpr ⟨Nat.succ_ne_zero n, rfl⟩)
  rw [hcs, List.mem_cons] at hmem
  rcases hmem with hletter | hdigit
  · have hcapital : ∀ k < 26, '!' ≠ Char.ofNat (65 + k) := by decide
    exact hcapital _ (Nat.mod_lt i (by decide)) hletter
  · exact absurd (hdigits _ hdigit) (by decide)

theorem exists_length_le (ρ : String → String) (names : List String) :
    ∃ n, ∀ w ∈ names, (ρ w).length ≤ n := by
  induction names with
  | nil => exact ⟨0, nofun⟩
  | cons v names ih =>
    obtain ⟨n, hn⟩ := ih
    refine ⟨max (ρ v).length n, fun w hw => ?_⟩
    rcases List.mem_cons.mp hw with rfl | hw
    · exact Nat.le_max_left _ _
    · exact Nat.le_trans (hn w hw) (Nat.le_max_right _ _)

/-- A renaming of finitely many names that does not identify any, and neither changes display names
nor leads to one, is part of a renaming of all names with these properties. -/
theorem exists_injective_extension {ρ : String → String} {names : List String}
    (hinjective : ∀ v ∈ names, ∀ w ∈ names, ρ v = ρ w → v = w)
    (hdisplay : ∀ w ∈ names, ∀ i, w = displayName i ∨ ρ w = displayName i → ρ w = w) :
    ∃ σ : String → String, Injective σ ∧ (∀ i, σ (displayName i) = displayName i) ∧
      ∀ w ∈ names, σ w = ρ w := by
  classical
  obtain ⟨n, hn⟩ := exists_length_le ρ names
  -- other names get a mark that makes them longer than any new name
  let mark := String.ofList (List.replicate (n + 1) '!')
  let σ : String → String := fun w =>
    if w ∈ names then ρ w else if ∃ i, w = displayName i then w else w ++ mark
  have hnames : ∀ w ∈ names, σ w = ρ w := fun w hw => if_pos hw
  have hkept : ∀ i, σ (displayName i) = displayName i := by
    intro i
    by_cases hi : displayName i ∈ names
    · rw [hnames _ hi]
      exact hdisplay _ hi i (.inl rfl)
    · exact (if_neg hi).trans (if_pos ⟨i, rfl⟩)
  have hcases : ∀ w, (w ∈ names ∧ σ w = ρ w) ∨
      (w ∉ names ∧ (∃ i, w = displayName i) ∧ σ w = w) ∨ σ w = w ++ mark := by
    intro w
    by_cases hw : w ∈ names
    · exact .inl ⟨hw, hnames w hw⟩
    · by_cases hi : ∃ i, w = displayName i
      · exact .inr (.inl ⟨hw, hi, (if_neg hw).trans (if_pos hi)⟩)
      · exact .inr (.inr ((if_neg hw).trans (if_neg hi)))
  -- names of different kinds get different names
  have hnew : ∀ v ∈ names, ∀ w ∉ names, (∃ i, w = displayName i) → ρ v ≠ w := by
    rintro v hv w hw ⟨i, rfl⟩ h
    rw [← hdisplay v hv i (.inr h), h] at hv
    exact hw hv
  have hlong : ∀ v ∈ names, ∀ w, ρ v ≠ w ++ mark := by
    intro v hv w h
    have hlength := congrArg String.length h
    have hbound := hn v hv
    rw [String.length_append, String.length_ofList, List.length_replicate] at hlength
    omega
  have hmarked : ∀ v, (∃ i, v = displayName i) → ∀ w, v ≠ w ++ mark := by
    rintro _ ⟨i, rfl⟩ w
    exact displayName_ne_append i n w
  refine ⟨σ, fun v w h => ?_, hkept, hnames⟩
  rcases hcases v with ⟨hv, hσv⟩ | ⟨hv, hi, hσv⟩ | hσv <;>
    rcases hcases w with ⟨hw, hσw⟩ | ⟨hw, hj, hσw⟩ | hσw <;> rw [hσv, hσw] at h
  · exact hinjective v hv w hw h
  · exact absurd h (hnew v hv w hw hj)
  · exact absurd h (hlong v hv w)
  · exact absurd h.symm (hnew w hw v hv hi)
  · exact h
  · exact absurd h (hmarked v hi w)
  · exact absurd h.symm (hlong w hw v)
  · exact absurd h.symm (hmarked w hj v)
  · exact String.append_left_inj mark |>.mp h

/-! ## Independence of the names -/

namespace Session

theorem rename_start (ρ : String → String) : ({} : Session).rename ρ = {} := by
  have hfree : ((∅ : IdentMap Ty).map fun _ => Ty.rename ρ) = ∅ :=
    Std.ExtTreeMap.ext_getElem? fun x => by simp
  exact congrArg (fun free => Session.mk ⟨[], free⟩ ∅) hfree

/-- **The names of type variables do not matter**, as long as no display name is changed and none is
given to another variable. If the type variables that the forms write are renamed without
identifying any, all forms lead to the same as before, be it accepted or refused, but for a renaming
of the type variables that is the same in all results. -/
theorem processAll_renamed (forms : List Form) (ρ : String → String)
    (hinjective : ∀ v ∈ forms.flatMap Form.typeNames, ∀ w ∈ forms.flatMap Form.typeNames,
      ρ v = ρ w → v = w)
    (hdisplay : ∀ w ∈ forms.flatMap Form.typeNames, ∀ i,
      w = displayName i ∨ ρ w = displayName i → ρ w = w) :
    ∃ σ : String → String, Injective σ ∧ (∀ w ∈ forms.flatMap Form.typeNames, σ w = ρ w) ∧
      ∀ fuel mode, ({} : Session).processAll fuel mode (forms.map (Form.rename ρ)) =
        (({} : Session).processAll fuel mode forms).map (renameResult σ (Outcome.rename σ)) := by
  obtain ⟨σ, hσ, hkept, hnames⟩ := exists_injective_extension hinjective hdisplay
  refine ⟨σ, hσ, hnames, fun fuel mode => ?_⟩
  have hforms : forms.map (Form.rename ρ) = forms.map (Form.rename σ) := by
    refine List.map_congr_left fun form hform => (Form.rename_congr fun w hw => ?_).symm
    exact hnames w (List.mem_flatMap.mpr ⟨form, hform, hw⟩)
  have hrename := processAll_rename hσ hkept {} fuel mode forms
  rw [rename_start] at hrename
  rw [hforms, hrename]

/-- Two names are exchanged: the function takes a `name` to a `point` instead, and it can be applied
to a constant of its new parameter type. -/
theorem processAll_renamed_exchange :
    ∃ forms, forms = [
        Form.declare (.named "f") (.arrow (.var (.named "point")) (.var (.named "name"))) ⟨0, 0⟩,
        .declare (.named "p") (.var (.named "point")) ⟨0, 0⟩,
        .define (.named "id") (.lam (.bvar 0)) ⟨0, 0⟩,
        .expr (.app (.fvar (.named "f")) (.fvar (.named "p"))) ⟨0, 0⟩,
        .expr (.app (.fvar (.named "p")) (.fvar (.named "f"))) ⟨0, 0⟩] ∧
      ∃ ρ, ρ = (fun s => if s = "point" then "name" else if s = "name" then "point" else s) ∧
      (∀ v ∈ forms.flatMap Form.typeNames, ∀ w ∈ forms.flatMap Form.typeNames,
        ρ v = ρ w → v = w) ∧
      (∀ w ∈ forms.flatMap Form.typeNames, ∀ i,
        w = displayName i ∨ ρ w = displayName i → ρ w = w) ∧
      ∃ σ : String → String, Injective σ ∧ (∀ w ∈ forms.flatMap Form.typeNames, σ w = ρ w) ∧
        ∀ fuel mode, ({} : Session).processAll fuel mode (forms.map (Form.rename ρ)) =
          (({} : Session).processAll fuel mode forms).map (renameResult σ (Outcome.rename σ)) := by
  obtain ⟨forms, hforms⟩ : ∃ forms, forms = [
      Form.declare (.named "f") (.arrow (.var (.named "point")) (.var (.named "name"))) ⟨0, 0⟩,
      .declare (.named "p") (.var (.named "point")) ⟨0, 0⟩,
      .define (.named "id") (.lam (.bvar 0)) ⟨0, 0⟩,
      .expr (.app (.fvar (.named "f")) (.fvar (.named "p"))) ⟨0, 0⟩,
      .expr (.app (.fvar (.named "p")) (.fvar (.named "f"))) ⟨0, 0⟩] := ⟨_, rfl⟩
  obtain ⟨ρ, hρ⟩ : ∃ ρ : String → String, ρ = fun s =>
      if s = "point" then "name" else if s = "name" then "point" else s := ⟨_, rfl⟩
  refine ⟨forms, hforms, ρ, hρ, ?_⟩
  have hnames : ∀ w ∈ forms.flatMap Form.typeNames, w = "point" ∨ w = "name" := by
    have hlist : forms.flatMap Form.typeNames = ["name", "point", "point"] := by
      subst hforms
      rfl
    intro w hw
    rw [hlist] at hw
    simp only [List.mem_cons, List.not_mem_nil, or_false] at hw
    rcases hw with rfl | rfl | rfl
    · exact .inr rfl
    · exact .inl rfl
    · exact .inl rfl
  have hpoint : ρ "point" = "name" := by subst hρ; rfl
  have hname : ρ "name" = "point" := by subst hρ; rfl
  have hinjective : ∀ v ∈ forms.flatMap Form.typeNames, ∀ w ∈ forms.flatMap Form.typeNames,
      ρ v = ρ w → v = w := by
    intro v hv w hw h
    rcases hnames v hv with rfl | rfl <;> rcases hnames w hw with rfl | rfl
    · rfl
    · rw [hpoint, hname] at h
      exact absurd h (by decide)
    · rw [hpoint, hname] at h
      exact absurd h (by decide)
    · rfl
  -- display names begin with a capital letter
  have hlower : ∀ i, displayName i ≠ "point" ∧ displayName i ≠ "name" := by
    intro i
    obtain ⟨cs, hcs, -⟩ := toList_displayName i
    have hcapital : ∀ k < 26, Char.ofNat (65 + k) ≠ 'p' ∧ Char.ofNat (65 + k) ≠ 'n' := by decide
    obtain ⟨hp, hn⟩ := hcapital _ (Nat.mod_lt i (by decide))
    constructor
    · intro h
      rw [h] at hcs
      exact hp (List.head_eq_of_cons_eq hcs).symm
    · intro h
      rw [h] at hcs
      exact hn (List.head_eq_of_cons_eq hcs).symm
  have hdisplay : ∀ w ∈ forms.flatMap Form.typeNames, ∀ i,
      w = displayName i ∨ ρ w = displayName i → ρ w = w := by
    intro w hw i h
    obtain ⟨hp, hn⟩ := hlower i
    rcases hnames w hw with rfl | rfl
    · rw [hpoint] at h
      rcases h with h | h
      · exact absurd h.symm hp
      · exact absurd h.symm hn
    · rw [hname] at h
      rcases h with h | h
      · exact absurd h.symm hn
      · exact absurd h.symm hp
  exact ⟨hinjective, hdisplay, processAll_renamed forms ρ hinjective hdisplay⟩

/-- The type recorded for the identity is `A → A`. It can be applied to a constant of a type `A`,
but no longer once this type is called `B`. -/
theorem processAll_displayName :
    ∃ forms, forms = [Form.define (.named "id") (.lam (.bvar 0)) ⟨0, 0⟩,
        .declare (.named "a") (.var (.named "A")) ⟨0, 0⟩,
        .expr (.app (.fvar (.named "id")) (.fvar (.named "a"))) ⟨0, 0⟩] ∧
      ∃ ρ, ρ = (fun _ => "B") ∧
      (∀ v ∈ forms.flatMap Form.typeNames, ∀ w ∈ forms.flatMap Form.typeNames,
        ρ v = ρ w → v = w) ∧
      (({} : Session).processAll 0 .check forms)[2]? =
        some (.ok (.typed (.app (.fvar (.named "id")) (.fvar (.named "a"))) (.var (.named "A")))) ∧
      (({} : Session).processAll 0 .check (forms.map (Form.rename ρ)))[2]? =
        some (.error (.error
          (.type (.mismatch (.var (.named "A")) (.var (.named "B"))) ⟨0, 0⟩))) := by
  have hid : ({} : Session).infer (.lam (.bvar 0)) ⟨0, 0⟩ =
      .ok (.arrow (.var (.named "A")) (.var (.named "A"))) := by
    have hr : typeCheck (.lam (.bvar 0)) ({} : Session).ctx =
        .ok ⟨∅, .arrow (.var (.fresh 0)) (.var (.fresh 0))⟩ := typeCheck_eq_ok.mpr ⟨_, _, rfl, rfl⟩
    have hname : (Ty.arrow (.var (.fresh 0)) (.var (.fresh 0))).withDisplayNames =
        .arrow (.var (.named "A")) (.var (.named "A")) := by decide +kernel
    exact (infer_of_typeCheck hr).trans (congrArg Except.ok hname)
  -- the session that the third form is checked in, where `w` is the type of `a`
  let after (w : String) : Session := ⟨(Context.empty.declare (.named "id")
    (.arrow (.var (.named "A")) (.var (.named "A")))).declare (.named "a") (.var (.named w)),
    ((∅ : ConstSubst).insert (.named "id") (.lam (.bvar 0))).erase (.named "a")⟩
  have hprocess : ∀ w, (({} : Session).processAll 0 .check
      [.define (.named "id") (.lam (.bvar 0)) ⟨0, 0⟩,
        .declare (.named "a") (.var (.named w)) ⟨0, 0⟩,
        .expr (.app (.fvar (.named "id")) (.fvar (.named "a"))) ⟨0, 0⟩])[2]? =
      some (((after w).process 0 .check
        (.expr (.app (.fvar (.named "id")) (.fvar (.named "a"))) ⟨0, 0⟩)).map Prod.fst) := by
    intro w
    rw [processAll, process_define_eq, hid]
    show ((after w).processAll 0 .check _)[0]? = _
    rw [processAll]
    cases (after w).process 0 .check
      (.expr (.app (.fvar (.named "id")) (.fvar (.named "a"))) ⟨0, 0⟩) <;> rfl
  refine ⟨_, rfl, _, rfl, ?_, ?_, ?_⟩
  · have hlist : [Form.define (.named "id") (.lam (.bvar 0)) ⟨0, 0⟩,
        .declare (.named "a") (.var (.named "A")) ⟨0, 0⟩,
        .expr (.app (.fvar (.named "id")) (.fvar (.named "a"))) ⟨0, 0⟩].flatMap
          Form.typeNames = ["A"] := rfl
    intro v hv w hw _
    rw [hlist] at hv hw
    rw [List.mem_singleton.mp hv, List.mem_singleton.mp hw]
  · have hunify : unify [(.arrow (.var (.named "A")) (.var (.named "A")),
        .arrow (.var (.named "A")) (.var (.fresh 0)))] (after "A").ctx.declaredVars =
        .ok (.singleton (.fresh 0) (.var (.named "A"))) := by
      rw [unify, Unifier.run, Unifier.finish_cons rfl]
      dsimp only [Unifier.solve, Unifier.taking]
      rw [Unifier.finish_cons rfl]
      dsimp only [Unifier.solve, Unifier.taking]
      rw [if_pos rfl]
      dsimp only
      rw [Unifier.finish_cons rfl]
      show (Unifier.finish ⟨[], _, _, _⟩).map _ = _
      rw [Unifier.finish_nil rfl]
      rfl
    rw [hprocess, process_check_eq, infer, typeCheck_app_consts rfl (by decide) rfl rfl, hunify]
    rfl
  · have hunify : unify [(.arrow (.var (.named "A")) (.var (.named "A")),
        .arrow (.var (.named "B")) (.var (.fresh 0)))] (after "B").ctx.declaredVars =
        .error (.error (.mismatch (.var (.named "A")) (.var (.named "B")))) := by
      rw [unify, Unifier.run, Unifier.finish_cons rfl]
      dsimp only [Unifier.solve, Unifier.taking]
      rw [Unifier.finish_cons rfl]
      rfl
    refine (hprocess "B").trans ?_
    rw [process_check_eq, infer, typeCheck_app_consts rfl (by decide) rfl rfl, hunify]
    rfl

end Session

end SystemT
