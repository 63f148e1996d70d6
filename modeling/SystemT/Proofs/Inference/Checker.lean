import SystemT.Proofs.Inference.Sound
import SystemT.Proofs.Ty.Composition

/-!
# What a checker answers

Type reconstruction starts with any supply that earlier calls have left. It first moves the supply
past the variables of the context (`NameSupply.avoid_ok`), which makes the variables that it then
issues new to the context, so that the invariants of inference hold from there on.

The main result, `Checker.infer_sound`, is that an answer is a typing, that its substitution is
idempotent, leaves the declarations alone and does not change the answered type, and that nothing
but variables of the context and variables issued meanwhile is mentioned. The checker's state does
not matter for any of this.

The only fault of inference is that the supply runs out. How many variables a term asks for can be
read off the term (`Term.freshDemand`), so that the fault is tied to a size (`typeCheck_fault`).
-/

namespace SystemT

/-! ## Supplies -/

namespace NameSupply

/-- `x` was issued while the supply went from `before` to `after`. -/
def Issued (before after : NameSupply) (x : Ident) : Prop :=
  ∃ n, x = .fresh n ∧ before.next ≤ n ∧ n < after.next

theorem skip_ok {x : Ident} {s s' : NameSupply} (h : skip x s = .ok () s') :
    s.next ≤ s'.next ∧ (∀ n, x = .fresh n → n < s'.next) ∧
      (s'.next = s.next ∨ ∃ n, x = .fresh n ∧ s'.next = n + 1) := by
  unfold skip at h
  cases x with
  | named name =>
    cases h
    exact ⟨Nat.le_refl _, fun n hn => (nomatch hn), .inl rfl⟩
  | fresh m =>
    dsimp only at h
    split at h
    · cases h
      refine ⟨Nat.le_max_left _ _, ?_, ?_⟩
      · rintro n ⟨⟩
        exact Nat.le_max_right _ _
      · rcases Nat.le_total (m + 1) s.next with hle | hle
        · exact .inl (Nat.max_eq_left hle)
        · exact .inr ⟨m, rfl, Nat.max_eq_right hle⟩
    · cases h

/-- A supply that avoids some identifiers goes on, past their numbers, and no further than that. -/
theorem avoid_ok {xs : List Ident} {s s' : NameSupply} (h : avoid xs s = .ok () s') :
    s.next ≤ s'.next ∧ (∀ n, .fresh n ∈ xs → n < s'.next) ∧
      (s'.next = s.next ∨ ∃ n, .fresh n ∈ xs ∧ s'.next = n + 1) := by
  induction xs generalizing s with
  | nil =>
    cases h
    exact ⟨Nat.le_refl _, fun n hn => (nomatch hn), .inl rfl⟩
  | cons x xs ih =>
    have h : EStateM.bind (skip x) (fun _ => avoid xs) s = .ok () s' := h
    unfold EStateM.bind at h
    cases hx : skip x s with
    | error f s₁ => simp [hx] at h
    | ok _ s₁ =>
      rw [hx] at h
      obtain ⟨hle, hskip, hfar⟩ := skip_ok hx
      obtain ⟨hle', havoid, hfar'⟩ := ih h
      -- where the supply stands was decided by the last identifier that moved it, if one did
      refine ⟨by omega, fun n hn => ?_, ?_⟩
      · rcases List.mem_cons.mp hn with hn | hn
        · have := hskip n hn.symm
          omega
        · exact havoid n hn
      · rcases hfar' with hfar' | ⟨n, hn, hfar'⟩
        · rcases hfar with hfar | ⟨n, rfl, hfar⟩
          · exact .inl (hfar'.trans hfar)
          · exact .inr ⟨n, List.mem_cons_self, hfar'.trans hfar⟩
        · exact .inr ⟨n, List.mem_cons_of_mem x hn, hfar'⟩

/-- Avoiding fails only at an identifier whose number is the last one. -/
theorem avoid_error {xs : List Ident} {s s' : NameSupply} {f : Fault}
    (h : avoid xs s = .error f s') :
    f = .counterOverflow ∧ ∃ n, .fresh n ∈ xs ∧ counterLimit ≤ n + 1 := by
  induction xs generalizing s with
  | nil => cases h
  | cons x xs ih =>
    have h : EStateM.bind (skip x) (fun _ => avoid xs) s = .error f s' := h
    unfold EStateM.bind at h
    cases hx : skip x s with
    | ok _ s₁ =>
      rw [hx] at h
      obtain ⟨hf, n, hn, hlimit⟩ := ih h
      exact ⟨hf, n, List.mem_cons_of_mem x hn, hlimit⟩
    | error g s₁ =>
      rw [hx] at h
      obtain rfl : g = f := by
        cases h
        rfl
      unfold skip at hx
      cases x with
      | named name => cases hx
      | fresh m =>
        dsimp only at hx
        split at hx
        · cases hx
        · cases hx
          exact ⟨rfl, m, List.mem_cons_self, by omega⟩

/-- Only generated identifiers are avoided. -/
theorem avoid_filter (xs : List Ident) (s : NameSupply) :
    avoid (xs.filter Ident.isFresh) s = avoid xs s := by
  induction xs generalizing s with
  | nil => rfl
  | cons x xs ih =>
    cases x with
    | named name => exact ih s
    | fresh m =>
      show EStateM.bind (skip (.fresh m)) (fun _ => avoid (xs.filter Ident.isFresh)) s =
        EStateM.bind (skip (.fresh m)) (fun _ => avoid xs) s
      unfold EStateM.bind
      cases skip (.fresh m) s with
      | error f s' => rfl
      | ok u s' => exact ih s'

theorem avoid_congr {a b : IdentSet} (h : ∀ n, .fresh n ∈ b ↔ .fresh n ∈ a) (s : NameSupply) :
    avoid b.toList s = avoid a.toList s := by
  rw [← avoid_filter, IdentSet.filter_isFresh_congr h, avoid_filter]

end NameSupply

/-! ## Answers -/

/-- What is promised of an answer `r` for the term `t` in `Γ`, where `issued` tells which variables
were issued to find it. -/
structure Inferred.Sound (Γ : Context) (t : Term) (issued : Ident → Prop) (r : Inferred) :
    Prop where
  typed : (Γ.apply r.subst).Types t r.ty
  declared : ∀ x ∈ Γ.declaredVars, r.subst.get? x = none
  idempotent : ∀ A, r.subst.apply (r.subst.apply A) = r.subst.apply A
  settled : r.subst.apply r.ty = r.ty
  scope : ∀ x, r.subst.Mentions x ∨ r.ty.occurs x = true → x ∈ Γ.vars ∨ issued x

namespace Checker

/-- An inference avoids the variables of the context and then runs on the supply. -/
theorem infer_eq (Γ : Context) (t : Term) (c : Checker) :
    infer Γ t c =
      match NameSupply.avoid Γ.vars.toList c.supply with
      | .error f start => .error (.fault f) ⟨start, Γ.declaredVars⟩
      | .ok _ start =>
        match inferTerm Γ.declaredVars Γ t start with
        | .error e stop => .error e ⟨stop, Γ.declaredVars⟩
        | .ok r stop => .ok r ⟨stop, Γ.declaredVars⟩ := by
  have hinfer : infer Γ t c =
      EStateM.bind (onSupply (InferM.ofSupply (NameSupply.avoid Γ.vars.toList)))
        (fun _ c' => onSupply (inferTerm c'.rigid Γ t) c') { c with rigid := Γ.declaredVars } := rfl
  rw [hinfer]
  unfold EStateM.bind onSupply InferM.ofSupply EStateM.adaptExcept
  dsimp only
  cases NameSupply.avoid Γ.vars.toList c.supply with
  | error f start => rfl
  | ok u start =>
    dsimp only
    cases inferTerm Γ.declaredVars Γ t start with
    | error e stop => rfl
    | ok r stop => rfl

theorem infer_eq_ok {Γ : Context} {t : Term} {c c' : Checker} {r : Inferred} :
    infer Γ t c = .ok r c' ↔
      ∃ start stop, NameSupply.avoid Γ.vars.toList c.supply = .ok () start ∧
        inferTerm Γ.declaredVars Γ t start = .ok r stop ∧ c' = ⟨stop, Γ.declaredVars⟩ := by
  rw [infer_eq]
  cases NameSupply.avoid Γ.vars.toList c.supply with
  | error f start => simp
  | ok u start =>
    dsimp only
    constructor
    · intro h
      cases hi : inferTerm Γ.declaredVars Γ t start with
      | error e stop =>
        rw [hi] at h
        cases h
      | ok r' stop =>
        rw [hi] at h
        cases h
        exact ⟨start, stop, rfl, hi, rfl⟩
    · rintro ⟨_, stop, ⟨⟩, hi, rfl⟩
      rw [hi]

/-- An error was found with a supply past the variables of the context. -/
theorem infer_eq_error {Γ : Context} {t : Term} {c c' : Checker} {e : TypeError}
    (h : infer Γ t c = .error (.error e) c') :
    ∃ start stop, NameSupply.avoid Γ.vars.toList c.supply = .ok () start ∧
      inferTerm Γ.declaredVars Γ t start = .error (.error e) stop := by
  rw [infer_eq] at h
  cases ha : NameSupply.avoid Γ.vars.toList c.supply with
  | error f start =>
    rw [ha] at h
    cases h
  | ok u start =>
    rw [ha] at h
    dsimp only at h
    cases hi : inferTerm Γ.declaredVars Γ t start with
    | ok r stop =>
      rw [hi] at h
      cases h
    | error e' stop =>
      rw [hi] at h
      cases h
      exact ⟨start, stop, rfl, hi⟩

/-- A supply past the variables of the context gives rise to sound answers. -/
theorem sound_of_inferTerm {Γ : Context} {t : Term} {r : Inferred} {start stop : NameSupply}
    (hΓ : Γ.FreshFrom start.next) (h : inferTerm Γ.declaredVars Γ t start = .ok r stop) :
    r.Sound Γ t (start.Issued stop) := by
  obtain ⟨hsolved, hsettled, htyped⟩ := (infers_of_inferTerm h).sound rfl hΓ
  refine ⟨htyped, hsolved.declared, hsolved.resolved.apply_apply, hsettled.apply_eq, ?_⟩
  rintro x (hx | hx)
  · exact hsolved.scope x hx
  · exact (hsettled x hx).2

theorem freshFrom_of_avoid {Γ : Context} {s start : NameSupply}
    (h : NameSupply.avoid Γ.vars.toList s = .ok () start) : Γ.FreshFrom start.next :=
  fun n hn => (NameSupply.avoid_ok h).2.1 n (Std.ExtTreeSet.mem_toList.mpr hn)

/-- **Inference is sound**, whatever state earlier calls have left. The variables that it issues
come from a part of the supply that neither these calls nor the context have used. -/
theorem infer_sound {Γ : Context} {t : Term} {c c' : Checker} {r : Inferred}
    (h : infer Γ t c = .ok r c') :
    ∃ start, NameSupply.avoid Γ.vars.toList c.supply = .ok () start ∧
      c.supply.next ≤ start.next ∧ Γ.FreshFrom start.next ∧
      r.Sound Γ t (start.Issued c'.supply) := by
  obtain ⟨start, stop, havoid, hinfer, rfl⟩ := infer_eq_ok.mp h
  have hΓ := freshFrom_of_avoid havoid
  exact ⟨start, havoid, (NameSupply.avoid_ok havoid).1, hΓ, sound_of_inferTerm hΓ hinfer⟩

/-- A constant of the declared type `R → nat` is applied to a variable of unknown type: inference
binds the unknown, moving past its number, and lets `R` be. -/
theorem infer_sound_app :
    ∃ Γ : Context, Γ = ⟨[.var (.fresh 7)],
        (∅ : IdentMap Ty).insert (.named "f") (.arrow (.var (.named "R")) .nat)⟩ ∧
      ∃ t, t = Term.app (.fvar (.named "f")) (.bvar 0) ∧
      ∃ r, r = ⟨.ofList [(.fresh 7, .var (.named "R")), (.fresh 8, .nat)], .nat⟩ ∧
      ∃ c', infer Γ t ⟨⟨5⟩, ∅⟩ = .ok r c' ∧
        ∃ start, NameSupply.avoid Γ.vars.toList ⟨5⟩ = .ok () start ∧
          5 ≤ start.next ∧ Γ.FreshFrom start.next ∧ r.Sound Γ t (start.Issued c'.supply) := by
  refine ⟨_, rfl, _, rfl, _, rfl, ⟨⟨9⟩, Std.ExtTreeSet.insert ∅ (.named "R")⟩, ?_⟩
  have h : infer ⟨[.var (.fresh 7)], (∅ : IdentMap Ty).insert (.named "f")
      (.arrow (.var (.named "R")) .nat)⟩ (.app (.fvar (.named "f")) (.bvar 0)) ⟨⟨5⟩, ∅⟩ =
      .ok ⟨.ofList [(.fresh 7, .var (.named "R")), (.fresh 8, .nat)], .nat⟩
        ⟨⟨9⟩, Std.ExtTreeSet.insert ∅ (.named "R")⟩ := by
    rw [infer_eq]
    cbv
  exact ⟨h, infer_sound h⟩

end Checker

/-! ## New checkers -/

theorem typeCheck_eq (t : Term) (Γ : Context) :
    typeCheck t Γ =
      match NameSupply.avoid Γ.vars.toList {} with
      | .error f _ => .error (.fault f)
      | .ok _ start =>
        match inferTerm Γ.declaredVars Γ t start with
        | .error e _ => .error e
        | .ok r _ => .ok r := by
  unfold typeCheck
  rw [Checker.infer_eq]
  cases NameSupply.avoid Γ.vars.toList ({} : Checker).supply with
  | error f start => rfl
  | ok u start =>
    dsimp only
    cases inferTerm Γ.declaredVars Γ t start with
    | error e stop => rfl
    | ok r stop => rfl

theorem typeCheck_eq_ok {t : Term} {Γ : Context} {r : Inferred} :
    typeCheck t Γ = .ok r ↔
      ∃ start stop, NameSupply.avoid Γ.vars.toList {} = .ok () start ∧
        inferTerm Γ.declaredVars Γ t start = .ok r stop := by
  unfold typeCheck
  constructor
  · intro h
    cases hr : Checker.infer Γ t {} with
    | error e c =>
      rw [hr] at h
      cases h
    | ok r' c =>
      rw [hr] at h
      cases h
      obtain ⟨start, stop, havoid, hinfer, -⟩ := Checker.infer_eq_ok.mp hr
      exact ⟨start, stop, havoid, hinfer⟩
  · rintro ⟨start, stop, havoid, hinfer⟩
    rw [Checker.infer_eq_ok.mpr ⟨start, stop, havoid, hinfer, rfl⟩]

/-- If a constant is applied to a constant, there is one equation to be solved. -/
theorem typeCheck_app_consts {Γ : Context} {x y : Ident} {A B : Ty} {n : Nat}
    (hstart : NameSupply.avoid Γ.vars.toList {} = .ok () ⟨n⟩) (hn : n + 1 < counterLimit)
    (hx : Γ.lookup? x = some A) (hy : Γ.lookup? y = some B) :
    typeCheck (.app (.fvar x) (.fvar y)) Γ =
      match unify [(A, .arrow B (.var (.fresh n)))] Γ.declaredVars with
      | .ok s => .ok ⟨s, s.apply (.var (.fresh n))⟩
      | .error e => .error (e.map .ofUnify) := by
  have hfn : inferTerm Γ.declaredVars Γ (.fvar x) ⟨n⟩ = .ok (.plain A) ⟨n⟩ := by
    rw [inferTerm, hx]
    rfl
  have harg : inferTerm Γ.declaredVars (Γ.apply ∅) (.fvar y) ⟨n⟩ = .ok (.plain B) ⟨n⟩ := by
    rw [inferTerm, Context.apply_empty, hy]
    rfl
  have hresult : InferM.freshVar ⟨n⟩ = .ok (.var (.fresh n)) ⟨n + 1⟩ :=
    InferM.freshVar_eq_ok.mpr ⟨hn, rfl, rfl⟩
  have hinfer : inferTerm Γ.declaredVars Γ (.app (.fvar x) (.fvar y)) ⟨n⟩ =
      match unify [(A, .arrow B (.var (.fresh n)))] Γ.declaredVars with
      | .ok s => .ok ⟨s, s.apply (.var (.fresh n))⟩ ⟨n + 1⟩
      | .error e => .error (e.map .ofUnify) ⟨n + 1⟩ := by
    have hplain : (∅ : Subst).apply A = A := Subst.apply_empty A
    cases hunify : unify [(A, .arrow B (.var (.fresh n)))] Γ.declaredVars with
    | ok s =>
      have hequate : InferM.equate Γ.declaredVars ((∅ : Subst).apply A)
          (.arrow B (.var (.fresh n))) ⟨n + 1⟩ = .ok s ⟨n + 1⟩ := by
        rw [hplain]
        exact InferM.equate_eq_ok.mpr ⟨hunify, rfl⟩
      have hsubst : ((∅ : Subst).compose ∅).compose s = s := by
        rw [Subst.compose_empty, Subst.empty_compose]
      refine InferM.bind_eq_ok.mpr ⟨_, _, hfn, InferM.bind_eq_ok.mpr ⟨_, _, harg, ?_⟩⟩
      refine InferM.bind_eq_ok.mpr ⟨_, _, hresult, InferM.bind_eq_ok.mpr ⟨s, _, hequate, ?_⟩⟩
      rw [hsubst]
      rfl
    | error e =>
      have hequate : InferM.equate Γ.declaredVars ((∅ : Subst).apply A)
          (.arrow B (.var (.fresh n))) ⟨n + 1⟩ = .error (e.map .ofUnify) ⟨n + 1⟩ := by
        rw [hplain, InferM.equate, hunify]
        rfl
      refine InferM.bind_eq_error.mpr (.inr ⟨_, _, hfn, InferM.bind_eq_error.mpr (.inr ?_)⟩)
      refine ⟨_, _, harg, InferM.bind_eq_error.mpr (.inr ⟨_, _, hresult, ?_⟩)⟩
      exact InferM.bind_eq_error.mpr (.inl hequate)
  rw [typeCheck_eq, hstart]
  dsimp only
  rw [hinfer]
  cases unify [(A, .arrow B (.var (.fresh n)))] Γ.declaredVars <;> rfl

/-- What a new checker answers is sound. -/
theorem sound_of_typeCheck {t : Term} {Γ : Context} {r : Inferred} (h : typeCheck t Γ = .ok r) :
    ∃ issued, r.Sound Γ t issued := by
  obtain ⟨start, stop, havoid, hinfer⟩ := typeCheck_eq_ok.mp h
  exact ⟨_, Checker.sound_of_inferTerm (Checker.freshFrom_of_avoid havoid) hinfer⟩

/-- What a new checker finds is a typing. -/
theorem typeCheck_sound {t : Term} {Γ : Context} {r : Inferred} (h : typeCheck t Γ = .ok r) :
    (Γ.apply r.subst).Types t r.ty := by
  obtain ⟨_, hsound⟩ := sound_of_typeCheck h
  exact hsound.typed

/-- Without bound slots nothing of the context is refined. -/
theorem typing_of_typeCheck {t : Term} {Γ : Context} {r : Inferred} (hΓ : Γ.bound = [])
    (h : typeCheck t Γ = .ok r) : Typing (fun x B => Γ.lookup? x = some B) [] t r.ty := by
  have hsound := typeCheck_sound h
  rwa [Context.Types, Context.bound_apply, hΓ] at hsound

/-! ## Running out of variables -/

/-- The number of variables that are issued to infer the type of a term. -/
def Term.freshDemand : Term → Nat
  | .fvar _ => 0
  | .bvar _ => 0
  | .lam b => 1 + b.freshDemand
  | .app f a => f.freshDemand + (a.freshDemand + 1)
  | .pair a b => a.freshDemand + b.freshDemand
  | .fst p => p.freshDemand + 2
  | .snd p => p.freshDemand + 2
  | .tt => 0
  | .ff => 0
  | .cond c t e => c.freshDemand + (t.freshDemand + e.freshDemand)
  | .zero => 0
  | .succ t => t.freshDemand
  | .natRec b s n => b.freshDemand + (s.freshDemand + n.freshDemand)

namespace InferM

variable {α β : Type}

/-- If the computation succeeds it has issued `d` variables; and no fault can stop it but that these
are more than the supply has left. -/
def Issues (d : Nat) (act : InferM α) : Prop :=
  ∀ n, match act n with
    | .ok _ m => m.next = n.next + d
    | .error (.error _) _ => True
    | .error (.fault f) _ => f = .counterOverflow ∧ counterLimit ≤ n.next + d

theorem issues_pure (a : α) : Issues 0 (pure a : InferM α) := fun _ => rfl

theorem issues_throw (e : TypeError) : Issues 0 (throw (.error e) : InferM α) := fun _ => trivial

theorem issues_freshVar : Issues 1 freshVar := by
  intro n
  by_cases h : n.next + 1 < counterLimit
  · rw [freshVar_eq_ok.mpr ⟨h, rfl, rfl⟩]
  · rw [freshVar_eq_error h]
    exact ⟨rfl, by omega⟩

theorem issues_equate (rigid : IdentSet) (A B : Ty) : Issues 0 (equate rigid A B) := by
  intro n
  have hspec := unify_spec [(A, B)] rigid
  unfold equate
  cases hu : unify [(A, B)] rigid with
  | ok s => rfl
  | error e =>
    rw [hu] at hspec
    cases e with
    | error e => trivial
    | fault f => exact absurd hspec id

theorem Issues.bind {d e : Nat} {x : InferM α} {f : α → InferM β} (hx : Issues d x)
    (hf : ∀ a, Issues e (f a)) : Issues (d + e) (x >>= f) := by
  intro n
  have hn := hx n
  rw [show (x >>= f) n = EStateM.bind x f n from rfl]
  unfold EStateM.bind
  cases hr : x n with
  | error g m =>
    rw [hr] at hn
    cases g with
    | error g => trivial
    | fault g => exact ⟨hn.1, by have := hn.2; omega⟩
  | ok a k =>
    rw [hr] at hn
    have hk := hf a k
    dsimp only at hn hk ⊢
    cases hr' : f a k with
    | error g m =>
      rw [hr'] at hk
      cases g with
      | error g => trivial
      | fault g => exact ⟨hk.1, by have := hk.2; omega⟩
    | ok b m =>
      rw [hr'] at hk
      dsimp only at hk ⊢
      omega

theorem issues_equate_bind {d : Nat} {rigid : IdentSet} {A B : Ty} {f : Subst → InferM α}
    (hf : ∀ s, Issues d (f s)) : Issues d (equate rigid A B >>= f) := by
  have h := (issues_equate rigid A B).bind hf
  rwa [Nat.zero_add] at h

end InferM

open InferM in
/-- Inference issues as many variables as the term demands. -/
theorem issues_inferTerm (rigid : IdentSet) (Γ : Context) (t : Term) :
    Issues t.freshDemand (inferTerm rigid Γ t) := by
  induction t generalizing Γ with
  | fvar x =>
    rw [inferTerm]
    cases Γ.lookup? x with
    | some A => exact issues_pure _
    | none => exact issues_throw _
  | bvar i =>
    rw [inferTerm]
    cases Γ.get? i with
    | some A => exact issues_pure _
    | none => exact issues_throw _
  | lam b ih => exact issues_freshVar.bind fun A => (ih _).bind fun r => issues_pure _
  | app f a ihf iha =>
    exact (ihf _).bind fun r₁ => (iha _).bind fun r₂ => issues_freshVar.bind fun A =>
      issues_equate_bind fun s => issues_pure _
  | pair a b iha ihb => exact (iha _).bind fun r₁ => (ihb _).bind fun r₂ => issues_pure _
  | fst p ih | snd p ih =>
    exact (ih _).bind fun r => issues_freshVar.bind fun A => issues_freshVar.bind fun B =>
      issues_equate_bind fun s => issues_pure _
  | tt | ff | zero => exact issues_pure _
  | cond c t e ihc iht ihe =>
    exact (ihc _).bind fun r₁ => issues_equate_bind fun s => (iht _).bind fun r₂ =>
      (ihe _).bind fun r₃ => issues_equate_bind fun s => issues_pure _
  | succ t ih =>
    by_cases hchain : ∃ u, t = .succ u
    · -- a chain of successors is inferred from its inner end
      obtain ⟨u, rfl⟩ := hchain
      exact ih Γ
    · rw [inferTerm_succ hchain]
      exact (ih _).bind fun r => issues_equate_bind fun s => issues_pure _
  | natRec b s n ihb ihs ihn =>
    exact (ihb _).bind fun r₁ => (ihs _).bind fun r₂ => issues_equate_bind fun s =>
      (ihn _).bind fun r₃ => issues_equate_bind fun s => issues_pure _

/-- The type of `t` in `Γ` needs more variables than there are: the first one has a number past
those of the variables of `Γ`. -/
def Context.Exhausts (Γ : Context) (t : Term) : Prop :=
  counterLimit ≤ t.freshDemand ∨ ∃ n, .fresh n ∈ Γ.vars ∧ counterLimit ≤ n + 1 + t.freshDemand

/-- The type of `t` in `Γ` needs more variables than the checker has left: the first one has a
number past those issued so far and past those of the variables of `Γ`. -/
def Checker.Exhausts (c : Checker) (Γ : Context) (t : Term) : Prop :=
  counterLimit ≤ c.supply.next + t.freshDemand ∨
    ∃ n, .fresh n ∈ Γ.vars ∧ counterLimit ≤ n + 1 + t.freshDemand

/-- A checker has no fault but that it runs out of variables. -/
theorem Checker.infer_fault {c c' : Checker} {Γ : Context} {t : Term} {f : Fault}
    (h : infer Γ t c = .error (.fault f) c') : f = .counterOverflow ∧ c.Exhausts Γ t := by
  rw [infer_eq] at h
  cases ha : NameSupply.avoid Γ.vars.toList c.supply with
  | error g start =>
    rw [ha] at h
    cases h
    obtain ⟨hf, n, hn, hlimit⟩ := NameSupply.avoid_error ha
    exact ⟨hf, .inr ⟨n, Std.ExtTreeSet.mem_toList.mp hn, by omega⟩⟩
  | ok u start =>
    rw [ha] at h
    dsimp only at h
    have hissues := issues_inferTerm Γ.declaredVars Γ t start
    cases hi : inferTerm Γ.declaredVars Γ t start with
    | ok r stop =>
      rw [hi] at h
      cases h
    | error e stop =>
      rw [hi] at h hissues
      cases h
      obtain ⟨hf, hlimit⟩ := hissues
      -- the supply stands where it began or past one of the variables
      rcases (NameSupply.avoid_ok ha).2.2 with hstart | ⟨n, hn, hstart⟩
      · exact ⟨hf, .inl (by omega)⟩
      · exact ⟨hf, .inr ⟨n, Std.ExtTreeSet.mem_toList.mp hn, by omega⟩⟩

/-- A new checker has no fault but that it runs out of variables. -/
theorem typeCheck_fault {t : Term} {Γ : Context} {f : Fault}
    (h : typeCheck t Γ = .error (.fault f)) : f = .counterOverflow ∧ Γ.Exhausts t := by
  unfold typeCheck at h
  cases hi : Checker.infer Γ t {} with
  | ok r c' =>
    rw [hi] at h
    cases h
  | error e c' =>
    rw [hi] at h
    cases h
    obtain ⟨hf, hlimit⟩ := Checker.infer_fault hi
    refine ⟨hf, ?_⟩
    rcases hlimit with hlimit | hlimit
    · have hzero : ({} : Checker).supply.next + t.freshDemand = t.freshDemand := Nat.zero_add _
      exact .inl (hzero ▸ hlimit)
    · exact .inr hlimit

end SystemT
