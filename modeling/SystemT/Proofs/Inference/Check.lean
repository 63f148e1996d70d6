import SystemT.Proofs.Inference.Principal

/-!
# Checking against an expected type

Checking infers a type and makes it equal to the expected one. A substitution that it finds is
always a typing at the expected type (`Checker.check_sound`).

For the converse the variables of the expected type matter. What inference leaves open is completed
by a substitution that may be chosen freely on all variables but those issued meanwhile
(`Checker.infer_of_types_agrees`), be they in the context or not. An expected type without issued
variables is therefore met whenever it can be, and in the most general way (`Checker.check_exact`).
Inference keeps away from the variables of the context alone: where the expected type has a variable
with one of the next numbers, this is taken for the one issued, and the check may fail although the
term has the expected type (`Checker.check_reissued`).
-/

namespace SystemT

/-- Two substitutions joined: the first counts where `P` holds, the second elsewhere. -/
theorem Subst.exists_join (ρ θ : Subst) (P : Ident → Prop) :
    ∃ ρ' : Subst, (∀ x, P x → ρ'.image x = ρ.image x) ∧ ∀ x, ¬ P x → ρ'.image x = θ.image x := by
  classical
  let here : IdentMap Ty := ρ.entries.filter fun x _ => decide (P x)
  let elsewhere : IdentMap Ty := θ.entries.filter fun x _ => !decide (P x)
  have hget : ∀ x, (⟨here ∪ elsewhere⟩ : Subst).get? x =
      if P x then ρ.get? x else θ.get? x := by
    intro x
    by_cases hx : P x
    · cases hρ : ρ.entries[x]? <;>
        simp [get?, here, elsewhere, Std.ExtTreeMap.getElem?_union, hx, hρ]
    · cases hθ : θ.entries[x]? <;>
        simp [get?, here, elsewhere, Std.ExtTreeMap.getElem?_union, hx, hθ]
  refine ⟨⟨here ∪ elsewhere⟩, fun x hx => ?_, fun x hx => ?_⟩
  · rw [image, hget, if_pos hx, image]
  · rw [image, hget, if_neg hx, image]

namespace Checker

/-- `x` is one of the variables that the checker issues to infer the type of `t` in `Γ`. -/
def Issues (c : Checker) (Γ : Context) (t : Term) (x : Ident) : Prop :=
  ∃ start, NameSupply.avoid Γ.vars.toList c.supply = .ok () start ∧
    start.Issued ⟨start.next + t.freshDemand⟩ x

variable {Γ : Context} {t : Term} {c c' : Checker} {r : Inferred}

/-- The variables of the context are not issued. -/
theorem not_issues_of_mem_vars {x : Ident} (hx : x ∈ Γ.vars) : ¬ c.Issues Γ t x := by
  rintro ⟨start, havoid, n, rfl, hn, -⟩
  have := freshFrom_of_avoid havoid n hx
  omega

/-- An inference mentions variables of the context and those that it issues. -/
theorem infer_scope (h : infer Γ t c = .ok r c') {x : Ident}
    (hx : r.subst.Mentions x ∨ r.ty.occurs x = true) : x ∈ Γ.vars ∨ c.Issues Γ t x := by
  obtain ⟨start, stop, havoid, hinfer, rfl⟩ := infer_eq_ok.mp h
  have hsound := sound_of_inferTerm (freshFrom_of_avoid havoid) hinfer
  have hstop : stop.next = start.next + t.freshDemand := by
    have hissues := issues_inferTerm Γ.declaredVars Γ t start
    rw [hinfer] at hissues
    exact hissues
  rcases hsound.scope x hx with hx | ⟨n, hn, hlo, hhi⟩
  · exact .inl hx
  · exact .inr ⟨start, havoid, n, hn, hlo, hstop ▸ hhi⟩

/-- What a term that has a typing is inferred to be is completed to this typing by a substitution
that agrees with the given one on every variable that was not issued meanwhile. -/
theorem infer_of_types_agrees {θ : Subst} {T : Ty} (c : Checker) (hθ : θ.Fixes Γ.declaredVars)
    (ht : (Γ.apply θ).Types t T) (hroom : ¬ c.Exhausts Γ t) :
    ∃ r c', infer Γ t c = .ok r c' ∧ ∃ ρ : Subst, ρ.Fixes Γ.declaredVars ∧ ρ.apply r.ty = T ∧
      ∀ x, ¬ c.Issues Γ t x → ρ.apply (r.subst.image x) = θ.image x := by
  rcases infer_of_types c hθ ht with ⟨r, c', hr, ρ, hρ, hT, hagrees⟩ | ⟨c', -, hlimit⟩
  · -- `ρ` says nothing of the variables outside of the inference, and `θ` may be put in there
    obtain ⟨ρ', hin, hout⟩ := ρ.exists_join θ fun x => x ∈ Γ.vars ∨ c.Issues Γ t x
    have hscope : ∀ A : Ty, (∀ x, A.occurs x = true → x ∈ Γ.vars ∨ c.Issues Γ t x) →
        ρ'.apply A = ρ.apply A := fun A hA => Subst.apply_congr fun x hx => hin x (hA x hx)
    refine ⟨r, c', hr, ρ', fun x hx => ?_, ?_, fun x hx => ?_⟩
    · rw [hin x (.inl ((Context.mem_vars Γ x).mpr (.inl hx)))]
      exact hρ x hx
    · rw [hscope r.ty fun x hx => infer_scope hr (.inr hx), hT]
    · by_cases hvar : x ∈ Γ.vars
      · have hpart := hscope (r.subst.image x) fun y hy => by
          rcases Subst.occurs_image_cases hy with ⟨rfl, -⟩ | hm
          · exact .inl hvar
          · exact infer_scope hr (.inl hm)
        rw [hpart]
        exact hagrees x hvar
      · have hnot : ¬ (x ∈ Γ.vars ∨ c.Issues Γ t x) := by
          rintro (h | h)
          · exact hvar h
          · exact hx h
        have hunbound : r.subst.get? x = none :=
          Classical.byContradiction fun hbound => hnot (infer_scope hr (.inl (.inl hbound)))
        rw [Subst.image_of_unbound hunbound]
        exact hout x hnot
  · exact absurd hlimit hroom

/-! ## Checking -/

/-- A check infers a type and then equates it with the expected one. -/
theorem check_eq (Γ : Context) (t : Term) (E : Ty) (c : Checker) :
    check Γ t E c =
      match infer Γ t c with
      | .error e c' => .error e c'
      | .ok r c' =>
        match InferM.equate c'.rigid r.ty (r.subst.apply E) c'.supply with
        | .error e stop => .error e ⟨stop, c'.rigid⟩
        | .ok u stop => .ok (r.subst.compose u) ⟨stop, c'.rigid⟩ := by
  unfold check
  show EStateM.bind (infer Γ t) _ c = _
  unfold EStateM.bind
  cases infer Γ t c with
  | error e c' => rfl
  | ok r c' =>
    show EStateM.bind (onSupply (InferM.equate c'.rigid r.ty (r.subst.apply E))) _ c' = _
    unfold EStateM.bind onSupply
    dsimp only
    cases InferM.equate c'.rigid r.ty (r.subst.apply E) c'.supply <;> rfl

theorem check_eq_ok {E : Ty} {s : Subst} :
    check Γ t E c = .ok s c' ↔ ∃ r u, infer Γ t c = .ok r c' ∧
      unify [(r.ty, r.subst.apply E)] Γ.declaredVars = .ok u ∧ s = r.subst.compose u := by
  rw [check_eq]
  cases hr : infer Γ t c with
  | error e c₁ => simp
  | ok r c₁ =>
    obtain ⟨start, stop, -, -, rfl⟩ := infer_eq_ok.mp hr
    dsimp only
    constructor
    · intro h
      cases hu : InferM.equate Γ.declaredVars r.ty (r.subst.apply E) stop with
      | error e m =>
        rw [hu] at h
        cases h
      | ok u m =>
        rw [hu] at h
        obtain ⟨hunify, rfl⟩ := InferM.equate_eq_ok.mp hu
        cases h
        exact ⟨r, u, rfl, hunify, rfl⟩
    · rintro ⟨r', u, hr', hunify, rfl⟩
      cases hr'
      rw [InferM.equate_eq_ok.mpr ⟨hunify, rfl⟩]

/-- A check that succeeds finds a typing at the expected type, whatever variables this has. -/
theorem check_sound {E : Ty} {s : Subst} (h : check Γ t E c = .ok s c') :
    s.Fixes Γ.declaredVars ∧ (Γ.apply s).Types t (s.apply E) := by
  obtain ⟨r, u, hr, hunify, rfl⟩ := check_eq_ok.mp h
  obtain ⟨start, -, -, -, hsound⟩ := infer_sound hr
  have hspec := unify_spec [(r.ty, r.subst.apply E)] Γ.declaredVars
  rw [hunify] at hspec
  have hu : ∀ x ∈ Γ.declaredVars, u.get? x = none := by
    intro x hx
    rw [← Subst.contains_eq_false_iff, ← Bool.not_eq_true]
    exact fun hbound => (hspec.1.bound x hbound).2 hx
  constructor
  · intro x hx
    exact Subst.image_of_unbound (Subst.get?_compose_eq_none.mpr ⟨hsound.declared x hx, hu x hx⟩)
  · rw [Context.apply_compose, Subst.apply_compose, ← unify_equalizes hunify]
    exact hsound.typed.apply hu

/-- **Checking against an expected type is exact**, as long as the type has no variable that is
issued meanwhile. An answer always gives the term the expected type and leaves the declarations
alone. If the variables last, there is an answer exactly if some such substitution exists; and all
others agree, on the variables of the context and of the expected type, with the answer followed by
one more. -/
theorem check_exact (c : Checker) (Γ : Context) (t : Term) (E : Ty) :
    (∀ s c', check Γ t E c = .ok s c' →
      s.Fixes Γ.declaredVars ∧ (Γ.apply s).Types t (s.apply E)) ∧
    (¬ c.Exhausts Γ t → (∀ x, E.occurs x = true → ¬ c.Issues Γ t x) →
      ((∃ s c', check Γ t E c = .ok s c') ↔
        ∃ θ : Subst, θ.Fixes Γ.declaredVars ∧ (Γ.apply θ).Types t (θ.apply E)) ∧
      ∀ s c', check Γ t E c = .ok s c' → ∀ θ : Subst, θ.Fixes Γ.declaredVars →
        (Γ.apply θ).Types t (θ.apply E) →
          ∃ ρ : Subst, ∀ x, x ∈ Γ.vars ∨ E.occurs x = true →
            ρ.apply (s.apply (.var x)) = θ.apply (.var x)) := by
  refine ⟨fun s c' h => check_sound h, fun hroom hE => ?_⟩
  -- a typing at the expected type leads to an answer through which it factors
  have hcomplete : ∀ θ : Subst, θ.Fixes Γ.declaredVars → (Γ.apply θ).Types t (θ.apply E) →
      ∃ s c', check Γ t E c = .ok s c' ∧ ∃ ρ : Subst, ∀ x, ¬ c.Issues Γ t x →
        ρ.apply (s.apply (.var x)) = θ.apply (.var x) := by
    intro θ hθ ht
    obtain ⟨r, c', hr, ρ, hρ, hT, hagrees⟩ := infer_of_types_agrees c hθ ht hroom
    have hexpected : ρ.apply (r.subst.apply E) = θ.apply E := by
      rw [← Subst.apply_compose]
      refine Subst.apply_congr fun x hx => ?_
      rw [Subst.image_compose]
      exact hagrees x (hE x hx)
    have hsolution : Solution [(r.ty, r.subst.apply E)] Γ.declaredVars ρ := by
      refine ⟨hρ, fun e he => ?_⟩
      obtain rfl := List.mem_singleton.mp he
      exact hT.trans hexpected.symm
    have hspec := unify_spec [(r.ty, r.subst.apply E)] Γ.declaredVars
    cases hu : unify [(r.ty, r.subst.apply E)] Γ.declaredVars with
    | error e =>
      rw [hu] at hspec
      cases e with
      | error e => exact absurd hsolution (hspec ρ)
      | fault f => exact absurd hspec id
    | ok u =>
      rw [hu] at hspec
      refine ⟨_, c', check_eq_ok.mpr ⟨r, u, hr, hu, rfl⟩, ρ, fun x hx => ?_⟩
      have hfactors : ρ.apply (u.apply (r.subst.image x)) = ρ.apply (r.subst.image x) := by
        rw [← Subst.apply_compose]
        refine Subst.apply_congr fun y _ => ?_
        rw [Subst.image_compose]
        exact hspec.1.factors ρ hsolution y
      calc ρ.apply ((r.subst.compose u).image x)
          = ρ.apply (u.apply (r.subst.image x)) := by rw [Subst.image_compose]
        _ = ρ.apply (r.subst.image x) := hfactors
        _ = θ.image x := hagrees x hx
  refine ⟨⟨?_, ?_⟩, fun s c' h θ hθ ht => ?_⟩
  · rintro ⟨s, c', h⟩
    exact ⟨s, check_sound h⟩
  · rintro ⟨θ, hθ, ht⟩
    obtain ⟨s, c', h, -⟩ := hcomplete θ hθ ht
    exact ⟨s, c', h⟩
  · obtain ⟨s', c'', h', ρ, hρ⟩ := hcomplete θ hθ ht
    rw [h] at h'
    cases h'
    refine ⟨ρ, ?_⟩
    rintro x (hx | hx)
    · exact hρ x (not_issues_of_mem_vars hx)
    · exact hρ x (hE x hx)

/-- A function of unknown type `?7` takes naturals to what the constant `k` is declared to be, if
the checker has come to `?5` and the result is expected to be the unknown `?3`. The variables `?8`
and `?9` are issued meanwhile. -/
theorem check_exact_application :
    ∃ Γ : Context, Γ = ⟨[.var (.fresh 7)],
        (∅ : IdentMap Ty).insert (.named "k") (.var (.named "R"))⟩ ∧
      ∃ t, t = Term.lam (.app (.bvar 1) (.bvar 0)) ∧
      ∃ E, E = Ty.arrow .nat (.var (.fresh 3)) ∧
      ∃ θ, θ = Subst.ofList [(.fresh 3, .var (.named "R")),
        (.fresh 7, .arrow .nat (.var (.named "R")))] ∧
      ¬ Exhausts ⟨⟨5⟩, ∅⟩ Γ t ∧ (∀ x, E.occurs x = true → ¬ Issues ⟨⟨5⟩, ∅⟩ Γ t x) ∧
      θ.Fixes Γ.declaredVars ∧ (Γ.apply θ).Types t (θ.apply E) ∧
      ∃ s c', check Γ t E ⟨⟨5⟩, ∅⟩ = .ok s c' ∧
        (s.Fixes Γ.declaredVars ∧ (Γ.apply s).Types t (s.apply E)) ∧
        ∃ ρ : Subst, ∀ x, x ∈ Γ.vars ∨ E.occurs x = true →
          ρ.apply (s.apply (.var x)) = θ.apply (.var x) := by
  refine ⟨_, rfl, _, rfl, _, rfl, _, rfl, ?_⟩
  generalize hΓ : (⟨[.var (.fresh 7)],
    (∅ : IdentMap Ty).insert (.named "k") (.var (.named "R"))⟩ : Context) = Γ
  generalize hθ : Subst.ofList [(.fresh 3, .var (.named "R")),
    (.fresh 7, .arrow .nat (.var (.named "R")))] = θ
  have hdeclared : Γ.declaredVars.toList = [.named "R"] := by
    subst hΓ
    cbv
  have hvars : Γ.vars.toList = [.named "R", .fresh 7] := by
    subst hΓ
    cbv
  have havoid : NameSupply.avoid Γ.vars.toList ⟨5⟩ = .ok () ⟨8⟩ := by
    subst hΓ
    cbv
  have hroom : ¬ Exhausts ⟨⟨5⟩, ∅⟩ Γ (.lam (.app (.bvar 1) (.bvar 0))) := by
    rintro (hlimit | ⟨n, hn, hlimit⟩)
    · exact absurd hlimit (by decide)
    · have hn : Ident.fresh n ∈ Γ.vars.toList := Std.ExtTreeSet.mem_toList.mpr hn
      rw [hvars] at hn
      obtain rfl : n = 7 := by simpa using hn
      exact absurd hlimit (by decide)
  have hexpected : ∀ x, (Ty.arrow .nat (.var (.fresh 3))).occurs x = true →
      ¬ Issues ⟨⟨5⟩, ∅⟩ Γ (.lam (.app (.bvar 1) (.bvar 0))) x := by
    rintro x hx ⟨start, hstart, n, rfl, hlow, -⟩
    rw [havoid] at hstart
    cases hstart
    obtain rfl : 3 = n := by simpa [Ty.occurs] using hx
    exact absurd hlow (by decide)
  have hfixes : θ.Fixes Γ.declaredVars := by
    intro x hx
    have hx : x ∈ Γ.declaredVars.toList := Std.ExtTreeSet.mem_toList.mpr hx
    rw [hdeclared] at hx
    obtain rfl := List.mem_singleton.mp hx
    subst hθ
    cbv
  have htyped : (Γ.apply θ).Types (.lam (.app (.bvar 1) (.bvar 0)))
      (θ.apply (.arrow .nat (.var (.fresh 3)))) := by
    have hresult : θ.apply (.arrow .nat (.var (.fresh 3))) =
        .arrow .nat (.var (.named "R")) := by
      subst hθ
      cbv
    have hfn : θ.apply (.var (.fresh 7)) = .arrow .nat (.var (.named "R")) := by
      subst hθ
      cbv
    rw [hresult]
    refine .lam (.app (.bvar ?_) (.bvar rfl))
    subst hΓ
    exact congrArg some hfn
  obtain ⟨hsound, hexact⟩ := check_exact ⟨⟨5⟩, ∅⟩ Γ (.lam (.app (.bvar 1) (.bvar 0)))
    (.arrow .nat (.var (.fresh 3)))
  obtain ⟨hiff, hfactors⟩ := hexact hroom hexpected
  obtain ⟨s, c', h⟩ := hiff.mpr ⟨θ, hfixes, htyped⟩
  exact ⟨hroom, hexpected, hfixes, htyped, s, c', h, hsound s c' h, hfactors s c' h θ hfixes htyped⟩

/-- A new checker issues `?0` for the parameter of the identity, also where `?0` is the expected
type. The identity is thus refused at the type `?0`, though this can become a function type. -/
theorem check_reissued :
    ∃ t, t = Term.lam (.bvar 0) ∧ ∃ E, E = Ty.var (.fresh 0) ∧
      ¬ Exhausts {} .empty t ∧ Issues {} .empty t (.fresh 0) ∧
      (∃ c', check .empty t E {} = .error (.error
        (.occursCheck (.fresh 0) (.arrow (.var (.fresh 0)) (.var (.fresh 0))))) c') ∧
      ∃ θ : Subst, θ.Fixes Context.empty.declaredVars ∧
        (Context.empty.apply θ).Types t (θ.apply E) := by
  have hvars : Context.empty.vars.toList = [] := by cbv
  refine ⟨_, rfl, _, rfl, ?_, ⟨⟨0⟩, by cbv, 0, rfl, by decide, by decide⟩, ⟨⟨⟨1⟩, ∅⟩, ?_⟩,
    .singleton (.fresh 0) (.arrow .nat .nat), fun x hx => ?_, ?_⟩
  · rintro (hlimit | ⟨n, hn, -⟩)
    · exact absurd hlimit (by decide)
    · have hn : Ident.fresh n ∈ Context.empty.vars.toList := Std.ExtTreeSet.mem_toList.mpr hn
      rw [hvars] at hn
      cases hn
  · have hinfer : infer .empty (.lam (.bvar 0)) {} =
        .ok ⟨∅, .arrow (.var (.fresh 0)) (.var (.fresh 0))⟩ ⟨⟨1⟩, ∅⟩ := by
      rw [infer_eq]
      cbv
    have hunify : unify [(.arrow (.var (.fresh 0)) (.var (.fresh 0)), .var (.fresh 0))] ∅ =
        .error (.error (.occursCheck (.fresh 0)
          (.arrow (.var (.fresh 0)) (.var (.fresh 0))))) := by cbv
    have hexpected : (∅ : Subst).apply (.var (.fresh 0)) = .var (.fresh 0) := Subst.apply_empty _
    rw [check_eq, hinfer]
    dsimp only
    rw [hexpected, InferM.equate, hunify]
    rfl
  · have hx : x ∈ Context.empty.declaredVars.toList := Std.ExtTreeSet.mem_toList.mpr hx
    have hnone : Context.empty.declaredVars.toList = [] := by cbv
    rw [hnone] at hx
    cases hx
  · have himage : (Subst.singleton (.fresh 0) (.arrow .nat .nat)).apply (.var (.fresh 0)) =
        .arrow .nat .nat := by cbv
    rw [himage]
    exact .lam (.bvar rfl)

end Checker

end SystemT
