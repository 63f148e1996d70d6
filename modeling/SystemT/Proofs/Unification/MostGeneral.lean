import Mathlib.Order.Defs.LinearOrder
import SystemT.Proofs.Unification.Step

/-!
# Unification finds most general solutions

A solution of a problem makes both sides of each equation equal and leaves the rigid variables
alone (`Solution`). The state of a unifier stands for the solutions that it can still be completed
to (`Unifier.Solves`): these leave the rigid variables alone, make the pending equations equal and
agree with the bindings found so far.

A step keeps exactly the solutions that there were (`Unifier.Treats.solves_iff`), and it keeps the
state in solved form (`Unifier.Treats.solvedForm`). At the end no equation is pending, so that the
bindings are a solution themselves, and every other solution agrees with them.
-/

namespace SystemT

/-- `θ` makes both sides of every equation equal and leaves the variables in `rigid` alone. -/
structure Solution (problem : List Equation) (rigid : IdentSet) (θ : Subst) : Prop where
  fixes : θ.Fixes rigid
  equalizes : ∀ e ∈ problem, θ.apply e.1 = θ.apply e.2

/-- A solution in solved form through which every solution factors. -/
structure MostGeneral (problem : List Equation) (rigid : IdentSet) (s : Subst) : Prop where
  solution : Solution problem rigid s
  /-- Only variables of the problem that are not rigid are bound. -/
  bound : ∀ x, s.contains x = true → x ∈ equationVars problem ∧ x ∉ rigid
  /-- No bound variable is left in an image. -/
  resolved : ∀ y t x, s.get? y = some t → t.occurs x = true → s.contains x = false
  idempotent : ∀ t, s.apply (s.apply t) = s.apply t
  factors : ∀ θ, Solution problem rigid θ → ∀ x, θ.apply (s.apply (.var x)) = θ.apply (.var x)

namespace Unifier

/-! ## What a state stands for -/

/-- `θ` completes the state to a solution. -/
structure Solves (u : Unifier) (θ : Subst) : Prop where
  fixes : θ.Fixes u.rigid
  equalizes : ∀ e ∈ u.pending, θ.apply e.1 = θ.apply e.2
  agrees : ∀ x, θ.apply (u.solution.image x) = θ.image x

/-- The bindings are resolved, bind no rigid variable, and have no variable that is still
pending; and all variables are from `scope`. -/
structure SolvedForm (scope : IdentSet) (u : Unifier) : Prop where
  bound : ∀ x, u.solution.get? x ≠ none → x ∈ scope ∧ x ∉ u.rigid
  images : ∀ y t x, u.solution.get? y = some t → t.occurs x = true → x ∈ scope
  resolved : u.solution.Resolved
  pending : ∀ x, x ∈ equationVars u.pending → x ∈ scope ∧ u.solution.get? x = none

theorem image_bindAfter (s : Subst) (x : Ident) (a : Ty) (y : Ident) :
    (s.bindAfter x a).image y = (s.image y).subst x a := by
  rw [Subst.image, Subst.get?_bindAfter]
  cases h : s.get? y with
  | some t => simp [Subst.image_of_get? h]
  | none =>
    rw [Subst.image_of_unbound h, Ty.subst]
    by_cases hxy : x = y
    · simp [hxy]
    · simp [hxy, Ne.symm hxy]

/-- Binding a variable that is not bound yet adds the equation of the variable and its image. -/
theorem solves_bind_iff {u : Unifier} {x : Ident} {a : Ty} {θ : Subst}
    (hx : u.solution.get? x = none) :
    (u.bind x a).Solves θ ↔ u.Solves θ ∧ θ.apply (.var x) = θ.apply a := by
  constructor
  · intro h
    -- `x` itself was unbound, so that agreeing on it is the new equation
    have hxa : θ.image x = θ.apply a := by
      have hagree := h.agrees x
      rw [bind, image_bindAfter, Subst.image_of_unbound hx, Ty.subst, if_pos rfl] at hagree
      exact hagree.symm
    have hside : ∀ t : Ty, θ.apply (t.subst x a) = θ.apply t := Subst.apply_subst_absorb hxa
    refine ⟨⟨h.fixes, fun e he => ?_, fun y => ?_⟩, hxa⟩
    · have := h.equalizes _ (List.mem_map.mpr ⟨e, he, rfl⟩)
      rwa [hside, hside] at this
    · have hagree := h.agrees y
      rwa [bind, image_bindAfter, hside] at hagree
  · rintro ⟨h, hxa⟩
    have hside : ∀ t : Ty, θ.apply (t.subst x a) = θ.apply t := Subst.apply_subst_absorb hxa
    refine ⟨h.fixes, fun e he => ?_, fun y => ?_⟩
    · obtain ⟨e₀, he₀, rfl⟩ := List.mem_map.mp he
      rw [hside, hside]
      exact h.equalizes e₀ he₀
    · rw [bind, image_bindAfter, hside]
      exact h.agrees y

theorem solves_split_iff {u : Unifier} {e₁ e₂ : Equation} {θ : Subst} :
    (u.split e₁ e₂).Solves θ ↔
      u.Solves θ ∧ θ.apply e₁.1 = θ.apply e₁.2 ∧ θ.apply e₂.1 = θ.apply e₂.2 := by
  constructor
  · intro h
    refine ⟨⟨h.fixes, fun e he => ?_, h.agrees⟩, ?_, ?_⟩
    · exact h.equalizes e (List.mem_cons_of_mem _ (List.mem_cons_of_mem _ he))
    · exact h.equalizes e₁ List.mem_cons_self
    · exact h.equalizes e₂ (List.mem_cons_of_mem _ List.mem_cons_self)
  · rintro ⟨h, h₁, h₂⟩
    refine ⟨h.fixes, fun e he => ?_, h.agrees⟩
    simp only [split, List.mem_cons] at he
    rcases he with rfl | rfl | he
    · exact h₁
    · exact h₂
    · exact h.equalizes e he

/-- A rule that applies keeps exactly the solutions that make its equation true. -/
theorem Treats.solves_iff {u : Unifier} {t v : Ty} {move : Move} {next : Unifier}
    (h : u.Treats t v (.ok (move, next)))
    (hfree : ∀ x, t.occurs x = true ∨ v.occurs x = true → u.solution.get? x = none) (θ : Subst) :
    next.Solves θ ↔ u.Solves θ ∧ θ.apply t = θ.apply v := by
  cases h with
  | discard => exact ⟨fun h => ⟨h, rfl⟩, And.left⟩
  | bindLeft hx ha => exact solves_bind_iff (hfree _ (.inl ((Ty.occurs_var _ _).mpr rfl)))
  | bindRight hx ha =>
    rw [solves_bind_iff (hfree _ (.inr ((Ty.occurs_var _ _).mpr rfl)))]
    exact and_congr_right fun _ => eq_comm
  | arrow a b c d | prod a b c d =>
    rw [solves_split_iff]
    simp [Subst.apply]

/-! ## Solved form -/

/-- The solved form is kept when a variable is bound that is not rigid and not bound yet, to a type
of which the same holds but for rigidity. -/
theorem SolvedForm.bind {scope : IdentSet} {u : Unifier} {x : Ident} {a : Ty}
    (h : u.SolvedForm scope) (hx : x ∉ u.rigid) (hscope : x ∈ scope)
    (hocc : a.occurs x = false)
    (ha : ∀ y, a.occurs y = true → y ∈ scope ∧ u.solution.get? y = none) :
    (u.bind x a).SolvedForm scope := by
  have hne : ∀ y, a.occurs y = true → y ≠ x := by
    rintro y hy rfl
    rw [hocc] at hy
    cases hy
  -- a binding is an old one with `x` substituted away, or the new one
  have hcases : ∀ y t, (u.bind x a).solution.get? y = some t →
      (∃ w, u.solution.get? y = some w ∧ t = w.subst x a) ∨ (y = x ∧ t = a) := by
    intro y t hy
    rw [Unifier.bind, Subst.get?_bindAfter] at hy
    cases hw : u.solution.get? y with
    | some w =>
      rw [hw] at hy
      exact .inl ⟨w, rfl, by simpa using hy.symm⟩
    | none =>
      rw [hw] at hy
      by_cases hxy : x = y
      · exact .inr ⟨hxy.symm, by simpa [hxy] using hy.symm⟩
      · simp [hxy] at hy
  have hunbound : ∀ y, u.solution.get? y = none → y ≠ x →
      (u.bind x a).solution.get? y = none := by
    intro y hy hyx
    rw [Unifier.bind, Subst.get?_bindAfter, hy]
    simp [Ne.symm hyx]
  refine ⟨fun y hy => ?_, fun y t z hy hz => ?_, fun y t z hy hz => ?_, fun y hy => ?_⟩
  · obtain ⟨t, hy⟩ := Option.ne_none_iff_exists'.mp hy
    rcases hcases y t hy with ⟨w, hw, -⟩ | ⟨rfl, -⟩
    · exact h.bound y (by simp [hw])
    · exact ⟨hscope, hx⟩
  · rcases hcases y t hy with ⟨w, hw, rfl⟩ | ⟨-, rfl⟩
    · rcases (Ty.occurs_subst w x z a).mp hz with ⟨-, hz⟩ | ⟨-, hz⟩
      · exact h.images y w z hw hz
      · exact (ha z hz).1
    · exact (ha z hz).1
  · rcases hcases y t hy with ⟨w, hw, rfl⟩ | ⟨-, rfl⟩
    · rcases (Ty.occurs_subst w x z a).mp hz with ⟨hzx, hz⟩ | ⟨-, hz⟩
      · exact hunbound z (h.resolved y w z hw hz) hzx
      · exact hunbound z (ha z hz).2 (hne z hz)
    · exact hunbound z (ha z hz).2 (hne z hz)
  · obtain ⟨hyx, hy⟩ := mem_equationVars_bind hocc hy
    have hy : y ∈ scope ∧ u.solution.get? y = none := by
      rcases hy with hy | hy
      · exact h.pending y hy
      · exact ha y hy
    exact ⟨hy.1, hunbound y hy.2 hyx⟩

/-- A rule that applies keeps the solved form. -/
theorem Treats.solvedForm {scope : IdentSet} {u : Unifier} {t v : Ty} {move : Move}
    {next : Unifier} (h : u.Treats t v (.ok (move, next))) (hu : u.SolvedForm scope)
    (hfree : ∀ x, t.occurs x = true ∨ v.occurs x = true →
      x ∈ scope ∧ u.solution.get? x = none) : next.SolvedForm scope := by
  cases h with
  | discard => exact hu
  | bindLeft hx ha =>
    have hscope := (hfree _ (.inl ((Ty.occurs_var _ _).mpr rfl))).1
    exact hu.bind hx hscope ha fun y hy => hfree y (.inr hy)
  | bindRight hx ha =>
    have hscope := (hfree _ (.inr ((Ty.occurs_var _ _).mpr rfl))).1
    exact hu.bind hx hscope ha fun y hy => hfree y (.inl hy)
  | arrow a b c d | prod a b c d =>
    -- nothing is bound, and the components have no variables of their own
    refine ⟨hu.bound, hu.images, hu.resolved, fun y hy => ?_⟩
    simp only [Ty.occurs, Bool.or_eq_true] at hfree
    rcases mem_equationVars_split hy with hy | hy
    · exact hfree y hy
    · exact hu.pending y hy

/-! ## Runs -/

/-- The state of a unifier that took its first equation, of which the rest is left. -/
theorem solves_taking_iff {u : Unifier} {t v : Ty} {rest : List Equation} {θ : Subst}
    (h : u.pending = (t, v) :: rest) :
    u.Solves θ ↔ (u.taking rest).Solves θ ∧ θ.apply t = θ.apply v := by
  constructor
  · intro hu
    refine ⟨⟨hu.fixes, fun e he => hu.equalizes e ?_, hu.agrees⟩, hu.equalizes (t, v) ?_⟩
    · exact h ▸ List.mem_cons_of_mem _ he
    · exact h ▸ List.mem_cons_self
  · rintro ⟨hu, htv⟩
    refine ⟨hu.fixes, fun e he => ?_, hu.agrees⟩
    rw [h, List.mem_cons] at he
    rcases he with rfl | he
    · exact htv
    · exact hu.equalizes e he

theorem SolvedForm.taking {scope : IdentSet} {u : Unifier} {e : Equation} {rest : List Equation}
    (h : u.SolvedForm scope) (hu : u.pending = e :: rest) :
    (u.taking rest).SolvedForm scope := by
  refine ⟨h.bound, h.images, h.resolved, fun x hx => h.pending x ?_⟩
  obtain ⟨e', he', hx⟩ := (mem_equationVars _ x).mp hx
  exact (mem_equationVars _ x).mpr ⟨e', hu ▸ List.mem_cons_of_mem _ he', hx⟩

/-- A step that succeeds keeps the solutions and the solved form; one that fails does so because
there is no solution. -/
theorem step_spec {scope : IdentSet} {u : Unifier} (hu : u.SolvedForm scope) :
    match u.step with
    | .ok none done => done = u ∧ u.pending = []
    | .ok (some _) next =>
      next.rigid = u.rigid ∧ next.SolvedForm scope ∧ ∀ θ, next.Solves θ ↔ u.Solves θ
    | .error (.error _) _ => ∀ θ, ¬ u.Solves θ
    | .error (.fault _) _ => False := by
  cases hp : u.pending with
  | nil => simp [step_nil hp]
  | cons e rest =>
    obtain ⟨t, v⟩ := e
    have hfree : ∀ x, t.occurs x = true ∨ v.occurs x = true →
        x ∈ scope ∧ u.solution.get? x = none := fun x hx =>
      hu.pending x ((mem_equationVars _ x).mpr ⟨(t, v), hp ▸ List.mem_cons_self, hx⟩)
    have htreats := treats_solve (u.taking rest) t v
    rw [step_cons hp]
    generalize (u.taking rest).solve t v = result at htreats
    cases result with
    | ok r =>
      obtain ⟨move, next⟩ := r
      refine ⟨?_, htreats.solvedForm (hu.taking hp) hfree, fun θ => ?_⟩
      · cases htreats <;> rfl
      · rw [htreats.solves_iff (fun x hx => (hfree x hx).2), solves_taking_iff hp]
    | error e =>
      cases htreats with
      | refuse hno =>
        intro θ hθ
        obtain ⟨hrest, htv⟩ := (solves_taking_iff hp).mp hθ
        exact hno θ hrest.fixes htv

theorem finish_of_step {u next : Unifier} {move : Move} (h : u.step = .ok (some move) next) :
    u.finish = next.finish := by
  rw [finish, h]

theorem finish_nil {u : Unifier} (h : u.pending = []) : u.finish = .ok u := by
  rw [finish, step_nil h]

/-- A run goes on behind its next equation. -/
theorem finish_cons {u : Unifier} {t v : Ty} {rest : List Equation}
    (h : u.pending = (t, v) :: rest) :
    u.finish =
      match (u.taking rest).solve t v with
      | .error e => .error e
      | .ok (_, next) => next.finish := by
  have hstep := step_cons h
  cases hsolve : (u.taking rest).solve t v with
  | error e =>
    rw [hsolve] at hstep
    rw [finish, hstep]
  | ok r =>
    rw [hsolve] at hstep
    exact finish_of_step hstep

/-- A run ends with all equations solved and the solutions unchanged, or because there is none. -/
theorem finish_spec {scope : IdentSet} {u : Unifier} (hu : u.SolvedForm scope) :
    match u.finish with
    | .ok done => done.pending = [] ∧ done.rigid = u.rigid ∧ done.SolvedForm scope ∧
        ∀ θ, done.Solves θ ↔ u.Solves θ
    | .error (.error _) => ∀ θ, ¬ u.Solves θ
    | .error (.fault _) => False := by
  induction u using finish.induct with
  | case1 u e after h =>
    have hstep := step_spec hu
    rw [h] at hstep
    rw [finish, h]
    cases e with
    | error e => exact hstep
    | fault f => exact hstep
  | case2 u done h =>
    have hstep := step_spec hu
    rw [h] at hstep
    rw [finish, h]
    obtain ⟨rfl, hp⟩ := hstep
    exact ⟨hp, rfl, hu, fun θ => Iff.rfl⟩
  | case3 u move next h ih =>
    have hstep := step_spec hu
    rw [h] at hstep
    obtain ⟨hrigid, hnext, hsolves⟩ := hstep
    have hrest := ih hnext
    rw [finish_of_step h]
    cases hf : next.finish with
    | ok done =>
      rw [hf] at hrest
      obtain ⟨hp, hr, hdone, hiff⟩ := hrest
      exact ⟨hp, hr.trans hrigid, hdone, fun θ => (hiff θ).trans (hsolves θ)⟩
    | error e =>
      rw [hf] at hrest
      cases e with
      | error e => exact fun θ hθ => hrest θ ((hsolves θ).mpr hθ)
      | fault f => exact hrest

end Unifier

/-! ## Unification -/

/-- The state in which unification starts stands for the solutions of the problem. -/
theorem solves_start_iff (problem : List Equation) (rigid : IdentSet) (θ : Subst) :
    ({ pending := problem, rigid } : Unifier).Solves θ ↔ Solution problem rigid θ := by
  constructor
  · intro h
    exact ⟨h.fixes, h.equalizes⟩
  · intro h
    refine ⟨h.fixes, h.equalizes, fun x => ?_⟩
    rw [show ({ pending := problem, rigid } : Unifier).solution.image x = .var x from
      Subst.image_empty x]
    rfl

theorem solvedForm_start (problem : List Equation) (rigid : IdentSet) :
    ({ pending := problem, rigid } : Unifier).SolvedForm (equationVars problem) := by
  refine ⟨fun x hx => absurd (Subst.get?_empty x) hx, fun y t x hy => ?_, Subst.resolved_empty,
    fun x hx => ⟨hx, Subst.get?_empty x⟩⟩
  have : (∅ : Subst).get? y = some t := hy
  rw [Subst.get?_empty] at this
  cases this

/-- Unification finds a most general solution, or there is no solution at all; and it never breaks
one of its own rules. -/
theorem unify_spec (problem : List Equation) (rigid : IdentSet) :
    match unify problem rigid with
    | .ok s => MostGeneral problem rigid s ∧
        ∀ x, s.Mentions x → x ∈ equationVars problem
    | .error (.error _) => ∀ θ, ¬ Solution problem rigid θ
    | .error (.fault _) => False := by
  have hrun := Unifier.finish_spec (solvedForm_start problem rigid)
  unfold unify Unifier.run
  cases hf : Unifier.finish { pending := problem, rigid } with
  | error e =>
    rw [hf] at hrun
    cases e with
    | error e => exact fun θ hθ => hrun θ ((solves_start_iff problem rigid θ).mpr hθ)
    | fault f => exact hrun
  | ok done =>
    rw [hf] at hrun
    obtain ⟨hp, hrigid, hdone, hiff⟩ := hrun
    have hsolution : ∀ θ, done.Solves θ ↔ Solution problem rigid θ := fun θ =>
      (hiff θ).trans (solves_start_iff problem rigid θ)
    have hbound : ∀ x, done.solution.get? x ≠ none → x ∈ equationVars problem ∧ x ∉ rigid := by
      intro x hx
      have := hdone.bound x hx
      rwa [hrigid] at this
    -- the bindings solve what they stand for, since no equation is left
    have hself : done.Solves done.solution := by
      refine ⟨fun x hx => Subst.image_of_unbound ?_, fun e he => ?_, fun x => ?_⟩
      · exact Classical.byContradiction fun hne => (hdone.bound x hne).2 hx
      · rw [hp] at he
        cases he
      · exact hdone.resolved.apply_apply (.var x)
    refine ⟨⟨(hsolution _).mp hself, fun x hx => ?_, fun y t x hy hx => ?_,
      hdone.resolved.apply_apply, fun θ hθ x => ?_⟩, fun x hx => ?_⟩
    · obtain ⟨t, ht⟩ := (Subst.contains_iff _ x).mp hx
      exact hbound x (by simp [ht])
    · rw [Subst.contains_eq_false_iff]
      exact hdone.resolved y t x hy hx
    · exact ((hsolution θ).mpr hθ).agrees x
    · rcases hx with hx | ⟨y, t, hy, hx⟩
      · exact (hbound x hx).1
      · exact hdone.images y t x hy hx

/-- **Unification is sound, complete and most general.** It fails exactly if the problem has no
solution, never breaks one of its own rules, and what it finds is a most general solution. -/
theorem unify_most_general (problem : List Equation) (rigid : IdentSet) :
    ((∃ e, unify problem rigid = .error (.error e)) ↔ ¬ ∃ θ, Solution problem rigid θ) ∧
      (∀ f, unify problem rigid ≠ .error (.fault f)) ∧
      ∀ s, unify problem rigid = .ok s → MostGeneral problem rigid s := by
  have hspec := unify_spec problem rigid
  cases h : unify problem rigid with
  | ok s =>
    rw [h] at hspec
    refine ⟨⟨fun he => ?_, fun hno => absurd ⟨s, hspec.1.solution⟩ hno⟩, fun f hf => ?_, ?_⟩
    · obtain ⟨e, he⟩ := he
      cases he
    · cases hf
    · rintro _ ⟨⟩
      exact hspec.1
  | error e =>
    rw [h] at hspec
    cases e with
    | fault f => exact absurd hspec id
    | error e =>
      refine ⟨⟨fun _ ⟨θ, hθ⟩ => hspec θ hθ, fun _ => ⟨e, rfl⟩⟩, fun f hf => ?_, fun s hs => ?_⟩
      · cases hf
      · cases hs

/-- The rigid variable `R` is put for the first unknown, also in what the second is bound to. -/
theorem unify_most_general_rigid :
    unify [(.arrow (.var (.fresh 0)) (.var (.fresh 1)),
          .arrow (.var (.named "R")) (.prod (.var (.fresh 0)) .nat))]
        (Std.ExtTreeSet.insert ∅ (.named "R")) =
        .ok (.ofList [(.fresh 0, .var (.named "R")),
          (.fresh 1, .prod (.var (.named "R")) .nat)]) ∧
      MostGeneral [(.arrow (.var (.fresh 0)) (.var (.fresh 1)),
          .arrow (.var (.named "R")) (.prod (.var (.fresh 0)) .nat))]
        (Std.ExtTreeSet.insert ∅ (.named "R"))
        (.ofList [(.fresh 0, .var (.named "R")),
          (.fresh 1, .prod (.var (.named "R")) .nat)]) := by
  have h : unify [(.arrow (.var (.fresh 0)) (.var (.fresh 1)),
        .arrow (.var (.named "R")) (.prod (.var (.fresh 0)) .nat))]
      (Std.ExtTreeSet.insert ∅ (.named "R")) =
      .ok (.ofList [(.fresh 0, .var (.named "R")),
        (.fresh 1, .prod (.var (.named "R")) .nat)]) := by
    cbv
  exact ⟨h, (unify_most_general _ _).2.2 _ h⟩

end SystemT
