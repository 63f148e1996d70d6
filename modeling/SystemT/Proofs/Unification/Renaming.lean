import SystemT.Proofs.Ty.Renaming
import SystemT.Proofs.Unification.MostGeneral

/-!
# Unification with other names

A problem with its variables renamed is unified in the same steps: every state is the renamed one
(`Unifier.RenamedTo.step`), and at the end there is the renamed substitution or the renamed error
(`unify_rename`). Names must not be identified, since equal names are equal variables.
-/

namespace SystemT

open Function (Injective)

/-- Rename the variables of an equation. -/
def Equation.rename (ρ : String → String) (e : Equation) : Equation :=
  (e.1.rename ρ, e.2.rename ρ)

/-- Rename the variables that an error is about. -/
def UnifyError.rename (ρ : String → String) : UnifyError → UnifyError
  | occursCheck x t => occursCheck (x.rename ρ) (t.rename ρ)
  | mismatch t u => mismatch (t.rename ρ) (u.rename ρ)

namespace Unifier

/-- Renaming turns the state `u` into `u'`. -/
structure RenamedTo (ρ : String → String) (u u' : Unifier) : Prop where
  pending : u'.pending = u.pending.map (Equation.rename ρ)
  rigid : ∀ x : Ident, x.rename ρ ∈ u'.rigid ↔ x ∈ u.rigid
  solution : u.solution.RenamedTo ρ u'.solution

/-- Renaming turns what an equation led to into what its renamed one led to. -/
inductive Alike (ρ : String → String) :
    Except (Failure UnifyError) (Move × Unifier) →
      Except (Failure UnifyError) (Move × Unifier) → Prop where
  | error (e : UnifyError) : Alike ρ (.error (.error e)) (.error (.error (e.rename ρ)))
  | ok {move : Move} {next next' : Unifier} (h : next.RenamedTo ρ next') :
    Alike ρ (.ok (move, next)) (.ok (move, next'))

variable {ρ : String → String} {u u' : Unifier}

namespace RenamedTo

theorem bind (hρ : Injective ρ) (h : u.RenamedTo ρ u') (x : Ident) (a : Ty) :
    (u.bind x a).RenamedTo ρ (u'.bind (x.rename ρ) (a.rename ρ)) := by
  refine ⟨?_, h.rigid, fun y => ?_⟩
  · show u'.pending.map _ = (u.pending.map _).map _
    rw [h.pending, List.map_map, List.map_map]
    refine List.map_congr_left fun e _ => ?_
    simp only [Function.comp, Equation.rename, Ty.subst_rename hρ]
  · show (u'.solution.bindAfter _ _).image _ = ((u.solution.bindAfter x a).image y).rename ρ
    rw [image_bindAfter, image_bindAfter, h.solution, Ty.subst_rename hρ]

theorem split (h : u.RenamedTo ρ u') (e₁ e₂ : Equation) :
    (u.split e₁ e₂).RenamedTo ρ (u'.split (e₁.rename ρ) (e₂.rename ρ)) := by
  refine ⟨?_, h.rigid, h.solution⟩
  show _ :: _ :: u'.pending = _ :: _ :: u.pending.map _
  rw [h.pending]

theorem flexible (h : u.RenamedTo ρ u') (x : Ident) :
    u'.flexible (x.rename ρ) = u.flexible x := by
  rw [Bool.eq_iff_iff, flexible_iff, flexible_iff, h.rigid]

theorem eliminate (hρ : Injective ρ) (h : u.RenamedTo ρ u') (x : Ident) (a : Ty) :
    Alike ρ (u.eliminate x a) (u'.eliminate (x.rename ρ) (a.rename ρ)) := by
  rw [eliminate_eq, eliminate_eq, Ty.occurs_rename hρ]
  by_cases hx : a.occurs x
  · rw [if_pos hx, if_pos hx]
    exact .error (.occursCheck x a)
  · rw [if_neg hx, if_neg hx]
    exact .ok (h.bind hρ x a)

/-- An equation with a variable on one side: the variable is bound, or the equation refused. -/
theorem solve_var (hρ : Injective ρ) (h : u.RenamedTo ρ u') (x : Ident) (a : Ty) (e : UnifyError) :
    Alike ρ (if u.flexible x then u.eliminate x a else .error (.error e))
      (if u'.flexible (x.rename ρ) then u'.eliminate (x.rename ρ) (a.rename ρ)
        else .error (.error (e.rename ρ))) := by
  rw [h.flexible]
  by_cases hx : u.flexible x
  · rw [if_pos hx, if_pos hx]
    exact h.eliminate hρ x a
  · rw [if_neg hx, if_neg hx]
    exact .error e

theorem solve (hρ : Injective ρ) (h : u.RenamedTo ρ u') (t v : Ty) :
    Alike ρ (u.solve t v) (u'.solve (t.rename ρ) (v.rename ρ)) := by
  cases t with
  | var x =>
    cases v with
    | var y =>
      show Alike ρ (if x = y then _ else _) (if x.rename ρ = y.rename ρ then _ else _)
      by_cases hxy : x = y
      · rw [if_pos hxy, if_pos (congrArg _ hxy)]
        exact .ok h
      · rw [if_neg hxy, if_neg fun heq => hxy (Ident.rename_injective hρ heq), h.flexible]
        by_cases hx : u.flexible x
        · rw [if_pos hx, if_pos hx]
          exact h.eliminate hρ x (.var y)
        · rw [if_neg hx, if_neg hx]
          exact h.solve_var hρ y (.var x) (.mismatch (.var x) (.var y))
    | nat => exact h.solve_var hρ x .nat (.mismatch (.var x) .nat)
    | bool => exact h.solve_var hρ x .bool (.mismatch (.var x) .bool)
    | arrow c d => exact h.solve_var hρ x (.arrow c d) (.mismatch (.var x) (.arrow c d))
    | prod c d => exact h.solve_var hρ x (.prod c d) (.mismatch (.var x) (.prod c d))
  | nat =>
    cases v with
    | var y => exact h.solve_var hρ y .nat (.mismatch .nat (.var y))
    | nat => exact .ok h
    | bool | arrow c d | prod c d => exact .error (.mismatch _ _)
  | bool =>
    cases v with
    | var y => exact h.solve_var hρ y .bool (.mismatch .bool (.var y))
    | bool => exact .ok h
    | nat | arrow c d | prod c d => exact .error (.mismatch _ _)
  | arrow a b =>
    cases v with
    | var y => exact h.solve_var hρ y (.arrow a b) (.mismatch (.arrow a b) (.var y))
    | arrow c d => exact .ok (h.split (a, c) (b, d))
    | nat | bool | prod c d => exact .error (.mismatch _ _)
  | prod a b =>
    cases v with
    | var y => exact h.solve_var hρ y (.prod a b) (.mismatch (.prod a b) (.var y))
    | prod c d => exact .ok (h.split (a, c) (b, d))
    | nat | bool | arrow c d => exact .error (.mismatch _ _)

/-- A step of the renamed state is the renamed step. -/
theorem step (hρ : Injective ρ) (h : u.RenamedTo ρ u') :
    (u.step = .ok none u ∧ u'.step = .ok none u') ∨
      (∃ move next next', u.step = .ok (some move) next ∧ u'.step = .ok (some move) next' ∧
        next.RenamedTo ρ next') ∨
      ∃ e after after', u.step = .error (.error e) after ∧
        u'.step = .error (.error (e.rename ρ)) after' := by
  cases hp : u.pending with
  | nil =>
    have hp' : u'.pending = [] := by rw [h.pending, hp, List.map_nil]
    exact .inl ⟨step_nil hp, step_nil hp'⟩
  | cons e rest =>
    obtain ⟨t, v⟩ := e
    have hp' : u'.pending = (t.rename ρ, v.rename ρ) :: rest.map (Equation.rename ρ) := by
      rw [h.pending, hp, List.map_cons]
      rfl
    have htaking : (u.taking rest).RenamedTo ρ (u'.taking (rest.map (Equation.rename ρ))) :=
      ⟨rfl, h.rigid, h.solution⟩
    have halike := htaking.solve hρ t v
    rw [step_cons hp, step_cons hp']
    cases hsolve : (u.taking rest).solve t v with
    | error f =>
      rw [hsolve] at halike
      generalize (u'.taking _).solve _ _ = result at halike
      cases halike with
      | error e => exact .inr (.inr ⟨e, _, _, rfl, rfl⟩)
    | ok next =>
      rw [hsolve] at halike
      generalize (u'.taking _).solve _ _ = result at halike
      cases halike with
      | ok hnext => exact .inr (.inl ⟨_, _, _, rfl, rfl, hnext⟩)

/-- A whole run of the renamed state ends in the renamed way. -/
theorem finish (hρ : Injective ρ) (h : u.RenamedTo ρ u') :
    (∃ done done', u.finish = .ok done ∧ u'.finish = .ok done' ∧ done.RenamedTo ρ done') ∨
      ∃ e, u.finish = .error (.error e) ∧ u'.finish = .error (.error (e.rename ρ)) := by
  have hend : ∀ {w : Unifier}, w.step = .ok none w → w.finish = .ok w := fun {w} hw => by
    rw [Unifier.finish, hw]
  have hfail : ∀ {w after : Unifier} {f : Failure UnifyError}, w.step = .error f after →
      w.finish = .error f := fun {w after f} hw => by
    rw [Unifier.finish, hw]
  induction u using Unifier.finish.induct generalizing u' with
  | case1 u f after hstep =>
    rcases h.step hρ with ⟨hu, -⟩ | ⟨_, _, _, hu, -⟩ | ⟨e, _, _, hu, hu'⟩
    · rw [hstep] at hu
      cases hu
    · rw [hstep] at hu
      cases hu
    · exact .inr ⟨e, hfail hu, hfail hu'⟩
  | case2 u done hstep =>
    rcases h.step hρ with ⟨hu, hu'⟩ | ⟨_, _, _, hu, -⟩ | ⟨_, _, _, hu, -⟩
    · exact .inl ⟨u, u', hend hu, hend hu', h⟩
    · rw [hstep] at hu
      cases hu
    · rw [hstep] at hu
      cases hu
  | case3 u move next hstep ih =>
    rcases h.step hρ with ⟨hu, -⟩ | ⟨_, next, next', hu, hu', hnext⟩ | ⟨_, _, _, hu, -⟩
    · rw [hstep] at hu
      cases hu
    · rw [hstep] at hu
      cases hu
      rw [finish_of_step hstep, finish_of_step hu']
      exact ih hnext
    · rw [hstep] at hu
      cases hu

end RenamedTo

end Unifier

/-- The renamed problem has the renamed most general solution, or fails with the renamed error. -/
theorem unify_rename {ρ : String → String} (hρ : Injective ρ) {rigid rigid' : IdentSet}
    (hrigid : ∀ x : Ident, x.rename ρ ∈ rigid' ↔ x ∈ rigid) (problem : List Equation) :
    (∃ s s', unify problem rigid = .ok s ∧
      unify (problem.map (Equation.rename ρ)) rigid' = .ok s' ∧ s.RenamedTo ρ s') ∨
      ∃ e, unify problem rigid = .error (.error e) ∧
        unify (problem.map (Equation.rename ρ)) rigid' = .error (.error (e.rename ρ)) := by
  have hstart : Unifier.RenamedTo ρ { pending := problem, rigid }
      { pending := problem.map (Equation.rename ρ), rigid := rigid' } :=
    ⟨rfl, hrigid, Subst.renamedTo_empty⟩
  unfold unify Unifier.run
  rcases hstart.finish hρ with ⟨done, done', h, h', hdone⟩ | ⟨e, h, h'⟩
  · rw [h, h']
    exact .inl ⟨_, _, rfl, rfl, hdone.solution⟩
  · rw [h, h']
    exact .inr ⟨e, rfl, rfl⟩

end SystemT
