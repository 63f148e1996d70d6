import SystemT.Proofs.Unification.MostGeneral

/-!
# Progress of the unifier

A unifier may be stepped on after a step has failed: the failing equation is gone, and the next
step takes the one behind it. `Unifier.after` is the state after a number of steps, whichever of
them failed, and `Unifier.Yields` lists what a single step can come to.

Every such state is in solved form. Its bound and its pending variables are therefore different
variables of the problem, so that there are no more of both than the problem has
(`Unifier.SolvedForm.size_le`). A step that takes an equation lowers the measure, whether it
succeeds or fails (`Unifier.step_progress`), so that the equations run out
(`Unifier.exists_pending_eq_nil`), and each elimination adds a binding
(`Unifier.eliminations_add_size`).
-/

namespace SystemT

/-! ## Sizes of substitutions -/

namespace Subst

/-- Binding a variable that is not bound yet adds one binding. -/
theorem size_bindAfter {s : Subst} {x : Ident} (h : s.get? x = none) (t : Ty) :
    (s.bindAfter x t).size = s.size + 1 := by
  have hx : x ∉ s.entries.map fun _ u => u.subst x t := by
    rw [Std.ExtTreeMap.mem_map, Std.ExtTreeMap.mem_iff_isSome_getElem?]
    simpa [get?] using h
  rw [size, bindAfter, Std.ExtTreeMap.size_insertIfNew, if_neg hx, Std.ExtTreeMap.size_map, size]

/-- The variables that are bound. -/
def domain (s : Subst) : IdentSet := .ofList s.entries.keys

theorem mem_domain {s : Subst} {x : Ident} : x ∈ s.domain ↔ s.get? x ≠ none := by
  rw [domain, Std.ExtTreeSet.mem_ofList, List.contains_iff_mem, Std.ExtTreeMap.mem_keys,
    Std.ExtTreeMap.mem_iff_isSome_getElem?, Option.isSome_iff_ne_none]
  rfl

theorem size_domain (s : Subst) : s.domain.size = s.size := by
  rw [domain, Std.ExtTreeSet.size_ofList Std.ExtTreeMap.distinct_keys, Std.ExtTreeMap.length_keys,
    size]

end Subst

namespace Unifier

variable {u : Unifier}

/-! ## Stepping on -/

/-- The state in which the unification of a problem starts. -/
def start (problem : List Equation) (rigid : IdentSet) : Unifier := { pending := problem, rigid }

/-- The state that a step leaves behind, whether it succeeds or fails. -/
def stepped (u : Unifier) : Unifier :=
  match u.step with
  | .ok _ next => next
  | .error _ next => next

/-- The state after a number of steps. -/
def after (u : Unifier) : Nat → Unifier
  | 0 => u
  | n + 1 => (u.after n).stepped

/-- How many of a number of steps bind a variable. -/
def eliminations (u : Unifier) : Nat → Nat
  | 0 => 0
  | n + 1 =>
    match (u.after n).step with
    | .ok (some .eliminated) _ => u.eliminations n + 1
    | _ => u.eliminations n

theorem after_add (u : Unifier) (m n : Nat) : u.after (m + n) = (u.after m).after n := by
  induction n with
  | zero => rfl
  | succ n ih =>
    show (u.after (m + n)).stepped = ((u.after m).after n).stepped
    rw [ih]

/-- What a step can come to. -/
inductive Yields (u : Unifier) :
    EStateM.Result (Failure UnifyError) Unifier (Option Move) → Prop where
  | done (h : u.pending = []) : Yields u (.ok none u)
  | refuse {t v : Ty} {rest : List Equation} (h : u.pending = (t, v) :: rest) (e : UnifyError) :
      Yields u (.error (.error e) (u.taking rest))
  | treat {t v : Ty} {rest : List Equation} {move : Move} {next : Unifier}
      (h : u.pending = (t, v) :: rest) (hnext : (u.taking rest).Treats t v (.ok (move, next))) :
      Yields u (.ok (some move) next)

theorem yields_step (u : Unifier) : u.Yields u.step := by
  cases hp : u.pending with
  | nil =>
    rw [step_nil hp]
    exact .done hp
  | cons e rest =>
    obtain ⟨t, v⟩ := e
    have htreats := treats_solve (u.taking rest) t v
    rw [step_cons hp]
    generalize (u.taking rest).solve t v = result at htreats
    cases result with
    | ok r => exact .treat hp htreats
    | error e =>
      cases htreats with
      | refuse h => exact .refuse hp _

/-! ## What steps preserve -/

theorem rigid_stepped (u : Unifier) : u.stepped.rigid = u.rigid := by
  have hstep := u.yields_step
  unfold stepped
  generalize u.step = result at hstep
  cases hstep with
  | done | refuse => rfl
  | treat h hnext => cases hnext <;> rfl

theorem rigid_after (u : Unifier) (n : Nat) : (u.after n).rigid = u.rigid := by
  induction n with
  | zero => rfl
  | succ n ih => exact (rigid_stepped _).trans ih

/-- The variables of the next equation are still to be solved for. -/
theorem SolvedForm.next {scope : IdentSet} {t v : Ty} {rest : List Equation} {x : Ident}
    (h : u.SolvedForm scope) (hp : u.pending = (t, v) :: rest)
    (hx : t.occurs x = true ∨ v.occurs x = true) : x ∈ scope ∧ u.solution.get? x = none := by
  refine h.pending x ?_
  rw [hp, mem_equationVars_cons]
  exact .inl hx

/-- A step keeps the solved form, also when it fails. -/
theorem SolvedForm.stepped {scope : IdentSet} (h : u.SolvedForm scope) :
    u.stepped.SolvedForm scope := by
  have hstep := u.yields_step
  unfold Unifier.stepped
  generalize u.step = result at hstep
  cases hstep with
  | done => exact h
  | refuse hp => exact h.taking hp
  | treat hp hnext => exact hnext.solvedForm (h.taking hp) fun x hx => h.next hp hx

theorem SolvedForm.after {scope : IdentSet} (h : u.SolvedForm scope) (n : Nat) :
    (u.after n).SolvedForm scope := by
  induction n with
  | zero => exact h
  | succ n ih => exact ih.stepped

/-- The bound variables and the pending ones are different variables from `scope`. -/
theorem SolvedForm.size_le {scope : IdentSet} (h : u.SolvedForm scope) :
    u.solution.size + u.measure.vars ≤ scope.size := by
  have hdisjoint : ∀ x, x ∈ u.solution.domain → x ∉ equationVars u.pending := fun x hx hmem =>
    Subst.mem_domain.mp hx (h.pending x hmem).2
  have hsub : ∀ x, x ∈ u.solution.domain ∪ equationVars u.pending → x ∈ scope := by
    intro x hx
    rcases Std.ExtTreeSet.mem_union_iff.mp hx with hx | hx
    · exact (h.bound x (Subst.mem_domain.mp hx)).1
    · exact (h.pending x hx).1
  calc u.solution.size + u.measure.vars
      = (u.solution.domain ∪ equationVars u.pending).size := by
        rw [Std.ExtTreeSet.size_union_of_not_mem hdisjoint, Subst.size_domain]
        rfl
    _ ≤ scope.size := IdentSet.size_le_of_subset hsub

/-! ## Progress -/

/-- A refused equation is one less to solve. -/
theorem measure_taking_lt {t v : Ty} {rest : List Equation} (h : u.pending = (t, v) :: rest) :
    (u.taking rest).measure < u.measure := by
  rw [Unifier.measure.eq_def u, h]
  refine measure_lt_of_size_lt (fun x hx => (mem_equationVars_cons _ _ x).mpr (.inr hx)) ?_
  have hpos := t.size_pos
  rw [measure_size_cons]
  show (SystemT.measure rest).size < _
  omega

/-- Every step lowers the measure while there are equations. One that fails has only taken its
equation. -/
theorem step_progress (u : Unifier) :
    match u.step with
    | .ok none next => u.pending = [] ∧ next = u
    | .ok (some _) next => next.measure < u.measure
    | .error (.error _) next => next.measure < u.measure ∧
        ∃ e rest, u.pending = e :: rest ∧
          next = { u with pending := rest, steps := u.steps + 1 }
    | .error (.fault _) _ => False := by
  have hstep := u.yields_step
  generalize u.step = result at hstep ⊢
  cases hstep with
  | done hp => exact ⟨hp, rfl⟩
  | refuse hp e => exact ⟨measure_taking_lt hp, _, _, hp, rfl⟩
  | treat hp hnext =>
    show _ < u.measure
    rw [Unifier.measure.eq_def u, hp]
    exact hnext.measure_lt

/-- Equations that are left make the next state smaller. -/
theorem measure_stepped_lt (h : u.pending ≠ []) : u.stepped.measure < u.measure := by
  have hprogress := u.step_progress
  unfold stepped
  generalize u.step = result at hprogress ⊢
  split at hprogress
  · exact absurd hprogress.1 h
  · exact hprogress
  · exact hprogress.1
  · exact hprogress.elim

/-- Once no equation is left, none comes back. -/
theorem after_of_pending_eq_nil (h : u.pending = []) (n : Nat) : u.after n = u := by
  induction n with
  | zero => rfl
  | succ n ih =>
    show (u.after n).stepped = u
    rw [ih, stepped, step_nil h]

/-- The equations run out, however many of them are refused. -/
theorem exists_pending_eq_nil (u : Unifier) : ∃ N, (u.after N).pending = [] := by
  by_cases hp : u.pending = []
  · exact ⟨0, hp⟩
  · have hlt := measure_stepped_lt hp
    obtain ⟨N, hN⟩ := exists_pending_eq_nil u.stepped
    exact ⟨1 + N, by rw [after_add]; exact hN⟩
termination_by (u.measure.vars, u.measure.size)
decreasing_by
  rcases hlt with hvars | ⟨hvars, hsize⟩
  · exact Prod.Lex.left _ _ hvars
  · rw [hvars]
    exact Prod.Lex.right _ hsize

/-- An elimination adds a binding, and nothing else does. -/
theorem Treats.size_solution {t v : Ty} {move : Move} {next : Unifier}
    (h : u.Treats t v (.ok (move, next)))
    (hfree : ∀ x, t.occurs x = true ∨ v.occurs x = true → u.solution.get? x = none) :
    next.solution.size = u.solution.size + if move = .eliminated then 1 else 0 := by
  cases h with
  | discard | arrow | prod => rfl
  | bindLeft => exact Subst.size_bindAfter (hfree _ (.inl ((Ty.occurs_var _ _).mpr rfl))) _
  | bindRight => exact Subst.size_bindAfter (hfree _ (.inr ((Ty.occurs_var _ _).mpr rfl))) _

/-- There is one binding more for each elimination. -/
theorem eliminations_add_size {scope : IdentSet} (h : u.SolvedForm scope) (n : Nat) :
    u.eliminations n + u.solution.size = (u.after n).solution.size := by
  induction n with
  | zero => exact Nat.zero_add _
  | succ n ih =>
    have hform := h.after n
    have hstep := (u.after n).yields_step
    rw [eliminations, after, stepped]
    generalize (u.after n).step = result at hstep
    cases hstep with
    | done | refuse => exact ih
    | @treat t v rest move next hp hnext =>
      have hsize := hnext.size_solution fun x hx => (hform.next hp hx).2
      have htaking : ((u.after n).taking rest).solution.size = (u.after n).solution.size := rfl
      rw [htaking] at hsize
      cases move with
      | eliminated =>
        show u.eliminations n + 1 + _ = next.solution.size
        rw [hsize, if_pos rfl]
        omega
      | discarded | decomposed => exact ih.trans hsize.symm

/-- Whatever the problem, and however many steps have been taken, failing ones among them: the
bindings are in solved form, there are no more of them and of the variables left than the problem
had variables, and the next step makes progress or finds nothing to do. So the equations run out,
and no check of the unifier's own fails. -/
theorem every_step_progresses (problem : List Equation) (rigid : IdentSet) :
    (∀ n, let u := (start problem rigid).after n
      (∀ x, u.solution.contains x = true → x ∉ rigid ∧ x ∉ equationVars u.pending ∧
        ∀ y t, u.solution.get? y = some t → t.occurs x = false) ∧
      u.solution.size + u.measure.vars ≤ (SystemT.measure problem).vars ∧
      (match u.step with
        | .ok none next => u.pending = [] ∧ next = u
        | .ok (some _) next => next.measure < u.measure
        | .error (.error _) next => next.measure < u.measure ∧
            ∃ e rest, u.pending = e :: rest ∧
              next = { u with pending := rest, steps := u.steps + 1 }
        | .error (.fault _) _ => False) ∧
      (start problem rigid).eliminations n ≤ (SystemT.measure problem).vars) ∧
    (∃ N, ∀ n ≥ N, ((start problem rigid).after n).pending = []) ∧
    ∀ f, unify problem rigid ≠ .error (.fault f) := by
  have hstart : (start problem rigid).SolvedForm (equationVars problem) :=
    solvedForm_start problem rigid
  refine ⟨fun n => ?_, ?_, fun f hf => ?_⟩
  · have hform := hstart.after n
    have hsize : _ ≤ (SystemT.measure problem).vars := hform.size_le
    refine ⟨fun x hx => ?_, hsize, step_progress _, ?_⟩
    · have hbound : ((start problem rigid).after n).solution.get? x ≠ none :=
        Option.ne_none_iff_exists'.mpr ((Subst.contains_iff _ x).mp hx)
      refine ⟨?_, fun hmem => hbound (hform.pending x hmem).2, fun y t hy => ?_⟩
      · have hrigid := (hform.bound x hbound).2
        rwa [rigid_after] at hrigid
      · exact Bool.eq_false_iff.mpr fun hocc => hbound (hform.resolved y t x hy hocc)
    · have hcount := eliminations_add_size hstart n
      omega
  · obtain ⟨N, hN⟩ := exists_pending_eq_nil (start problem rigid)
    refine ⟨N, fun n hn => ?_⟩
    obtain ⟨k, rfl⟩ := Nat.exists_eq_add_of_le hn
    rw [after_add, after_of_pending_eq_nil hN, hN]
  · have hspec := unify_spec problem rigid
    rw [hf] at hspec
    exact hspec

end Unifier

end SystemT
