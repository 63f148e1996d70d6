import SystemT.Ty.Subst

/-!
# Unification

First-order unification of simple types with an explicit list of equations still to be solved. One
step takes the first equation: it drops it if both sides are the same variable or the same base
type, binds a variable and substitutes it away in the rest, or splits an equation of like
constructors into its components. Rigid variables are never bound: such a variable equals itself,
and a flexible variable may be bound to it.

Steps terminate because each lowers the measure *(number of distinct variables, total size)* in
lexicographic order. Every step checks this (`Unifier.measure_lt_of_step`), and running a unifier
to its end recurses on it.
-/

namespace SystemT

/-- Two types that are to become equal. -/
abbrev Equation := Ty × Ty

/-- Why two types cannot be made equal. -/
inductive UnifyError where
  /-- The variable would have to equal a type that properly contains it. -/
  | occursCheck (x : Ident) (t : Ty)
  | mismatch (left right : Ty)
deriving DecidableEq, Repr, Inhabited

/-- The text of a unification error. -/
def UnifyError.message : UnifyError → String
  | occursCheck x t => "occurs check: " ++ toString x ++ " occurs in " ++ toString t
  | mismatch t u => "cannot unify " ++ toString t ++ " with " ++ toString u

/-! ## Measures -/

/-- What a list of equations has left to be solved. -/
structure Measure where
  /-- How many different variables there are. -/
  vars : Nat
  /-- The sizes of both sides of all equations together. -/
  size : Nat
deriving DecidableEq, Repr, Inhabited

namespace Measure

/-- Measures are compared by variables first. -/
protected def lt (a b : Measure) : Prop := a.vars < b.vars ∨ a.vars = b.vars ∧ a.size < b.size

instance : LT Measure := ⟨Measure.lt⟩

instance (a b : Measure) : Decidable (a < b) :=
  inferInstanceAs (Decidable (a.vars < b.vars ∨ a.vars = b.vars ∧ a.size < b.size))

instance : ToString Measure :=
  ⟨fun m => "(" ++ Nat.repr m.vars ++ ", " ++ Nat.repr m.size ++ ")"⟩

end Measure

/-- The variables of a list of equations. -/
def equationVars (problem : List Equation) : IdentSet :=
  problem.foldl (fun seen (t, u) => u.addVars (t.addVars seen)) ∅

/-- The measure of a list of equations. -/
def measure (problem : List Equation) : Measure where
  vars := (equationVars problem).size
  size := problem.foldl (fun n (t, u) => n + (t.size + u.size)) 0

/-! ## Unifiers -/

/-- What a step did with its equation. -/
inductive Move where
  /-- Both sides were the same variable or base type. -/
  | discarded
  /-- A variable was bound and substituted away. -/
  | eliminated
  /-- Like constructors were split into their components. -/
  | decomposed
deriving DecidableEq, Repr, Inhabited

/-- A unification problem on its way to a solution. -/
structure Unifier where
  /-- The equations to be solved, the next one first. -/
  pending : List Equation
  /-- The variables that are not to be bound. -/
  rigid : IdentSet := ∅
  /-- The bindings found so far. -/
  solution : Subst := ∅
  /-- How many equations were taken. -/
  steps : Nat := 0

namespace Unifier

/-- What is left to be solved. -/
def measure (u : Unifier) : Measure := SystemT.measure u.pending

/-- May the variable be bound? -/
def flexible (u : Unifier) (x : Ident) : Bool := !u.rigid.contains x

/-- Bind `x` to `t` and substitute it away in the equations that are left. -/
def eliminate (u : Unifier) (x : Ident) (t : Ty) : Except (Failure UnifyError) (Move × Unifier) :=
  if t.occurs x then .error (.error (.occursCheck x t))
  else
    match u.solution.bindAfter? x t with
    | .error f => .error (.fault f)
    | .ok solution =>
      .ok (.eliminated,
        { u with
          pending := u.pending.map fun (l, r) => (l.subst x t, r.subst x t)
          solution })

/-- Treat the equation of `t` and `v`, which `u` no longer holds. -/
def solve (u : Unifier) (t v : Ty) : Except (Failure UnifyError) (Move × Unifier) :=
  match t, v with
  | .var x, .var y =>
    if x = y then .ok (.discarded, u)
    else if u.flexible x then u.eliminate x (.var y)
    else if u.flexible y then u.eliminate y (.var x)
    else .error (.error (.mismatch (.var x) (.var y)))
  | .var x, v => if u.flexible x then u.eliminate x v else .error (.error (.mismatch (.var x) v))
  | t, .var y => if u.flexible y then u.eliminate y t else .error (.error (.mismatch t (.var y)))
  | .nat, .nat => .ok (.discarded, u)
  | .bool, .bool => .ok (.discarded, u)
  | .arrow a b, .arrow c d =>
    .ok (.decomposed, { u with pending := (a, c) :: (b, d) :: u.pending })
  | .prod a b, .prod c d =>
    .ok (.decomposed, { u with pending := (a, c) :: (b, d) :: u.pending })
  | t, v => .error (.error (.mismatch t v))

/-- The unifier with an equation taken off, `rest` being left. -/
def taking (u : Unifier) (rest : List Equation) : Unifier :=
  { u with pending := rest, steps := u.steps + 1 }

/-- Take the next equation, if there is one. After an error the equation is gone, and counted as a
step, but nothing else has changed. -/
def step (u : Unifier) : EStateM.Result (Failure UnifyError) Unifier (Option Move) :=
  match u.pending with
  | [] => .ok none u
  | (t, v) :: rest =>
    match (u.taking rest).solve t v with
    | .error e => .error e (u.taking rest)
    | .ok (move, next) =>
      if next.measure < u.measure then .ok (some move) next
      else
        .error (.fault (.measureKept (u.measure.vars, u.measure.size)
          (next.measure.vars, next.measure.size))) (u.taking rest)

/-- A step that succeeds lowers the measure. -/
theorem measure_lt_of_step {u next : Unifier} {move : Move} (h : u.step = .ok (some move) next) :
    next.measure < u.measure := by
  unfold step at h
  split at h
  · cases h
  · split at h
    · cases h
    · split at h
      · cases h; assumption
      · cases h

/-- Take steps until no equation is left or one of them fails. -/
def finish (u : Unifier) : Except (Failure UnifyError) Unifier :=
  match _h : u.step with
  | .error e _ => .error e
  | .ok none done => .ok done
  | .ok (some _) next => finish next
termination_by (u.measure.vars, u.measure.size)
decreasing_by
  rcases measure_lt_of_step _h with hv | ⟨hv, hs⟩
  · exact Prod.Lex.left _ _ hv
  · rw [hv]
    exact Prod.Lex.right _ hs

/-- The solution of all equations. -/
def run (u : Unifier) : Except (Failure UnifyError) Subst := u.finish.map (·.solution)

end Unifier

/-- A most general substitution that makes both sides of every equation equal and leaves the
variables in `rigid` alone. -/
def unify (problem : List Equation) (rigid : IdentSet) : Except (Failure UnifyError) Subst :=
  Unifier.run { pending := problem, rigid }

end SystemT
