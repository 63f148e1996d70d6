import SystemT.Ty.Subst

/-!
# Matching

One-way matching finds a substitution that turns a pattern into a given type. `Ty.instanceOf?`
matches one type; `Subst.refines?` matches every image of one substitution at once and so decides
whether a substitution factors through another.
-/

namespace SystemT

/-- Match `pattern` against `target` from left to right, adding to the bindings `found` so far. A
variable for which `fixed` gives a type is not bound: it matches that type alone. -/
def Ty.matchWith (fixed : Ident → Option Ty) (pattern target : Ty) (found : Subst) :
    Option Subst :=
  match pattern, target with
  | .var x, t =>
    match fixed x with
    | some u => if u = t then some found else none
    | none =>
      match found.get? x with
      | some u => if u = t then some found else none
      | none => some (found.insert x t)
  | .nat, .nat => some found
  | .bool, .bool => some found
  | .arrow p q, .arrow t u => (p.matchWith fixed t found).bind (q.matchWith fixed u)
  | .prod p q, .prod t u => (p.matchWith fixed t found).bind (q.matchWith fixed u)
  | _, _ => none

/-- The substitution that turns `general` into `t`, if `t` is an instance of `general`. It binds
the variables of `general` and no others. -/
def Ty.instanceOf? (t general : Ty) : Option Subst :=
  general.matchWith (fun _ => none) t ∅

namespace Subst

/-- What a variable has to become after `general` if the result is to agree with `s`: a variable
that `general` leaves alone becomes its image under `s`, the others are free. -/
def required (s general : Subst) (x : Ident) : Option Ty :=
  if general.contains x then none else some (s.image x)

/-- A substitution `u` such that `general` followed by `u` agrees with `s` on every variable, if
there is one: `s` is then a refinement of `general`. -/
def refines? (s general : Subst) : Option Subst :=
  let kept : Subst := ⟨s.entries.filter fun x _ => !general.contains x⟩
  general.toList.foldlM
    (fun found (x, pattern) => pattern.matchWith (s.required general) (s.image x) found) kept

end Subst

end SystemT
