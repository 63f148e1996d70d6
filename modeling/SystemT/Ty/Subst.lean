import SystemT.Fault
import SystemT.Ty.Printer

/-!
# Type substitutions

A substitution is a finite map from type variables to types, applied to all variables at once.
Substitutions with the same bindings are equal. `r.compose s` applies `r` and then `s`; a single
binding is put behind a substitution by `bindAfter` and in front of it by `bindBefore`, and a
binding whose image contains the variable itself is refused as a fault by `bindAfter?` and
`bindBefore?`.
-/

namespace SystemT

/-- A finite map from type variables to types. -/
structure Subst where
  entries : IdentMap Ty

namespace Subst

/-- The substitution that binds nothing. -/
def empty : Subst := ⟨∅⟩

instance : EmptyCollection Subst := ⟨empty⟩

instance : Inhabited Subst := ⟨empty⟩

/-- The substitution `x := t`. -/
def singleton (x : Ident) (t : Ty) : Subst := ⟨(∅ : IdentMap Ty).insert x t⟩

/-- The bindings in a list; of two for one variable the later counts. -/
def ofList (bindings : List (Ident × Ty)) : Subst := ⟨.ofList bindings⟩

/-- The bindings in the order of their variables. -/
def toList (s : Subst) : List (Ident × Ty) := s.entries.toList

/-- What `x` is bound to. -/
def get? (s : Subst) (x : Ident) : Option Ty := s.entries[x]?

/-- Is `x` bound? -/
def contains (s : Subst) (x : Ident) : Bool := s.entries.contains x

/-- The number of bindings. -/
def size (s : Subst) : Nat := s.entries.size

/-- Is nothing bound? -/
def isEmpty (s : Subst) : Bool := s.entries.isEmpty

/-- Bind `x` to `t`, in place of what it was bound to. -/
def insert (s : Subst) (x : Ident) (t : Ty) : Subst := ⟨s.entries.insert x t⟩

/-- What becomes of the variable `x`. -/
def image (s : Subst) (x : Ident) : Ty := (s.get? x).getD (.var x)

/-- Replace every bound variable, all in one pass; the others stay. -/
def apply (s : Subst) : Ty → Ty
  | .nat => .nat
  | .bool => .bool
  | .var x => s.image x
  | .arrow a b => .arrow (s.apply a) (s.apply b)
  | .prod a b => .prod (s.apply a) (s.apply b)

/-- First `r` and then `s`: `s` is applied to the images of `r`, and a variable that only `s` binds
keeps its image. -/
def compose (r s : Subst) : Subst :=
  ⟨s.entries ∪ r.entries.map fun _ t => s.apply t⟩

/-! ## Single bindings -/

/-- First `s` and then `x := t`, for an `x` not in `t`. -/
def bindAfter (s : Subst) (x : Ident) (t : Ty) : Subst :=
  ⟨(s.entries.map fun _ u => u.subst x t).insertIfNew x t⟩

/-- First `x := t` and then `s`, for an `x` not in `s.apply t`. -/
def bindBefore (s : Subst) (x : Ident) (t : Ty) : Subst :=
  s.insert x (s.apply t)

/-- As `bindAfter`, but a fault if the binding would be cyclic. -/
def bindAfter? (s : Subst) (x : Ident) (t : Ty) : Except Fault Subst :=
  if t.occurs x then .error (.cyclicBinding x) else .ok (s.bindAfter x t)

/-- As `bindBefore`, but a fault if the binding would be cyclic. -/
def bindBefore? (s : Subst) (x : Ident) (t : Ty) : Except Fault Subst :=
  if (s.apply t).occurs x then .error (.cyclicBinding x) else .ok (s.bindBefore x t)

/-! ## Text -/

/-- Bindings `X := t` in braces, separated by commas. -/
protected def toString (s : Subst) : String :=
  let bindings := s.toList.map fun (x, t) => toString x ++ " := " ++ toString t
  "\x7b" ++ ", ".intercalate bindings ++ "\x7d"

instance : ToString Subst := ⟨Subst.toString⟩

/-! ## Bindings of each operation -/

@[ext] theorem ext {r s : Subst} (h : ∀ x, r.get? x = s.get? x) : r = s := by
  cases r; cases s
  exact congrArg Subst.mk (Std.ExtTreeMap.ext_getElem? h)

@[simp] theorem get?_empty (x : Ident) : (∅ : Subst).get? x = none :=
  Std.ExtTreeMap.getElem?_empty

@[simp] theorem get?_insert (s : Subst) (x y : Ident) (t : Ty) :
    (s.insert x t).get? y = if x = y then some t else s.get? y := by
  simp [get?, insert, Std.ExtTreeMap.getElem?_insert]

theorem get?_compose (r s : Subst) (x : Ident) :
    (r.compose s).get? x = ((r.get? x).map s.apply).or (s.get? x) := by
  simp [get?, compose, Std.ExtTreeMap.getElem?_union]

theorem get?_bindAfter (s : Subst) (x y : Ident) (t : Ty) :
    (s.bindAfter x t).get? y =
      ((s.get? y).map (·.subst x t)).or (if x = y then some t else none) := by
  simp only [get?, bindAfter, Std.ExtTreeMap.getElem?_insertIfNew, Std.ExtTreeMap.getElem?_map,
    Std.ExtTreeMap.mem_map, Std.LawfulEqOrd.compare_eq_iff_eq]
  by_cases h : x = y
  · subst h
    cases hx : s.entries[x]? with
    | none => simp [Std.ExtTreeMap.mem_iff_isSome_getElem?, hx]
    | some u => simp [Std.ExtTreeMap.mem_iff_isSome_getElem?, hx]
  · simp [h]

@[simp] theorem get?_bindBefore (s : Subst) (x y : Ident) (t : Ty) :
    (s.bindBefore x t).get? y = if x = y then some (s.apply t) else s.get? y :=
  get?_insert ..

end Subst

end SystemT
