import SystemT.Ty.Subst

/-!
# Display names for generated variables

A type that is shown to somebody has its generated variables renamed to `A`, `B`, … in the order of
their numbers. Names that the type already uses are passed over, so that no two variables become
one.
-/

namespace SystemT

/-- The `i`-th display name: `A` to `Z`, then `A1` to `Z1`, then `A2` to `Z2`, and so on. -/
def displayName (i : Nat) : String :=
  let letter := String.singleton (Char.ofNat ('A'.toNat + i % 26))
  if i < 26 then letter else letter ++ Nat.repr (i / 26)

namespace Ty

/-- The first `n` display names that are not in `taken`. -/
def unusedNames (taken : List Ident) (n : Nat) : List Ident :=
  (((List.range (n + taken.length)).map fun i => Ident.named (displayName i)).filter
    (!taken.contains ·)).take n

/-- Rename generated variables to unused display names, in the order of their numbers. -/
def withDisplayNames (t : Ty) : Ty :=
  let generated := t.vars.toList.filter Ident.isFresh
  let written := t.vars.toList.filter (!·.isFresh)
  let names := unusedNames written generated.length
  (Subst.ofList (generated.zip (names.map Ty.var))).apply t

end Ty

end SystemT
