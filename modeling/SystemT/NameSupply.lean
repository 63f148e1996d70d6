import SystemT.Fault

/-!
# Name supplies

A supply hands out the generated identifiers `?0`, `?1`, … in turn. Told to avoid some identifiers
it skips past the largest generated one among them, so what it hands out later differs from all of
them. The count stays below `counterLimit`; the call that would push it there is a fault and leaves
the supply as far as it had come.
-/

namespace SystemT

/-- A supply of generated identifiers: those from `next` on are unused. -/
structure NameSupply where
  /-- The number that the next identifier gets, which is also how many were handed out. -/
  next : Nat := 0
deriving DecidableEq, Repr, Inhabited

namespace NameSupply

/-- Hand out the next identifier. -/
def fresh : EStateM Fault NameSupply Ident := fun supply =>
  if supply.next + 1 < counterLimit then .ok (.fresh supply.next) ⟨supply.next + 1⟩
  else .error .counterOverflow supply

/-- Never hand out `x` from now on. -/
def skip (x : Ident) : EStateM Fault NameSupply Unit := fun supply =>
  match x with
  | .named _ => .ok () supply
  | .fresh n =>
    if n + 1 < counterLimit then .ok () ⟨max supply.next (n + 1)⟩
    else .error .counterOverflow supply

/-- Never hand out one of `xs` from now on; they are passed over in turn. -/
def avoid (xs : List Ident) : EStateM Fault NameSupply Unit :=
  xs.forM skip

end NameSupply

end SystemT
