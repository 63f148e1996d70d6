import SystemT.Reader.Basic
import SystemT.Ty.Basic

/-!
# Reading types

A type is `nat`, `bool`, a variable, `(-> a b …)` with at least two parts, which nests to the
right, or `(* a b)`.
-/

namespace SystemT

/-- The type that a symbol spells. -/
def Ty.ofSymbol (s : String) : Ty :=
  match s with
  | "nat" => .nat
  | "bool" => .bool
  | s => .var (.named s)

/-- The functions that take the types in `doms`, the last of which comes first, and give `cod`. -/
def Ty.arrows (doms : List Ty) (cod : Ty) : Ty := doms.foldl (fun t dom => .arrow dom t) cod

namespace Reader

/-- The rest of a type that is a list, from its head on. Parts are read with `part`, and an arrow
has at most `fuel` further ones after the second. -/
def compoundTy (part : ReadM Ty) (fuel : Nat) (head : String) (span : Span) : ReadM Ty := do
  let t ←
    match head with
    | "->" => do
      let a ← part
      let b ← part
      let (doms, cod) ← foldToRParen part (fun (doms, cod) t => (cod :: doms, t)) fuel ([a], b)
      pure (Ty.arrows doms cod)
    | "*" => do
      let a ← part
      let b ← part
      pure (.prod a b)
    | head => throw ⟨.unknownForm head, span⟩
  rparen
  pure t

/-- Read a type that nests at most `fuel` deep. -/
def tyWithin (fuel : Nat) : ReadM Ty :=
  match fuel with
  | 0 => fellShort
  | fuel + 1 => do
    match ← next with
    | (.symbol s, _) => pure (Ty.ofSymbol s)
    | (.int _, span) => expected .type span
    | (.rparen, span) => throw ⟨.unexpectedRParen, span⟩
    | (.lparen, _) =>
      let (head, span) ← symbol
      compoundTy (tyWithin fuel) fuel head span

/-- Read a type. -/
def ty : ReadM Ty := do tyWithin (← get).budget

end Reader

/-- The type that a source text spells. -/
def Ty.ofString? (source : String) : Except ReadError Ty := Reader.whole Reader.ty source

end SystemT
