import Mathlib.Algebra.GroupWithZero.Nat
import SystemT.Proofs.Inference.Checker
import SystemT.Proofs.Reader.Forms
import SystemT.Proofs.Term.Constants
import SystemT.Proofs.Ty.Display

/-!
# What a text can cost

The type of a term needs fresh variables, and a term has binders inside one another. Neither are
there more of than tokens that spell the term (`Term.Derives.freshDemand_lt`,
`Term.nesting_le_freshDemand`), so that all forms of a text together need no more than the text has
characters (`Reader.Gives.freshDemand_le`). A numeral may be a larger term than its text, but it
needs no variables and has no binders.

The types in a text have no generated variables (`Reader.Gives.written`).
-/

namespace SystemT

/-! ## Types -/

theorem Ty.written_ofSymbol (s : String) : (ofSymbol s).Written := by
  intro n
  unfold ofSymbol
  split
  · rfl
  · rfl
  · exact decide_eq_false nofun

/-- A type that is spelled has no generated variables. -/
theorem Ty.Derives.written {p : Phrase} {ts : List Token} {A : Ty} (h : Derives p ts A) :
    A.Written := by
  induction h with
  | symbol s => exact written_ofSymbol s
  | last _ ih => exact ih
  | arrow _ _ iha ihb | prod _ _ iha ihb | more _ _ iha ihb =>
    intro n
    rw [occurs, iha n, ihb n]
    rfl

/-! ## Terms -/

namespace Term

/-- Each binder needs a variable for its parameter. -/
theorem nesting_le_freshDemand (t : Term) : t.nesting ≤ t.freshDemand := by
  induction t <;> simp only [nesting, freshDemand] <;> omega

theorem freshDemand_ofSymbol (s : String) : (ofSymbol s).freshDemand = 0 := by
  unfold ofSymbol
  split <;> rfl

theorem freshDemand_succs (n : Nat) (t : Term) : (succs n t).freshDemand = t.freshDemand := by
  induction n generalizing t with
  | zero => rfl
  | succ n ih => exact ih (succ t)

/-- A term needs fewer variables than there are tokens that spell it. An application needs one for
each operand, which has a token at least. -/
theorem Derives.freshDemand_lt {p : Phrase} {ts : List Token} {t : Term} (h : Derives p ts t) :
    match p with
    | .whole => t.freshDemand < ts.length
    | .operands fn => t.freshDemand ≤ fn.freshDemand + ts.length := by
  induction h with
  | index i => exact Nat.one_pos
  | symbol s =>
    show freshDemand _ < 1
    rw [freshDemand_ofSymbol]
    exact Nat.one_pos
  | numeral _ =>
    show freshDemand (succs _ zero) < _
    rw [freshDemand_succs, Token.length_listOf]
    exact Nat.succ_pos _
  | none fn => exact Nat.le_refl _
  | lam | app | pair | fst | snd | cond | succ | natRec | operand =>
    simp only [freshDemand, Token.length_listOf, List.length_append] at *
    omega

end Term

/-! ## Forms -/

/-- How many fresh variables the form needs. -/
def Form.freshDemand : Form → Nat
  | define _ t _ => t.freshDemand
  | declare _ _ _ => 0
  | expr t _ => t.freshDemand

/-- The form declares no generated variables. -/
def Form.Written : Form → Prop
  | define _ _ _ => True
  | declare _ A _ => A.Written
  | expr _ _ => True

theorem Form.Derives.freshDemand_le {ts : List Token} {f : Form} (h : Derives ts f) :
    f.freshDemand ≤ ts.length := by
  cases h with
  | define ht =>
    have hlt := ht.freshDemand_lt
    rw [Form.freshDemand, Token.length_listOf, List.length_cons]
    dsimp only at hlt
    omega
  | declare => exact Nat.zero_le _
  | expr ht => exact Nat.le_of_lt ht.freshDemand_lt

theorem Form.Derives.written {ts : List Token} {f : Form} (h : Derives ts f) : f.Written := by
  cases h with
  | define | expr => trivial
  | declare hA => exact hA.written

namespace Reader

/-- All forms that are read need no more variables than there may be tokens. -/
theorem Gives.freshDemand_le {r : Reader} {forms : List Form} {error : Option ReadError}
    (h : Gives r forms error) : (forms.map Form.freshDemand).sum ≤ r.left := by
  induction h with
  | done | failed => exact Nat.zero_le _
  | more hform _ ih =>
    obtain ⟨ts, hts, hpast⟩ := takes_form? _ _ _ hform
    have hdemand := (hts _ rfl).freshDemand_le
    have hleft := hpast.left
    rw [List.map_cons, List.sum_cons]
    omega

theorem Gives.written {r : Reader} {forms : List Form} {error : Option ReadError}
    (h : Gives r forms error) : ∀ f ∈ forms, f.Written := by
  induction h with
  | done | failed => exact nofun
  | more hform _ ih =>
    obtain ⟨ts, hts, -⟩ := takes_form? _ _ _ hform
    exact List.forall_mem_cons.mpr ⟨(hts _ rfl).written, ih⟩

theorem left_ofString_le (source : String) : (ofString source).left ≤ source.utf8ByteSize := by
  rw [← Text.byteCount_toList]
  exact Text.length_le_byteCount source.toList

end Reader

/-- A text that is read as a term is longer than the number of variables that the term needs. -/
theorem Term.freshDemand_lt_of_ofString? {source : String} {t : Term}
    (h : Term.ofString? source = .ok t) : t.freshDemand < source.utf8ByteSize := by
  obtain ⟨ts, hspells, hts⟩ := Term.derives_of_ofString? h
  have hlt := hts.freshDemand_lt
  have hlength : ts.length ≤ source.toList.length := hspells.length_le
  have hbytes := Text.length_le_byteCount source.toList
  rw [Text.byteCount_toList] at hbytes
  dsimp only at hlt
  omega

end SystemT
