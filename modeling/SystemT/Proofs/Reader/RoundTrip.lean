import SystemT.Proofs.Reader.Grammar
import SystemT.Term.Printer
import SystemT.Ty.Printer

/-!
# Reading undoes printing

What is printed derives, in the grammar, what was printed, and its tokens are legible if the names
in it are (`Ty.prints`, `Term.prints`). So it is read as it was (`read_print`).

Printing runs through arrows that nest to the right and applications that nest to the left, and it
collects chains of successors. Its tokens are therefore followed for a type that goes on an open
arrow, for a term in the head of an open application, and for a term under successors that are not
printed yet.
-/

namespace SystemT

/-! ## What printing adds -/

/-- The printer puts legible tokens in front of what follows, and they are as `D` says. -/
def Token.Prints (print : List Token → List Token) (D : List Token → Prop) : Prop :=
  ∃ ts, (∀ rest, print rest = ts ++ rest) ∧ (∀ t ∈ ts, t.legible = true) ∧ D ts

namespace Token

variable {print print' : List Token → List Token} {D E : List Token → Prop}

theorem Prints.imp (h : Prints print D) (hDE : ∀ ts, D ts → E ts) : Prints print E := by
  obtain ⟨ts, hprint, hlegible, hts⟩ := h
  exact ⟨ts, hprint, hlegible, hDE ts hts⟩

theorem prints_token {t : Token} (ht : t.legible = true) (h : D [t]) : Prints (t :: ·) D := by
  refine ⟨[t], fun _ => rfl, fun u hu => ?_, h⟩
  rw [List.mem_singleton.mp hu]
  exact ht

theorem Prints.append (h : Prints print D) (h' : Prints print' E) :
    Prints (fun rest => print (print' rest)) fun ts =>
      ∃ us vs, ts = us ++ vs ∧ D us ∧ E vs := by
  obtain ⟨us, hprint, hlegible, hus⟩ := h
  obtain ⟨vs, hprint', hlegible', hvs⟩ := h'
  refine ⟨us ++ vs, fun rest => ?_, fun t ht => ?_, us, vs, rfl, hus, hvs⟩
  · show print (print' rest) = _
    rw [hprint', hprint, List.append_assoc]
  · exact (List.mem_append.mp ht).elim (hlegible t) (hlegible' t)

theorem Prints.list (h : Prints print D) {head : String} (hhead : Cursor.isName head = true) :
    Prints (fun rest => .lparen :: .symbol head :: print (.rparen :: rest)) fun ts =>
      ∃ us, ts = listOf head us ∧ D us := by
  obtain ⟨us, hprint, hlegible, hus⟩ := h
  refine ⟨listOf head us, fun rest => ?_, fun t ht => ?_, us, rfl, hus⟩
  · show .lparen :: .symbol head :: print (.rparen :: rest) = _
    rw [hprint, listOf, List.cons_append, List.cons_append, List.append_assoc]
    rfl
  · simp only [listOf, List.mem_cons, List.mem_append, List.not_mem_nil, or_false] at ht
    rcases ht with rfl | rfl | ht | rfl
    · rfl
    · exact hhead
    · exact hlegible t ht
    · rfl

end Token

open Token

/-! ## Types -/

namespace Ty

/-- The variables of the type are names that a source may use for them. -/
def Readable (A : Ty) : Prop :=
  ∀ x, A.occurs x = true → ∃ s, x = .named s ∧ Cursor.isName s = true ∧ s ∉ ["nat", "bool"]

theorem ofSymbol_of_not_mem {s : String} (h : s ∉ ["nat", "bool"]) :
    ofSymbol s = .var (.named s) := by
  unfold ofSymbol
  split
  · exact absurd h (by decide)
  · exact absurd h (by decide)
  · rfl

/-- The tokens of a type derive it, by itself and as the last part of an arrow. -/
theorem prints {A : Ty} (hA : A.Readable) :
    Prints (A.tokensThen false) (Derives .whole · A) ∧
      Prints (A.tokensThen true) (Derives .codomain · A) := by
  have hlast : ∀ {A : Ty}, Prints (A.tokensThen false) (Derives .whole · A) →
      Prints (A.tokensThen false) (Derives .codomain · A) := fun h => h.imp fun _ => .last
  induction A with
  | nat =>
    have hnat : Prints (Ty.nat.tokensThen false) (Derives .whole · .nat) :=
      prints_token (by decide) (.symbol "nat")
    exact ⟨hnat, hlast hnat⟩
  | bool =>
    have hbool : Prints (Ty.bool.tokensThen false) (Derives .whole · .bool) :=
      prints_token (by decide) (.symbol "bool")
    exact ⟨hbool, hlast hbool⟩
  | var x =>
    obtain ⟨s, rfl, hname, hs⟩ := hA x (decide_eq_true rfl)
    have hvar :
        Prints ((Ty.var (.named s)).tokensThen false) (Derives .whole · (.var (.named s))) :=
      prints_token hname (ofSymbol_of_not_mem hs ▸ .symbol s)
    exact ⟨hvar, hlast hvar⟩
  | arrow a b iha ihb =>
    obtain ⟨ha, -⟩ := iha fun x hx => hA x (Bool.or_eq_true_iff.mpr (.inl hx))
    obtain ⟨-, hb⟩ := ihb fun x hx => hA x (Bool.or_eq_true_iff.mpr (.inr hx))
    constructor
    · refine ((ha.append hb).list (by decide)).imp ?_
      rintro _ ⟨_, rfl, ts, us, rfl, hts, hus⟩
      exact .arrow hts hus
    · refine (ha.append hb).imp ?_
      rintro _ ⟨ts, us, rfl, hts, hus⟩
      exact .more hts hus
  | prod a b iha ihb =>
    obtain ⟨ha, -⟩ := iha fun x hx => hA x (Bool.or_eq_true_iff.mpr (.inl hx))
    obtain ⟨hb, -⟩ := ihb fun x hx => hA x (Bool.or_eq_true_iff.mpr (.inr hx))
    have hprod : Prints ((Ty.prod a b).tokensThen false) (Derives .whole · (.prod a b)) := by
      refine ((ha.append hb).list (by decide)).imp ?_
      rintro _ ⟨_, rfl, ts, us, rfl, hts, hus⟩
      exact .prod hts hus
    exact ⟨hprod, hlast hprod⟩

end Ty

/-! ## Terms -/

namespace Term

/-- `u` is the term or a part of it. -/
inductive Part (u : Term) : Term → Prop
  | self : Part u u
  | body {b : Term} : Part u b → Part u (.lam b)
  | fn {f a : Term} : Part u f → Part u (.app f a)
  | arg {f a : Term} : Part u a → Part u (.app f a)
  | left {a b : Term} : Part u a → Part u (.pair a b)
  | right {a b : Term} : Part u b → Part u (.pair a b)
  | fst {p : Term} : Part u p → Part u (.fst p)
  | snd {p : Term} : Part u p → Part u (.snd p)
  | condition {c t e : Term} : Part u c → Part u (.cond c t e)
  | thenBranch {c t e : Term} : Part u t → Part u (.cond c t e)
  | elseBranch {c t e : Term} : Part u e → Part u (.cond c t e)
  | succ {t : Term} : Part u t → Part u (.succ t)
  | base {b s n : Term} : Part u b → Part u (.natRec b s n)
  | step {b s n : Term} : Part u s → Part u (.natRec b s n)
  | scrutinee {b s n : Term} : Part u n → Part u (.natRec b s n)

theorem Part.succs {u t : Term} (h : Part u t) (n : Nat) : Part u (succs n t) := by
  induction n generalizing t with
  | zero => exact h
  | succ n ih => exact ih h.succ

/-- What is in the term can be written: its constants are names that a source may use for them, its
indices are machine numbers and its numerals are within the limit. -/
structure Readable (t : Term) : Prop where
  constants : ∀ x, Part (.fvar x) t →
    ∃ s, x = .named s ∧ Cursor.isName s = true ∧ s ∉ ["true", "false", "zero"]
  indices : ∀ i, Part (.bvar i) t → i < indexLimit
  numerals : ∀ n, Part (numeral n) t → n ≤ maxNumeral

/-- Whatever has no parts but those of a readable term is readable. -/
theorem Readable.of_parts {t u : Term} (h : t.Readable) (hparts : ∀ v, Part v u → Part v t) :
    u.Readable where
  constants x hx := h.constants x (hparts _ hx)
  indices i hi := h.indices i (hparts _ hi)
  numerals n hn := h.numerals n (hparts _ hn)

theorem ofSymbol_of_not_mem {s : String} (h : s ∉ ["true", "false", "zero"]) :
    ofSymbol s = .fvar (.named s) := by
  unfold ofSymbol
  split
  · exact absurd h (by decide)
  · exact absurd h (by decide)
  · exact absurd h (by decide)
  · rfl

/-! ### Successors and operands -/

theorem closing_rparen (n : Nat) (rest : List Token) :
    withinSuccs.closing n (.rparen :: rest) = .rparen :: withinSuccs.closing n rest := by
  induction n generalizing rest with
  | zero => rfl
  | succ n ih => exact ih (.rparen :: rest)

theorem prints_withinSuccs {inner : List Token → List Token} {t : Term}
    (h : Prints inner (Derives .whole · t)) (n : Nat) :
    Prints (withinSuccs n inner) (Derives .whole · (succs n t)) := by
  induction n generalizing inner t with
  | zero => exact h
  | succ n ih =>
    have hsucc : Prints (fun rest => .lparen :: .symbol "succ" :: inner (.rparen :: rest))
        (Derives .whole · (.succ t)) := by
      refine (h.list (by decide)).imp ?_
      rintro _ ⟨ts, rfl, hts⟩
      exact .succ hts
    obtain ⟨ts, hprint, hts⟩ := ih hsucc
    refine ⟨ts, fun rest => ?_, hts⟩
    rw [← hprint]
    show withinSuccs.opening n (.lparen :: .symbol "succ" ::
      inner (withinSuccs.closing n (.rparen :: rest))) = _
    rw [closing_rparen]
    rfl

/-- One more operand. -/
theorem Derives.operand_last {fn f a : Term} {ts us : List Token} (hf : Derives (.operands fn) ts f)
    (ha : Derives .whole us a) : Derives (.operands fn) (ts ++ us) (.app f a) := by
  generalize hp : Phrase.operands fn = p at hf
  induction hf generalizing fn with
  | none f =>
    cases hp
    rw [List.nil_append, ← List.append_nil us]
    exact .operand ha (.none _)
  | operand hb _ _ ih =>
    cases hp
    rw [List.append_assoc]
    exact .operand hb (ih rfl)
  | _ => cases hp

/-- An application whose function is a head with some operands. -/
theorem Derives.application {head f a : Term} {ts us vs : List Token}
    (hhead : Derives .whole ts head) (hf : Derives (.operands head) us f)
    (ha : Derives .whole vs a) : Derives .whole (listOf "app" (ts ++ us ++ vs)) (.app f a) := by
  rw [List.append_assoc]
  cases hf with
  | none =>
    rw [List.nil_append, ← List.append_nil vs]
    exact .app hhead ha (.none _)
  | operand hb hrest =>
    rw [List.append_assoc]
    exact .app hhead hb (hrest.operand_last ha)

/-- The tokens begin with a head and go on with its operands up to the term. -/
def Spine (t : Term) (ts : List Token) : Prop :=
  ∃ head us vs, ts = us ++ vs ∧ Derives .whole us head ∧ Derives (.operands head) vs t

theorem Spine.of_derives {t : Term} {ts : List Token} (h : Derives .whole ts t) : Spine t ts :=
  ⟨t, ts, [], (List.append_nil ts).symm, h, .none t⟩

/-! ### Printing -/

/-- Terms that are no applications print alike everywhere, but for the successors around them. -/
theorem prints_of_inner {inner : List Token → List Token} {t : Term}
    (h : t.Readable → Prints inner (Derives .whole · t)) :
    (∀ chain, (succs chain t).Readable →
      Prints (withinSuccs chain inner) (Derives .whole · (succs chain t))) ∧
    (t.Readable → Prints inner (Spine t)) := by
  constructor
  · intro chain hchain
    exact prints_withinSuccs (h (hchain.of_parts fun _ hv => hv.succs chain)) chain
  · intro ht
    exact (h ht).imp fun _ => .of_derives

/-- The tokens of a term derive it, under successors and as the head of an application. -/
theorem prints (t : Term) :
    (∀ chain, (succs chain t).Readable →
      Prints (t.tokensThen false chain) (Derives .whole · (succs chain t))) ∧
    (t.Readable → Prints (t.tokensThen true 0) (Spine t)) := by
  induction t with
  | fvar x =>
    refine prints_of_inner fun h => ?_
    obtain ⟨s, rfl, hname, hs⟩ := h.constants x .self
    exact prints_token hname (ofSymbol_of_not_mem hs ▸ .symbol s)
  | bvar i =>
    exact prints_of_inner fun h =>
      prints_token (decide_eq_true (h.indices i .self)) (.index i)
  | tt => exact prints_of_inner fun _ => prints_token (by decide) (.symbol "true")
  | ff => exact prints_of_inner fun _ => prints_token (by decide) (.symbol "false")
  | zero =>
    constructor
    · intro chain h
      cases chain with
      | zero => exact prints_token (by decide) (.symbol "zero")
      | succ n =>
        have hn : n + 1 ≤ maxNumeral := h.numerals (n + 1) .self
        have hint : (Token.int (n + 1)).legible = true :=
          decide_eq_true (Nat.lt_of_le_of_lt hn (by decide))
        refine ((prints_token hint rfl).list (by decide)).imp ?_
        rintro _ ⟨_, rfl, rfl⟩
        exact .numeral hn
    · intro _
      exact prints_token (by decide) (.of_derives (.symbol "zero"))
  | succ t ih =>
    refine ⟨fun chain h => ih.1 (chain + 1) h, fun h => ?_⟩
    exact (ih.1 1 h).imp fun _ => .of_derives
  | lam b ih =>
    refine prints_of_inner fun h => ?_
    have hb := ih.1 0 (h.of_parts fun _ => .body)
    refine (hb.list (by decide)).imp ?_
    rintro _ ⟨ts, rfl, hts⟩
    exact .lam hts
  | fst p ih =>
    refine prints_of_inner fun h => ?_
    have hp := ih.1 0 (h.of_parts fun _ => .fst)
    refine (hp.list (by decide)).imp ?_
    rintro _ ⟨ts, rfl, hts⟩
    exact .fst hts
  | snd p ih =>
    refine prints_of_inner fun h => ?_
    have hp := ih.1 0 (h.of_parts fun _ => .snd)
    refine (hp.list (by decide)).imp ?_
    rintro _ ⟨ts, rfl, hts⟩
    exact .snd hts
  | pair a b iha ihb =>
    refine prints_of_inner fun h => ?_
    have ha := iha.1 0 (h.of_parts fun _ => .left)
    have hb := ihb.1 0 (h.of_parts fun _ => .right)
    refine ((ha.append hb).list (by decide)).imp ?_
    rintro _ ⟨_, rfl, ts, us, rfl, hts, hus⟩
    exact .pair hts hus
  | cond c t e ihc iht ihe =>
    refine prints_of_inner fun h => ?_
    have hc := ihc.1 0 (h.of_parts fun _ => .condition)
    have ht := iht.1 0 (h.of_parts fun _ => .thenBranch)
    have he := ihe.1 0 (h.of_parts fun _ => .elseBranch)
    refine ((hc.append (ht.append he)).list (by decide)).imp ?_
    rintro _ ⟨_, rfl, ts, _, rfl, hts, us, vs, rfl, hus, hvs⟩
    exact .cond hts hus hvs
  | natRec b s n ihb ihs ihn =>
    refine prints_of_inner fun h => ?_
    have hb := ihb.1 0 (h.of_parts fun _ => .base)
    have hs := ihs.1 0 (h.of_parts fun _ => .step)
    have hn := ihn.1 0 (h.of_parts fun _ => .scrutinee)
    refine ((hb.append (hs.append hn)).list (by decide)).imp ?_
    rintro _ ⟨_, rfl, ts, _, rfl, hts, us, vs, rfl, hus, hvs⟩
    exact .natRec hts hus hvs
  | app f a ihf iha =>
    -- an open list takes the argument only; the head is what the spine of `f` begins with
    have hparts : ∀ {u : Term}, u.Readable → (∀ v, Part v (.app f a) → Part v u) →
        Prints (fun rest => f.tokensThen true 0 (a.tokensThen false 0 rest)) fun ts =>
          ∃ us vs, ts = us ++ vs ∧ Spine f us ∧ Derives .whole vs a := fun h hu =>
      (ihf.2 (h.of_parts fun v hv => hu v hv.fn)).append
        (iha.1 0 (h.of_parts fun v hv => hu v hv.arg))
    constructor
    · intro chain h
      show Prints (withinSuccs chain fun rest => .lparen :: .symbol "app" ::
        f.tokensThen true 0 (a.tokensThen false 0 (.rparen :: rest))) _
      refine prints_withinSuccs ?_ chain
      refine ((hparts h fun _ hv => hv.succs chain).list (by decide)).imp ?_
      rintro _ ⟨_, rfl, _, ws, rfl, ⟨head, us, vs, rfl, hhead, hf⟩, ha⟩
      exact hhead.application hf ha
    · intro h
      refine (hparts h fun _ => id).imp ?_
      rintro _ ⟨_, ws, rfl, ⟨head, us, vs, rfl, hhead, hf⟩, ha⟩
      exact ⟨head, us, vs ++ ws, List.append_assoc .., hhead, hf.operand_last ha⟩

end Term

/-- A readable type is read from its own text. -/
theorem Ty.ofString?_toString {A : Ty} (hA : A.Readable) : Ty.ofString? (toString A) = .ok A := by
  obtain ⟨⟨ts, hprint, hlegible, hts⟩, -⟩ := Ty.prints hA
  have htokens : A.tokens = ts := by rw [Ty.tokens, hprint, List.append_nil]
  refine Ty.ofString?_of_derives (Cursor.spells_layout ?_) (htokens ▸ hts)
  rw [htokens]
  exact hlegible

/-- A readable term is read from its own text. -/
theorem Term.ofString?_toString {t : Term} (ht : t.Readable) :
    Term.ofString? (toString t) = .ok t := by
  obtain ⟨ts, hprint, hlegible, hts⟩ := t.prints.1 0 ht
  have htokens : t.tokens = ts := by rw [Term.tokens, hprint, List.append_nil]
  refine Term.ofString?_of_derives (Cursor.spells_layout ?_) (htokens ▸ hts)
  rw [htokens]
  exact hlegible

/-- **Reading undoes printing.** A type whose variables are names that a source may use is read
from its own text, and so is a term with such constants and with numerals within the limit. -/
theorem read_print :
    (∀ A : Ty, A.Readable → Ty.ofString? (toString A) = .ok A) ∧
      ∀ t : Term, t.Readable → Term.ofString? (toString t) = .ok t :=
  ⟨fun _ => Ty.ofString?_toString, fun _ => Term.ofString?_toString⟩

/-- Variables and constants may be called like the heads of lists. -/
theorem read_print_heads :
    ∃ A, A = Ty.arrow (.prod (.var (.named "->")) .nat) (.arrow (.var (.named "B")) .bool) ∧
      A.Readable ∧ Ty.ofString? (toString A) = .ok A ∧
    ∃ t, t = Term.app (.app (.fvar (.named "rec")) (.bvar 0)) (.succ .zero) ∧
      t.Readable ∧ Term.ofString? (toString t) = .ok t := by
  refine ⟨_, rfl, ?_⟩
  generalize hA : Ty.arrow (.prod (.var (.named "->")) .nat) (.arrow (.var (.named "B")) .bool) = A
  have hA : A.Readable := by
    subst hA
    intro x hx
    simp only [Ty.occurs, Bool.or_false, Bool.or_eq_true, decide_eq_true_eq] at hx
    rcases hx with rfl | rfl
    · exact ⟨"->", rfl, by decide, by decide⟩
    · exact ⟨"B", rfl, by decide, by decide⟩
  refine ⟨hA, read_print.1 A hA, _, rfl, ?_⟩
  generalize ht : Term.app (.app (.fvar (.named "rec")) (.bvar 0)) (.succ .zero) = t
  have hparts : ∀ u, Term.Part u t → u ∈ [t, .app (.fvar (.named "rec")) (.bvar 0),
      .fvar (.named "rec"), .bvar 0, .succ .zero, .zero] := by
    subst ht
    intro u hu
    cases hu with
    | self => decide
    | fn hu =>
      cases hu with
      | self => decide
      | fn hu => cases hu; decide
      | arg hu => cases hu; decide
    | arg hu =>
      cases hu with
      | self => decide
      | succ hu => cases hu; decide
  have ht : t.Readable := by
    subst ht
    refine ⟨fun x hx => ?_, fun i hi => ?_, fun n hn => ?_⟩
    · obtain rfl : x = .named "rec" := by simpa using hparts _ hx
      exact ⟨"rec", rfl, by decide, by decide⟩
    · obtain rfl : i = 0 := by simpa using hparts _ hi
      decide
    · have hn := hparts _ hn
      rcases n with _ | _ | n
      · decide
      · decide
      · simp [Term.numeral, Term.succs_succ] at hn
  exact ⟨ht, read_print.2 t ht⟩

end SystemT
