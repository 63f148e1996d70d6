import SystemT.Proofs.Evaluation.Rules
import SystemT.Proofs.Reader.Accepted
import SystemT.Proofs.Reader.RoundTrip

/-!
# Reading again what was read

What was read has constants and indices that can be written again (`Term.Derives.legible`). Printing
writes a numeral as a single literal, however it was spelled, and a literal must not be above
`maxNumeral`. So a term that was read is read again from its own text if and only if its numerals
are within the limit (`Term.read_print_of_read`). The successor of the largest literal is a term
whose numeral is not (`Term.read_print_above_limit`).
-/

namespace SystemT

/-! ## Parts -/

namespace Term

/-- The terms that a term is made of at once. -/
def children : Term → List Term
  | fvar _ => []
  | bvar _ => []
  | lam b => [b]
  | app f a => [f, a]
  | pair a b => [a, b]
  | fst p => [p]
  | snd p => [p]
  | tt => []
  | ff => []
  | cond c t e => [c, t, e]
  | zero => []
  | succ t => [t]
  | natRec b s n => [b, s, n]

theorem Part.cases_children {u t : Term} (h : Part u t) : u = t ∨ ∃ s ∈ t.children, Part u s := by
  cases h with
  | self => exact .inl rfl
  | body h | fst h | snd h | succ h => exact .inr ⟨_, List.mem_singleton_self _, h⟩
  | fn h | left h | condition h | base h => exact .inr ⟨_, List.mem_cons_self, h⟩
  | arg h | right h | thenBranch h | step h =>
    exact .inr ⟨_, List.mem_cons_of_mem _ List.mem_cons_self, h⟩
  | elseBranch h | scrutinee h =>
    exact .inr ⟨_, List.mem_cons_of_mem _ (List.mem_cons_of_mem _ List.mem_cons_self), h⟩

end Term

/-! ## Literals within the limit -/

namespace Token

/-- No literal numeral in the list is above the limit. -/
def WithinLimit : List Token → Prop
  | .lparen :: .symbol "nat" :: .int n :: ts => n ≤ maxNumeral ∧ WithinLimit ts
  | _ :: ts => WithinLimit ts
  | [] => True

theorem withinLimit_literal {n : Nat} {ts : List Token} :
    WithinLimit (.lparen :: .symbol "nat" :: .int n :: ts) ↔ n ≤ maxNumeral ∧ WithinLimit ts :=
  Iff.rfl

theorem withinLimit_cons (t : Token) (ht : t ≠ .lparen) {ts : List Token} :
    WithinLimit (t :: ts) ↔ WithinLimit ts := by
  rw [WithinLimit]
  rintro n us rfl
  exact absurd rfl ht

theorem withinLimit_rparen {ts : List Token} : WithinLimit (.rparen :: ts) ↔ WithinLimit ts :=
  withinLimit_cons .rparen nofun

theorem withinLimit_head {head : String} (hhead : head ≠ "nat") {ts : List Token} :
    WithinLimit (.lparen :: .symbol head :: ts) ↔ WithinLimit ts := by
  rw [WithinLimit, withinLimit_cons (.symbol head) nofun]
  rintro n us - hcons
  exact hhead (Token.symbol.inj (List.cons.inj hcons).1)

theorem withinLimit_listOf {head : String} (hhead : head ≠ "nat") {ts rest : List Token} :
    WithinLimit (listOf head ts ++ rest) ↔ WithinLimit (ts ++ (.rparen :: rest)) := by
  rw [listOf, List.cons_append, List.cons_append, List.append_assoc, withinLimit_head hhead]
  rfl

end Token

open Token

namespace Term

/-- The grammar keeps literals within the limit. -/
theorem Derives.withinLimit {p : Phrase} {ts : List Token} {t : Term} (h : Derives p ts t)
    (rest : List Token) : Token.WithinLimit (ts ++ rest) ↔ Token.WithinLimit rest := by
  induction h generalizing rest with
  | index i => exact withinLimit_cons (.int i) nofun
  | symbol s => exact withinLimit_cons (.symbol s) nofun
  | lam _ ih | fst _ ih | snd _ ih | succ _ ih =>
    rw [withinLimit_listOf (by decide), ih, withinLimit_rparen]
  | pair _ _ iha ihb =>
    rw [withinLimit_listOf (by decide), List.append_assoc, iha, ihb, withinLimit_rparen]
  | app _ _ _ iha ihb ihc | cond _ _ _ iha ihb ihc | natRec _ _ _ iha ihb ihc =>
    rw [withinLimit_listOf (by decide), List.append_assoc, List.append_assoc, iha, ihb, ihc,
      withinLimit_rparen]
  | @numeral n hn =>
    show Token.WithinLimit (.lparen :: .symbol "nat" :: .int n :: .rparen :: rest) ↔ _
    rw [withinLimit_literal, withinLimit_rparen]
    exact and_iff_right hn
  | none => exact Iff.rfl
  | operand _ _ iha ihb => rw [List.append_assoc, iha, ihb]

/-! ### The numerals of a term -/

/-- No numeral in the term is above the limit. -/
def WithinLimit (t : Term) : Prop := ∀ n, Part (numeral n) t → n ≤ maxNumeral

theorem numeral_injective {k n : Nat} (h : numeral k = numeral n) : k = n := by
  have hk := (asNumeral?_eq_some_iff _ k).mpr rfl
  rw [h, (asNumeral?_eq_some_iff _ n).mpr rfl] at hk
  exact (Option.some.inj hk).symm

/-- The numerals in a numeral are the smaller ones. -/
theorem part_numeral_le {k n : Nat} (h : Part (numeral k) (numeral n)) : k ≤ n := by
  generalize hk : numeral k = u at h
  induction n with
  | zero =>
    cases h
    exact Nat.le_of_eq (numeral_injective hk)
  | succ n ih =>
    rw [numeral_succ] at h
    cases h with
    | self => exact Nat.le_of_eq (numeral_injective (hk.trans (numeral_succ n).symm))
    | succ h => exact Nat.le_succ_of_le (ih h)

theorem ne_numeral {t : Term} (ht : t.asNumeral? = .none) (k : Nat) : t ≠ numeral k := by
  intro h
  rw [(asNumeral?_eq_some_iff t k).mpr h] at ht
  cases ht

/-- A term that is no numeral has the numerals of what it is made of. -/
theorem WithinLimit.of_children {t : Term} (ht : ∀ k, t ≠ numeral k)
    (h : ∀ s ∈ t.children, s.WithinLimit) : t.WithinLimit := by
  intro n hn
  rcases hn.cases_children with hself | ⟨s, hs, hpart⟩
  · exact absurd hself.symm (ht n)
  · exact h s hs n hpart

/-- Successors over a term that is no numeral make up no numeral. -/
theorem WithinLimit.succs {t : Term} (ht : ∀ k, t ≠ numeral k) (h : t.WithinLimit) (n : Nat) :
    (succs n t).WithinLimit := by
  induction n generalizing t with
  | zero => exact h
  | succ n ih =>
    have hsucc : ∀ k, Term.succ t ≠ numeral k := by
      intro k hk
      cases k with
      | zero => cases hk
      | succ k =>
        rw [numeral_succ] at hk
        exact ht k (Term.succ.inj hk)
    exact ih hsucc (.of_children hsucc (List.forall_mem_singleton.mpr h))

/-! ### Printed literals -/

/-- What is printed is within the limit only if `φ` holds and what follows is within the limit. -/
def Limits (print : List Token → List Token) (φ : Prop) : Prop :=
  ∀ rest, Token.WithinLimit (print rest) → φ ∧ Token.WithinLimit rest

section

variable {print print' : List Token → List Token} {φ ψ : Prop}

theorem Limits.imp (h : Limits print φ) (hφ : φ → ψ) : Limits print ψ := fun rest hrest =>
  (h rest hrest).imp_left hφ

theorem Limits.append (h : Limits print φ) (h' : Limits print' ψ) :
    Limits (fun rest => print (print' rest)) (φ ∧ ψ) := by
  intro rest hrest
  obtain ⟨hφ, hprint'⟩ := h _ hrest
  obtain ⟨hψ, hrest⟩ := h' rest hprint'
  exact ⟨⟨hφ, hψ⟩, hrest⟩

theorem Limits.list (h : Limits print φ) {head : String} (hhead : head ≠ "nat") :
    Limits (fun rest => .lparen :: .symbol head :: print (.rparen :: rest)) φ := by
  intro rest hrest
  exact (h _ ((withinLimit_head hhead).mp hrest)).imp_right withinLimit_rparen.mp

theorem limits_token {t : Token} (ht : t ≠ .lparen) (h : φ) : Limits (t :: ·) φ := fun _ hrest =>
  ⟨h, (withinLimit_cons t ht).mp hrest⟩

theorem Limits.withinSuccs (h : Limits print φ) (n : Nat) : Limits (withinSuccs n print) φ := by
  induction n generalizing print with
  | zero => exact h
  | succ n ih =>
    intro rest hrest
    have hsucc : Limits (fun rest => .lparen :: .symbol "succ" :: print (.rparen :: rest)) φ :=
      h.list (by decide)
    refine ih hsucc rest ?_
    show Token.WithinLimit (withinSuccs.opening n (.lparen :: .symbol "succ" ::
      print (.rparen :: withinSuccs.closing n rest)))
    rw [← closing_rparen]
    exact hrest

end

/-- Terms that are neither numerals nor applications are printed alike everywhere, but for the
successors around them. -/
theorem limits_of_inner {inner : List Token → List Token} {t : Term} (ht : t.asNumeral? = .none)
    (h : Limits inner (∀ s ∈ t.children, s.WithinLimit)) :
    (∀ chain, Limits (withinSuccs chain inner) (succs chain t).WithinLimit) ∧
      Limits inner t.WithinLimit := by
  have ht' : Limits inner t.WithinLimit := h.imp (.of_children (ne_numeral ht))
  exact ⟨fun chain => (ht'.withinSuccs chain).imp fun hlimit => hlimit.succs (ne_numeral ht) chain,
    ht'⟩

/-- The numerals of a term are printed, under successors and in the head of an application. -/
theorem limits (t : Term) :
    (∀ chain, Limits (t.tokensThen false chain) (succs chain t).WithinLimit) ∧
      Limits (t.tokensThen true 0) t.WithinLimit := by
  induction t with
  | fvar | bvar | tt | ff => exact limits_of_inner rfl (limits_token nofun nofun)
  | zero =>
    have hzero : (numeral 0).WithinLimit := fun n hn =>
      Nat.le_trans (part_numeral_le hn) (Nat.zero_le _)
    constructor
    · intro chain
      cases chain with
      | zero => exact limits_token nofun hzero
      | succ n =>
        intro rest hrest
        obtain ⟨hn, hrest⟩ := withinLimit_literal.mp hrest
        exact ⟨fun k hk => Nat.le_trans (part_numeral_le hk) hn, withinLimit_rparen.mp hrest⟩
    · exact limits_token nofun hzero
  | succ t ih => exact ⟨fun chain => ih.1 (chain + 1), ih.1 1⟩
  | lam b ih | fst p ih | snd p ih =>
    exact limits_of_inner rfl (((ih.1 0).list (by decide)).imp List.forall_mem_singleton.mpr)
  | pair a b iha ihb =>
    refine limits_of_inner rfl ((((iha.1 0).append (ihb.1 0)).list (by decide)).imp ?_)
    rintro ⟨ha, hb⟩
    exact List.forall_mem_cons.mpr ⟨ha, List.forall_mem_singleton.mpr hb⟩
  | cond a b c iha ihb ihc | natRec a b c iha ihb ihc =>
    refine limits_of_inner rfl
      ((((iha.1 0).append ((ihb.1 0).append (ihc.1 0))).list (by decide)).imp ?_)
    rintro ⟨ha, hb, hc⟩
    exact List.forall_mem_cons.mpr
      ⟨ha, List.forall_mem_cons.mpr ⟨hb, List.forall_mem_singleton.mpr hc⟩⟩
  | app f a ihf iha =>
    -- an open list takes the argument only; the head is in the spine of `f`
    have hspine : Limits (fun rest => f.tokensThen true 0 (a.tokensThen false 0 rest))
        (∀ s ∈ (app f a).children, s.WithinLimit) := by
      refine (ihf.2.append (iha.1 0)).imp ?_
      rintro ⟨hf, ha⟩
      exact List.forall_mem_cons.mpr ⟨hf, List.forall_mem_singleton.mpr ha⟩
    have happ : Limits (fun rest => .lparen :: .symbol "app" ::
        f.tokensThen true 0 (a.tokensThen false 0 (.rparen :: rest)))
        (∀ s ∈ (app f a).children, s.WithinLimit) := hspine.list (by decide)
    exact ⟨(limits_of_inner rfl happ).1, (limits_of_inner rfl hspine).2⟩

/-! ### Constants and indices -/

/-- The constants and the indices of the term can be written: the constants are names that a source
may use for them, and the indices are machine numbers. -/
structure Legible (t : Term) : Prop where
  constants : ∀ x, Part (.fvar x) t →
    ∃ s, x = .named s ∧ Cursor.isName s = true ∧ s ∉ ["true", "false", "zero"]
  indices : ∀ i, Part (.bvar i) t → i < indexLimit

theorem Legible.readable {t : Term} (h : t.Legible) (h' : t.WithinLimit) : t.Readable :=
  ⟨h.constants, h.indices, h'⟩

/-- A list has the constants and indices of what it is made of. -/
theorem Legible.of_children {t : Term} (hfvar : ∀ x, .fvar x ≠ t) (hbvar : ∀ i, .bvar i ≠ t)
    (h : ∀ s ∈ t.children, s.Legible) : t.Legible where
  constants x hx := by
    rcases hx.cases_children with hself | ⟨s, hs, hpart⟩
    · exact absurd hself (hfvar x)
    · exact (h s hs).constants x hpart
  indices i hi := by
    rcases hi.cases_children with hself | ⟨s, hs, hpart⟩
    · exact absurd hself (hbvar i)
    · exact (h s hs).indices i hpart

theorem legible_numeral (n : Nat) : (numeral n).Legible := by
  induction n with
  | zero => exact .of_children nofun nofun nofun
  | succ n ih =>
    rw [numeral_succ]
    exact .of_children nofun nofun (List.forall_mem_singleton.mpr ih)

theorem legible_ofSymbol {s : String} (hs : Cursor.isName s = true) : (ofSymbol s).Legible := by
  unfold ofSymbol
  split
  · exact .of_children nofun nofun nofun
  · exact .of_children nofun nofun nofun
  · exact .of_children nofun nofun nofun
  · next htrue hfalse hzero =>
    constructor
    · intro x hx
      cases hx
      exact ⟨s, rfl, hs, by simpa using ⟨htrue, hfalse, hzero⟩⟩
    · intro i hi
      cases hi

/-- What derives from tokens that can be read has constants and indices that can be written. -/
theorem Derives.legible {p : Phrase} {ts : List Token} {t : Term} (h : Derives p ts t)
    (hts : ∀ u ∈ ts, u.legible = true) :
    match p with
    | .whole => t.Legible
    | .operands fn => fn.Legible → t.Legible := by
  have hlist : ∀ {head ts}, (∀ u ∈ listOf head ts, u.legible = true) →
      ∀ u ∈ ts, u.legible = true := fun hts u hu =>
    hts u (List.mem_cons_of_mem _ (List.mem_cons_of_mem _ (List.mem_append_left _ hu)))
  induction h with
  | index i =>
    constructor
    · intro x hx
      cases hx
    · intro j hj
      cases hj
      exact of_decide_eq_true (hts _ List.mem_cons_self)
  | symbol s => exact legible_ofSymbol (hts _ List.mem_cons_self)
  | lam _ ih | fst _ ih | snd _ ih | succ _ ih =>
    exact .of_children nofun nofun (List.forall_mem_singleton.mpr (ih (hlist hts)))
  | pair _ _ iha ihb =>
    obtain ⟨hts, hus⟩ := List.forall_mem_append.mp (hlist hts)
    exact .of_children nofun nofun
      (List.forall_mem_cons.mpr ⟨iha hts, List.forall_mem_singleton.mpr (ihb hus)⟩)
  | cond _ _ _ iha ihb ihc | natRec _ _ _ iha ihb ihc =>
    obtain ⟨hts, hus⟩ := List.forall_mem_append.mp (hlist hts)
    obtain ⟨hus, hvs⟩ := List.forall_mem_append.mp hus
    exact .of_children nofun nofun (List.forall_mem_cons.mpr
      ⟨iha hts, List.forall_mem_cons.mpr ⟨ihb hus, List.forall_mem_singleton.mpr (ihc hvs)⟩⟩)
  | app _ _ _ ihf iha iht =>
    obtain ⟨hts, hus⟩ := List.forall_mem_append.mp (hlist hts)
    obtain ⟨hus, hvs⟩ := List.forall_mem_append.mp hus
    exact iht hvs (.of_children nofun nofun
      (List.forall_mem_cons.mpr ⟨ihf hts, List.forall_mem_singleton.mpr (iha hus)⟩))
  | numeral => exact legible_numeral _
  | none fn => exact id
  | operand _ _ iha iht =>
    intro hfn
    obtain ⟨hts, hus⟩ := List.forall_mem_append.mp hts
    exact iht hus (.of_children nofun nofun
      (List.forall_mem_cons.mpr ⟨hfn, List.forall_mem_singleton.mpr (iha hts)⟩))

/-! ### Printed symbols -/

/-- All symbols among the tokens are names. -/
def Names (ts : List Token) : Prop := ∀ s, .symbol s ∈ ts → Cursor.isName s = true

theorem names_cons (t : Token) (ht : ∀ s, t ≠ .symbol s) {ts : List Token} :
    Names (t :: ts) ↔ Names ts := by
  refine forall_congr' fun s => ?_
  rw [List.mem_cons, or_iff_right (Ne.symm (ht s))]

theorem names_symbol {s : String} (hs : Cursor.isName s = true) {ts : List Token} (h : Names ts) :
    Names (.symbol s :: ts) := by
  intro r hr
  rcases List.mem_cons.mp hr with hr | hr
  · rw [Token.symbol.inj hr]
    exact hs
  · exact h r hr

/-- What is printed has names for its symbols if what follows has. -/
def KeepsNames (print : List Token → List Token) : Prop := ∀ rest, Names rest → Names (print rest)

section

variable {print : List Token → List Token}

theorem KeepsNames.list (h : KeepsNames print) {head : String} (hhead : Cursor.isName head = true) :
    KeepsNames fun rest => .lparen :: .symbol head :: print (.rparen :: rest) := fun _ hrest =>
  (names_cons .lparen nofun).mpr (names_symbol hhead (h _ ((names_cons .rparen nofun).mpr hrest)))

theorem KeepsNames.withinSuccs (h : KeepsNames print) (n : Nat) :
    KeepsNames (withinSuccs n print) := by
  have hclosing : ∀ n, KeepsNames (withinSuccs.closing n) := by
    intro n
    induction n with
    | zero => exact fun _ hrest => hrest
    | succ n ih => exact fun rest hrest => ih _ ((names_cons .rparen nofun).mpr hrest)
  have hopening : ∀ n, KeepsNames (withinSuccs.opening n) := by
    intro n
    induction n with
    | zero => exact fun _ hrest => hrest
    | succ n ih =>
      intro rest hrest
      exact ih _ ((names_cons .lparen nofun).mpr (names_symbol (by decide) hrest))
  exact fun rest hrest => hopening n _ (h _ (hclosing n rest hrest))

end

/-- If the constants of a term are names, then all symbols that it is printed with are. -/
theorem keepsNames {t : Term} (ht : ∀ x, Part (.fvar x) t → Cursor.isName (toString x) = true)
    (inSpine : Bool) (chain : Nat) : KeepsNames (t.tokensThen inSpine chain) := by
  induction t generalizing inSpine chain with
  | fvar x => exact .withinSuccs (fun _ => names_symbol (ht x .self)) chain
  | bvar i => exact .withinSuccs (fun _ => (names_cons (.int i) nofun).mpr) chain
  | tt | ff => exact .withinSuccs (fun _ => names_symbol (by decide)) chain
  | zero =>
    cases chain with
    | zero => exact fun _ => names_symbol (by decide)
    | succ n => exact .list (fun _ => (names_cons (.int (n + 1)) nofun).mpr) (by decide)
  | succ t ih => exact ih (fun x hx => ht x hx.succ) false (chain + 1)
  | lam b ih => exact .withinSuccs (.list (ih (fun x hx => ht x hx.body) _ _) (by decide)) chain
  | fst p ih => exact .withinSuccs (.list (ih (fun x hx => ht x hx.fst) _ _) (by decide)) chain
  | snd p ih => exact .withinSuccs (.list (ih (fun x hx => ht x hx.snd) _ _) (by decide)) chain
  | pair a b iha ihb =>
    have ha := iha fun x hx => ht x hx.left
    have hb := ihb fun x hx => ht x hx.right
    exact .withinSuccs (.list (fun rest hrest => ha _ _ _ (hb _ _ rest hrest)) (by decide)) chain
  | cond c t e ihc iht ihe =>
    have hc := ihc fun x hx => ht x hx.condition
    have ht' := iht fun x hx => ht x hx.thenBranch
    have he := ihe fun x hx => ht x hx.elseBranch
    exact .withinSuccs
      (.list (fun rest hrest => hc _ _ _ (ht' _ _ _ (he _ _ rest hrest))) (by decide)) chain
  | natRec b s n ihb ihs ihn =>
    have hb := ihb fun x hx => ht x hx.base
    have hs := ihs fun x hx => ht x hx.step
    have hn := ihn fun x hx => ht x hx.scrutinee
    exact .withinSuccs
      (.list (fun rest hrest => hb _ _ _ (hs _ _ _ (hn _ _ rest hrest))) (by decide)) chain
  | app f a ihf iha =>
    have hspine : KeepsNames fun rest => f.tokensThen true 0 (a.tokensThen false 0 rest) :=
      fun rest hrest =>
        ihf (fun x hx => ht x hx.fn) _ _ _ (iha (fun x hx => ht x hx.arg) _ _ rest hrest)
    cases inSpine with
    | false => exact .withinSuccs (.list hspine (by decide)) chain
    | true => exact hspine

theorem Legible.names_tokens {t : Term} (ht : t.Legible) : Names t.tokens := by
  refine keepsNames (fun x hx => ?_) false 0 [] nofun
  obtain ⟨s, rfl, hs, -⟩ := ht.constants x hx
  exact hs

/-- **Reading again what was read.** A term that was read is read again from its own text if and
only if no numeral in it is above the limit; and nothing but the term is ever read from it. -/
theorem read_print_of_read {source : String} {t : Term} (h : Term.ofString? source = .ok t) :
    (Term.ofString? (toString t) = .ok t ↔ t.WithinLimit) ∧
      ∀ u, Term.ofString? (toString t) = .ok u → u = t := by
  obtain ⟨ts, hspells, hts⟩ := derives_of_ofString? h
  have hlegible : t.Legible := hts.legible (Cursor.spells_iff_splits.mp hspells).legible
  have hlimit : ∀ u, Term.ofString? (toString t) = .ok u → t.WithinLimit := by
    intro u hu
    obtain ⟨us, hspells, hus⟩ := derives_of_ofString? hu
    change Cursor.Spells ⟨(layout t.tokens).toList, 0⟩ us at hspells
    rw [toList_layout] at hspells
    obtain ⟨rfl, -⟩ := (Cursor.spells_chars_iff hlegible.names_tokens true 0 us).mp hspells
    have hwithin : Token.WithinLimit t.tokens := by
      rw [← List.append_nil t.tokens, hus.withinLimit []]
      trivial
    exact (t.limits.1 0 [] hwithin).1
  refine ⟨⟨hlimit t, fun ht => ofString?_toString (hlegible.readable ht)⟩, fun u hu => ?_⟩
  have hagain := ofString?_toString (hlegible.readable (hlimit u hu))
  exact Except.ok.inj (hu.symm.trans hagain)

/-- Legible tokens that stand for a term are read as this term once they are laid out. -/
theorem ofString?_of_layout {source : String} {ts : List Token} {t : Term}
    (h : Derives .whole ts t) (hts : ∀ t ∈ ts, t.legible = true) (hsource : layout ts = source) :
    ofString? source = .ok t :=
  hsource ▸ ofString?_of_derives (Cursor.spells_layout hts) h

/-- A literal and successors over it are read, and read again from what is printed. -/
theorem read_print_of_read_mixture :
    ∃ source t, source = "(pair (succ (nat 1)) (succ 0))" ∧
      t = pair (numeral 2) (succ (bvar 0)) ∧ ofString? source = .ok t ∧ t.WithinLimit ∧
      ofString? (toString t) = .ok t := by
  have hread : ofString? "(pair (succ (nat 1)) (succ 0))" =
      .ok (pair (numeral 2) (succ (bvar 0))) := by
    have hderives : Derives .whole (listOf "pair" (listOf "succ" (listOf "nat" [.int 1]) ++
        listOf "succ" [.int 0])) (pair (numeral 2) (succ (bvar 0))) :=
      .pair (.succ (.numeral (by decide))) (.succ (.index 0))
    exact ofString?_of_layout hderives (by decide) (by decide)
  have hlimit : (pair (numeral 2) (succ (bvar 0))).WithinLimit := by
    refine .of_children (ne_numeral rfl) (List.forall_mem_cons.mpr ⟨?_, ?_⟩)
    · exact fun n hn => Nat.le_trans (part_numeral_le hn) (by decide)
    · refine List.forall_mem_singleton.mpr (.of_children (ne_numeral rfl) ?_)
      exact List.forall_mem_singleton.mpr (.of_children (ne_numeral rfl) (List.forall_mem_nil _))
  exact ⟨_, _, rfl, rfl, hread, hlimit, (read_print_of_read hread).1.mpr hlimit⟩

/-- A numeral is printed as a literal, whatever its size. -/
theorem tokensThen_numeral (n : Nat) {chain : Nat} (h : chain + n ≠ 0) (rest : List Token) :
    (numeral n).tokensThen false chain rest =
      .lparen :: .symbol "nat" :: .int (chain + n) :: .rparen :: rest := by
  induction n generalizing chain with
  | zero =>
    rw [Nat.add_zero] at h ⊢
    show (if chain = 0 then _ else _) = _
    rw [if_neg h]
  | succ n ih =>
    rw [numeral_succ]
    show (numeral n).tokensThen false (chain + 1) rest = _
    rw [ih (by omega), Nat.add_assoc, Nat.add_comm 1]

theorem toString_succ_numeral (n : Nat) :
    toString (succ (numeral n)) = layout (listOf "nat" [.int (n + 1)]) := by
  show layout ((numeral n).tokensThen false 1 []) = _
  rw [tokensThen_numeral n (by omega), Nat.add_comm]
  rfl

/-- The successor of the largest literal is read, but what is printed for it is not. -/
theorem read_print_above_limit :
    ∃ source t, source = "(succ (nat 1048576))" ∧ ofString? source = .ok t ∧
      toString t = "(nat 1048577)" ∧
      ofString? (toString t) = .error ⟨.integerOutOfRange "1048577", ⟨5, 12⟩⟩ := by
  have hprint : toString (succ (numeral maxNumeral)) = "(nat 1048577)" := by
    rw [toString_succ_numeral]
    decide
  have hread : ofString? "(succ (nat 1048576))" = .ok (succ (numeral maxNumeral)) :=
    ofString?_of_layout (.succ (.numeral (Nat.le_refl maxNumeral))) (by decide) (by decide)
  refine ⟨_, _, rfl, hread, hprint, ?_⟩
  rw [hprint]
  rfl

end Term

end SystemT
