import SystemT.Proofs.Reader.Tokens
import SystemT.Reader.Form
import SystemT.Text.Bytes

/-!
# The grammar of types and terms

`Ty.Derives` and `Term.Derives` say which lists of tokens spell a type or a term. An arrow and an
application may have any number of parts, which are phrases of their own.

A reader is described by what it does to the tokens that are left (`Reader.Spells`): `Reader.Reads`
says that a computation takes some tokens, whatever follows them, and gives a certain result. What
the grammar derives is read in this sense, given enough fuel (`Reader.reads_ty`,
`Reader.reads_term`).
-/

namespace SystemT

/-! ## The grammar -/

/-- The tokens of a list that is headed by `head`. -/
def Token.listOf (head : String) (ts : List Token) : List Token :=
  .lparen :: .symbol head :: (ts ++ [.rparen])

theorem Token.length_listOf (head : String) (ts : List Token) :
    (Token.listOf head ts).length = ts.length + 3 := by
  simp [listOf]

namespace Ty

/-- What tokens may stand for within a type. -/
inductive Phrase where
  | whole
  /-- The parts of an arrow that are left, which make up one type. -/
  | codomain

/-- The tokens spell the type. -/
inductive Derives : Phrase → List Token → Ty → Prop
  | symbol (s : String) : Derives .whole [.symbol s] (.ofSymbol s)
  | arrow {ts us : List Token} {a b : Ty} : Derives .whole ts a → Derives .codomain us b →
    Derives .whole (Token.listOf "->" (ts ++ us)) (.arrow a b)
  | prod {ts us : List Token} {a b : Ty} : Derives .whole ts a → Derives .whole us b →
    Derives .whole (Token.listOf "*" (ts ++ us)) (.prod a b)
  | last {ts : List Token} {a : Ty} : Derives .whole ts a → Derives .codomain ts a
  | more {ts us : List Token} {a b : Ty} : Derives .whole ts a → Derives .codomain us b →
    Derives .codomain (ts ++ us) (.arrow a b)

end Ty

namespace Term

/-- What tokens may stand for within a term. -/
inductive Phrase where
  | whole
  /-- The operands that are left to the application of `fn`. -/
  | operands (fn : Term)

/-- The tokens spell the term. -/
inductive Derives : Phrase → List Token → Term → Prop
  | index (i : Nat) : Derives .whole [.int i] (.bvar i)
  | symbol (s : String) : Derives .whole [.symbol s] (.ofSymbol s)
  | lam {ts : List Token} {b : Term} : Derives .whole ts b →
    Derives .whole (Token.listOf "lam" ts) (.lam b)
  | app {ts us vs : List Token} {f a t : Term} : Derives .whole ts f → Derives .whole us a →
    Derives (.operands (.app f a)) vs t → Derives .whole (Token.listOf "app" (ts ++ (us ++ vs))) t
  | pair {ts us : List Token} {a b : Term} : Derives .whole ts a → Derives .whole us b →
    Derives .whole (Token.listOf "pair" (ts ++ us)) (.pair a b)
  | fst {ts : List Token} {p : Term} : Derives .whole ts p →
    Derives .whole (Token.listOf "fst" ts) (.fst p)
  | snd {ts : List Token} {p : Term} : Derives .whole ts p →
    Derives .whole (Token.listOf "snd" ts) (.snd p)
  | cond {ts us vs : List Token} {c t e : Term} : Derives .whole ts c → Derives .whole us t →
    Derives .whole vs e → Derives .whole (Token.listOf "if" (ts ++ (us ++ vs))) (.cond c t e)
  | succ {ts : List Token} {t : Term} : Derives .whole ts t →
    Derives .whole (Token.listOf "succ" ts) (.succ t)
  | numeral {n : Nat} : n ≤ maxNumeral → Derives .whole (Token.listOf "nat" [.int n]) (.numeral n)
  | natRec {ts us vs : List Token} {b s n : Term} : Derives .whole ts b → Derives .whole us s →
    Derives .whole vs n → Derives .whole (Token.listOf "rec" (ts ++ (us ++ vs))) (.natRec b s n)
  | none (fn : Term) : Derives (.operands fn) [] fn
  | operand {ts us : List Token} {fn a t : Term} : Derives .whole ts a →
    Derives (.operands (.app fn a)) us t → Derives (.operands fn) (ts ++ us) t

end Term

/-! ## Tokens left to a reader -/

namespace Reader

/-- The tokens that a reader has left are `ts`. -/
def Spells (r : Reader) (ts : List Token) : Prop :=
  match r.peeked with
  | none => r.cursor.Spells ts
  | some (t, _) => ∃ us, ts = t :: us ∧ r.cursor.Spells us

/-- The computation takes the tokens `ts`, whatever follows them, and its result is as `P` says. -/
def Reads {α : Type} (act : ReadM α) (ts : List Token) (P : α → Prop) : Prop :=
  ∀ r rest, r.Spells (ts ++ rest) → ∃ a r', act r = .ok a r' ∧ P a ∧ r'.Spells rest

variable {α β : Type} {act : ReadM α} {ts us : List Token} {P : α → Prop}

theorem reads_pure {a : α} (h : P a) : Reads (pure a) [] P := fun r _ hr => ⟨a, r, rfl, h, hr⟩

theorem reads_bind {next : α → ReadM β} {Q : β → Prop} (h : Reads act ts P)
    (hnext : ∀ a, P a → Reads (next a) us Q) : Reads (act >>= next) (ts ++ us) Q := by
  intro r rest hr
  rw [List.append_assoc] at hr
  obtain ⟨a, r', hact, ha, hr'⟩ := h r _ hr
  obtain ⟨b, r'', hb, hQ, hr''⟩ := hnext a ha r' rest hr'
  refine ⟨b, r'', ?_, hQ, hr''⟩
  rw [bind_of_ok hact]
  exact hb

/-- The same for a computation that takes a single token. -/
theorem reads_cons {t : Token} {next : α → ReadM β} {Q : β → Prop} (h : Reads act [t] P)
    (hnext : ∀ a, P a → Reads (next a) us Q) : Reads (act >>= next) (t :: us) Q :=
  reads_bind h hnext

theorem reads_map {a : α} (h : Reads act ts (· = a)) (f : α → β) :
    Reads (f <$> act) ts (· = f a) := by
  rw [← List.append_nil ts, map_eq_pure_bind]
  refine reads_bind h fun b hb => reads_pure ?_
  rw [hb]

theorem reads_seq {fn : ReadM (α → β)} {f : α → β} {a : α} (hf : Reads fn ts (· = f))
    (ha : Reads act us (· = a)) : Reads (fn <*> act) (ts ++ us) (· = f a) := by
  rw [seq_eq_bind_map]
  refine reads_bind hf ?_
  rintro f rfl
  exact reads_map ha f

theorem reads_next (t : Token) : Reads next [t] (·.1 = t) := by
  rintro ⟨cursor, size, peeked, lastStop⟩ rest hr
  cases peeked with
  | none =>
    cases hr with
    | @token _ after _ span _ hnext hafter =>
      exact ⟨(t, span), ⟨after, size, none, span.stop⟩, by simp only [next, hnext], rfl, hafter⟩
  | some item =>
    obtain ⟨us, hus, hcursor⟩ := hr
    cases hus
    exact ⟨item, ⟨cursor, size, none, item.2.stop⟩, rfl, rfl, hcursor⟩

theorem reads_symbol (s : String) : Reads symbol [.symbol s] (·.1 = s) := by
  refine reads_cons (reads_next (.symbol s)) ?_
  rintro ⟨t, span⟩ rfl
  exact reads_pure rfl

theorem reads_integer (n : Nat) : Reads integer [.int n] (·.1 = n) := by
  refine reads_cons (reads_next (.int n)) ?_
  rintro ⟨t, span⟩ rfl
  exact reads_pure rfl

theorem reads_rparen : Reads rparen [.rparen] fun _ => True := by
  refine reads_cons (reads_next .rparen) ?_
  rintro ⟨t, span⟩ rfl
  exact reads_pure trivial

/-- Looking at the next token takes nothing. -/
theorem peek_of_spells {r : Reader} {t : Token} {ts : List Token} (h : r.Spells (t :: ts)) :
    ∃ span r', peek r = .ok (some (t, span)) r' ∧ r'.Spells (t :: ts) := by
  obtain ⟨cursor, size, peeked, lastStop⟩ := r
  cases peeked with
  | none =>
    cases h with
    | @token _ after _ span _ hnext hafter =>
      exact ⟨span, ⟨after, size, some (t, span), lastStop⟩, by simp only [peek, hnext],
        ts, rfl, hafter⟩
  | some item =>
    obtain ⟨us, hus, hcursor⟩ := h
    cases hus
    exact ⟨item.2, ⟨cursor, size, some item, lastStop⟩, rfl, ts, rfl, hcursor⟩

theorem peek_of_spells_nil {r : Reader} (h : r.Spells []) : peek r = .ok none r := by
  obtain ⟨cursor, size, peeked, lastStop⟩ := r
  cases peeked with
  | none =>
    cases h with
    | done hnext => simp only [peek, hnext]
  | some item =>
    obtain ⟨us, hus, -⟩ := h
    cases hus

/-- Take the parenthesis that closes a list of which `a` was read. -/
def closing (a : α) : ReadM α := do
  rparen
  pure a

theorem reads_closing {a : α} (h : P a) : Reads (closing a) [.rparen] P :=
  reads_cons reads_rparen fun _ _ => reads_pure h

theorem reads_closed (h : Reads act ts P) : Reads (act >>= closing) (ts ++ [.rparen]) P :=
  reads_bind h fun _ ha => reads_closing ha

/-! ## Lists of elements -/

section

variable {γ : Type} {element : ReadM α} {combine : β → α → β} {next : β → ReadM γ} {Q : γ → Prop}

/-- No further element is read in front of a closing parenthesis. -/
theorem reads_foldToRParen_stop {acc : β} (h : Reads (next acc) (.rparen :: ts) Q) (k : Nat) :
    Reads (foldToRParen element combine (k + 1) acc >>= next) (.rparen :: ts) Q := by
  intro r rest hr
  obtain ⟨span, r', hpeek, hr'⟩ := peek_of_spells hr
  obtain ⟨c, r'', hnext, hQ, hr''⟩ := h r' rest hr'
  refine ⟨c, r'', ?_, hQ, hr''⟩
  have hfold : foldToRParen element combine (k + 1) acc r = .ok acc r' := by
    rw [foldToRParen, atRParen, bind_assoc, bind_of_ok hpeek]
    rfl
  rw [bind_of_ok hfold]
  exact hnext

/-- In front of any other token an element is read. -/
theorem reads_foldToRParen_step {acc : β} {t : Token} (ht : t ≠ .rparen) {k : Nat}
    (h : Reads (element >>= fun a => foldToRParen element combine k (combine acc a) >>= next)
      (t :: ts) Q) :
    Reads (foldToRParen element combine (k + 1) acc >>= next) (t :: ts) Q := by
  intro r rest hr
  obtain ⟨span, r', hpeek, hr'⟩ := peek_of_spells hr
  obtain ⟨c, r'', hread, hQ, hr''⟩ := h r' rest hr'
  refine ⟨c, r'', ?_, hQ, hr''⟩
  have hfold : foldToRParen element combine (k + 1) acc r =
      (element >>= fun a => foldToRParen element combine k (combine acc a)) r' := by
    rw [foldToRParen, atRParen, bind_assoc, bind_of_ok hpeek]
    show (if (some (t, span)).any (·.1 = .rparen) = true then _ else _ : ReadM β) r' = _
    rw [if_neg (by simpa using ht)]
  rw [← bind_assoc] at hread
  show EStateM.bind _ next r = _
  rw [EStateM.bind, hfold]
  exact hread

end

end Reader

/-! ## Types -/

/-- No phrase of a type is empty or begins with a closing parenthesis. -/
theorem Ty.Derives.begins {p : Phrase} {ts : List Token} {A : Ty} (h : Derives p ts A) :
    ∃ t us, ts = t :: us ∧ t ≠ .rparen := by
  induction h with
  | symbol s => exact ⟨_, _, rfl, nofun⟩
  | arrow | prod => exact ⟨_, _, rfl, nofun⟩
  | last _ ih => exact ih
  | more _ _ ih _ =>
    obtain ⟨t, us, rfl, ht⟩ := ih
    exact ⟨t, _, rfl, ht⟩

namespace Reader

/-- A list is read as its head and what comes after it. -/
theorem reads_tyWithin_list {head : String} {ts : List Token} {A : Ty} {fuel : Nat}
    (hfuel : (Token.listOf head ts).length ≤ fuel)
    (h : ∀ k span, ts.length < k →
      Reads (compoundTy (tyWithin k) k head span) (ts ++ [.rparen]) (· = A)) :
    Reads (tyWithin fuel) (Token.listOf head ts) (· = A) := by
  rw [Token.length_listOf] at hfuel
  obtain ⟨k, rfl⟩ : ∃ n, fuel = n + 1 := ⟨fuel - 1, by omega⟩
  refine reads_cons (reads_next .lparen) ?_
  rintro ⟨t, -⟩ rfl
  refine reads_cons (reads_symbol head) ?_
  rintro ⟨s, span⟩ rfl
  exact h k span (by omega)

/-- The parts of an arrow that come after `doms`. -/
def codomain (part : ReadM Ty) (k : Nat) (doms : List Ty) : ReadM Ty := do
  let cod ← part
  let (doms, cod) ← foldToRParen part (fun (doms, cod) t => (cod :: doms, t)) k (doms, cod)
  pure (Ty.arrows doms cod)

theorem compoundTy_arrow (part : ReadM Ty) (fuel : Nat) (span : Span) :
    compoundTy part fuel "->" span = part >>= fun a => codomain part fuel [a] >>= closing := by
  simp only [codomain, bind_assoc]
  rfl

theorem codomain_closing (part : ReadM Ty) (k : Nat) (doms : List Ty) :
    codomain part k doms >>= closing = part >>= fun cod =>
      foldToRParen part (fun (doms, cod) t => (cod :: doms, t)) k (doms, cod) >>= fun parts =>
        closing (Ty.arrows parts.1 parts.2) := by
  simp only [codomain, bind_assoc]
  rfl

/-- The reader takes the phrases that the grammar of types derives. -/
theorem reads_tyPhrase {p : Ty.Phrase} {ts : List Token} {A : Ty} (h : Ty.Derives p ts A)
    {fuel : Nat} (hfuel : ts.length ≤ fuel) :
    match p with
    | .whole => Reads (tyWithin fuel) ts (· = A)
    | .codomain => ∀ k doms, ts.length ≤ k →
      Reads (codomain (tyWithin fuel) k doms >>= closing) (ts ++ [.rparen])
        (· = Ty.arrows doms A) := by
  induction h generalizing fuel with
  | symbol s =>
    cases fuel with
    | zero => cases hfuel
    | succ fuel =>
      refine reads_cons (reads_next (.symbol s)) ?_
      rintro ⟨t, span⟩ rfl
      exact reads_pure rfl
  | @arrow ts us a b ha hb iha ihb =>
    refine reads_tyWithin_list hfuel fun k span hk => ?_
    rw [List.length_append] at hk
    rw [compoundTy_arrow, List.append_assoc]
    refine reads_bind (iha (by omega)) ?_
    rintro a rfl
    exact ihb (by omega) k [a] (by omega)
  | @prod ts us a b ha hb iha ihb =>
    refine reads_tyWithin_list hfuel fun k span hk => ?_
    rw [List.length_append] at hk
    rw [List.append_assoc]
    refine reads_bind (iha (by omega)) ?_
    rintro a rfl
    refine reads_bind (ihb (by omega)) ?_
    rintro b rfl
    exact reads_closing rfl
  | @last ts a ha iha =>
    intro k doms hk
    obtain ⟨t, us, rfl, -⟩ := ha.begins
    rw [List.length_cons] at hk
    obtain ⟨k, rfl⟩ : ∃ n, k = n + 1 := ⟨k - 1, by omega⟩
    rw [codomain_closing]
    refine reads_bind (iha hfuel) ?_
    rintro a rfl
    refine reads_foldToRParen_stop ?_ k
    exact reads_closing rfl
  | @more ts us a b ha hb iha ihb =>
    intro k doms hk
    rw [List.length_append] at hfuel hk
    have hts : 0 < ts.length := by
      obtain ⟨t, us, rfl, -⟩ := ha.begins
      exact Nat.succ_pos _
    obtain ⟨k, rfl⟩ : ∃ n, k = n + 1 := ⟨k - 1, by omega⟩
    have hrest := @ihb fuel (by omega) k (a :: doms) (by omega)
    obtain ⟨u, us, rfl, hu⟩ := hb.begins
    rw [codomain_closing] at hrest ⊢
    rw [List.append_assoc]
    refine reads_bind (iha (by omega)) ?_
    rintro a rfl
    exact reads_foldToRParen_step hu hrest

/-- The reader takes the types that the grammar derives. -/
theorem reads_ty {ts : List Token} {A : Ty} (h : Ty.Derives .whole ts A) {fuel : Nat}
    (hfuel : ts.length ≤ fuel) : Reads (tyWithin fuel) ts (· = A) :=
  reads_tyPhrase h hfuel

end Reader

/-! ## Terms -/

/-- No term begins with a closing parenthesis. -/
theorem Term.Derives.begins {ts : List Token} {t : Term} (h : Derives .whole ts t) :
    ∃ u us, ts = u :: us ∧ u ≠ .rparen := by
  cases h <;> exact ⟨_, _, rfl, nofun⟩

namespace Reader

/-- A list is read as its head and what comes after it. -/
theorem reads_termWithin_list {head : String} {ts : List Token} {t : Term} {fuel : Nat}
    (hfuel : (Token.listOf head ts).length ≤ fuel)
    (h : ∀ k span, ts.length < k →
      Reads (compoundTerm (termWithin k) k head span) (ts ++ [.rparen]) (· = t)) :
    Reads (termWithin fuel) (Token.listOf head ts) (· = t) := by
  rw [Token.length_listOf] at hfuel
  obtain ⟨k, rfl⟩ : ∃ n, fuel = n + 1 := ⟨fuel - 1, by omega⟩
  refine reads_cons (reads_next .lparen) ?_
  rintro ⟨t, -⟩ rfl
  refine reads_cons (reads_symbol head) ?_
  rintro ⟨s, span⟩ rfl
  exact h k span (by omega)

theorem reads_numeral {n : Nat} (hn : n ≤ maxNumeral) :
    Reads numeral [.int n] (· = Term.numeral n) := by
  refine reads_cons (reads_integer n) ?_
  rintro ⟨m, span⟩ rfl
  show Reads (if m ≤ maxNumeral then _ else _) [] _
  rw [if_pos hn]
  exact reads_pure rfl

/-- The reader takes the phrases that the grammar of terms derives. -/
theorem reads_termPhrase {p : Term.Phrase} {ts : List Token} {t : Term} (h : Term.Derives p ts t)
    {fuel : Nat} (hfuel : ts.length ≤ fuel) :
    match p with
    | .whole => Reads (termWithin fuel) ts (· = t)
    | .operands fn => ∀ k, ts.length < k →
      Reads (foldToRParen (termWithin fuel) .app k fn >>= closing) (ts ++ [.rparen]) (· = t) := by
  induction h generalizing fuel with
  | index i =>
    cases fuel with
    | zero => cases hfuel
    | succ fuel =>
      refine reads_cons (reads_next (.int i)) ?_
      rintro ⟨t, span⟩ rfl
      exact reads_pure rfl
  | symbol s =>
    cases fuel with
    | zero => cases hfuel
    | succ fuel =>
      refine reads_cons (reads_next (.symbol s)) ?_
      rintro ⟨t, span⟩ rfl
      exact reads_pure rfl
  | @lam ts b _ ih =>
    refine reads_termWithin_list hfuel fun k span hk => ?_
    show Reads (Term.lam <$> termWithin k >>= closing) _ _
    exact reads_closed (reads_map (ih (by omega)) _)
  | @fst ts p _ ih =>
    refine reads_termWithin_list hfuel fun k span hk => ?_
    show Reads (Term.fst <$> termWithin k >>= closing) _ _
    exact reads_closed (reads_map (ih (by omega)) _)
  | @snd ts p _ ih =>
    refine reads_termWithin_list hfuel fun k span hk => ?_
    show Reads (Term.snd <$> termWithin k >>= closing) _ _
    exact reads_closed (reads_map (ih (by omega)) _)
  | @succ ts t _ ih =>
    refine reads_termWithin_list hfuel fun k span hk => ?_
    show Reads (Term.succ <$> termWithin k >>= closing) _ _
    exact reads_closed (reads_map (ih (by omega)) _)
  | @numeral n hn =>
    refine reads_termWithin_list hfuel fun k span _ => ?_
    show Reads (Reader.numeral >>= closing) _ _
    exact reads_closed (reads_numeral hn)
  | @pair ts us a b _ _ iha ihb =>
    refine reads_termWithin_list hfuel fun k span hk => ?_
    rw [List.length_append] at hk
    show Reads (Term.pair <$> termWithin k <*> termWithin k >>= closing) _ _
    exact reads_closed (reads_seq (reads_map (iha (by omega)) _) (ihb (by omega)))
  | @cond ts us vs c t e _ _ _ ihc iht ihe =>
    refine reads_termWithin_list hfuel fun k span hk => ?_
    rw [List.length_append, List.length_append] at hk
    rw [← List.append_assoc ts]
    show Reads (Term.cond <$> termWithin k <*> termWithin k <*> termWithin k >>= closing) _ _
    exact reads_closed (reads_seq (reads_seq (reads_map (ihc (by omega)) _) (iht (by omega)))
      (ihe (by omega)))
  | @natRec ts us vs b s n _ _ _ ihb ihs ihn =>
    refine reads_termWithin_list hfuel fun k span hk => ?_
    rw [List.length_append, List.length_append] at hk
    rw [← List.append_assoc ts]
    show Reads (Term.natRec <$> termWithin k <*> termWithin k <*> termWithin k >>= closing) _ _
    exact reads_closed (reads_seq (reads_seq (reads_map (ihb (by omega)) _) (ihs (by omega)))
      (ihn (by omega)))
  | @app ts us vs f a t _ _ _ ihf iha iht =>
    refine reads_termWithin_list hfuel fun k span hk => ?_
    rw [List.length_append, List.length_append] at hk
    rw [List.append_assoc, List.append_assoc]
    show Reads (termWithin k >>= fun f => termWithin k >>= fun a =>
      foldToRParen (termWithin k) Term.app k (.app f a) >>= closing) _ _
    refine reads_bind (ihf (by omega)) ?_
    rintro f rfl
    refine reads_bind (iha (by omega)) ?_
    rintro a rfl
    exact iht (by omega) k (by omega)
  | none fn =>
    intro k hk
    obtain ⟨k, rfl⟩ : ∃ n, k = n + 1 := ⟨k - 1, by omega⟩
    refine reads_foldToRParen_stop ?_ k
    exact reads_closing rfl
  | @operand ts us fn a t ha _ iha iht =>
    intro k hk
    rw [List.length_append] at hfuel hk
    have hts : 0 < ts.length := by
      obtain ⟨u, us, rfl, -⟩ := ha.begins
      exact Nat.succ_pos _
    obtain ⟨k, rfl⟩ : ∃ n, k = n + 1 := ⟨k - 1, by omega⟩
    have hread : Reads (termWithin fuel >>= fun a =>
        foldToRParen (termWithin fuel) Term.app k (.app fn a) >>= closing)
        (ts ++ (us ++ [.rparen])) (· = t) := by
      refine reads_bind (iha (by omega)) ?_
      rintro a rfl
      exact iht (by omega) k (by omega)
    obtain ⟨u, ts, rfl, hu⟩ := ha.begins
    rw [List.append_assoc]
    exact reads_foldToRParen_step hu hread

/-- The reader takes the terms that the grammar derives. -/
theorem reads_term {ts : List Token} {t : Term} (h : Term.Derives .whole ts t) {fuel : Nat}
    (hfuel : ts.length ≤ fuel) : Reads (termWithin fuel) ts (· = t) :=
  reads_termPhrase h hfuel

/-! ## Whole texts -/

/-- What is read with any fuel that exceeds the number of its tokens is read from a whole text. -/
theorem whole_of_reads {α : Type} {act : ReadM α} {within : Nat → ReadM α} {a : α}
    {source : String} {ts : List Token} (hact : ∀ r : Reader, act r = within r.budget r)
    (hwithin : ∀ fuel, ts.length ≤ fuel → Reads (within fuel) ts (· = a))
    (hts : Cursor.Spells ⟨source.toList, 0⟩ ts) : whole act source = .ok a := by
  have hbudget : ts.length ≤ (ofString source).budget := by
    have hsize := Text.length_le_byteCount source.toList
    rw [Text.byteCount_toList] at hsize
    exact Nat.le_trans hts.length_le (Nat.le_add_right_of_le hsize)
  obtain ⟨b, r, hread, rfl, hr⟩ := hwithin _ hbudget (ofString source) []
    (by rw [List.append_nil]; exact hts)
  have hfinish : finish r = .ok () r := by
    rw [finish, bind_of_ok (peek_of_spells_nil hr)]
    rfl
  have hwhole : (do let a ← act; finish; pure a : ReadM α) (ofString source) = .ok b r := by
    rw [bind_of_ok ((hact _).trans hread), bind_of_ok hfinish]
    rfl
  rw [whole, hwhole]

end Reader

/-- A text whose tokens derive a type is read as this type. -/
theorem Ty.ofString?_of_derives {source : String} {ts : List Token} {A : Ty}
    (hts : Cursor.Spells ⟨source.toList, 0⟩ ts) (h : Ty.Derives .whole ts A) :
    Ty.ofString? source = .ok A :=
  Reader.whole_of_reads (fun _ => rfl) (fun _ hfuel => Reader.reads_ty h hfuel) hts

/-- A text whose tokens derive a term is read as this term. -/
theorem Term.ofString?_of_derives {source : String} {ts : List Token} {t : Term}
    (hts : Cursor.Spells ⟨source.toList, 0⟩ ts) (h : Term.Derives .whole ts t) :
    Term.ofString? source = .ok t :=
  Reader.whole_of_reads (fun _ => rfl) (fun _ hfuel => Reader.reads_term h hfuel) hts

end SystemT
