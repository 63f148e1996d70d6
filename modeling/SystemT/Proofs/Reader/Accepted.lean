import SystemT.Proofs.Reader.Grammar
import SystemT.Proofs.Reader.Splitting

/-!
# What the readers accept

A reader that succeeds has taken tokens off the text (`Reader.Past`), and they derive in the grammar
what was read (`Reader.takes_ty`, `Reader.takes_term`). Together with the converse, that whatever is
derived is read, this says which texts are read as which type or term
(`ofString?_eq_ok_iff_derives`).
-/

namespace SystemT

namespace Reader

/-! ## Taking tokens -/

/-- A bound on the tokens that are left. -/
def left (r : Reader) : Nat := r.cursor.rest.length + r.peeked.toList.length

/-- All tokens of a text are within the budget of its reader. -/
theorem left_ofString_lt_budget (source : String) :
    (ofString source).left < (ofString source).budget := by
  have hsize := Text.length_le_byteCount source.toList
  rw [Text.byteCount_toList] at hsize
  simp only [left, budget, ofString, Option.toList_none, List.length_nil]
  omega

/-- The reader is in the place of `r'` once it has taken the tokens `ts`. -/
structure Past (r : Reader) (ts : List Token) (r' : Reader) : Prop where
  /-- What is left then was left before, after the tokens. -/
  spells : ∀ rest, r'.Spells rest → r.Spells (ts ++ rest)
  left : ts.length + r'.left ≤ r.left
  size : r'.size = r.size

theorem Past.refl (r : Reader) : r.Past [] r :=
  ⟨fun _ h => h, Nat.le_of_eq (Nat.zero_add _), rfl⟩

theorem Past.trans {r r' r'' : Reader} {ts us : List Token} (h : r.Past ts r')
    (h' : r'.Past us r'') : r.Past (ts ++ us) r'' where
  spells rest hrest := by
    rw [List.append_assoc]
    exact h.spells _ (h'.spells rest hrest)
  left := by
    have hle := h.left
    have hle' := h'.left
    rw [List.length_append]
    omega
  size := h'.size.trans h.size

/-- If the computation succeeds, it has taken tokens, which are with its result as `D` says. -/
def Takes {α : Type} (act : ReadM α) (D : List Token → α → Prop) : Prop :=
  ∀ r a r', act r = .ok a r' → ∃ ts, D ts a ∧ r.Past ts r'

variable {α β : Type} {act : ReadM α} {D : List Token → α → Prop} {E : List Token → β → Prop}

theorem Takes.imp (h : Takes act D) {D' : List Token → α → Prop}
    (hD : ∀ ts a, D ts a → D' ts a) : Takes act D' := by
  intro r a r' hact
  obtain ⟨ts, hts, hpast⟩ := h r a r' hact
  exact ⟨ts, hD ts a hts, hpast⟩

theorem takes_pure {a : α} (h : D [] a) : Takes (pure a) D := by
  rintro r _ _ ⟨⟩
  exact ⟨[], h, .refl r⟩

theorem takes_throw (e : ReadError) : Takes (throw e : ReadM α) D := by
  rintro r _ _ ⟨⟩

theorem takes_throw_bind (e : ReadError) (next : α → ReadM β) :
    Takes ((throw e : ReadM α) >>= next) E := by
  rintro r _ _ ⟨⟩

theorem takes_bind {next : α → ReadM β} (h : Takes act D)
    (hnext : ∀ a ts, D ts a → Takes (next a) fun us b => E (ts ++ us) b) :
    Takes (act >>= next) E := by
  intro r b r'' hbind
  obtain ⟨a, r', hact, hb⟩ := bind_eq_ok hbind
  obtain ⟨ts, hts, hpast⟩ := h r a r' hact
  obtain ⟨us, hus, hpast'⟩ := hnext a ts hts r' b r'' hb
  exact ⟨ts ++ us, hus, hpast.trans hpast'⟩

theorem takes_map (h : Takes act D) (f : α → β) :
    Takes (f <$> act) fun ts b => ∃ a, b = f a ∧ D ts a := by
  rw [map_eq_pure_bind]
  refine takes_bind h fun a ts hts => takes_pure ⟨a, rfl, ?_⟩
  rw [List.append_nil]
  exact hts

theorem takes_seq {fn : ReadM (α → β)} {F : List Token → (α → β) → Prop} (hfn : Takes fn F)
    (h : Takes act D) :
    Takes (fn <*> act) fun ts b => ∃ us vs f a, ts = us ++ vs ∧ b = f a ∧ F us f ∧ D vs a := by
  rw [seq_eq_bind_map]
  refine takes_bind hfn fun f us hus => (takes_map h f).imp ?_
  rintro vs b ⟨a, rfl, hvs⟩
  exact ⟨us, vs, f, a, rfl, rfl, hus, hvs⟩

theorem takes_next : Takes next fun ts item => ts = [item.1] := by
  rintro ⟨cursor, size, peeked, lastStop⟩ item r' h
  refine ⟨[item.1], rfl, ?_⟩
  cases peeked with
  | some item =>
    cases h
    exact ⟨fun rest hrest => ⟨rest, rfl, hrest⟩, by simp [left, Nat.add_comm], rfl⟩
  | none =>
    simp only [next] at h
    split at h
    · cases h
    · next hnext =>
      cases h
      have hlt := Cursor.length_lt_of_next? hnext
      refine ⟨fun rest hrest => .token hnext hrest, ?_, rfl⟩
      simp only [left, List.length_singleton, Option.toList_none, List.length_nil]
      omega
    · cases h

/-- Looking at the next token takes nothing. -/
theorem takes_peek : Takes peek fun ts _ => ts = [] := by
  rintro ⟨cursor, size, peeked, lastStop⟩ item r' h
  refine ⟨[], rfl, ?_⟩
  cases peeked with
  | some item =>
    cases h
    exact .refl _
  | none =>
    simp only [peek] at h
    split at h
    · cases h
      exact .refl _
    · next hnext =>
      cases h
      have hlt := Cursor.length_lt_of_next? hnext
      refine ⟨?_, ?_, rfl⟩
      · rintro rest ⟨us, rfl, hus⟩
        exact .token hnext hus
      · simp only [left, Option.toList, List.length_nil, List.length_singleton]
        omega
    · cases h

theorem takes_symbol : Takes symbol fun ts s => ts = [.symbol s.1] := by
  refine takes_bind takes_next ?_
  rintro ⟨t, span⟩ ts rfl
  cases t with
  | symbol s => exact takes_pure rfl
  | lparen | rparen | int => exact takes_throw _

theorem takes_integer : Takes integer fun ts n => ts = [.int n.1] := by
  refine takes_bind takes_next ?_
  rintro ⟨t, span⟩ ts rfl
  cases t with
  | int n => exact takes_pure rfl
  | lparen | rparen | symbol => exact takes_throw _

theorem takes_rparen : Takes rparen fun ts _ => ts = [.rparen] := by
  refine takes_bind takes_next ?_
  rintro ⟨t, span⟩ ts rfl
  cases t with
  | rparen => exact takes_pure rfl
  | lparen | symbol | int => exact takes_throw _

theorem takes_closing (a : α) : Takes (closing a) fun ts b => ts = [.rparen] ∧ b = a := by
  refine takes_bind takes_rparen ?_
  rintro _ _ rfl
  exact takes_pure ⟨rfl, rfl⟩

theorem takes_fellShort : Takes (fellShort : ReadM α) D := by
  rintro r _ _ ⟨⟩

/-- A loop up to a closing parenthesis takes what is as `F` says, if `F` holds of no tokens and of
those of an element in front of some for which it holds. -/
theorem takes_foldToRParen {element : ReadM α} {combine : β → α → β}
    {F : β → List Token → β → Prop} (helement : Takes element D) (hstop : ∀ acc, F acc [] acc)
    (hstep : ∀ acc a ts us b, D ts a → F (combine acc a) us b → F acc (ts ++ us) b) (fuel : Nat)
    (acc : β) : Takes (foldToRParen element combine fuel acc) (F acc) := by
  induction fuel generalizing acc with
  | zero => exact takes_fellShort
  | succ fuel ih =>
    have hpeek : Takes atRParen fun ts _ => ts = [] := by
      refine takes_bind takes_peek ?_
      rintro item _ rfl
      exact takes_pure rfl
    refine takes_bind hpeek ?_
    rintro stop _ rfl
    cases stop with
    | true => exact takes_pure (hstop acc)
    | false =>
      refine takes_bind helement fun a ts hts => (ih (combine acc a)).imp ?_
      intro us b hus
      exact hstep acc a ts us b hts hus

/-! ## Types -/

/-- The loop over the parts of an arrow takes those that are left, the last of which is its
codomain. -/
theorem takes_parts {part : ReadM Ty} (hpart : Takes part (Ty.Derives .whole)) (fuel : Nat)
    (doms : List Ty) (cod : Ty) :
    Takes (foldToRParen part (fun (doms, cod) t => (cod :: doms, t)) fuel (doms, cod))
      fun ts parts => ∀ us, Ty.Derives .whole us cod →
        ∃ B, Ty.Derives .codomain (us ++ ts) B ∧ Ty.arrows parts.1 parts.2 = Ty.arrows doms B := by
  refine takes_foldToRParen hpart (F := fun acc ts parts => ∀ us, Ty.Derives .whole us acc.2 →
    ∃ B, Ty.Derives .codomain (us ++ ts) B ∧ Ty.arrows parts.1 parts.2 = Ty.arrows acc.1 B)
    ?_ ?_ fuel (doms, cod)
  · rintro ⟨doms, cod⟩ us hus
    exact ⟨cod, (List.append_nil us).symm ▸ .last hus, rfl⟩
  · rintro ⟨doms, cod⟩ A ts us parts hts hus vs hvs
    obtain ⟨B, hB, hparts⟩ := hus ts hts
    exact ⟨.arrow cod B, .more hvs hB, hparts⟩

/-- The rest of a list takes what makes up the list, with the head in front of it. -/
theorem takes_compoundTy {part : ReadM Ty} (hpart : Takes part (Ty.Derives .whole)) (fuel : Nat)
    (head : String) (span : Span) :
    Takes (compoundTy part fuel head span)
      fun ts A => Ty.Derives .whole (.lparen :: .symbol head :: ts) A := by
  unfold compoundTy
  split
  · refine takes_bind hpart fun a ts hts => takes_bind hpart fun b us hus =>
      takes_bind (takes_parts hpart fuel [a] b) ?_
    rintro ⟨doms, cod⟩ vs hvs
    obtain ⟨B, hB, hparts⟩ := hvs us hus
    refine (takes_closing (Ty.arrows doms cod)).imp ?_
    rintro _ _ ⟨rfl, rfl⟩
    have harrow := Ty.Derives.arrow hts hB
    rw [Token.listOf, List.append_assoc, List.append_assoc] at harrow
    rw [hparts]
    exact harrow
  · refine takes_bind hpart fun a ts hts => takes_bind hpart fun b us hus =>
      (takes_closing (Ty.prod a b)).imp ?_
    rintro _ _ ⟨rfl, rfl⟩
    have hprod := Ty.Derives.prod hts hus
    rw [Token.listOf, List.append_assoc] at hprod
    exact hprod
  · exact takes_throw_bind _ _

theorem takes_ty (fuel : Nat) : Takes (tyWithin fuel) (Ty.Derives .whole) := by
  induction fuel with
  | zero => exact takes_fellShort
  | succ fuel ih =>
    refine takes_bind takes_next ?_
    rintro ⟨t, span⟩ _ rfl
    cases t with
    | symbol s => exact takes_pure (.symbol s)
    | int n => exact takes_throw _
    | rparen => exact takes_throw _
    | lparen =>
      refine takes_bind takes_symbol ?_
      rintro ⟨head, span⟩ _ rfl
      exact takes_compoundTy ih fuel head span

/-! ## Terms -/

/-- The loop over the operands of an application takes those that are left. -/
theorem takes_operands {operand : ReadM Term} (h : Takes operand (Term.Derives .whole)) (fuel : Nat)
    (fn : Term) :
    Takes (foldToRParen operand .app fuel fn) fun ts t => Term.Derives (.operands fn) ts t :=
  takes_foldToRParen h (F := fun fn ts t => Term.Derives (.operands fn) ts t) .none
    (fun _ _ _ _ _ hts hus => .operand hts hus) fuel fn

theorem takes_numeral :
    Takes numeral fun ts t => ∃ n, n ≤ maxNumeral ∧ ts = [.int n] ∧ t = Term.numeral n := by
  refine takes_bind takes_integer ?_
  rintro ⟨n, span⟩ _ rfl
  dsimp only
  split
  · next hn => exact takes_pure ⟨n, hn, rfl, rfl⟩
  · exact takes_throw _

/-- What was taken before the closing parenthesis makes up the list. -/
theorem takes_list {body : ReadM Term} {head : String}
    (h : Takes body fun ts t => Term.Derives .whole (Token.listOf head ts) t) :
    Takes (body >>= closing) fun ts t => Term.Derives .whole (.lparen :: .symbol head :: ts) t := by
  refine takes_bind h fun t ts hts => (takes_closing t).imp ?_
  rintro _ _ ⟨rfl, rfl⟩
  exact hts

/-- The rest of a list takes what makes up the list, with the head in front of it. -/
theorem takes_compoundTerm {operand : ReadM Term} (h : Takes operand (Term.Derives .whole))
    (fuel : Nat) (head : String) (span : Span) :
    Takes (compoundTerm operand fuel head span)
      fun ts t => Term.Derives .whole (.lparen :: .symbol head :: ts) t := by
  have hpair : ∀ f : Term → Term → Term, Takes (f <$> operand <*> operand) fun ts t =>
      ∃ us vs a b, ts = us ++ vs ∧ t = f a b ∧ Term.Derives .whole us a ∧
        Term.Derives .whole vs b := by
    intro f
    refine (takes_seq (takes_map h f) h).imp ?_
    rintro _ _ ⟨us, vs, _, b, rfl, rfl, ⟨a, rfl, ha⟩, hb⟩
    exact ⟨us, vs, a, b, rfl, rfl, ha, hb⟩
  have htriple : ∀ f : Term → Term → Term → Term,
      Takes (f <$> operand <*> operand <*> operand) fun ts t =>
        ∃ us vs ws a b c, ts = us ++ (vs ++ ws) ∧ t = f a b c ∧ Term.Derives .whole us a ∧
          Term.Derives .whole vs b ∧ Term.Derives .whole ws c := by
    intro f
    refine (takes_seq (takes_seq (takes_map h f) h) h).imp ?_
    rintro _ _ ⟨_, ws, _, c, rfl, rfl, ⟨us, vs, _, b, rfl, rfl, ⟨a, rfl, ha⟩, hb⟩, hc⟩
    exact ⟨us, vs, ws, a, b, c, List.append_assoc .., rfl, ha, hb, hc⟩
  unfold compoundTerm
  split
  · refine takes_list ((takes_map h Term.lam).imp ?_)
    rintro ts _ ⟨b, rfl, hb⟩
    exact .lam hb
  · refine takes_bind h fun f ts hts => takes_bind h fun a us hus =>
      takes_bind (takes_operands h fuel (.app f a)) fun t vs hvs => (takes_closing t).imp ?_
    rintro _ _ ⟨rfl, rfl⟩
    have happ := Term.Derives.app hts hus hvs
    rw [Token.listOf, List.append_assoc, List.append_assoc] at happ
    exact happ
  · refine takes_list ((hpair Term.pair).imp ?_)
    rintro _ _ ⟨us, vs, a, b, rfl, rfl, ha, hb⟩
    exact .pair ha hb
  · refine takes_list ((takes_map h Term.fst).imp ?_)
    rintro ts _ ⟨p, rfl, hp⟩
    exact .fst hp
  · refine takes_list ((takes_map h Term.snd).imp ?_)
    rintro ts _ ⟨p, rfl, hp⟩
    exact .snd hp
  · refine takes_list ((htriple Term.cond).imp ?_)
    rintro _ _ ⟨us, vs, ws, c, t, e, rfl, rfl, hc, ht, he⟩
    exact .cond hc ht he
  · refine takes_list ((takes_map h Term.succ).imp ?_)
    rintro ts _ ⟨t, rfl, ht⟩
    exact .succ ht
  · refine takes_list (takes_numeral.imp ?_)
    rintro _ _ ⟨n, hn, rfl, rfl⟩
    exact .numeral hn
  · refine takes_list ((htriple Term.natRec).imp ?_)
    rintro _ _ ⟨us, vs, ws, b, s, n, rfl, rfl, hb, hs, hn⟩
    exact .natRec hb hs hn
  · exact takes_throw_bind _ _

/-- The reader takes the tokens that a term derives from. -/
theorem takes_term (fuel : Nat) : Takes (termWithin fuel) (Term.Derives .whole) := by
  induction fuel with
  | zero => exact takes_fellShort
  | succ fuel ih =>
    refine takes_bind takes_next ?_
    rintro ⟨t, span⟩ _ rfl
    cases t with
    | symbol s => exact takes_pure (.symbol s)
    | int n => exact takes_pure (.index n)
    | rparen => exact takes_throw _
    | lparen =>
      refine takes_bind takes_symbol ?_
      rintro ⟨head, span⟩ _ rfl
      exact takes_compoundTerm ih fuel head span

/-! ## Whole texts -/

/-- Nothing comes next only if nothing is left. -/
theorem of_peek_eq_none {r r' : Reader} (h : peek r = .ok none r') :
    r.peeked = none ∧ r.cursor.next? = none := by
  obtain ⟨cursor, size, peeked, lastStop⟩ := r
  cases peeked with
  | some item => cases h
  | none =>
    simp only [peek] at h
    split at h
    · next hnext => exact ⟨rfl, hnext⟩
    · cases h
    · cases h

theorem spells_nil_of_peek {r r' : Reader} (h : peek r = .ok none r') : r.Spells [] := by
  obtain ⟨hpeeked, hnext⟩ := of_peek_eq_none h
  rw [Spells, hpeeked]
  exact .done hnext

/-- A computation that reads a whole text takes all its tokens. -/
theorem spells_of_whole {α : Type} {act : ReadM α} {within : Nat → ReadM α}
    {D : List Token → α → Prop} {a : α} {source : String}
    (hact : ∀ r : Reader, act r = within r.budget r) (hwithin : ∀ fuel, Takes (within fuel) D)
    (h : whole act source = .ok a) :
    ∃ ts, Cursor.Spells ⟨source.toList, 0⟩ ts ∧ D ts a := by
  rw [whole] at h
  split at h
  · next b r hread =>
    cases h
    obtain ⟨a, r', hact', hrest⟩ := bind_eq_ok hread
    obtain ⟨_, r'', hfinish, hpure⟩ := bind_eq_ok hrest
    cases hpure
    obtain ⟨item, r₁, hpeek, hend⟩ := bind_eq_ok hfinish
    rw [hact] at hact'
    obtain ⟨ts, hts, hpast⟩ := hwithin _ _ _ _ hact'
    cases item with
    | some item => cases hend
    | none =>
      have hspells := hpast.spells [] (spells_nil_of_peek hpeek)
      rw [List.append_nil] at hspells
      exact ⟨ts, hspells, hts⟩
  · cases h

end Reader

/-- A text that is read as a type consists of tokens that derive it. -/
theorem Ty.derives_of_ofString? {source : String} {A : Ty} (h : Ty.ofString? source = .ok A) :
    ∃ ts, Cursor.Spells ⟨source.toList, 0⟩ ts ∧ Ty.Derives .whole ts A :=
  Reader.spells_of_whole (fun _ => rfl) Reader.takes_ty h

/-- A text that is read as a term consists of tokens that derive it. -/
theorem Term.derives_of_ofString? {source : String} {t : Term} (h : Term.ofString? source = .ok t) :
    ∃ ts, Cursor.Spells ⟨source.toList, 0⟩ ts ∧ Term.Derives .whole ts t :=
  Reader.spells_of_whole (fun _ => rfl) Reader.takes_term h

/-- **The readers accept exactly the grammar.** A text is read as a type or a term if and only if it
splits completely into tokens that derive it. -/
theorem ofString?_eq_ok_iff_derives :
    (∀ source A, Ty.ofString? source = .ok A ↔
      ∃ ts, Splits source.toList ts ∧ Ty.Derives .whole ts A) ∧
    ∀ source t, Term.ofString? source = .ok t ↔
      ∃ ts, Splits source.toList ts ∧ Term.Derives .whole ts t := by
  constructor
  · intro source A
    constructor
    · intro h
      obtain ⟨ts, hspells, hts⟩ := Ty.derives_of_ofString? h
      exact ⟨ts, Cursor.spells_iff_splits.mp hspells, hts⟩
    · rintro ⟨ts, hsplits, hts⟩
      exact Ty.ofString?_of_derives (Cursor.spells_iff_splits.mpr hsplits) hts
  · intro source t
    constructor
    · intro h
      obtain ⟨ts, hspells, hts⟩ := Term.derives_of_ofString? h
      exact ⟨ts, Cursor.spells_iff_splits.mp hspells, hts⟩
    · rintro ⟨ts, hsplits, hts⟩
      exact Term.ofString?_of_derives (Cursor.spells_iff_splits.mpr hsplits) hts

end SystemT
