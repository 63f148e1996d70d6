import SystemT.Proofs.Reader.Accepted
import SystemT.Proofs.Reader.Placement

/-!
# The forms of a text

`Reader.Gives` relates a reader to the forms that are read one after the other, and to the error
that keeps further ones from being read. Every form takes the tokens that spell it off the text
(`Form.Derives`, `Reader.takes_form`), so that this comes to an end (`Reader.exists_gives`).

If all of a text is read without an error, and another text follows on the next line, then the forms
of the one are followed by those of the other, whose places are moved (`Reader.gives_append`).
-/

namespace SystemT

/-- The tokens spell the form, wherever it stands. -/
inductive Form.Derives : List Token → Form → Prop
  | define {x : String} {ts : List Token} {t : Term} {span : Span} : Term.Derives .whole ts t →
    Derives (Token.listOf "def" (.symbol x :: ts)) (.define (.named x) t span)
  | declare {x : String} {ts : List Token} {A : Ty} {span : Span} : Ty.Derives .whole ts A →
    Derives (Token.listOf "axiom" (.symbol x :: ts)) (.declare (.named x) A span)
  | expr {ts : List Token} {t : Term} {span : Span} : Term.Derives .whole ts t →
    Derives ts (.expr t span)

/-- A form has at least one token. -/
theorem Form.Derives.ne_nil {ts : List Token} {f : Form} (h : Form.Derives ts f) : ts ≠ [] := by
  cases h with
  | define | declare => exact List.cons_ne_nil _ _
  | expr ht =>
    obtain ⟨t, us, rfl, -⟩ := ht.begins
    exact List.cons_ne_nil _ _

namespace Reader

/-- Read the next form, if there is one. -/
def form? : ReadM (Option Form) := do
  if ← atEnd then pure none else some <$> form

/-- The forms that are read up to the end of the text or to an error. -/
inductive Gives : Reader → List Form → Option ReadError → Prop
  | done {r s : Reader} : form? r = .ok none s → Gives r [] none
  | failed {r s : Reader} {e : ReadError} : form? r = .error e s → Gives r [] (some e)
  | more {r s : Reader} {f : Form} {forms : List Form} {error : Option ReadError} :
    form? r = .ok (some f) s → Gives s forms error → Gives r (f :: forms) error

theorem atEnd_eq (r : Reader) : atEnd r =
    match peek r with
    | .error e s => .error e s
    | .ok item s => .ok item.isNone s := by
  show EStateM.bind peek _ r = _
  rw [EStateM.bind]
  cases peek r <;> rfl

theorem form?_eq (r : Reader) : form? r =
    match atEnd r with
    | .error e s => .error e s
    | .ok true s => .ok none s
    | .ok false s =>
      match form s with
      | .error e s' => .error e s'
      | .ok f s' => .ok (some f) s' := by
  show EStateM.bind atEnd _ r = _
  rw [EStateM.bind]
  cases atEnd r with
  | error e s => rfl
  | ok stop s =>
    cases stop with
    | true => rfl
    | false =>
      show EStateM.map some form s = match form s with
        | .error e s' => _
        | .ok f s' => _
      rw [EStateM.map]
      cases form s <;> rfl

/-! ## The tokens of a form -/

/-- What was looked at is kept. -/
theorem peeked_of_peek {r r' : Reader} {item : Token × Span} (h : peek r = .ok (some item) r') :
    r'.peeked = some item := by
  obtain ⟨cursor, size, peeked, lastStop⟩ := r
  cases peeked with
  | some found =>
    cases h
    rfl
  | none =>
    simp only [peek] at h
    split at h
    · cases h
    · cases h
      rfl
    · cases h

/-- If `item` has been looked at and the computation succeeds, it has taken tokens, which are with
its result as `D` says. -/
def TakesPeeked {α : Type} (item : Token × Span) (act : ReadM α) (D : List Token → α → Prop) :
    Prop :=
  ∀ r a r', r.peeked = some item → act r = .ok a r' → ∃ ts, D ts a ∧ r.Past ts r'

section

variable {α : Type} {D : List Token → α → Prop}

theorem Takes.peeked {act : ReadM α} (h : Takes act D) (item : Token × Span) :
    TakesPeeked item act D :=
  fun r a r' _ hact => h r a r' hact

/-- The item that was looked at is the one that is taken. -/
theorem takesPeeked_next {item : Token × Span} {rest : Token × Span → ReadM α}
    (h : Takes (rest item) fun ts a => D (item.1 :: ts) a) :
    TakesPeeked item (next >>= rest) D := by
  intro r a r'' hpeeked hact
  obtain ⟨taken, r', hnext, hrest⟩ := bind_eq_ok hact
  obtain ⟨_, rfl, hpast⟩ := takes_next r taken r' hnext
  obtain rfl : item = taken := by
    simp only [next, hpeeked] at hnext
    cases hnext
    rfl
  obtain ⟨ts, hts, hpast'⟩ := h r' a r'' hrest
  exact ⟨item.1 :: ts, hts, hpast.trans hpast'⟩

theorem takes_peek_bind {rest : Option (Token × Span) → ReadM α} (hnone : Takes (rest none) D)
    (hsome : ∀ item, TakesPeeked item (rest (some item)) D) : Takes (peek >>= rest) D := by
  intro r a r'' hact
  obtain ⟨item, r', hpeek, hrest⟩ := bind_eq_ok hact
  obtain ⟨_, rfl, hpast⟩ := takes_peek r item r' hpeek
  have htaken : ∃ ts, D ts a ∧ r'.Past ts r'' := by
    cases item with
    | none => exact hnone r' a r'' hrest
    | some item => exact hsome item r' a r'' (peeked_of_peek hpeek) hrest
  obtain ⟨ts, hts, hpast'⟩ := htaken
  exact ⟨ts, hts, hpast.trans hpast'⟩

end

/-- The range of a form takes no tokens. -/
theorem takes_spanned (start : Nat) (make : Span → Form) :
    Takes (spanFrom start >>= fun span => pure (make span))
      fun ts f => ts = [] ∧ ∃ span, f = make span := by
  rintro r _ _ ⟨⟩
  exact ⟨[], ⟨rfl, _, rfl⟩, .refl r⟩

/-- The reader takes the tokens of a form. -/
theorem takes_form : Takes form Form.Derives := by
  have hget : Takes (get : ReadM Reader) fun ts _ => ts = [] := by
    rintro r _ _ ⟨⟩
    exact ⟨[], rfl, .refl r⟩
  refine takes_bind hget ?_
  rintro r _ rfl
  refine takes_peek_bind takes_fellShort ?_
  rintro ⟨t, first⟩
  cases t with
  | lparen =>
    refine takesPeeked_next (takes_bind takes_symbol ?_)
    rintro ⟨head, headSpan⟩ _ rfl
    dsimp only
    split
    · refine takes_bind takes_symbol ?_
      rintro ⟨name, _⟩ _ rfl
      refine takes_bind (takes_term _) fun t ts hts => takes_bind takes_rparen ?_
      rintro _ _ rfl
      refine (takes_spanned _ _).imp ?_
      rintro _ _ ⟨rfl, span, rfl⟩
      exact .define hts
    · refine takes_bind takes_symbol ?_
      rintro ⟨name, _⟩ _ rfl
      refine takes_bind (takes_ty _) fun A ts hts => takes_bind takes_rparen ?_
      rintro _ _ rfl
      refine (takes_spanned _ _).imp ?_
      rintro _ _ ⟨rfl, span, rfl⟩
      exact .declare hts
    · refine takes_bind (takes_compoundTerm (takes_term _) _ _ _) fun t ts hts => ?_
      refine (takes_spanned _ _).imp ?_
      rintro _ _ ⟨rfl, span, rfl⟩
      rw [List.append_nil]
      exact .expr hts
  | rparen | int | symbol =>
    refine Takes.peeked (takes_bind (takes_term _) fun t ts hts => ?_) _
    refine (takes_spanned _ _).imp ?_
    rintro _ _ ⟨rfl, span, rfl⟩
    rw [List.append_nil]
    exact .expr hts

/-- The next form, if there is one, takes tokens of its own. -/
theorem takes_form? : Takes form? fun ts f? => ∀ f, f? = some f → Form.Derives ts f := by
  have hpeek : Takes atEnd fun ts _ => ts = [] := by
    refine takes_bind takes_peek ?_
    rintro _ _ rfl
    exact takes_pure rfl
  refine takes_bind hpeek ?_
  rintro stop _ rfl
  split
  · exact takes_pure nofun
  · refine (takes_map takes_form some).imp ?_
    rintro ts _ ⟨f, rfl, hts⟩ _ ⟨⟩
    exact hts

theorem left_form?_lt {r s : Reader} {f : Form} (h : form? r = .ok (some f) s) :
    s.left < r.left ∧ s.size = r.size := by
  obtain ⟨ts, hts, hpast⟩ := takes_form? r (some f) s h
  have hpos := List.length_pos_iff.mpr (hts f rfl).ne_nil
  have hleft := hpast.left
  exact ⟨by omega, hpast.size⟩

/-! ## Reading comes to an end -/

/-- Every reader gives forms, fewer than the tokens that may be left. -/
theorem exists_gives (r : Reader) :
    ∃ forms error, Gives r forms error ∧ forms.length ≤ r.left := by
  induction hn : r.left using Nat.strongRecOn generalizing r with
  | ind n ih =>
    subst hn
    cases hform : form? r with
    | error e s => exact ⟨[], some e, .failed hform, Nat.zero_le _⟩
    | ok f s =>
      cases f with
      | none => exact ⟨[], none, .done hform, Nat.zero_le _⟩
      | some f =>
        have hlt := (left_form?_lt hform).1
        obtain ⟨forms, error, hgives, hlength⟩ := ih s.left hlt s rfl
        exact ⟨f :: forms, error, .more hform hgives, Nat.lt_of_le_of_lt hlength hlt⟩

/-! ## Programs -/

section

variable {source : String} {r r' : Reader} {forms : List Form}

theorem formsWithin_succ (fuel : Nat) (forms : List Form) (r : Reader) :
    formsWithin (fuel + 1) forms r =
      match form? r with
      | .error e s => .error e s
      | .ok none s => .ok forms.reverse s
      | .ok (some f) s => formsWithin fuel (f :: forms) s := by
  have hread : formsWithin (fuel + 1) forms r = EStateM.bind atEnd (fun stop =>
    if stop then pure forms.reverse
    else form >>= fun f => formsWithin fuel (f :: forms)) r := rfl
  rw [hread, form?_eq, EStateM.bind]
  cases atEnd r with
  | error e s => rfl
  | ok stop s =>
    cases stop with
    | true => rfl
    | false =>
      show EStateM.bind form _ s = _
      rw [EStateM.bind]
      dsimp only
      cases form s <;> rfl

/-- The forms of a program are those that are read one after the other, up to the end of the
text. -/
theorem gives_of_formsWithin {fuel : Nat} {acc : List Form}
    (h : formsWithin fuel acc r = .ok forms r') :
    ∃ forms', forms = acc.reverse ++ forms' ∧ r.Gives forms' none := by
  induction fuel generalizing acc r with
  | zero => cases h
  | succ fuel ih =>
    rw [formsWithin_succ] at h
    cases hform : form? r with
    | error e s =>
      rw [hform] at h
      cases h
    | ok f? s =>
      rw [hform] at h
      cases f? with
      | none =>
        cases h
        exact ⟨[], (List.append_nil _).symm, .done hform⟩
      | some f =>
        obtain ⟨forms', rfl, hgives⟩ := ih h
        exact ⟨f :: forms', by rw [List.reverse_cons, List.append_assoc]; rfl, .more hform hgives⟩

theorem Gives.formsWithin (h : Gives r forms none) {fuel : Nat} (hfuel : r.left < fuel)
    (acc : List Form) : ∃ s, formsWithin fuel acc r = .ok (acc.reverse ++ forms) s := by
  generalize hnone : (none : Option ReadError) = error at h
  induction h generalizing fuel acc with
  | @done r s hform =>
    obtain ⟨fuel, rfl⟩ := Nat.exists_eq_add_of_lt hfuel
    refine ⟨s, ?_⟩
    rw [formsWithin_succ, hform, List.append_nil]
  | failed => cases hnone
  | @more r s f forms error hform _ ih =>
    obtain ⟨fuel, rfl⟩ := Nat.exists_eq_add_of_lt hfuel
    have hless := (left_form?_lt hform).1
    obtain ⟨t, ht⟩ := ih (by omega : s.left < r.left + fuel) (f :: acc) hnone
    refine ⟨t, ?_⟩
    rw [formsWithin_succ, hform]
    dsimp only
    rw [ht, List.reverse_cons, List.append_assoc]
    rfl

theorem program_iff_gives :
    (∃ s, program (ofString source) = .ok forms s) ↔ (ofString source).Gives forms none := by
  constructor
  · rintro ⟨s, h⟩
    obtain ⟨_, rfl, hgives⟩ := gives_of_formsWithin h
    exact hgives
  · intro h
    exact h.formsWithin (left_ofString_lt_budget source) []

end

/-! ## Joining texts -/

open Text (byteCount)

/-- Where the token taken last ended does not matter to a form that comes after it. -/
theorem form_of_peeked (cursor : Cursor) (size : Nat) (item : Token × Span) (stop stop' : Nat) :
    form ⟨cursor, size, some item, stop⟩ = form ⟨cursor, size, some item, stop'⟩ := by
  obtain ⟨t, span⟩ := item
  cases t <;> rfl

/-- Only what is cut off the text next matters to the forms that are given. -/
theorem Gives.of_next? {cursor cursor' : Cursor} {size stop stop' : Nat} {forms : List Form}
    {error : Option ReadError} (h : Gives ⟨cursor, size, none, stop⟩ forms error)
    (hnext : cursor.next? = cursor'.next?) : Gives ⟨cursor', size, none, stop'⟩ forms error := by
  have hform := form?_eq ⟨cursor, size, none, stop⟩
  have hform' := form?_eq ⟨cursor', size, none, stop'⟩
  simp only [atEnd_eq, peek, ← hnext] at hform hform'
  cases hc : cursor.next? with
  | none =>
    rw [hc] at hform hform'
    cases h with
    | done => exact .done hform'
    | failed he => cases he.symm.trans hform
    | more hf => cases hf.symm.trans hform
  | some found =>
    obtain ⟨e | item, after⟩ := found
    · rw [hc] at hform hform'
      cases h with
      | done hd => cases hd.symm.trans hform
      | failed he =>
        cases he.symm.trans hform
        exact .failed hform'
      | more hf => cases hf.symm.trans hform
    · rw [hc] at hform hform'
      have hsame : form? ⟨cursor', size, none, stop'⟩ = form? ⟨cursor, size, none, stop⟩ := by
        rw [hform, hform']
        dsimp only [Option.isNone]
        rw [form_of_peeked after size item stop' stop]
      cases h with
      | done hd => exact .done (hsame.trans hd)
      | failed he => exact .failed (hsame.trans he)
      | more hf hgives => exact .more (hsame.trans hf) hgives

variable {d : Nat} {tail : List Char} {r r' : Reader}

/-- A form of a part is one of the longer text. If nothing comes after the part, its end and its
errors are those of the longer text as well. -/
theorem form?_placed (htail : Tail tail) (h : Placed d tail r r') :
    (∃ f s s', form? r = .ok (some f) s ∧ form? r' = .ok (some (f.move d)) s' ∧
      Placed d tail s s') ∨
    (∃ e s, form? r = .error e s ∧ (tail = [] → ∃ s', form? r' = .error (e.move d) s')) ∨
    (form? r = .ok none r ∧ peek r = .ok none r ∧ (tail = [] → form? r' = .ok none r')) := by
  rw [form?_eq, form?_eq, atEnd_eq, atEnd_eq]
  rcases peek_placed htail h with
    ⟨item, s, s', hpeek, hpeek', hs⟩ | ⟨e, s, s', hpeek, hpeek'⟩ | ⟨hpeek, hpeek'⟩
  · rw [hpeek, hpeek']
    obtain ⟨hok, herror⟩ := follows_form htail s s' hs
    dsimp only [Option.isNone]
    cases hform : form s with
    | ok f t =>
      obtain ⟨_, t', hform', rfl, ht⟩ := hok f t hform
      rw [hform']
      exact .inl ⟨f, t, t', rfl, rfl, ht⟩
    | error e t =>
      refine .inr (.inl ⟨e, t, rfl, fun hend => ?_⟩)
      obtain ⟨t', hform'⟩ := herror hend e t hform
      rw [hform']
      exact ⟨t', rfl⟩
  · rw [hpeek, hpeek']
    exact .inr (.inl ⟨e, s, rfl, fun _ => ⟨s', rfl⟩⟩)
  · rw [hpeek]
    refine .inr (.inr ⟨rfl, rfl, fun hend => ?_⟩)
    rw [hpeek' hend]
    rfl

/-- The forms of a text at the end of a longer one. -/
theorem Gives.moved {forms : List Form} {error : Option ReadError} (h : Gives r forms error)
    (hr : Placed d [] r r') :
    Gives r' (forms.map (Form.move d)) (error.map (ReadError.move d)) := by
  induction h generalizing r' with
  | done hform =>
    rcases form?_placed (.inl rfl) hr with
      ⟨f, s, s', hsome, -⟩ | ⟨e, s, herror, -⟩ | ⟨-, -, hnone⟩
    · exact nomatch hform.symm.trans hsome
    · exact nomatch hform.symm.trans herror
    · exact .done (hnone rfl)
  | failed hform =>
    rcases form?_placed (.inl rfl) hr with
      ⟨f, s, s', hsome, -⟩ | ⟨e, s, herror, hmoved⟩ | ⟨hnone, -⟩
    · exact nomatch hform.symm.trans hsome
    · cases hform.symm.trans herror
      obtain ⟨s', herror'⟩ := hmoved rfl
      exact .failed herror'
    · exact nomatch hform.symm.trans hnone
  | more hform _ ih =>
    rcases form?_placed (.inl rfl) hr with
      ⟨f, s, s', hsome, hmoved, hs⟩ | ⟨e, s, herror, -⟩ | ⟨hnone, -⟩
    · cases hform.symm.trans hsome
      exact .more hmoved (ih hs)
    · exact nomatch hform.symm.trans herror
    · exact nomatch hform.symm.trans hnone

/-- The forms of a part, all of which is read, and those of the lines after it. -/
theorem Gives.append {forms forms' : List Form} {error : Option ReadError} {cs : List Char}
    (h : Gives r forms none) (hr : Placed d ('\n' :: cs) r r')
    (h' : ∀ stop, Gives ⟨⟨cs, r.size + d + 1⟩, r.size + d + 1 + byteCount cs, none, stop⟩ forms'
      error) : Gives r' (forms.map (Form.move d) ++ forms') error := by
  have htail : Tail ('\n' :: cs) := .inr ⟨cs, rfl⟩
  generalize hnone : (none : Option ReadError) = no at h
  induction h generalizing r' with
  | @done r s hform =>
    rcases form?_placed htail hr with ⟨f, s, s', hsome, -⟩ | ⟨e, s, herror, -⟩ | ⟨-, hpeek, -⟩
    · exact nomatch hform.symm.trans hsome
    · exact nomatch hform.symm.trans herror
    · -- what comes next in the longer text is what comes first on the next line
      obtain ⟨hpeeked, hnext⟩ := of_peek_eq_none hpeek
      obtain ⟨⟨rest, offset⟩, size, peeked, stop⟩ := r'
      obtain ⟨hrest, hoffset, hpeeked', -, hsize, hfits⟩ := hr
      rw [hpeeked] at hpeeked'
      dsimp only [Option.map] at hrest hoffset hpeeked' hsize
      subst hrest hoffset hpeeked' hsize
      have hline := (Cursor.next?_line hnext (r.cursor.offset + d)).2 cs
      have hoffset : r.cursor.offset + d + byteCount r.cursor.rest + 1 = r.size + d + 1 := by
        rw [Nat.add_right_comm r.cursor.offset, hfits]
      rw [hoffset] at hline
      have hsize : r.size + d + byteCount ('\n' :: cs) = r.size + d + 1 + byteCount cs := by
        rw [Text.byteCount_cons, ← Nat.add_assoc]
        rfl
      rw [hsize]
      exact (h' stop).of_next? hline.symm
  | failed => cases hnone
  | more hform _ ih =>
    rcases form?_placed htail hr with
      ⟨f, s, s', hsome, hmoved, hs⟩ | ⟨e, s, herror, -⟩ | ⟨hnone, -⟩
    · cases hform.symm.trans hsome
      rw [← (left_form?_lt hform).2] at h'
      exact .more hmoved (ih hs h' hnone)
    · exact nomatch hform.symm.trans herror
    · exact nomatch hform.symm.trans hnone

theorem map_move_zero (forms : List Form) : forms.map (Form.move 0) = forms := by
  have hzero : Form.move 0 = id := by
    funext f
    cases f <;> rfl
  rw [hzero, List.map_id]

/-- **Texts joined by a line feed.** If all of the first text is read, then what is read from both
is what is read from the first and, moved by its length and the line feed, what is read from the
second. -/
theorem gives_append {a b : String} {forms forms' : List Form} {error : Option ReadError}
    (ha : Gives (ofString a) forms none) (hb : Gives (ofString b) forms' error) :
    Gives (ofString (a ++ "\n" ++ b)) (forms ++ forms'.map (Form.move (a.utf8ByteSize + 1)))
      (error.map (ReadError.move (a.utf8ByteSize + 1))) := by
  have hbytes := Text.byteCount_toList
  have hfirst : Placed 0 ('\n' :: b.toList) (ofString a) (ofString (a ++ "\n" ++ b)) := by
    refine ⟨?_, rfl, rfl, rfl, ?_, ?_⟩
    · simp [ofString]
    · simp only [ofString, String.utf8ByteSize_append, Text.byteCount_cons, hbytes]
      exact Nat.add_assoc ..
    · simp only [ofString, hbytes, Nat.zero_add]
  have hsecond : Placed (a.utf8ByteSize + 1) [] (ofString b)
      ⟨⟨b.toList, a.utf8ByteSize + 1⟩, a.utf8ByteSize + 1 + byteCount b.toList, none,
        a.utf8ByteSize + 1⟩ := by
    refine ⟨?_, ?_, rfl, ?_, ?_, ?_⟩ <;> simp [ofString, hbytes, Nat.add_comm]
  have happend := ha.append hfirst fun stop => (hb.moved hsecond).of_next? rfl
  rw [map_move_zero] at happend
  exact happend

end Reader

end SystemT
