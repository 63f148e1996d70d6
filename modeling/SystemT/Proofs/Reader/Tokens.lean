import SystemT.Reader.Lexer

/-!
# The tokens of a text

`Cursor.Spells` relates a text to the tokens that are cut off it one by one until nothing is left.
A text is at least as long as the list of its tokens (`Cursor.Spells.length_le`).

Printing lays tokens out with as few spaces as possible. The text is cut into the same tokens again
if each of them can be read at all, that is, if its symbols are names that a source may use and its
integers are small enough for an index (`Cursor.spells_layout`).
-/

namespace SystemT

namespace Cursor

/-- The text that a cursor has left is cut into the tokens `ts`. -/
inductive Spells : Cursor → List Token → Prop
  | done {cursor : Cursor} : cursor.next? = none → Spells cursor []
  | token {cursor after : Cursor} {t : Token} {span : Span} {ts : List Token} :
    cursor.next? = some (.ok (t, span), after) → Spells after ts → Spells cursor (t :: ts)

theorem spells_token_iff {cursor after : Cursor} {t : Token} {span : Span}
    (h : cursor.next? = some (.ok (t, span), after)) {ts : List Token} :
    Spells cursor ts ↔ ∃ us, ts = t :: us ∧ Spells after us := by
  constructor
  · intro hts
    cases hts with
    | done hend => exact nomatch h.symm.trans hend
    | token hnext hus =>
      obtain ⟨⟨⟩⟩ := h.symm.trans hnext
      exact ⟨_, rfl, hus⟩
  · rintro ⟨us, rfl, hus⟩
    exact .token h hus

theorem not_spells_of_error {cursor after : Cursor} {e : ReadError}
    (h : cursor.next? = some (.error e, after)) (ts : List Token) : ¬Spells cursor ts := by
  intro hts
  cases hts with
  | done hend => exact nomatch h.symm.trans hend
  | token hnext _ => exact nomatch h.symm.trans hnext

/-! ## Lengths -/

theorem length_skip_le (inComment : Bool) (offset : Nat) (cs : List Char) :
    (skip inComment offset cs).rest.length ≤ cs.length := by
  induction cs generalizing inComment offset with
  | nil => exact Nat.le_refl 0
  | cons c cs ih =>
    have hlater : ∀ b o, (skip b o cs).rest.length ≤ (c :: cs).length := fun b o =>
      Nat.le_succ_of_le (ih b o)
    rw [skip]
    split
    · exact hlater _ _
    · split
      · exact hlater _ _
      · split
        · exact hlater _ _
        · exact Nat.le_refl _

theorem length_lex_le (offset : Nat) (c : Char) (rest : List Char) :
    (lex offset c rest).2.rest.length ≤ rest.length := by
  have hrun : ∀ belongs make,
      (lex.run offset c rest belongs make).2.rest.length ≤ rest.length := fun belongs _ =>
    (List.dropWhile_sublist belongs).length_le
  rw [lex]
  split
  · exact Nat.le_refl _
  · split
    · exact Nat.le_refl _
    · split
      · exact hrun _ _
      · split
        · exact Nat.le_refl _
        · exact hrun _ _

/-- Every item takes up at least one character. -/
theorem length_lt_of_next? {cursor after : Cursor} {item : Item}
    (h : cursor.next? = some (item, after)) : after.rest.length < cursor.rest.length := by
  have hskip := length_skip_le false cursor.offset cursor.rest
  rw [next?] at h
  split at h
  · cases h
  · next c cs offset hcs =>
    have hlex := length_lex_le offset c cs
    rw [hcs, List.length_cons] at hskip
    rw [Option.some.inj h] at hlex
    exact Nat.lt_of_lt_of_le (Nat.lt_succ_of_le hlex) hskip

theorem Spells.length_le {cursor : Cursor} {ts : List Token} (h : cursor.Spells ts) :
    ts.length ≤ cursor.rest.length := by
  induction h with
  | done => exact Nat.zero_le _
  | token hnext _ ih => exact Nat.lt_of_le_of_lt ih (length_lt_of_next? hnext)

/-! ## Names -/

/-- Is the text read as one symbol? It must not begin like an integer or with a control character,
and nothing in it may end a symbol. -/
def isName (s : String) : Bool :=
  match s.toList with
  | [] => false
  | c :: cs => !c.isDigit && !Text.isControl c && (c :: cs).all inSymbol

end Cursor

/-- Can the token be read as it is spelled? -/
def Token.legible : Token → Bool
  | lparen => true
  | rparen => true
  | symbol s => Cursor.isName s
  | int n => n < indexLimit

/-! ## Layout -/

namespace Token

/-- The space before a token, unless there is to be none. -/
def gap (glued : Bool) : List Char := if glued then [] else [' ']

/-- The characters of a list of tokens that is laid out. -/
def chars (glued : Bool) : List Token → List Char
  | [] => []
  | rparen :: rest => ')' :: chars false rest
  | lparen :: rest => gap glued ++ '(' :: chars true rest
  | t :: rest => gap glued ++ (t.text.toList ++ chars false rest)

theorem toList_write (out : String) (glued : Bool) (ts : List Token) :
    (write out glued ts).toList = out.toList ++ chars glued ts := by
  have hgap : ∀ (out : String) (glued : Bool),
      (if glued then out else out.push ' ').toList = out.toList ++ gap glued := by
    intro out glued
    cases glued <;> simp [gap]
  induction ts generalizing out glued with
  | nil => simp [write, chars]
  | cons t ts ih =>
    cases t <;> simp [write, chars, ih, hgap, text]

theorem toList_layout (ts : List Token) : (layout ts).toList = chars true ts := by
  rw [layout, toList_write]
  rfl

/-- What follows a symbol or an integer does not continue it. -/
theorem chars_false_cases (ts : List Token) :
    chars false ts = [] ∨ ∃ c cs, chars false ts = c :: cs ∧ (c = ' ' ∨ c = ')') := by
  cases ts with
  | nil => exact .inl rfl
  | cons t ts => cases t <;> exact .inr ⟨_, _, rfl, by simp⟩

end Token

namespace Cursor

open Token

/-- A gap is skipped. -/
theorem next?_gap (glued : Bool) {c : Char} (hblank : Text.isBlank c = false) (hc : c ≠ ';')
    (cs : List Char) (offset : Nat) :
    ∃ start, (Cursor.mk (gap glued ++ c :: cs) offset).next? = some (lex start c cs) := by
  have hstop : ∀ o, skip false o (c :: cs) = ⟨c :: cs, o⟩ := by
    intro o
    simp [skip, hblank, hc]
  cases glued with
  | true => exact ⟨offset, by simp [next?, gap, hstop]⟩
  | false =>
    have hspace : skip false offset (' ' :: c :: cs) = skip false (offset + 1) (c :: cs) := rfl
    exact ⟨offset + 1, by simp [next?, gap, hspace, hstop]⟩

/-- A run ends where the characters of its class end. -/
theorem run_append {belongs : Char → Bool} {cs after : List Char}
    (hcs : ∀ d ∈ cs, belongs d = true)
    (hafter : after = [] ∨ ∃ d ds, after = d :: ds ∧ belongs d = false)
    (offset : Nat) (c : Char) (make : List Char → Span → Item) :
    ∃ span stop, lex.run offset c (cs ++ after) belongs make =
      (make (c :: cs) span, ⟨after, stop⟩) := by
  have htake : (cs ++ after).takeWhile belongs = cs := by
    rw [List.takeWhile_append_of_pos hcs]
    rcases hafter with rfl | ⟨d, ds, rfl, hd⟩ <;> simp [*]
  have hdrop : (cs ++ after).dropWhile belongs = after := by
    rw [List.dropWhile_append_of_pos hcs]
    rcases hafter with rfl | ⟨d, ds, rfl, hd⟩ <;> simp [*]
  exact ⟨_, _, by rw [lex.run, htake, hdrop]⟩

theorem valueOf_toDigits (n : Nat) : valueOf (Nat.toDigits 10 n) = n := by
  rw [valueOf, ← Nat.ofDigitChars_eq_foldl]
  exact Nat.ofDigitChars_ten_toDigits

/-- A name begins with a character that is neither skipped nor the start of another token, and goes
on to where no character of it is left. -/
theorem isName_cons {s : String} {c : Char} {cs : List Char} (hs : isName s = true)
    (htext : s.toList = c :: cs) :
    (Text.isBlank c = false ∧ c ≠ '(' ∧ c ≠ ')' ∧ c ≠ ';' ∧ c.isDigit = false ∧
      Text.isControl c = false) ∧ ∀ d ∈ cs, inSymbol d = true := by
  rw [isName, htext] at hs
  simp only [Bool.and_eq_true, Bool.not_eq_true', List.all_cons, List.all_eq_true] at hs
  obtain ⟨⟨hdigit, hcontrol⟩, hc, hcs⟩ := hs
  simp only [inSymbol, Bool.and_eq_true, Bool.not_eq_true', bne_iff_ne] at hc
  obtain ⟨⟨⟨hblank, hopen⟩, hclose⟩, hcomment⟩ := hc
  exact ⟨⟨hblank, hopen, hclose, hcomment, hdigit, hcontrol⟩, hcs⟩

/-- A symbol is cut off as a whole. -/
theorem lex_name {s : String} {c : Char} {cs after : List Char} (hs : isName s = true)
    (htext : s.toList = c :: cs)
    (hafter : after = [] ∨ ∃ d ds, after = d :: ds ∧ inSymbol d = false) (offset : Nat) :
    ∃ span stop, lex offset c (cs ++ after) = (.ok (.symbol s, span), ⟨after, stop⟩) := by
  obtain ⟨⟨-, hopen, hclose, -, hdigit, hcontrol⟩, hcs⟩ := isName_cons hs htext
  have hmk : String.ofList (c :: cs) = s := by rw [← htext, String.ofList_toList]
  obtain ⟨span, stop, hrun⟩ := run_append hcs hafter offset c
    fun text span => .ok (.symbol (.ofList text), span)
  refine ⟨span, stop, ?_⟩
  rw [lex, if_neg hopen, if_neg hclose, if_neg (by simp [hdigit]), if_neg (by simp [hcontrol]),
    hrun, hmk]

/-- A digit is neither blank nor a character with a meaning of its own. -/
theorem plain_of_isDigit {c : Char} (h : c.isDigit = true) :
    Text.isBlank c = false ∧ c ≠ '(' ∧ c ≠ ')' ∧ c ≠ ';' := by
  have hrange : 48 ≤ c.toNat ∧ c.toNat ≤ 57 := by
    simp only [Char.isDigit, ge_iff_le, Bool.and_eq_true, decide_eq_true_eq,
      UInt32.le_iff_toNat_le] at h
    exact h
  refine ⟨?_, ?_, ?_, ?_⟩
  · simp only [Text.isBlank, Bool.or_eq_false_iff, Bool.and_eq_false_iff, decide_eq_false_iff_not]
    omega
  all_goals
    rintro rfl
    exact absurd hrange (by decide)

/-- A run of digits is cut off as a whole. -/
theorem lex_digits {c : Char} {cs after : List Char} (hdigits : ∀ d ∈ c :: cs, d.isDigit = true)
    (hafter : after = [] ∨ ∃ d ds, after = d :: ds ∧ d.isDigit = false) (offset : Nat) :
    ∃ span stop, lex offset c (cs ++ after) = (integer (c :: cs) span, ⟨after, stop⟩) := by
  have hc := hdigits c List.mem_cons_self
  obtain ⟨-, hopen, hclose, -⟩ := plain_of_isDigit hc
  obtain ⟨span, stop, hrun⟩ := run_append (fun d hd => hdigits d (List.mem_cons_of_mem c hd))
    hafter offset c integer
  refine ⟨span, stop, ?_⟩
  rw [lex, if_neg hopen, if_neg hclose, if_pos hc, hrun]

/-! ## Reading a layout -/

/-- What follows a symbol or an integer in a layout belongs to neither. -/
theorem chars_false_ends {belongs : Char → Bool} (hspace : belongs ' ' = false)
    (hclose : belongs ')' = false) (ts : List Token) :
    chars false ts = [] ∨ ∃ d ds, chars false ts = d :: ds ∧ belongs d = false := by
  rcases chars_false_cases ts with h | ⟨d, ds, h, rfl | rfl⟩
  · exact .inl h
  · exact .inr ⟨_, ds, h, hspace⟩
  · exact .inr ⟨_, ds, h, hclose⟩

/-- The item of a token: the token itself, or an error if it is not legible. -/
def IsItemOf (item : Item) (t : Token) : Prop :=
  (t.legible = true ∧ ∃ span, item = .ok (t, span)) ∨ (t.legible = false ∧ ∃ e, item = .error e)

/-- Tokens that are laid out are cut off one by one. -/
theorem next?_chars {t : Token} (ht : ∀ s, t = .symbol s → isName s = true) (ts : List Token)
    (glued : Bool) (offset : Nat) :
    ∃ item glued' stop, (Cursor.mk (chars glued (t :: ts)) offset).next? =
      some (item, ⟨chars glued' ts, stop⟩) ∧ IsItemOf item t := by
  cases t with
  | rparen => exact ⟨_, false, _, rfl, .inl ⟨rfl, _, rfl⟩⟩
  | lparen =>
    obtain ⟨start, hnext⟩ := next?_gap glued (c := '(') (by decide) (by decide) (chars true ts)
      offset
    exact ⟨_, true, _, hnext, .inl ⟨rfl, _, rfl⟩⟩
  | symbol s =>
    have hs := ht s rfl
    cases htext : s.toList with
    | nil =>
      rw [isName, htext] at hs
      cases hs
    | cons c cs =>
      obtain ⟨⟨hblank, -, -, hcomment, -⟩, -⟩ := isName_cons hs htext
      obtain ⟨start, hnext⟩ := next?_gap glued hblank hcomment (cs ++ chars false ts) offset
      obtain ⟨span, stop, hlex⟩ := lex_name hs htext
        (chars_false_ends (by decide) (by decide) ts) start
      rw [hlex, ← List.cons_append, ← htext] at hnext
      exact ⟨_, false, stop, hnext, .inl ⟨hs, span, rfl⟩⟩
  | int n =>
    have hrepr : (Nat.repr n).toList = Nat.toDigits 10 n := by
      rw [Nat.repr_eq_ofList_toDigits, String.toList_ofList]
    have hdigits : ∀ c ∈ Nat.toDigits 10 n, c.isDigit = true := fun c hc =>
      Nat.isDigit_of_mem_toDigits (by decide) (by decide) hc
    have hvalue := valueOf_toDigits n
    cases htext : Nat.toDigits 10 n with
    | nil => exact absurd htext Nat.toDigits_ne_nil
    | cons c cs =>
      rw [htext] at hrepr hdigits hvalue
      obtain ⟨hblank, -, -, hcomment⟩ := plain_of_isDigit (hdigits c List.mem_cons_self)
      obtain ⟨start, hnext⟩ := next?_gap glued hblank hcomment (cs ++ chars false ts) offset
      obtain ⟨span, stop, hlex⟩ := lex_digits hdigits
        (chars_false_ends (by decide) (by decide) ts) start
      rw [hlex, integer, hvalue, ← List.cons_append, ← hrepr] at hnext
      refine ⟨_, false, stop, hnext, ?_⟩
      by_cases hn : n < indexLimit
      · rw [if_pos hn]
        exact .inl ⟨decide_eq_true hn, span, rfl⟩
      · rw [if_neg hn]
        exact .inr ⟨decide_eq_false hn, _, rfl⟩

/-- A text in which tokens are laid out is cut into these tokens again, if all of them are legible.
Otherwise an integer is too large, and the text is not cut into tokens at all. -/
theorem spells_chars_iff {ts : List Token} (hts : ∀ s, .symbol s ∈ ts → isName s = true)
    (glued : Bool) (offset : Nat) (us : List Token) :
    Spells ⟨chars glued ts, offset⟩ us ↔ us = ts ∧ ∀ t ∈ ts, t.legible = true := by
  induction ts generalizing glued offset us with
  | nil =>
    constructor
    · intro h
      cases h with
      | done _ => exact ⟨rfl, nofun⟩
      | token hnext _ => cases hnext
    · rintro ⟨rfl, -⟩
      exact .done rfl
  | cons t ts ih =>
    obtain ⟨item, glued', stop, hnext, ⟨ht, span, rfl⟩ | ⟨ht, e, rfl⟩⟩ :=
      next?_chars (fun s hs => hts s (hs ▸ List.mem_cons_self)) ts glued offset
    · rw [spells_token_iff hnext]
      simp only [ih (fun s hs => hts s (List.mem_cons_of_mem t hs)), List.forall_mem_cons, ht,
        true_and]
      constructor
      · rintro ⟨_, rfl, rfl, hall⟩
        exact ⟨rfl, hall⟩
      · rintro ⟨rfl, hall⟩
        exact ⟨ts, rfl, rfl, hall⟩
    · constructor
      · intro h
        exact absurd h (not_spells_of_error hnext us)
      · rintro ⟨-, hall⟩
        have hlegible := hall t List.mem_cons_self
        rw [ht] at hlegible
        cases hlegible

/-- The text of legible tokens is cut into these tokens again. -/
theorem spells_layout {ts : List Token} (hts : ∀ t ∈ ts, t.legible = true) :
    Spells ⟨(layout ts).toList, 0⟩ ts := by
  rw [toList_layout]
  exact (spells_chars_iff (fun s hs => hts _ hs) true 0 ts).mpr ⟨rfl, hts⟩

end Cursor

end SystemT
