import SystemT.Proofs.Reader.Tokens
import SystemT.Text.Bytes

/-!
# The tokens that a text consists of

`Splits` says which tokens a text consists of, without the lexer. Lexemes stand in the text one
after the other, with gaps of blanks and comments around them, and each of them is the longest that
the text has in its place. A run of digits is a lexeme whatever its length, and only then is its
number bounded: no part of a run that is too large is a token.

The lexer cuts a text into exactly these tokens (`Cursor.spells_iff_splits`).
-/

namespace SystemT

/-! ## Gaps and lexemes -/

/-- Blanks and comments; a comment goes up to a line feed. -/
inductive Gap : List Char → Prop
  | nil : Gap []
  | blank {c : Char} {cs : List Char} : Text.isBlank c = true → Gap cs → Gap (c :: cs)
  | comment {body cs : List Char} : '\n' ∉ body → Gap cs → Gap (';' :: (body ++ '\n' :: cs))

/-- What may stand after the last lexeme: the text may end in a comment. -/
inductive FinalGap : List Char → Prop
  | gap {cs : List Char} : Gap cs → FinalGap cs
  | comment {cs body : List Char} : Gap cs → '\n' ∉ body → FinalGap (cs ++ ';' :: body)

/-- The characters spell the token. -/
inductive Lexeme : List Char → Token → Prop
  | lparen : Lexeme ['('] .lparen
  | rparen : Lexeme [')'] .rparen
  | int {cs : List Char} : cs ≠ [] → (∀ c ∈ cs, c.isDigit = true) →
    Lexeme cs (.int (Nat.ofDigitChars 10 cs 0))
  | symbol {s : String} : Cursor.isName s = true → Lexeme s.toList (.symbol s)

/-- No lexeme at the front of the text is longer than `cs`. -/
def Longest (cs text : List Char) : Prop :=
  ∀ us t, Lexeme us t → us <+: text → us.length ≤ cs.length

/-- The text consists of the tokens. -/
inductive Splits : List Char → List Token → Prop
  | done {cs : List Char} : FinalGap cs → Splits cs []
  | token {gap cs rest : List Char} {t : Token} {ts : List Token} : Gap gap → Lexeme cs t →
    Longest cs (cs ++ rest) → (∀ n, t = .int n → n < indexLimit) → Splits rest ts →
    Splits (gap ++ (cs ++ rest)) (t :: ts)

/-! ## Skipping gaps -/

theorem Gap.append {cs ds : List Char} (h : Gap cs) (h' : Gap ds) : Gap (cs ++ ds) := by
  induction h with
  | nil => exact h'
  | blank hc _ ih => exact .blank hc ih
  | comment hbody _ ih =>
    rw [List.cons_append, List.append_assoc]
    exact .comment hbody ih

theorem FinalGap.prepend {gap cs : List Char} (hgap : Gap gap) (h : FinalGap cs) :
    FinalGap (gap ++ cs) := by
  cases h with
  | gap h => exact .gap (hgap.append h)
  | comment h hbody =>
    rw [← List.append_assoc]
    exact .comment (hgap.append h) hbody

namespace Cursor

open Text (byteCount byteCount_cons byteCount_append)

/-- A comment is skipped up to the line feed that ends it. -/
theorem skip_line {body : List Char} (hbody : '\n' ∉ body) (offset : Nat) (cs : List Char) :
    skip true offset (body ++ '\n' :: cs) = skip false (offset + byteCount body + 1) cs := by
  induction body generalizing offset with
  | nil => rfl
  | cons c body ih =>
    rw [List.mem_cons, not_or] at hbody
    obtain ⟨hc, hbody⟩ := hbody
    rw [List.cons_append, skip, if_pos rfl, bne_iff_ne.mpr (Ne.symm hc), ih hbody, byteCount_cons,
      Nat.add_assoc offset]

/-- A comment may end with the text. -/
theorem skip_comment {body : List Char} (hbody : '\n' ∉ body) (offset : Nat) :
    skip true offset body = ⟨[], offset + byteCount body⟩ := by
  induction body generalizing offset with
  | nil => rfl
  | cons c body ih =>
    rw [List.mem_cons, not_or] at hbody
    obtain ⟨hc, hbody⟩ := hbody
    rw [skip, if_pos rfl, bne_iff_ne.mpr (Ne.symm hc), ih hbody, byteCount_cons,
      Nat.add_assoc offset]

theorem skip_blank {c : Char} (hc : Text.isBlank c = true) (offset : Nat) (cs : List Char) :
    skip false offset (c :: cs) = skip false (offset + c.utf8Size) cs := by
  rw [skip, if_neg Bool.false_ne_true, if_pos hc]

theorem skip_semicolon (offset : Nat) (cs : List Char) :
    skip false offset (';' :: cs) = skip true (offset + 1) cs := rfl

theorem skip_stop {c : Char} (hblank : Text.isBlank c = false) (hc : c ≠ ';') (offset : Nat)
    (cs : List Char) : skip false offset (c :: cs) = ⟨c :: cs, offset⟩ := by
  rw [skip, if_neg Bool.false_ne_true, if_neg (by simp [hblank]), if_neg hc]

/-- Gaps are skipped. -/
theorem skip_gap {gap : List Char} (h : Gap gap) (offset : Nat) (cs : List Char) :
    skip false offset (gap ++ cs) = skip false (offset + byteCount gap) cs := by
  induction h generalizing offset with
  | nil => rfl
  | blank hc _ ih => rw [List.cons_append, skip_blank hc, ih, byteCount_cons, Nat.add_assoc offset]
  | @comment body gap hbody _ ih =>
    have hbytes : byteCount (';' :: (body ++ '\n' :: gap)) =
        1 + (byteCount body + (1 + byteCount gap)) := by
      rw [byteCount_cons, byteCount_append, byteCount_cons]
      rfl
    rw [List.cons_append, List.append_assoc, List.cons_append, skip_semicolon, skip_line hbody, ih,
      hbytes]
    congr 1
    omega

/-- What may stand after the last lexeme is skipped, also with a further line after it. -/
theorem skip_finalGap {gap : List Char} (h : FinalGap gap) (offset : Nat) :
    skip false offset gap = ⟨[], offset + byteCount gap⟩ ∧
      ∀ cs, skip false offset (gap ++ '\n' :: cs) = skip false (offset + byteCount gap + 1) cs := by
  cases h with
  | gap h =>
    constructor
    · rw [← List.append_nil gap, skip_gap h, List.append_nil]
      rfl
    · intro cs
      rw [skip_gap h]
      rfl
  | @comment gap body h hbody =>
    have hbytes : byteCount (gap ++ ';' :: body) = byteCount gap + (1 + byteCount body) := by
      rw [byteCount_append, byteCount_cons]
      rfl
    constructor
    · rw [skip_gap h, skip_semicolon, skip_comment hbody, hbytes]
      congr 1
      omega
    · intro cs
      rw [List.append_assoc, List.cons_append, skip_gap h, skip_semicolon, skip_line hbody, hbytes]
      congr 1
      omega

/-- Every text is a final gap, or a gap in front of a character that is not skipped. -/
theorem gap_cases (cs : List Char) : FinalGap cs ∨ ∃ gap c rest, cs = gap ++ c :: rest ∧ Gap gap ∧
    Text.isBlank c = false ∧ c ≠ ';' := by
  induction hn : cs.length using Nat.strongRecOn generalizing cs with
  | ind n ih =>
    -- what comes after a first gap is shorter
    have hskip : ∀ gap ds, cs = gap ++ ds → gap ≠ [] → Gap gap → FinalGap cs ∨
        ∃ gap c rest, cs = gap ++ c :: rest ∧ Gap gap ∧ Text.isBlank c = false ∧ c ≠ ';' := by
      rintro gap ds rfl hne hgap
      have hlt : ds.length < n := by
        have hpos := List.length_pos_iff.mpr hne
        rw [← hn, List.length_append]
        omega
      rcases ih ds.length hlt ds rfl with h | ⟨gap', c, rest, rfl, hgap', hc⟩
      · exact .inl (h.prepend hgap)
      · exact .inr ⟨gap ++ gap', c, rest, by rw [List.append_assoc], hgap.append hgap', hc⟩
    cases cs with
    | nil => exact .inl (.gap .nil)
    | cons c cs =>
      by_cases hblank : Text.isBlank c = true
      · exact hskip [c] cs rfl (List.cons_ne_nil _ _) (.blank hblank .nil)
      · by_cases hc : c = ';'
        · subst hc
          by_cases hline : '\n' ∈ cs
          · obtain ⟨body, rest, rfl, hbody⟩ := List.eq_append_cons_of_mem hline
            exact hskip (';' :: (body ++ ['\n'])) rest (by simp) (List.cons_ne_nil _ _)
              (.comment hbody .nil)
          · exact .inl (.comment .nil hline)
        · exact .inr ⟨[], c, cs, rfl, .nil, Bool.not_eq_true _ ▸ hblank, hc⟩

/-! ## Longest lexemes -/

/-- May `d` follow in a lexeme that begins with `c`? -/
def continues (c d : Char) : Bool :=
  if c = '(' ∨ c = ')' then false else if c.isDigit then d.isDigit else inSymbol d

theorem continues_of_isDigit {c : Char} (hc : c.isDigit = true) : continues c = Char.isDigit := by
  obtain ⟨-, hopen, hclose, -⟩ := plain_of_isDigit hc
  funext d
  rw [continues, if_neg (by simp [hopen, hclose]), if_pos hc]

theorem continues_of_plain {c : Char} (hopen : c ≠ '(') (hclose : c ≠ ')')
    (hdigit : c.isDigit = false) : continues c = inSymbol := by
  funext d
  rw [continues, if_neg (by simp [hopen, hclose]), if_neg (by simp [hdigit])]

/-- A lexeme is not skipped, and all of it may follow its first character. -/
theorem lexeme_begins {us : List Char} {t : Token} (h : Lexeme us t) :
    ∃ c cs, us = c :: cs ∧ Text.isBlank c = false ∧ c ≠ ';' ∧ ∀ d ∈ cs, continues c d = true := by
  cases h with
  | lparen => exact ⟨_, _, rfl, by decide, by decide, nofun⟩
  | rparen => exact ⟨_, _, rfl, by decide, by decide, nofun⟩
  | @int us hne hdigits =>
    obtain ⟨c, cs, rfl⟩ := List.exists_cons_of_ne_nil hne
    have hc := hdigits c List.mem_cons_self
    obtain ⟨hblank, -, -, hcomment⟩ := plain_of_isDigit hc
    refine ⟨c, cs, rfl, hblank, hcomment, fun d hd => ?_⟩
    rw [continues_of_isDigit hc]
    exact hdigits d (List.mem_cons_of_mem c hd)
  | @symbol s hs =>
    cases htext : s.toList with
    | nil =>
      rw [isName, htext] at hs
      cases hs
    | cons c cs =>
      obtain ⟨⟨hblank, hopen, hclose, hcomment, hdigit, -⟩, hcs⟩ := isName_cons hs htext
      rw [← continues_of_plain hopen hclose hdigit] at hcs
      exact ⟨c, cs, rfl, hblank, hcomment, hcs⟩

/-- A lexeme can be made longer by a character that may follow. -/
theorem lexeme_extend {c d : Char} {cs : List Char} {t : Token} (h : Lexeme (c :: cs) t)
    (hd : continues c d = true) : ∃ u, Lexeme (c :: cs ++ [d]) u := by
  generalize hus : c :: cs = us at h
  cases h with
  | lparen | rparen =>
    cases hus
    cases hd
  | int hne hdigits =>
    rw [continues_of_isDigit (hdigits c (hus ▸ List.mem_cons_self))] at hd
    refine ⟨_, .int (List.append_ne_nil_of_right_ne_nil _ (List.cons_ne_nil _ _)) fun e he => ?_⟩
    rcases List.mem_append.mp he with he | he
    · exact hdigits e he
    · rw [List.mem_singleton.mp he]
      exact hd
  | @symbol s hs =>
    obtain ⟨⟨-, hopen, hclose, -, hdigit, -⟩, -⟩ := isName_cons hs hus.symm
    rw [continues_of_plain hopen hclose hdigit] at hd
    have hname : isName (s.push d) = true := by
      rw [isName, ← hus] at hs
      rw [isName, String.toList_push, ← hus, List.cons_append]
      simp only [List.all_cons, List.all_append, List.all_nil, hd, Bool.and_true] at hs ⊢
      exact hs
    rw [← String.toList_push]
    exact ⟨_, .symbol hname⟩

/-- The text goes on with a character that may not follow in a lexeme begun by `c`, or it ends. -/
def Ends (c : Char) (rest : List Char) : Prop :=
  rest = [] ∨ ∃ d ds, rest = d :: ds ∧ continues c d = false

/-- A lexeme is the longest if it cannot be made longer. -/
theorem longest_iff_ends {c : Char} {cs rest : List Char} {t : Token} (h : Lexeme (c :: cs) t) :
    Longest (c :: cs) (c :: cs ++ rest) ↔ Ends c rest := by
  constructor
  · intro hlongest
    cases rest with
    | nil => exact .inl rfl
    | cons d ds =>
      refine .inr ⟨d, ds, rfl, Bool.not_eq_true _ ▸ fun hd => ?_⟩
      obtain ⟨u, hu⟩ := lexeme_extend h hd
      have hle := hlongest _ u hu ⟨ds, by rw [List.append_assoc]; rfl⟩
      rw [List.length_append] at hle
      exact Nat.not_succ_le_self _ hle
  · intro hends us u hu hpre
    obtain ⟨c', us, rfl, -, -, hus⟩ := lexeme_begins hu
    rw [List.cons_append] at hpre
    obtain ⟨rfl, hfront⟩ := List.cons_prefix_cons.mp hpre
    -- a longer lexeme would contain the character after `cs`
    rcases hends with rfl | ⟨d, ds, rfl, hd⟩
    · rw [List.append_nil] at hfront
      exact Nat.succ_le_succ hfront.length_le
    · refine Nat.succ_le_succ (Nat.le_of_not_lt fun hlt => ?_)
      have hcut : cs ++ [d] <+: us :=
        List.prefix_of_prefix_length_le ⟨ds, by rw [List.append_assoc]; rfl⟩ hfront
          (by rw [List.length_append]; exact hlt)
      have hmem := hus d (hcut.subset (List.mem_append_right cs List.mem_cons_self))
      rw [hd] at hmem
      cases hmem

/-- Only an integer can be spelled and still not be legible. -/
theorem lexeme_legible {us : List Char} {t : Token} (h : Lexeme us t)
    (hsmall : ∀ n, t = .int n → n < indexLimit) : t.legible = true := by
  cases h with
  | lparen | rparen => rfl
  | int => exact decide_eq_true (hsmall _ rfl)
  | symbol hs => exact hs

/-- A longest lexeme is cut off as a whole. -/
theorem lex_of_lexeme {c : Char} {cs rest : List Char} {t : Token} (h : Lexeme (c :: cs) t)
    (hends : Ends c rest) (offset : Nat) :
    ∃ item stop, lex offset c (cs ++ rest) = (item, ⟨rest, stop⟩) ∧ IsItemOf item t := by
  generalize hus : c :: cs = us at h
  cases h with
  | lparen | rparen =>
    cases hus
    exact ⟨_, _, rfl, .inl ⟨rfl, _, rfl⟩⟩
  | int hne hdigits =>
    subst hus
    rw [Ends, continues_of_isDigit (hdigits c List.mem_cons_self)] at hends
    obtain ⟨span, stop, hlex⟩ := lex_digits hdigits hends offset
    refine ⟨_, stop, hlex, ?_⟩
    rw [Nat.ofDigitChars_eq_foldl, integer]
    by_cases hn : valueOf (c :: cs) < indexLimit
    · rw [if_pos hn]
      exact .inl ⟨decide_eq_true hn, span, rfl⟩
    · rw [if_neg hn]
      exact .inr ⟨decide_eq_false hn, _, rfl⟩
  | @symbol s hs =>
    obtain ⟨⟨-, hopen, hclose, -, hdigit, -⟩, -⟩ := isName_cons hs hus.symm
    rw [Ends, continues_of_plain hopen hclose hdigit] at hends
    obtain ⟨span, stop, hlex⟩ := lex_name hs hus.symm hends offset
    exact ⟨_, stop, hlex, .inl ⟨hs, span, rfl⟩⟩

theorem ends_dropWhile (c : Char) (rest : List Char) : Ends c (rest.dropWhile (continues c)) := by
  cases h : rest.dropWhile (continues c) with
  | nil => exact .inl rfl
  | cons d ds =>
    have hd := List.head_dropWhile_not (continues c) (h ▸ List.cons_ne_nil d ds)
    simp only [h, List.head_cons] at hd
    exact .inr ⟨d, ds, rfl, hd⟩

/-- A lexeme begins where nothing is skipped, unless there is a lexical error. -/
theorem exists_lexeme {c : Char} (hblank : Text.isBlank c = false) (hcomment : c ≠ ';')
    (rest : List Char) :
    (∀ offset, ∃ e after, lex offset c rest = (.error e, after)) ∨
      ∃ cs t rest', rest = cs ++ rest' ∧ Lexeme (c :: cs) t ∧ Ends c rest' := by
  have hends := ends_dropWhile c rest
  have hsplit : rest = rest.takeWhile (continues c) ++ rest.dropWhile (continues c) :=
    List.takeWhile_append_dropWhile.symm
  have htake : ∀ d ∈ rest.takeWhile (continues c), continues c d = true := fun d hd =>
    List.all_eq_true.mp List.all_takeWhile d hd
  by_cases hopen : c = '('
  · subst hopen
    exact .inr ⟨[], _, rest, rfl, .lparen, by cases rest <;> simp [Ends, continues]⟩
  by_cases hclose : c = ')'
  · subst hclose
    exact .inr ⟨[], _, rest, rfl, .rparen, by cases rest <;> simp [Ends, continues]⟩
  by_cases hdigit : c.isDigit = true
  · refine .inr ⟨_, _, _, hsplit, .int (List.cons_ne_nil _ _) ?_, hends⟩
    rw [continues_of_isDigit hdigit] at htake ⊢
    exact List.forall_mem_cons.mpr ⟨hdigit, htake⟩
  · rw [Bool.not_eq_true] at hdigit
    by_cases hcontrol : Text.isControl c = true
    · refine .inl fun offset =>
        ⟨⟨.unexpectedChar c, lex.single offset c⟩, ⟨rest, (lex.single offset c).stop⟩, ?_⟩
      rw [lex, if_neg hopen, if_neg hclose, if_neg (by simp [hdigit]), if_pos hcontrol]
    · rw [Bool.not_eq_true] at hcontrol
      have hname : isName (.ofList (c :: rest.takeWhile (continues c))) = true := by
        rw [continues_of_plain hopen hclose hdigit] at htake ⊢
        rw [isName, String.toList_ofList]
        simp only [hdigit, hcontrol, List.all_cons, List.all_eq_true.mpr htake, inSymbol, hblank,
          bne_iff_ne.mpr hopen, bne_iff_ne.mpr hclose, bne_iff_ne.mpr hcomment]
        rfl
      have hlexeme := Lexeme.symbol hname
      rw [String.toList_ofList] at hlexeme
      exact .inr ⟨_, _, _, hsplit, hlexeme, hends⟩

/-! ## The lexer -/

/-- **The lexer splits a text.** The tokens that are cut off it are those that it consists of. -/
theorem spells_iff_splits {cs : List Char} {offset : Nat} {ts : List Token} :
    Spells ⟨cs, offset⟩ ts ↔ Splits cs ts := by
  constructor
  · intro h
    generalize hcursor : Cursor.mk cs offset = cursor at h
    induction h generalizing cs offset with
    | done hnext =>
      subst hcursor
      rcases gap_cases cs with h | ⟨gap, c, rest, rfl, hgap, hblank, hc⟩
      · exact .done h
      · rw [next?, skip_gap hgap, skip_stop hblank hc] at hnext
        cases hnext
    | @token _ after t span ts hnext _ ih =>
      subst hcursor
      rcases gap_cases cs with h | ⟨gap, c, rest, rfl, hgap, hblank, hc⟩
      · rw [next?, (skip_finalGap h offset).1] at hnext
        cases hnext
      · rw [next?, skip_gap hgap, skip_stop hblank hc] at hnext
        have hlex := Option.some.inj hnext
        rcases exists_lexeme hblank hc rest with herror | ⟨us, u, rest, rfl, hu, hends⟩
        · obtain ⟨e, after', he⟩ := herror (offset + byteCount gap)
          cases hlex.symm.trans he
        · obtain ⟨item, stop, hitem, hof⟩ := lex_of_lexeme hu hends (offset + byteCount gap)
          obtain ⟨⟨⟩⟩ := hlex.symm.trans hitem
          obtain ⟨hlegible, _, ⟨⟩⟩ | ⟨-, _, ⟨⟩⟩ := hof
          refine .token hgap hu ((longest_iff_ends hu).mpr hends) ?_ (ih rfl)
          rintro n rfl
          exact of_decide_eq_true hlegible
  · intro h
    induction h generalizing offset with
    | done hgap => exact .done (by rw [next?, (skip_finalGap hgap offset).1])
    | @token gap cs rest t ts hgap ht hlongest hsmall _ ih =>
      have hlegible := lexeme_legible ht hsmall
      obtain ⟨c, cs, rfl, hblank, hc, -⟩ := lexeme_begins ht
      obtain ⟨item, stop, hlex, hof⟩ :=
        lex_of_lexeme ht ((longest_iff_ends ht).mp hlongest) (offset + byteCount gap)
      have hnext :
          (Cursor.mk (gap ++ (c :: cs ++ rest)) offset).next? = some (item, ⟨rest, stop⟩) := by
        rw [next?, skip_gap hgap, List.cons_append, skip_stop hblank hc, ← hlex]
      rcases hof with ⟨-, span, rfl⟩ | ⟨hill, -⟩
      · exact .token hnext ih
      · cases hlegible.symm.trans hill

end Cursor

/-- Whatever a text consists of can be read again. -/
theorem Splits.legible {cs : List Char} {ts : List Token} (h : Splits cs ts) :
    ∀ t ∈ ts, t.legible = true := by
  induction h with
  | done => nofun
  | token _ ht _ hsmall _ ih => exact List.forall_mem_cons.mpr ⟨Cursor.lexeme_legible ht hsmall, ih⟩

end SystemT
