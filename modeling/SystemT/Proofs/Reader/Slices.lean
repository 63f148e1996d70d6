import SystemT.Proofs.Reader.Placement
import SystemT.Proofs.Reader.Tape

/-!
# Parts of a text

An item is cut off a text together with the gap in front of it (`Cursor.next?_cut`). It depends on
nothing but the characters that it is made of, and on the one after them, which does not belong to
it. So tokens that follow each other in a text (`Cursor.Cuts`) are cut off the part of the text that
they make up as well, wherever this part stands (`Cursor.Cuts.slice`).
-/

namespace SystemT

open Text (byteCount byteCount_nil byteCount_cons byteCount_append byteCount_toList)

/-- The same item in another place. -/
def Cursor.Item.place (span : Span) : Cursor.Item → Cursor.Item
  | .ok (t, _) => .ok (t, span)
  | .error e => .error ⟨e.cause, span⟩

namespace Cursor

/-! ## Single items -/

/-- A run of characters ends where it ends, whatever is left of the text after it. -/
theorem takeWhile_cut (belongs : Char → Bool) (cs : List Char) {mid : List Char}
    (h : mid <+: cs.dropWhile belongs) :
    (cs.takeWhile belongs ++ mid).takeWhile belongs = cs.takeWhile belongs ∧
      (cs.takeWhile belongs ++ mid).dropWhile belongs = mid := by
  have hbody : ∀ d ∈ cs.takeWhile belongs, belongs d = true := fun d hd =>
    List.all_eq_true.mp List.all_takeWhile d hd
  rw [List.takeWhile_append_of_pos hbody, List.dropWhile_append_of_pos hbody]
  cases mid with
  | nil => simp
  | cons d ds =>
    obtain ⟨rest, hrest⟩ := h
    have hne : cs.dropWhile belongs ≠ [] := by
      rw [← hrest]
      exact List.cons_ne_nil _ _
    have hd := List.head_dropWhile_not belongs hne
    simp only [← hrest, List.cons_append, List.head_cons] at hd
    simp [hd]

/-- The item that starts with `c` is made of some of the characters after it, and stays the same if
the text ends anywhere after these. -/
theorem lex_cut (c : Char) (cs : List Char) :
    ∃ item body rest, cs = body ++ rest ∧ ∀ mid, mid <+: rest → ∀ n, lex n c (body ++ mid) =
      (Item.place ⟨n, n + byteCount (c :: body)⟩ item, ⟨mid, n + byteCount (c :: body)⟩) := by
  have hrun : ∀ belongs make, (∀ text span span', (make text span').place span = make text span) →
      ∀ mid, mid <+: cs.dropWhile belongs → ∀ n,
        lex.run n c (cs.takeWhile belongs ++ mid) belongs make =
          (Item.place ⟨n, n + byteCount (c :: cs.takeWhile belongs)⟩
            (make (c :: cs.takeWhile belongs) default),
            ⟨mid, n + byteCount (c :: cs.takeWhile belongs)⟩) := by
    intro belongs make hmake mid hmid n
    obtain ⟨htake, hdrop⟩ := takeWhile_cut belongs cs hmid
    simp only [lex.run, htake, hdrop, hmake, ← byteCount_toList, String.toList_ofList]
  have hcut : ∀ belongs, cs = cs.takeWhile belongs ++ cs.dropWhile belongs := fun belongs =>
    List.takeWhile_append_dropWhile.symm
  by_cases hopen : c = '('
  · subst hopen
    exact ⟨.ok (.lparen, default), [], cs, rfl, fun mid _ n => rfl⟩
  by_cases hclose : c = ')'
  · subst hclose
    exact ⟨.ok (.rparen, default), [], cs, rfl, fun mid _ n => rfl⟩
  by_cases hdigit : c.isDigit = true
  · refine ⟨integer (c :: cs.takeWhile Char.isDigit) default, _, _, hcut Char.isDigit,
      fun mid hmid n => ?_⟩
    rw [lex, if_neg hopen, if_neg hclose, if_pos hdigit]
    refine hrun _ _ (fun text span span' => ?_) mid hmid n
    unfold integer
    split <;> rfl
  by_cases hcontrol : Text.isControl c = true
  · refine ⟨.error ⟨.unexpectedChar c, default⟩, [], cs, rfl, fun mid _ n => ?_⟩
    rw [lex, if_neg hopen, if_neg hclose, if_neg hdigit, if_pos hcontrol, byteCount_cons]
    rfl
  · refine ⟨.ok (.symbol (.ofList (c :: cs.takeWhile inSymbol)), default), _, _, hcut inSymbol,
      fun mid hmid n => ?_⟩
    rw [lex, if_neg hopen, if_neg hclose, if_neg hdigit, if_neg hcontrol]
    exact hrun _ _ (fun _ _ _ => rfl) mid hmid n

/-- The item is made of the characters `text` after a gap. It stays the same after any other gap,
and if the text ends anywhere after it. -/
structure Cut (cursor : Cursor) (item : Item) (after : Cursor) (gap text : List Char) : Prop where
  isGap : Gap gap
  ne_nil : text ≠ []
  rest_eq : cursor.rest = gap ++ (text ++ after.rest)
  span_eq : item.span = ⟨cursor.offset + byteCount gap, after.offset⟩
  offset_eq : after.offset = cursor.offset + byteCount (gap ++ text)
  anywhere : ∀ lead mid n, Gap lead → mid <+: after.rest →
    (Cursor.mk (lead ++ (text ++ mid)) n).next? =
      some (item.place ⟨n + byteCount lead, n + byteCount (lead ++ text)⟩,
        ⟨mid, n + byteCount (lead ++ text)⟩)

theorem next?_cut {cursor after : Cursor} {item : Item} (h : cursor.next? = some (item, after)) :
    ∃ gap text, Cut cursor item after gap text := by
  obtain ⟨rest, offset⟩ := cursor
  rcases gap_cases rest with hgap | ⟨gap, c, cs, rfl, hgap, hblank, hc⟩
  · rw [next?, (skip_finalGap hgap offset).1] at h
    cases h
  · obtain ⟨item', body, rest, rfl, hlex⟩ := lex_cut c cs
    rw [next?, skip_gap hgap, skip_stop hblank hc] at h
    dsimp only at h
    rw [hlex rest (List.prefix_refl _)] at h
    obtain ⟨rfl, rfl⟩ := Prod.mk.inj (Option.some.inj h)
    refine ⟨gap, c :: body, hgap, List.cons_ne_nil _ _, rfl, ?_, ?_,
      fun lead mid n hlead hmid => ?_⟩
    · cases item' <;> rfl
    · rw [byteCount_append, Nat.add_assoc]
    · rw [next?, skip_gap hlead, List.cons_append, skip_stop hblank hc]
      dsimp only
      rw [hlex mid hmid, byteCount_append, ← Nat.add_assoc]
      cases item' <;> rfl

/-! ## Tokens that follow each other -/

/-- The tokens are cut off the text one after the other, which leaves the second cursor. -/
inductive Cuts : Cursor → List (Token × Span) → Cursor → Prop
  | nil (cursor : Cursor) : Cuts cursor [] cursor
  | cons {cursor cursor' after : Cursor} {item : Token × Span} {toks : List (Token × Span)} :
    cursor.next? = some (.ok item, cursor') → Cuts cursor' toks after →
    Cuts cursor (item :: toks) after

variable {cursor after : Cursor} {toks : List (Token × Span)}

theorem Cuts.snoc (h : Cuts cursor toks after) {item : Token × Span} {after' : Cursor}
    (hnext : after.next? = some (.ok item, after')) : Cuts cursor (toks ++ [item]) after' := by
  induction h with
  | nil => exact .cons hnext (.nil _)
  | cons hfirst _ ih => exact .cons hfirst (ih hnext)

theorem Cuts.items_eq (h : Cuts cursor toks after) :
    cursor.items = toks.map .ok ++ after.items := by
  induction h with
  | nil => rfl
  | cons hnext _ ih => rw [items_of_next? hnext, ih, List.map_cons, List.cons_append]

/-- What the text is cut into begins with these tokens. -/
theorem Cuts.spells_iff (h : Cuts cursor toks after) {ts : List Token} :
    cursor.Spells ts ↔ ∃ us, ts = toks.map Prod.fst ++ us ∧ after.Spells us := by
  induction h generalizing ts with
  | nil =>
    constructor
    · intro hts
      exact ⟨ts, rfl, hts⟩
    · rintro ⟨us, rfl, hus⟩
      exact hus
  | @cons _ _ _ item _ hnext _ ih =>
    rw [spells_token_iff hnext]
    constructor
    · rintro ⟨us, rfl, hus⟩
      obtain ⟨vs, rfl, hvs⟩ := ih.mp hus
      exact ⟨vs, rfl, hvs⟩
    · rintro ⟨us, rfl, hus⟩
      exact ⟨_, rfl, ih.mpr ⟨us, rfl, hus⟩⟩

/-- Tokens that are cut off until nothing is left are all of them. -/
theorem Cuts.unique {toks' : List (Token × Span)} {after' : Cursor} (h : Cuts cursor toks after)
    (h' : Cuts cursor toks' after') (hend : after.next? = none) (hend' : after'.next? = none) :
    toks = toks' ∧ after = after' := by
  induction h generalizing toks' with
  | nil =>
    cases h' with
    | nil => exact ⟨rfl, rfl⟩
    | cons hnext _ => exact nomatch hend.symm.trans hnext
  | cons hnext _ ih =>
    cases h' with
    | nil => exact nomatch hend'.symm.trans hnext
    | cons hnext' hrest =>
      obtain ⟨⟨⟩⟩ := hnext.symm.trans hnext'
      obtain ⟨rfl, rfl⟩ := ih hrest hend
      exact ⟨rfl, rfl⟩

/-- The tokens of a text are all that it is cut into. -/
theorem Spells.unique {ts us : List Token} (hts : cursor.Spells ts) (hus : cursor.Spells us) :
    ts = us := by
  induction hts generalizing us with
  | done hend =>
    cases hus with
    | done => rfl
    | token hnext => exact nomatch hend.symm.trans hnext
  | token hnext _ ih =>
    obtain ⟨vs, rfl, hvs⟩ := (spells_token_iff hnext).mp hus
    rw [ih hvs]

/-- The tokens are made of the characters `text` after a gap. The same tokens are cut off this part
of the text, after any gap and with nothing behind it. -/
structure Slice (cursor : Cursor) (item : Token × Span) (toks : List (Token × Span))
    (after : Cursor) (gap text : List Char) : Prop where
  isGap : Gap gap
  ne_nil : text ≠ []
  rest_eq : cursor.rest = gap ++ (text ++ after.rest)
  start_eq : item.2.start = cursor.offset + byteCount gap
  offset_eq : after.offset = cursor.offset + byteCount (gap ++ text)
  alone : ∀ lead n, Gap lead → ∃ item' toks',
    (item' :: toks').map Prod.fst = (item :: toks).map Prod.fst ∧
    item'.2.start = n + byteCount lead ∧
    Cuts ⟨lead ++ text, n⟩ (item' :: toks') ⟨[], n + byteCount (lead ++ text)⟩

/-- **Parts of a text.** Tokens that follow each other are made of a part of the text, and are cut
off this part as well. -/
theorem Cuts.slice {item : Token × Span} (h : Cuts cursor (item :: toks) after) :
    ∃ gap text, Slice cursor item toks after gap text := by
  induction toks generalizing cursor item with
  | nil =>
    cases h with
    | cons hnext hrest =>
      cases hrest
      obtain ⟨gap, text, hcut⟩ := next?_cut hnext
      refine ⟨gap, text, hcut.isGap, hcut.ne_nil, hcut.rest_eq, congrArg Span.start hcut.span_eq,
        hcut.offset_eq, fun lead n hlead => ?_⟩
      have hitem := hcut.anywhere lead [] n hlead List.nil_prefix
      rw [List.append_nil] at hitem
      exact ⟨(item.1, ⟨n + byteCount lead, n + byteCount (lead ++ text)⟩), [], rfl, rfl,
        .cons hitem (.nil _)⟩
  | cons next toks ih =>
    cases h with
    | @cons _ middle _ _ _ hnext hrest =>
      obtain ⟨gap, text, hcut⟩ := next?_cut hnext
      obtain ⟨gap', text', hslice⟩ := ih hrest
      -- the gap between the first token and the others belongs to the part
      have htext : gap ++ (text ++ (gap' ++ (text' ++ after.rest))) =
          gap ++ (text ++ (gap' ++ text') ++ after.rest) := by
        simp only [List.append_assoc]
      refine ⟨gap, text ++ (gap' ++ text'), hcut.isGap,
        List.append_ne_nil_of_left_ne_nil hcut.ne_nil _, ?_, congrArg Span.start hcut.span_eq, ?_,
        fun lead n hlead => ?_⟩
      · rw [hcut.rest_eq, hslice.rest_eq, htext]
      · rw [hslice.offset_eq, hcut.offset_eq, ← List.append_assoc, byteCount_append (gap ++ text),
          Nat.add_assoc]
      · have hitem := hcut.anywhere lead (gap' ++ text') n hlead
          ⟨after.rest, by rw [hslice.rest_eq, List.append_assoc]⟩
        obtain ⟨item', toks', htoks, -, hcuts⟩ :=
          hslice.alone gap' (n + byteCount (lead ++ text)) hslice.isGap
        have hend : n + byteCount (lead ++ text) + byteCount (gap' ++ text') =
            n + byteCount (lead ++ (text ++ (gap' ++ text'))) := by
          rw [← List.append_assoc lead, byteCount_append (lead ++ text), Nat.add_assoc]
        rw [hend] at hcuts
        refine ⟨(item.1, ⟨n + byteCount lead, n + byteCount (lead ++ text)⟩), item' :: toks', ?_,
          rfl, .cons hitem hcuts⟩
        rw [List.map_cons, htoks]
        rfl

end Cursor

/-! ## Places in a text -/

namespace Span

/-- The range is that of `part` in the text `source`. -/
inductive Marks : Span → String → String → Prop
  | mk (before part after : String) :
    Marks ⟨before.utf8ByteSize, (before ++ part).utf8ByteSize⟩ (before ++ part ++ after) part

/-- The range lies in the text `source` and does not cut a character. -/
structure Within (source : String) (span : Span) : Prop where
  le : span.start ≤ span.stop
  stop_le : span.stop ≤ source.utf8ByteSize
  start_valid : (String.Pos.Raw.mk span.start).IsValid source
  stop_valid : (String.Pos.Raw.mk span.stop).IsValid source

theorem Marks.within {span : Span} {source part : String} (h : span.Marks source part) :
    span.Within source := by
  obtain ⟨before, part, after⟩ := h
  refine ⟨?_, ?_, ?_, ?_⟩
  · rw [String.utf8ByteSize_append]
    exact Nat.le_add_right _ _
  · rw [@String.utf8ByteSize_append (before ++ part) after]
    exact Nat.le_add_right _ _
  · rw [String.append_assoc]
    exact String.Pos.Raw.isValid_iff_exists_append.mpr ⟨before, part ++ after, rfl, rfl⟩
  · exact String.Pos.Raw.isValid_iff_exists_append.mpr ⟨before ++ part, after, rfl, rfl⟩

theorem Marks.size_eq {span : Span} {source part : String} (h : span.Marks source part) :
    span.stop - span.start = part.utf8ByteSize := by
  obtain ⟨before, part, after⟩ := h
  rw [String.utf8ByteSize_append, Nat.add_sub_cancel_left]

theorem marks_of_toList {source : String} {before part after : List Char}
    (h : source.toList = before ++ (part ++ after)) :
    Marks ⟨byteCount before, byteCount (before ++ part)⟩ source (.ofList part) := by
  have hmark := Marks.mk (.ofList before) (.ofList part) (.ofList after)
  have hsource : String.ofList before ++ String.ofList part ++ String.ofList after = source := by
    rw [← String.ofList_append, ← String.ofList_append, List.append_assoc, ← h,
      String.ofList_toList]
  rw [hsource, ← String.ofList_append, ← byteCount_toList, ← byteCount_toList,
    String.toList_ofList, String.toList_ofList] at hmark
  exact hmark

end Span

namespace Cursor

/-- What comes before a cursor is as long as its offset says. -/
theorem exists_before (cs : List Char) (n : Nat) :
    ∃ before, cs = before ++ (behind ⟨cs, 0⟩ n).rest ∧
      byteCount before = (behind ⟨cs, 0⟩ n).offset := by
  induction n with
  | zero => exact ⟨[], rfl, rfl⟩
  | succ n ih =>
    obtain ⟨before, hcs, hbytes⟩ := ih
    rw [behind, past]
    cases hnext : (behind ⟨cs, 0⟩ n).next? with
    | none => exact ⟨before, hcs, hbytes⟩
    | some found =>
      obtain ⟨gap, text, hcut⟩ := next?_cut hnext
      refine ⟨before ++ (gap ++ text), ?_, ?_⟩
      · rw [hcut.rest_eq] at hcs
        rw [hcs]
        simp only [List.append_assoc]
      · rw [byteCount_append, hbytes, hcut.offset_eq]

/-- The range of a part of what is left to a cursor. -/
theorem marks_behind {source : String} {n : Nat} {gap part after : List Char}
    (h : (behind ⟨source.toList, 0⟩ n).rest = gap ++ (part ++ after)) :
    Span.Marks ⟨(behind ⟨source.toList, 0⟩ n).offset + byteCount gap,
      (behind ⟨source.toList, 0⟩ n).offset + byteCount (gap ++ part)⟩ source (.ofList part) := by
  obtain ⟨before, hsource, hbytes⟩ := exists_before source.toList n
  rw [h, ← List.append_assoc] at hsource
  have hmark := Span.marks_of_toList hsource
  rw [byteCount_append, List.append_assoc, byteCount_append before, hbytes] at hmark
  exact hmark

/-- Every item of a text has the range of a part of it. -/
theorem marks_of_item {source : String} {k : Nat} {item : Item}
    (h : (items ⟨source.toList, 0⟩)[k]? = some item) : ∃ part, item.span.Marks source part := by
  obtain ⟨gap, text, hcut⟩ := next?_cut (next?_behind h)
  have hmark := marks_behind hcut.rest_eq
  rw [← hcut.offset_eq, ← hcut.span_eq] at hmark
  exact ⟨_, hmark⟩

end Cursor

end SystemT
