import SystemT.Proofs.Reader.Expressions
import SystemT.Proofs.Reader.Slices

/-!
# Ranges of forms and errors

The range of a form is put together from the token that was looked at first and the end of the token
that was taken last. It is the range of the part of the text that the form is made of
(`Reader.Stands.form_place`, `Cursor.Cuts.slice`). This part is read as the same form alone, since
the tokens derive the form wherever they stand (`Reader.program_of_derives`).

All forms of a text stand one after the other in it, with nothing but gaps between them
(`Reader.Gives.spaced`). An error has the range of an item or stands at the end of the text
(`Reader.within_of_stops`).
-/

namespace SystemT

open Text (byteCount byteCount_nil byteCount_append byteCount_toList length_le_byteCount)

/-- The same form with another range. -/
def Form.withSpan (span : Span) : Form → Form
  | define x t _ => define x t span
  | declare x A _ => declare x A span
  | expr t _ => expr t span

@[simp] theorem Form.span_withSpan (f : Form) (span : Span) : (f.withSpan span).span = span := by
  cases f <;> rfl

/-! ## Ranges in a text -/

/-- The ranges are those of parts of the text, none of which is empty, with gaps around them. The
text stands `n` bytes after the start. -/
inductive Spaced : Nat → List Char → List Span → Prop
  | done {n : Nat} {gap : List Char} : FinalGap gap → Spaced n gap []
  | range {n : Nat} {gap part rest : List Char} {spans : List Span} : Gap gap → part ≠ [] →
    Spaced (n + byteCount (gap ++ part)) rest spans →
    Spaced n (gap ++ (part ++ rest))
      (⟨n + byteCount gap, n + byteCount (gap ++ part)⟩ :: spans)

section

variable {n : Nat} {cs : List Char} {spans : List Span}

theorem Spaced.bounds (h : Spaced n cs spans) :
    ∀ span ∈ spans, n ≤ span.start ∧ span.start < span.stop := by
  induction h with
  | done => nofun
  | @range n gap part rest spans _ hpart _ ih =>
    have hlength := List.length_pos_iff.mpr hpart
    have hbytes := length_le_byteCount part
    rw [byteCount_append] at ih ⊢
    refine List.forall_mem_cons.mpr ⟨⟨Nat.le_add_right _ _, by dsimp only; omega⟩, ?_⟩
    intro span hspan
    obtain ⟨hle, hlt⟩ := ih span hspan
    exact ⟨by omega, hlt⟩

theorem Spaced.ordered (h : Spaced n cs spans) :
    spans.Pairwise fun span span' => span.stop ≤ span'.start := by
  induction h with
  | done => exact .nil
  | range _ _ hrest ih => exact .cons (fun span hspan => (hrest.bounds span hspan).1) ih

end

namespace Reader

open Cursor (behind Cuts)

variable {source : String} {i j : Nat} {r r' : Reader} {f : Form} {forms : List Form}

/-! ## Reading a form back -/

/-- The range of a form begins with the token that comes first and ends with the one taken last. -/
theorem span_of_form (h : form r = .ok f r') :
    ∃ item s, peek r = .ok (some item) s ∧ f.span = ⟨item.2.start, r'.lastStop⟩ := by
  obtain ⟨_, _, ⟨⟩, h⟩ := bind_eq_ok h
  obtain ⟨item?, s, hpeek, h⟩ := bind_eq_ok h
  cases item? with
  | none => cases h
  | some item =>
    refine ⟨item, s, hpeek, ?_⟩
    obtain ⟨t, first⟩ := item
    cases t with
    | rparen | symbol | int =>
      obtain ⟨_, _, -, h⟩ := bind_eq_ok h
      cases h
      rfl
    | lparen =>
      obtain ⟨_, _, -, h⟩ := bind_eq_ok h
      obtain ⟨⟨head, headSpan⟩, _, -, h⟩ := bind_eq_ok h
      dsimp only at h
      split at h
      · obtain ⟨_, _, -, h⟩ := bind_eq_ok h
        obtain ⟨_, _, -, h⟩ := bind_eq_ok h
        obtain ⟨_, _, -, h⟩ := bind_eq_ok h
        cases h
        rfl
      · obtain ⟨_, _, -, h⟩ := bind_eq_ok h
        obtain ⟨_, _, -, h⟩ := bind_eq_ok h
        obtain ⟨_, _, -, h⟩ := bind_eq_ok h
        cases h
        rfl
      · obtain ⟨_, _, -, h⟩ := bind_eq_ok h
        cases h
        rfl

/-- What comes after the head of a declaration is a name and a body. -/
theorem reads_declaration {α : Type} {body : ReadM α} {ts : List Token} {a : α}
    (h : Reads body ts (· = a)) (x : String) (make : String → α → Span → Form) (start : Nat) :
    Reads (symbol >>= fun name => body >>= fun a => rparen >>= fun _ =>
        spanFrom start >>= fun span => pure (make name.1 a span))
      (.symbol x :: (ts ++ [.rparen])) fun f => ∃ span, f = make x a span := by
  refine reads_cons (reads_symbol x) ?_
  rintro ⟨_, _⟩ rfl
  refine reads_bind h ?_
  rintro _ rfl
  refine reads_cons reads_rparen fun _ _ => ?_
  rintro r rest hr
  exact ⟨_, r, rfl, ⟨_, rfl⟩, hr⟩

/-- A text that spells a form is read as this form. -/
theorem form_of_derives {ts : List Token} (h : Form.Derives ts f)
    (hts : Cursor.Spells ⟨source.toList, 0⟩ ts) :
    ∃ span s, form (ofString source) = .ok (f.withSpan span) s ∧ s.Spells [] := by
  have hspells : (ofString source).Spells (ts ++ []) := by
    rw [List.append_nil]
    exact hts
  have hbudget : ts.length < (ofString source).budget :=
    Nat.lt_of_le_of_lt hts.length_le (left_ofString_lt_budget source)
  have hread : form (ofString source) = (peek >>= _) (ofString source) := rfl
  have hfinal : ∀ {act : ReadM Form} {s : Reader},
      Reads act ts (fun f' => ∃ span, f' = f.withSpan span) → s.Spells (ts ++ []) →
      ∃ span s', act s = .ok (f.withSpan span) s' ∧ s'.Spells [] := by
    intro act s hact hs
    obtain ⟨_, s', hact, ⟨span, rfl⟩, hs'⟩ := hact s [] hs
    exact ⟨span, s', hact, hs'⟩
  cases h with
  | @define x us t span ht =>
    rw [Token.length_listOf, List.length_cons] at hbudget
    obtain ⟨first, s, hpeek, hs⟩ := peek_of_spells hspells
    rw [hread, bind_of_ok hpeek]
    refine hfinal (reads_cons (reads_next .lparen) fun _ _ => ?_) hs
    refine reads_cons (reads_symbol "def") ?_
    rintro ⟨_, _⟩ rfl
    exact reads_declaration (reads_term ht (by omega)) x (fun name t => .define (.named name) t) _
  | @declare x us A span hA =>
    rw [Token.length_listOf, List.length_cons] at hbudget
    obtain ⟨first, s, hpeek, hs⟩ := peek_of_spells hspells
    rw [hread, bind_of_ok hpeek]
    refine hfinal (reads_cons (reads_next .lparen) fun _ _ => ?_) hs
    refine reads_cons (reads_symbol "axiom") ?_
    rintro ⟨_, _⟩ rfl
    exact reads_declaration (reads_ty hA (by omega)) x (fun name A => .declare (.named name) A) _
  | expr ht =>
    obtain ⟨_, s, hterm, rfl, hs⟩ := reads_term ht (Nat.le_of_lt hbudget) _ [] hspells
    obtain ⟨span', hform⟩ := ((stands_start source).form_expr_iff _ s).mpr hterm
    exact ⟨span', s, hform, hs⟩

/-! ## Places of forms -/

/-- What a reader has left is what its place has left. -/
theorem Stands.spells_iff (hr : Stands source i r) {ts : List Token} :
    r.Spells ts ↔ (behind ⟨source.toList, 0⟩ i).Spells ts := by
  cases hr with
  | bare _ => exact Iff.rfl
  | looked hitem => exact (Cursor.spells_token_iff (Cursor.next?_behind hitem)).symm

/-- Tokens that were taken follow each other in the text. -/
theorem cuts_of_taken (h : (Tape.ofString source).Taken i j) :
    ∃ toks, Cuts (behind ⟨source.toList, 0⟩ i) toks (behind ⟨source.toList, 0⟩ j) ∧
      toks.length = j - i := by
  obtain ⟨n, rfl⟩ := Nat.exists_eq_add_of_le h.le
  induction n with
  | zero => exact ⟨[], .nil _, by simp⟩
  | succ n ih =>
    obtain ⟨toks, hcuts, hlength⟩ := ih
      ⟨Nat.le_add_right _ _, Nat.le_of_succ_le h.le_length, fun k hle hlt =>
        h.tokens k hle (Nat.lt_succ_of_lt hlt)⟩
    obtain ⟨item, hitem⟩ := h.tokens (i + n) (Nat.le_add_right _ _) (Nat.lt_succ_self _)
    refine ⟨toks ++ [item], hcuts.snoc (Cursor.next?_behind hitem), ?_⟩
    rw [List.length_append, hlength, List.length_singleton]
    omega

/-- The token taken last ends where the reader stands. -/
theorem lastStop_of_taken (h : (Tape.ofString source).Taken i j) (hlt : i < j) :
    (Tape.ofString source).lastStop j = (behind ⟨source.toList, 0⟩ j).offset := by
  obtain ⟨k, rfl⟩ := Nat.exists_eq_succ_of_ne_zero (Nat.ne_of_gt (Nat.lt_of_le_of_lt i.zero_le hlt))
  obtain ⟨⟨t, span⟩, hitem⟩ := h.tokens k (by omega) (Nat.lt_succ_self k)
  obtain ⟨gap, text, hcut⟩ := Cursor.next?_cut (Cursor.next?_behind hitem)
  rw [Tape.lastStop_succ hitem]
  exact congrArg Span.stop hcut.span_eq

/-- A form is made of tokens that follow each other, and has their range. -/
theorem Stands.form_place (hr : Stands source i r) (h : form r = .ok f r') :
    ∃ j item toks, Stands source j r' ∧
      Cuts (behind ⟨source.toList, 0⟩ i) (item :: toks) (behind ⟨source.toList, 0⟩ j) ∧
      f.span = ⟨item.2.start, (behind ⟨source.toList, 0⟩ j).offset⟩ := by
  rcases replays_form i r hr nofun (Nat.le_add_left _ i) with
    ⟨f', j, s, hform, -, hs, htaken, hlt⟩ | ⟨e, j, hform, -⟩
  · cases h.symm.trans hform
    obtain ⟨toks, hcuts, hlength⟩ := cuts_of_taken htaken
    obtain ⟨item, toks, rfl⟩ := List.exists_cons_of_length_pos (by omega : 0 < toks.length)
    obtain ⟨item', t, hpeek, hspan⟩ := span_of_form h
    -- the token that was looked at first is the first of these
    have hfirst : item' = item := by
      have hitems := hcuts.items_eq
      rw [Cursor.items_behind] at hitems
      have hitem : (Tape.ofString source).items[i]? = some (.ok item) := by
        rw [← List.head?_drop]
        exact congrArg List.head? hitems
      rcases hr.peek_cases with ⟨found, hfound, hpeek', -⟩ | ⟨e, -, hpeek', -⟩ | ⟨-, -, hpeek', -⟩
      · cases hfound.symm.trans hitem
        cases hpeek.symm.trans hpeek'
        rfl
      · cases hpeek.symm.trans hpeek'
      · cases hpeek.symm.trans hpeek'
    refine ⟨j, item, toks, hs, hcuts, ?_⟩
    rw [hspan, hfirst, hs.lastStop_eq, lastStop_of_taken htaken hlt]
  · cases h.symm.trans hform

/-- A text that consists of the tokens of a form, without a gap in front or behind, is read as this
form alone, which has the range of the whole text. -/
theorem program_of_derives {part : List Char} {item : Token × Span} {toks : List (Token × Span)}
    (h : Form.Derives ((item :: toks).map Prod.fst) f) (hstart : item.2.start = 0)
    (hcuts : Cuts ⟨part, 0⟩ (item :: toks) ⟨[], byteCount part⟩) :
    ∃ s, program (ofString (.ofList part)) = .ok [f.withSpan ⟨0, byteCount part⟩] s := by
  rw [program_iff_gives]
  have hpart : (String.ofList part).toList = part := String.toList_ofList
  have hspells : Cursor.Spells ⟨part, 0⟩ ((item :: toks).map Prod.fst) :=
    hcuts.spells_iff.mpr ⟨[], (List.append_nil _).symm, .done rfl⟩
  rw [← hpart] at hspells
  obtain ⟨span, s, hform, hs⟩ := form_of_derives h hspells
  have hpeek := peek_of_spells_nil hs
  -- all tokens have been taken, so that the range is that of the text
  obtain ⟨j, item', toks', hstands, hcuts', hspan⟩ := (stands_start _).form_place hform
  have hbehind : behind ⟨(String.ofList part).toList, 0⟩ 0 = ⟨part, 0⟩ := by rw [hpart]; rfl
  rw [hbehind] at hcuts'
  have hend : (behind ⟨(String.ofList part).toList, 0⟩ j).next? = none := by
    cases hstands.spells_iff.mp hs with
    | done hend => exact hend
  obtain ⟨hsame, hafter⟩ := hcuts.unique hcuts' rfl hend
  obtain ⟨rfl, rfl⟩ := List.cons.inj hsame
  rw [Form.span_withSpan, ← hafter, hstart] at hspan
  rw [hspan] at hform
  exact .more (((stands_start _).form?_eq_some _).mpr hform) (.done (form?_eq_none.mpr hpeek))

/-- A part of the text is read as the form alone. -/
theorem Stands.form_slice (hr : Stands source i r) (h : form r = .ok f r')
    (hrest : ∃ us, r'.Spells us) :
    ∃ j gap part, Stands source j r' ∧ Gap gap ∧ part ≠ [] ∧
      (behind ⟨source.toList, 0⟩ i).rest = gap ++ (part ++ (behind ⟨source.toList, 0⟩ j).rest) ∧
      (behind ⟨source.toList, 0⟩ j).offset =
        (behind ⟨source.toList, 0⟩ i).offset + byteCount (gap ++ part) ∧
      f.span = ⟨(behind ⟨source.toList, 0⟩ i).offset + byteCount gap,
        (behind ⟨source.toList, 0⟩ i).offset + byteCount (gap ++ part)⟩ ∧
      ∃ s, program (ofString (.ofList part)) = .ok [f.withSpan ⟨0, byteCount part⟩] s := by
  obtain ⟨j, item, toks, hs, hcuts, hspan⟩ := hr.form_place h
  obtain ⟨gap, part, hslice⟩ := hcuts.slice
  refine ⟨j, gap, part, hs, hslice.isGap, hslice.ne_nil, hslice.rest_eq, hslice.offset_eq, ?_, ?_⟩
  · rw [hspan, hslice.start_eq, hslice.offset_eq]
  · -- the form is derived from the tokens that were taken, as those after them are known
    obtain ⟨ts, hderives, hpast⟩ := takes_form r f r' h
    obtain ⟨us, hus⟩ := hrest
    obtain ⟨us', htokens, hus'⟩ :=
      hcuts.spells_iff.mp (hr.spells_iff.mp (hpast.spells us hus))
    obtain rfl := (hs.spells_iff.mp hus).unique hus'
    have hts := List.append_cancel_right htokens
    obtain ⟨item', toks', hsame, hstart, halone⟩ := hslice.alone [] 0 .nil
    rw [byteCount_nil] at hstart
    rw [List.nil_append, Nat.zero_add] at halone
    rw [hts, ← hsame] at hderives
    exact program_of_derives hderives hstart halone

theorem Gives.exists_spells (h : Gives r forms none) : ∃ us, r.Spells us := by
  generalize hnone : (none : Option ReadError) = error at h
  induction h with
  | done hform => exact ⟨[], spells_nil_of_peek (form?_eq_none.mp hform)⟩
  | failed => cases hnone
  | more hform _ ih =>
    obtain ⟨us, hus⟩ := ih hnone
    obtain ⟨ts, -, hpast⟩ := takes_form? _ _ _ hform
    exact ⟨ts ++ us, hpast.spells us hus⟩

theorem finalGap_of_next?_eq_none {cursor : Cursor} (h : cursor.next? = none) :
    FinalGap cursor.rest := by
  rcases Cursor.gap_cases cursor.rest with hgap | ⟨gap, c, rest, hrest, hgap, hblank, hc⟩
  · exact hgap
  · rw [Cursor.next?, hrest, Cursor.skip_gap hgap, Cursor.skip_stop hblank hc] at h
    cases h

/-- The forms that are left to a reader stand one after the other in what is left of the text. -/
theorem Gives.spaced (h : Gives r forms none) (hr : Stands source i r) :
    Spaced (behind ⟨source.toList, 0⟩ i).offset (behind ⟨source.toList, 0⟩ i).rest
      (forms.map Form.span) ∧
    ∀ f ∈ forms, ∃ part, f.span.Marks source part ∧
      ∃ s, program (ofString part) = .ok [f.withSpan ⟨0, part.utf8ByteSize⟩] s := by
  generalize hnone : (none : Option ReadError) = error at h
  induction h generalizing i with
  | done hform =>
    refine ⟨.done ?_, nofun⟩
    obtain ⟨hpeeked, hnext⟩ := of_peek_eq_none (form?_eq_none.mp hform)
    rw [hr.eq_standing hpeeked] at hnext
    exact finalGap_of_next?_eq_none hnext
  | failed => cases hnone
  | @more _ s f forms _ hform hrest ih =>
    subst hnone
    obtain ⟨j, gap, part, hs, hgap, hpart, htext, hoffset, hspan, halone⟩ :=
      hr.form_slice ((hr.form?_eq_some f).mp hform) hrest.exists_spells
    obtain ⟨hspaced, hforms⟩ := ih hs rfl
    rw [hoffset] at hspaced
    constructor
    · rw [htext, List.map_cons, hspan]
      exact .range hgap hpart hspaced
    · refine List.forall_mem_cons.mpr ⟨⟨.ofList part, ?_, ?_⟩, hforms⟩
      · rw [hspan]
        exact Cursor.marks_behind htext
      · rw [← byteCount_toList, String.toList_ofList]
        exact halone

/-! ## Errors -/

theorem within_of_item {k : Nat} {item : Cursor.Item}
    (h : (Tape.ofString source).items[k]? = some item) : item.span.Within source := by
  obtain ⟨part, hmarks⟩ := Cursor.marks_of_item h
  exact hmarks.within

/-- What is to blame for an error stands in the text, or the text ended too early. -/
theorem within_of_stops {e : ReadError} (h : (Tape.ofString source).Stops i e j) :
    e.span.Within source := by
  cases h with
  | ended =>
    have hmark := Span.Marks.mk source "" ""
    rw [String.append_empty, String.append_empty] at hmark
    exact hmark.within
  | lexical _ hitem => exact within_of_item hitem
  | taken _ hitem => exact within_of_item hitem
  | seen _ hitem => exact within_of_item hitem

theorem Stands.answers_within (hr : Stands source i r) (requests : List Request) :
    ∀ e, .error e ∈ (Reader.answers requests r).1 → e.span.Within source := by
  induction requests generalizing i r with
  | nil =>
    intro e he
    cases he
  | cons request requests ih =>
    intro e he
    rw [Reader.answers] at he
    cases hr.answer request with
    | ok hact _ _ hr' =>
      rw [hact] at he
      rcases List.mem_cons.mp he with hfirst | hlater
      · cases hfirst
      · exact ih hr' e hlater
    | error hact _ hstop hr' =>
      rw [hact] at he
      rcases List.mem_cons.mp he with hfirst | hlater
      · cases hfirst
        exact within_of_stops hstop
      · exact ih hr' e hlater

/-- An error of a whole text is that of reading it, or of what comes after it. -/
theorem whole_eq_error {α : Type} {act : ReadM α} {e : ReadError}
    (h : whole act source = .error e) :
    (∃ s, act (ofString source) = .error e s) ∨
      ∃ a r s, act (ofString source) = .ok a r ∧ finish r = .error e s := by
  rw [whole] at h
  split at h
  · cases h
  · next s hread =>
    cases h
    rcases bind_eq_error hread with hact | ⟨a, r, hact, hrest⟩
    · exact .inl ⟨_, hact⟩
    rcases bind_eq_error hrest with hfinish | ⟨_, _, -, hdone⟩
    · exact .inr ⟨a, r, _, hact, hfinish⟩
    · cases hdone

theorem whole_within {α : Type} {act : ReadM α} {request : Request} {make : α → Answer}
    (hanswer : answer request = make <$> act) {e : ReadError} (h : whole act source = .error e) :
    e.span.Within source := by
  have hrequests : .error e ∈ (Reader.answers [request, .finish] (ofString source)).1 := by
    have hmap : ∀ {β γ : Type} (f : β → γ) (x : ReadM β) r, (f <$> x) r = EStateM.map f x r :=
      fun _ _ _ => rfl
    rw [Reader.answers, hanswer, hmap, EStateM.map]
    rcases whole_eq_error h with ⟨s, hact⟩ | ⟨a, r, s, hact, hfinish⟩
    · rw [hact]
      exact List.mem_cons_self
    · rw [hact]
      refine List.mem_cons_of_mem _ ?_
      show .error e ∈ (Reader.answers [.finish] r).1
      rw [Reader.answers, answer, hmap, EStateM.map, hfinish]
      exact List.mem_cons_self
  exact (stands_start source).answers_within _ e hrequests

end Reader

/-- **Ranges are faithful.** The forms of a text stand one after the other, none of them empty, with
nothing but blanks and comments between them. What a form is read from is read as this form alone,
which then has the range of all of it. Whatever the reader is asked for, errors have ranges in the
text as well, and no range cuts a character. -/
theorem Reader.spans_faithful (source : String) :
    (∀ forms r, program (ofString source) = .ok forms r →
      (∀ f ∈ forms, f.span.start < f.span.stop ∧ f.span.Within source) ∧
      (forms.Pairwise fun f g => f.span.stop ≤ g.span.start) ∧
      Spaced 0 source.toList (forms.map Form.span) ∧
      ∀ f ∈ forms, ∃ part, f.span.Marks source part ∧ ∃ s, program (ofString part) =
        .ok [f.withSpan ⟨0, f.span.stop - f.span.start⟩] s) ∧
    (∀ requests e, .error e ∈ (answers requests (ofString source)).1 → e.span.Within source) ∧
    (∀ e, Term.ofString? source = .error e → e.span.Within source) ∧
    ∀ e, Ty.ofString? source = .error e → e.span.Within source := by
  have hterm : answer .term = Answer.term <$> term := rfl
  have hty : answer .ty = Answer.ty <$> ty := rfl
  refine ⟨fun forms r hforms => ?_, (stands_start source).answers_within,
    fun e he => whole_within hterm he, fun e he => whole_within hty he⟩
  obtain ⟨hspaced, hslices⟩ := (program_iff_gives.mp ⟨r, hforms⟩).spaced (stands_start source)
  refine ⟨fun f hf => ?_, List.pairwise_map.mp hspaced.ordered, hspaced, fun f hf => ?_⟩
  · obtain ⟨part, hmarks, -⟩ := hslices f hf
    exact ⟨(hspaced.bounds _ (List.mem_map_of_mem hf)).2, hmarks.within⟩
  · obtain ⟨part, hmarks, halone⟩ := hslices f hf
    rw [← hmarks.size_eq] at halone
    exact ⟨part, hmarks, halone⟩

/-- A form that touches the one before it, and errors behind a character of two bytes. -/
theorem Reader.spans_faithful_touching :
    (∃ r, program (ofString "(def é zero)é") =
        .ok [.define (.named "é") .zero ⟨0, 13⟩, .expr (.fvar (.named "é")) ⟨13, 15⟩] r ∧
      Spaced 0 "(def é zero)é".toList [⟨0, 13⟩, ⟨13, 15⟩]) ∧
    (.error ⟨.unexpectedRParen, ⟨2, 3⟩⟩ ∈ (answers [.term, .term] (ofString "é)")).1 ∧
      Span.Within "é)" ⟨2, 3⟩) ∧
    (Term.ofString? "é(" = .error ⟨.expected .endOfInput, ⟨2, 3⟩⟩ ∧ Span.Within "é(" ⟨2, 3⟩) ∧
    (Ty.ofString? "(* é" = .error ⟨.unexpectedEnd, ⟨5, 5⟩⟩ ∧ Span.Within "(* é" ⟨5, 5⟩) := by
  have hprogram : program (ofString "(def é zero)é") =
      .ok [.define (.named "é") .zero ⟨0, 13⟩, .expr (.fvar (.named "é")) ⟨13, 15⟩]
        ⟨⟨[], 15⟩, 15, none, 15⟩ := by
    decide +kernel
  have hanswers : .error ⟨.unexpectedRParen, ⟨2, 3⟩⟩ ∈
      (answers [.term, .term] (ofString "é)")).1 := by
    have hlist : (answers [.term, .term] (ofString "é)")).1 =
        [.ok (.term (.fvar (.named "é"))), .error ⟨.unexpectedRParen, ⟨2, 3⟩⟩] := rfl
    rw [hlist]
    exact List.mem_cons_of_mem _ List.mem_cons_self
  have hterm : Term.ofString? "é(" = .error ⟨.expected .endOfInput, ⟨2, 3⟩⟩ := rfl
  have hty : Ty.ofString? "(* é" = .error ⟨.unexpectedEnd, ⟨5, 5⟩⟩ := rfl
  exact ⟨⟨_, hprogram, ((spans_faithful _).1 _ _ hprogram).2.2.1⟩,
    ⟨hanswers, (spans_faithful _).2.1 _ _ hanswers⟩, ⟨hterm, (spans_faithful _).2.2.1 _ hterm⟩,
    hty, (spans_faithful _).2.2.2 _ hty⟩

end SystemT
