import SystemT.Proofs.Reader.Placement
import SystemT.Proofs.Reader.Tape

/-!
# The reader follows the tape

A reader of a text stands in a place of the list of items that the text is cut into
(`Reader.Stands`): it has cut off the items in front of that place, and possibly the next one, which
is a token that it has looked at. Whatever is read by the reader is read from the list at the same
place, with the same result, and both end in the same place (`Reader.Replays`). Fuel for more items
than are left is never used up, so that reading from the list comes to an end.

Reading takes tokens one by one (`Tape.Taken`). If it fails, it stops at the item that is to blame,
and has taken nothing behind it (`Tape.Stops`).
-/

namespace SystemT

namespace Cursor

open Text (byteCount)

/-- Cutting items off a text moves past as many bytes as they take up. -/
theorem fits_behind (cursor : Cursor) (n : Nat) :
    (cursor.behind n).offset + byteCount (cursor.behind n).rest =
      cursor.offset + byteCount cursor.rest := by
  induction n with
  | zero => rfl
  | succ n ih =>
    rw [behind, past]
    cases hnext : (cursor.behind n).next? with
    | none => exact ih
    | some found => exact (next?_tail (d := 0) (.inl rfl) hnext).2.trans ih

end Cursor

namespace Tape

variable {tape : Tape} {i j k : Nat} {e : ReadError}

/-! ## Places on a tape -/

/-- The items from `i` up to `j` are tokens. -/
structure Taken (tape : Tape) (i j : Nat) : Prop where
  le : i ≤ j
  le_length : j ≤ tape.items.length
  tokens : ∀ k, i ≤ k → k < j → ∃ item, tape.items[k]? = some (.ok item)

/-- Reading from `i` on ends in `e` at `j`. Tokens are taken up to the item that is to blame, which
is taken as well unless it is a token that was only looked at. -/
inductive Stops (tape : Tape) (i : Nat) : ReadError → Nat → Prop
  /-- The text ended too early. -/
  | ended : Taken tape i tape.items.length → Stops tape i tape.endError tape.items.length
  /-- What comes next is no token. -/
  | lexical {e : ReadError} {k : Nat} : Taken tape i k → tape.items[k]? = some (.error e) →
    Stops tape i e (k + 1)
  /-- A token that was taken is not allowed. -/
  | taken {e : ReadError} {k : Nat} {t : Token} : Taken tape i k →
    tape.items[k]? = some (.ok (t, e.span)) → Stops tape i e (k + 1)
  /-- A token that was looked at is not allowed. -/
  | seen {e : ReadError} {k : Nat} {t : Token} : Taken tape i k →
    tape.items[k]? = some (.ok (t, e.span)) → Stops tape i e k

theorem Taken.refl (h : i ≤ tape.items.length) : tape.Taken i i :=
  ⟨Nat.le_refl i, h, fun _ hle hlt => absurd hlt (Nat.not_lt.mpr hle)⟩

theorem Taken.trans (h : tape.Taken i j) (h' : tape.Taken j k) : tape.Taken i k where
  le := Nat.le_trans h.le h'.le
  le_length := h'.le_length
  tokens l hle hlt := by
    by_cases hj : l < j
    · exact h.tokens l hle hj
    · exact h'.tokens l (Nat.not_lt.mp hj) hlt

theorem Taken.one {item : Token × Span} (h : tape.items[i]? = some (.ok item)) :
    tape.Taken i (i + 1) where
  le := Nat.le_succ i
  le_length := (List.getElem?_eq_some_iff.mp h).1
  tokens k hle hlt := by
    obtain rfl : k = i := by omega
    exact ⟨item, h⟩

theorem Stops.after (h : tape.Taken i j) (h' : tape.Stops j e k) : tape.Stops i e k := by
  cases h' with
  | ended ht => exact .ended (h.trans ht)
  | lexical ht hk => exact .lexical (h.trans ht) hk
  | taken ht hk => exact .taken (h.trans ht) hk
  | seen ht hk => exact .seen (h.trans ht) hk

theorem lastStop_succ {t : Token} {span : Span} (h : tape.items[i]? = some (.ok (t, span))) :
    tape.lastStop (i + 1) = span.stop := by
  rw [lastStop, h]

theorem lastStop_succ_of_error (h : tape.items[i]? = some (.error e)) :
    tape.lastStop (i + 1) = tape.lastStop i := by
  rw [lastStop, h]

/-! ## Running computations -/

section

variable {α β : Type} {act : TapeM α} {a : α}

theorem bind_of_ok {next : α → TapeM β} (h : act i = some (.ok a, j)) :
    (act >>= next) i = next a j := by
  show (act i).bind _ = _
  rw [h]
  rfl

theorem bind_of_error {next : α → TapeM β} (h : act i = some (.error e, j)) :
    (act >>= next) i = some (.error e, j) := by
  show (act i).bind _ = _
  rw [h]
  rfl

end

end Tape

namespace Reader

open Cursor (behind)

/-! ## Places of a reader -/

/-- The reader that has taken `i` items of the text and has looked at none. -/
def standing (source : String) (i : Nat) : Reader where
  cursor := behind ⟨source.toList, 0⟩ i
  size := source.utf8ByteSize
  lastStop := (Tape.ofString source).lastStop i

/-- The reader that has taken `i` items of the text and has looked at `item`. -/
def looking (source : String) (i : Nat) (item : Token × Span) : Reader :=
  { standing source i with cursor := behind ⟨source.toList, 0⟩ (i + 1), peeked := some item }

/-- The reader has taken `i` items of the text, and may have looked at the next one. -/
inductive Stands (source : String) : Nat → Reader → Prop
  | bare {i : Nat} : i ≤ (Tape.ofString source).items.length → Stands source i (standing source i)
  | looked {i : Nat} {item : Token × Span} :
    (Tape.ofString source).items[i]? = some (.ok item) → Stands source i (looking source i item)

variable {source : String} {i j : Nat} {r r' : Reader}

theorem stands_start (source : String) : Stands source 0 (ofString source) := .bare (Nat.zero_le _)

theorem Stands.le_length (h : Stands source i r) : i ≤ (Tape.ofString source).items.length := by
  cases h with
  | bare h => exact h
  | looked h => exact Nat.le_of_lt (List.getElem?_eq_some_iff.mp h).1

theorem Stands.eq_standing (h : Stands source i r) (hpeeked : r.peeked = none) :
    r = standing source i := by
  cases h with
  | bare _ => rfl
  | looked _ => cases hpeeked

/-- The items that are left to a reader. -/
def items (r : Reader) : List Cursor.Item := r.peeked.toList.map .ok ++ r.cursor.items

theorem Stands.items_eq (h : Stands source i r) :
    r.items = (Tape.ofString source).items.drop i := by
  cases h with
  | bare _ => exact Cursor.items_behind _ i
  | @looked item h =>
    obtain ⟨hi, hitem⟩ := List.getElem?_eq_some_iff.mp h
    show .ok item :: (behind _ (i + 1)).items = _
    rw [Cursor.items_behind, List.drop_eq_getElem_cons hi, hitem]
    rfl

theorem Stands.lastStop_eq (h : Stands source i r) :
    r.lastStop = (Tape.ofString source).lastStop i := by
  cases h <;> rfl

/-- What is left is within the budget. -/
theorem Stands.left_lt_budget (h : Stands source i r) :
    (Tape.ofString source).items.length - i < r.budget := by
  -- what is left to the cursor, and possibly the token that was looked at
  have hleft : ∀ k, k ≤ i + 1 → (Tape.ofString source).items.length - i <
      source.utf8ByteSize - (behind ⟨source.toList, 0⟩ k).offset + 2 := by
    intro k hk
    have hfits := Cursor.fits_behind ⟨source.toList, 0⟩ k
    have hitems := congrArg List.length (Cursor.items_behind ⟨source.toList, 0⟩ k)
    have hle := Cursor.length_items_le (behind ⟨source.toList, 0⟩ k)
    have hbytes := Text.length_le_byteCount (behind ⟨source.toList, 0⟩ k).rest
    dsimp only at hfits
    rw [List.length_drop] at hitems
    rw [Text.byteCount_toList, Nat.zero_add] at hfits
    have hlength : (Tape.ofString source).items.length =
      (Cursor.items ⟨source.toList, 0⟩).length := rfl
    omega
  cases h with
  | bare _ => exact hleft i (Nat.le_succ i)
  | looked _ => exact hleft (i + 1) (Nat.le_refl _)

/-- Looking at the next item does what it does on the tape. -/
theorem Stands.peek_cases (h : Stands source i r) :
    (∃ item, (Tape.ofString source).items[i]? = some (.ok item) ∧
      peek r = .ok (some item) (looking source i item) ∧
      (Tape.ofString source).peek i = some (.ok (some item), i)) ∨
    (∃ e, (Tape.ofString source).items[i]? = some (.error e) ∧
      peek r = .error e (standing source (i + 1)) ∧
      (Tape.ofString source).peek i = some (.error e, i + 1)) ∨
    (i = (Tape.ofString source).items.length ∧ r = standing source i ∧ peek r = .ok none r ∧
      (Tape.ofString source).peek i = some (.ok none, i)) := by
  cases h with
  | @looked item h => exact .inl ⟨item, h, rfl, by rw [Tape.peek, h]⟩
  | bare hi =>
    by_cases hlt : i < (Tape.ofString source).items.length
    · have hitem := List.getElem?_eq_getElem hlt
      have hnext := Cursor.next?_behind hitem
      cases hget : (Tape.ofString source).items[i] with
      | ok item =>
        rw [hget] at hitem hnext
        refine .inl ⟨item, hitem, ?_, by rw [Tape.peek, hitem]⟩
        simp only [peek, standing, hnext]
        rfl
      | error e =>
        rw [hget] at hitem hnext
        refine .inr (.inl ⟨e, hitem, ?_, by rw [Tape.peek, hitem]⟩)
        simp only [peek, standing, hnext, Tape.lastStop_succ_of_error hitem]
    · obtain rfl : i = (Tape.ofString source).items.length := by omega
      have hnext : (behind ⟨source.toList, 0⟩ (Tape.ofString source).items.length).next? = none :=
        Cursor.next?_behind_length _
      refine .inr (.inr ⟨rfl, rfl, ?_, ?_⟩)
      · simp only [peek, standing, hnext]
      · rw [Tape.peek, List.getElem?_eq_none (Nat.le_refl _)]

/-! ## Two computations -/

/-- Where at most `n` items are left, `act` does on a reader of the text what `act'` does on the
tape: it takes at least `d` tokens, or it fails with the same error. A token that was taken right
before, in the range `last`, may be to blame as well. -/
def Replays {α : Type} (source : String) (n d : Nat) (last : Option Span) (act : ReadM α)
    (act' : TapeM α) : Prop :=
  ∀ i r, Stands source i r → (last.isSome = true → r = standing source i) →
    (Tape.ofString source).items.length ≤ i + n →
    (∃ a j r', act r = .ok a r' ∧ act' i = some (.ok a, j) ∧ Stands source j r' ∧
      (Tape.ofString source).Taken i j ∧ i + d ≤ j) ∨
    (∃ e j, act r = .error e (standing source j) ∧ act' i = some (.error e, j) ∧
      j ≤ (Tape.ofString source).items.length ∧
      ((Tape.ofString source).Stops i e j ∨ last = some e.span ∧ j = i))

variable {α β : Type} {n d c : Nat} {last : Option Span} {act : ReadM α} {act' : TapeM α}

theorem Replays.mono {m : Nat} (h : Replays source n d last act act') (hm : m ≤ n) (hd : c ≤ d) :
    Replays source m c last act act' := by
  intro i r hr hlast hleft
  rcases h i r hr hlast (by omega) with ⟨a, j, r', hact, hact', hr', ht, hj⟩ | herror
  · exact .inl ⟨a, j, r', hact, hact', hr', ht, by omega⟩
  · exact .inr herror

/-- Whoever blames no token taken before may come after any. -/
theorem Replays.blameless (h : Replays source n d none act act') (last : Option Span) :
    Replays source n d last act act' := by
  intro i r hr _ hleft
  rcases h i r hr nofun hleft with hok | ⟨e, j, hact, hact', hj, hstop | ⟨⟨⟩, _⟩⟩
  · exact .inl hok
  · exact .inr ⟨e, j, hact, hact', hj, .inl hstop⟩

theorem replays_pure (a : α) : Replays source n 0 last (pure a) (pure a) := by
  intro i r hr _ _
  exact .inl ⟨a, i, r, rfl, rfl, hr, .refl hr.le_length, Nat.le_refl i⟩

/-- The token that was taken right before is to blame. -/
theorem replays_throw (cause : ReadError.Cause) (span : Span) :
    Replays source n d (some span) (throw ⟨cause, span⟩ : ReadM α) (throw ⟨cause, span⟩) := by
  intro i r hr hlast _
  obtain rfl := hlast rfl
  exact .inr ⟨_, i, rfl, rfl, hr.le_length, .inr ⟨rfl, rfl⟩⟩

theorem replays_throw_bind (cause : ReadError.Cause) (span : Span) (next : α → ReadM β)
    (next' : α → TapeM β) :
    Replays source n d (some span) ((throw ⟨cause, span⟩ : ReadM α) >>= next)
      ((throw ⟨cause, span⟩ : TapeM α) >>= next') :=
  replays_throw cause span

/-- Where no item is left, the text ended too early. -/
theorem replays_fellShort :
    Replays source 0 d none (fellShort : ReadM α) (throw (Tape.ofString source).endError) := by
  intro i r hr _ hleft
  have hle := hr.le_length
  obtain rfl : i = (Tape.ofString source).items.length := by omega
  rcases hr.peek_cases with ⟨item, hitem, -⟩ | ⟨e, hitem, -⟩ | ⟨-, rfl, -, -⟩
  · rw [List.getElem?_eq_none (Nat.le_refl _)] at hitem
    cases hitem
  · rw [List.getElem?_eq_none (Nat.le_refl _)] at hitem
    cases hitem
  · exact .inr ⟨_, _, rfl, rfl, Nat.le_refl _, .inl (.ended (.refl hle))⟩

theorem Replays.bind {next : α → ReadM β} {next' : α → TapeM β}
    (h : Replays source n d last act act')
    (hnext : ∀ a m, m + d ≤ n → Replays source m c none (next a) (next' a)) :
    Replays source n (d + c) last (act >>= next) (act' >>= next') := by
  intro i r hr hlast hleft
  rcases h i r hr hlast hleft with
    ⟨a, j, r', hact, hact', hr', ht, hj⟩ | ⟨e, j, hact, hact', hj, hstop⟩
  · have hle := ht.le_length
    rw [bind_of_ok hact, Tape.bind_of_ok hact']
    rcases hnext a (n - d) (by omega) j r' hr' nofun (by omega) with
      ⟨b, k, r'', hb, hb', hr'', ht', hk⟩ | ⟨e, k, hb, hb', hk, hstop | ⟨⟨⟩, _⟩⟩
    · exact .inl ⟨b, k, r'', hb, hb', hr'', ht.trans ht', by omega⟩
    · exact .inr ⟨e, k, hb, hb', hk, .inl (hstop.after ht)⟩
  · rw [bind_of_error hact, Tape.bind_of_error hact']
    exact .inr ⟨e, j, rfl, rfl, hj, hstop⟩

theorem Replays.map (h : Replays source n d last act act') (f : α → β) :
    Replays source n d last (f <$> act) (f <$> act') := by
  rw [map_eq_pure_bind, map_eq_pure_bind]
  exact h.bind (c := 0) fun a _ _ => replays_pure (f a)

theorem Replays.seq {fn : ReadM (α → β)} {fn' : TapeM (α → β)}
    (hfn : Replays source n d last fn fn')
    (h : ∀ m, m + d ≤ n → Replays source m c none act act') :
    Replays source n (d + c) last (fn <*> act) (fn' <*> act') := by
  rw [seq_eq_bind_map, seq_eq_bind_map]
  exact hfn.bind fun f m hm => (h m hm).map f

/-- What comes after a token that was taken earlier cannot blame it. -/
theorem Replays.andThen {next : α → ReadM β} {next' : α → TapeM β}
    (h : Replays source n d none act act')
    (hnext : ∀ a m, m ≤ n → Replays source m 0 none (next a) (next' a)) :
    Replays source n d last (act >>= next) (act' >>= next') :=
  (h.blameless last).bind (c := 0) fun a m hm => hnext a m (by omega)

/-! ### Tokens -/

section

variable {next : Token × Span → ReadM β} {next' : Token × Span → TapeM β}

/-- What comes after a token may blame it. -/
theorem replays_next_bind
    (h : ∀ item m, m + 1 ≤ n → Replays source m d (some item.2) (next item) (next' item)) :
    Replays source n (d + 1) last (Reader.next >>= next)
      ((Tape.ofString source).next >>= next') := by
  intro i r hr _ hleft
  have hread := next_eq r
  rcases hr.peek_cases with
    ⟨⟨t, span⟩, hitem, hpeek, -⟩ | ⟨e, hitem, hpeek, -⟩ | ⟨rfl, rfl, hpeek, -⟩
  · have hlt := (List.getElem?_eq_some_iff.mp hitem).1
    have hnext : (Tape.ofString source).next i = some (.ok (t, span), i + 1) := by
      rw [Tape.next, hitem]
    -- the token that was looked at is gone, and its end is noted
    have htaken : ({ looking source i (t, span) with peeked := none, lastStop := span.stop } :
        Reader) = standing source (i + 1) := by
      simp only [looking, standing, Tape.lastStop_succ hitem]
    have hone := Tape.Taken.one hitem
    rw [hpeek] at hread
    dsimp only at hread
    rw [htaken] at hread
    rw [bind_of_ok hread, Tape.bind_of_ok hnext]
    rcases h (t, span) (n - 1) (by omega) (i + 1) _ (.bare hlt) (fun _ => rfl) (by omega) with
      ⟨b, k, r'', hb, hb', hr'', ht, hk⟩ | ⟨e, k, hb, hb', hk, hstop | ⟨hspan, rfl⟩⟩
    · exact .inl ⟨b, k, r'', hb, hb', hr'', hone.trans ht, by omega⟩
    · exact .inr ⟨e, k, hb, hb', hk, .inl (hstop.after hone)⟩
    · obtain rfl : span = e.span := Option.some.inj hspan
      exact .inr ⟨e, _, hb, hb', hk, .inl (.taken (.refl (Nat.le_of_lt hlt)) hitem)⟩
  · have hlt := (List.getElem?_eq_some_iff.mp hitem).1
    have hnext : (Tape.ofString source).next i = some (.error e, i + 1) := by
      rw [Tape.next, hitem]
    rw [hpeek] at hread
    rw [bind_of_error hread, Tape.bind_of_error hnext]
    exact .inr ⟨e, i + 1, rfl, rfl, hlt, .inl (.lexical (.refl (Nat.le_of_lt hlt)) hitem)⟩
  · have hnext : (Tape.ofString source).next (Tape.ofString source).items.length =
        some (.error (Tape.ofString source).endError, (Tape.ofString source).items.length) := by
      rw [Tape.next, List.getElem?_eq_none (Nat.le_refl _)]
    rw [hpeek] at hread
    rw [bind_of_error hread, Tape.bind_of_error hnext]
    exact .inr ⟨_, _, rfl, rfl, Nat.le_refl _, .inl (.ended (.refl (Nat.le_refl _)))⟩

end

section

variable {next : String × Span → ReadM β} {next' : String × Span → TapeM β}

theorem replays_symbol_bind
    (h : ∀ s span m, m + 1 ≤ n →
      Replays source m d (some span) (next (s, span)) (next' (s, span))) :
    Replays source n (d + 1) last (symbol >>= next) ((Tape.ofString source).symbol >>= next') := by
  rw [symbol, Tape.symbol, bind_assoc, bind_assoc]
  refine replays_next_bind ?_
  rintro ⟨t, span⟩ m hm
  cases t with
  | symbol s => exact h s span m hm
  | lparen | rparen | int => exact replays_throw_bind _ _ _ _

end

section

variable {next : Nat × Span → ReadM β} {next' : Nat × Span → TapeM β}

theorem replays_integer_bind
    (h : ∀ k span m, m + 1 ≤ n →
      Replays source m d (some span) (next (k, span)) (next' (k, span))) :
    Replays source n (d + 1) last (integer >>= next)
      ((Tape.ofString source).integer >>= next') := by
  rw [integer, Tape.integer, bind_assoc, bind_assoc]
  refine replays_next_bind ?_
  rintro ⟨t, span⟩ m hm
  cases t with
  | int k => exact h k span m hm
  | lparen | rparen | symbol => exact replays_throw_bind _ _ _ _

end

theorem replays_rparen : Replays source n 1 last rparen (Tape.ofString source).rparen := by
  rw [rparen, Tape.rparen]
  refine replays_next_bind (d := 0) ?_
  rintro ⟨t, span⟩ m -
  cases t with
  | rparen => exact replays_pure ()
  | lparen | symbol | int => exact replays_throw _ _

/-- What was looked at comes next; if there was nothing to look at, nothing is left. -/
theorem replays_peek_bind {next : Option (Token × Span) → ReadM β}
    {next' : Option (Token × Span) → TapeM β}
    (hnone : Replays source 0 d none (next none) (next' none))
    (hsome : ∀ item, Replays source n d none (next (some item)) (next' (some item))) :
    Replays source n d none (peek >>= next) ((Tape.ofString source).peek >>= next') := by
  intro i r hr _ hleft
  rcases hr.peek_cases with
    ⟨item, hitem, hpeek, hpeek'⟩ | ⟨e, hitem, hpeek, hpeek'⟩ | ⟨rfl, rfl, hpeek, hpeek'⟩
  · rw [bind_of_ok hpeek, Tape.bind_of_ok hpeek']
    exact hsome item i _ (.looked hitem) nofun hleft
  · have hlt := (List.getElem?_eq_some_iff.mp hitem).1
    rw [bind_of_error hpeek, Tape.bind_of_error hpeek']
    exact .inr ⟨e, i + 1, rfl, rfl, hlt, .inl (.lexical (.refl (Nat.le_of_lt hlt)) hitem)⟩
  · rw [bind_of_ok hpeek, Tape.bind_of_ok hpeek']
    exact hnone _ _ hr nofun (Nat.le_refl _)

/-! ### Lists of elements -/

/-- A loop up to a closing parenthesis needs no more fuel than items are left, as every element
takes one. -/
theorem replays_foldToRParen {element : ReadM α} {element' : TapeM α} {combine : β → α → β}
    (h : ∀ m, m ≤ n → Replays source m 1 none element element') {fuel fuel' : Nat}
    (hfuel : n < fuel) (hfuel' : n < fuel') (acc : β) :
    Replays source n 0 none (foldToRParen element combine fuel acc)
      ((Tape.ofString source).foldToRParen element' combine fuel' acc) := by
  induction fuel generalizing n fuel' acc with
  | zero => cases hfuel
  | succ fuel ih =>
    obtain ⟨fuel', rfl⟩ : ∃ k, fuel' = k + 1 := ⟨fuel' - 1, by omega⟩
    have hmore : ∀ m, m ≤ n → Replays source m 0 none
        (element >>= fun a => foldToRParen element combine fuel (combine acc a))
        (element' >>= fun a =>
          (Tape.ofString source).foldToRParen element' combine fuel' (combine acc a)) := by
      intro m hm
      have hall := (h m hm).bind (c := 0) fun a k hk =>
        ih (n := k) (fun l hl => h l (by omega)) (by omega) (show k < fuel' by omega)
          (combine acc a)
      exact hall.mono (Nat.le_refl m) (Nat.zero_le _)
    rw [foldToRParen, atRParen, Tape.foldToRParen, Tape.atRParen, bind_assoc, bind_assoc]
    refine replays_peek_bind (hmore 0 (Nat.zero_le n)) ?_
    rintro ⟨t, span⟩
    cases t with
    | rparen => exact replays_pure acc
    | lparen | symbol | int => exact hmore n (Nat.le_refl n)

/-- A list ends with a closing parenthesis. -/
theorem Replays.closed (h : Replays source n 0 last act act') :
    Replays source n 1 last (act >>= fun a => rparen >>= fun _ => pure a)
      (act' >>= fun a => (Tape.ofString source).rparen >>= fun _ => pure a) :=
  h.bind (c := 1) fun a _ _ => replays_rparen.bind (c := 0) fun _ _ _ => replays_pure a

/-! ### Types and terms -/

theorem replays_compoundTy {part : ReadM Ty} {part' : TapeM Ty}
    (h : ∀ m, m ≤ n → Replays source m 1 none part part') {fuel fuel' : Nat} (hfuel : n < fuel)
    (hfuel' : n < fuel') (head : String) (span : Span) :
    Replays source n 1 (some span) (compoundTy part fuel head span)
      ((Tape.ofString source).compoundTy part' fuel' head span) := by
  have hclosing : ∀ A m, Replays source m 1 none (rparen >>= fun _ => pure A : ReadM Ty)
      ((Tape.ofString source).rparen >>= fun _ => pure A) := fun A m =>
    replays_rparen.bind (c := 0) fun _ _ _ => replays_pure A
  have htwo : ∀ {rest : Ty → Ty → ReadM Ty} {rest' : Ty → Ty → TapeM Ty},
      (∀ a b m, m + 2 ≤ n → Replays source m 0 none (rest a b) (rest' a b)) →
      Replays source n 1 (some span) (part >>= fun a => part >>= fun b => rest a b)
        (part' >>= fun a => part' >>= fun b => rest' a b) := by
    intro rest rest' hrest
    refine (((h n (Nat.le_refl n)).blameless _).bind (c := 1) fun a m hm => ?_).mono
      (Nat.le_refl n) (by omega)
    exact (h m (by omega)).bind (c := 0) fun b k hk => hrest a b k (by omega)
  unfold compoundTy Tape.compoundTy
  split
  · simp only [Tape.tyParts, bind_assoc, pure_bind]
    refine htwo fun a b m hm => ?_
    refine (Replays.bind (d := 0) (c := 1) ?_ ?_).mono (Nat.le_refl m) (Nat.zero_le _)
    · exact replays_foldToRParen (fun k hk => h k (by omega)) (by omega) (by omega) ([a], b)
    · rintro ⟨doms, cod⟩ k -
      exact hclosing _ k
  · simp only [Tape.tyParts, bind_assoc, pure_bind]
    exact htwo fun a b m _ => (hclosing (a.prod b) m).mono (Nat.le_refl m) (Nat.zero_le 1)
  · rw [Tape.tyParts]
    · exact replays_throw_bind _ _ _ _
    · assumption
    · assumption

theorem replays_tyWithin {fuel fuel' : Nat} (hfuel : n < fuel) (hfuel' : n < fuel') :
    Replays source n 1 none (tyWithin fuel) ((Tape.ofString source).tyWithin fuel') := by
  induction fuel generalizing n fuel' with
  | zero => cases hfuel
  | succ fuel ih =>
    obtain ⟨fuel', rfl⟩ : ∃ k, fuel' = k + 1 := ⟨fuel' - 1, by omega⟩
    rw [tyWithin, Tape.tyWithin]
    refine replays_next_bind (d := 0) ?_
    rintro ⟨t, span⟩ m hm
    cases t with
    | symbol s => exact replays_pure _
    | int k => exact replays_throw _ _
    | rparen => exact replays_throw _ _
    | lparen =>
      refine (replays_symbol_bind (d := 1) fun head span k hk => ?_).mono (Nat.le_refl m)
        (Nat.zero_le _)
      exact replays_compoundTy (fun l hl => ih (by omega) (by omega)) (by omega) (by omega) head
        span

theorem replays_numeral :
    Replays source n 0 last numeral (Tape.ofString source).numeral := by
  rw [numeral, Tape.numeral]
  refine (replays_integer_bind (d := 0) fun k span m _ => ?_).mono (Nat.le_refl n) (Nat.zero_le _)
  dsimp only
  split
  · exact replays_pure _
  · exact replays_throw _ _

theorem replays_compoundTerm {operand : ReadM Term} {operand' : TapeM Term}
    (h : ∀ m, m ≤ n → Replays source m 1 none operand operand') {fuel fuel' : Nat}
    (hfuel : n < fuel) (hfuel' : n < fuel') (head : String) (span : Span) :
    Replays source n 1 (some span) (compoundTerm operand fuel head span)
      ((Tape.ofString source).compoundTerm operand' fuel' head span) := by
  have hmap : ∀ {β : Type} (f : Term → β),
      Replays source n 0 none (f <$> operand) (f <$> operand') := fun f =>
    ((h n (Nat.le_refl n)).map f).mono (Nat.le_refl n) (Nat.zero_le 1)
  have hseq : ∀ {β : Type} {fn : ReadM (Term → β)} {fn' : TapeM (Term → β)},
      Replays source n 0 none fn fn' →
      Replays source n 0 none (fn <*> operand) (fn' <*> operand') := fun hfn =>
    hfn.seq (c := 0) fun m hm => (h m (by omega)).mono (Nat.le_refl m) (Nat.zero_le 1)
  unfold compoundTerm Tape.compoundTerm
  split
  · rw [Tape.termOperands]
    exact ((hmap Term.lam).blameless _).closed
  · simp only [Tape.termOperands, bind_assoc]
    refine (((h n (Nat.le_refl n)).blameless _).bind (c := 0) fun f m hm => ?_).mono
      (Nat.le_refl n) (Nat.le_refl 1)
    refine ((h m (by omega)).bind (c := 1) fun a k hk => ?_).mono (Nat.le_refl m) (Nat.zero_le _)
    exact (replays_foldToRParen (fun l hl => h l (by omega)) (by omega) (by omega)
      (f.app a)).closed
  · rw [Tape.termOperands]
    exact ((hseq (hmap Term.pair)).blameless _).closed
  · rw [Tape.termOperands]
    exact ((hmap Term.fst).blameless _).closed
  · rw [Tape.termOperands]
    exact ((hmap Term.snd).blameless _).closed
  · rw [Tape.termOperands]
    exact ((hseq (hseq (hmap Term.cond))).blameless _).closed
  · rw [Tape.termOperands]
    exact ((hmap Term.succ).blameless _).closed
  · rw [Tape.termOperands]
    exact replays_numeral.closed
  · rw [Tape.termOperands]
    exact ((hseq (hseq (hmap Term.natRec))).blameless _).closed
  · rw [Tape.termOperands]
    · exact replays_throw_bind _ _ _ _
    all_goals assumption

theorem replays_termWithin {fuel fuel' : Nat} (hfuel : n < fuel) (hfuel' : n < fuel') :
    Replays source n 1 none (termWithin fuel) ((Tape.ofString source).termWithin fuel') := by
  induction fuel generalizing n fuel' with
  | zero => cases hfuel
  | succ fuel ih =>
    obtain ⟨fuel', rfl⟩ : ∃ k, fuel' = k + 1 := ⟨fuel' - 1, by omega⟩
    rw [termWithin, Tape.termWithin]
    refine replays_next_bind (d := 0) ?_
    rintro ⟨t, span⟩ m hm
    cases t with
    | symbol s => exact replays_pure _
    | int k => exact replays_pure _
    | rparen => exact replays_throw _ _
    | lparen =>
      refine (replays_symbol_bind (d := 1) fun head span k hk => ?_).mono (Nat.le_refl m)
        (Nat.zero_le _)
      exact replays_compoundTerm (fun l hl => ih (by omega) (by omega)) (by omega) (by omega) head
        span

theorem replays_get_bind {next : Reader → ReadM β} {act' : TapeM β}
    (h : ∀ i r, Stands source i r →
      Replays source ((Tape.ofString source).items.length - i) d none (next r) act') :
    Replays source n d none (get >>= next) act' := by
  intro i r hr hlast _
  exact h i r hr i r hr hlast (by omega)

theorem replays_ty : Replays source n 1 none ty (Tape.ofString source).ty :=
  replays_get_bind fun _ _ hr => replays_tyWithin hr.left_lt_budget (by omega)

theorem replays_term : Replays source n 1 none term (Tape.ofString source).term :=
  replays_get_bind fun _ _ hr => replays_termWithin hr.left_lt_budget (by omega)

/-! ### Forms -/

theorem replays_spanFrom (start : Nat) :
    Replays source n 0 last (spanFrom start) ((Tape.ofString source).spanFrom start) := by
  intro i r hr _ _
  refine .inl ⟨_, i, r, rfl, ?_, hr, .refl hr.le_length, Nat.le_refl i⟩
  rw [Tape.spanFrom, hr.lastStop_eq]

theorem replays_spanned (start : Nat) (make : Span → Form) :
    Replays source n 0 last (spanFrom start >>= fun span => pure (make span))
      ((Tape.ofString source).spanFrom start >>= fun span => pure (make span)) :=
  (replays_spanFrom start).bind (c := 0) fun span _ _ => replays_pure (make span)

theorem replays_form : Replays source n 1 none form (Tape.ofString source).form := by
  rw [form, Tape.form]
  refine replays_get_bind fun i r hr => ?_
  have hfuel := hr.left_lt_budget
  have hlength := Nat.sub_le (Tape.ofString source).items.length i
  generalize r.budget = fuel at hfuel ⊢
  generalize (Tape.ofString source).items.length - i = n at hfuel hlength ⊢
  refine replays_peek_bind replays_fellShort ?_
  rintro ⟨t, first⟩
  cases t with
  | lparen =>
    refine replays_next_bind (d := 0) fun _ m hm => ?_
    refine (replays_symbol_bind (d := 0) fun head headSpan k hk => ?_).mono (Nat.le_refl m)
      (Nat.zero_le 1)
    dsimp only
    have hterm : ∀ l, l ≤ n →
        Replays source l 0 none (termWithin fuel) (Tape.ofString source).term :=
      fun l hl => (replays_termWithin (by omega) (by omega)).mono (Nat.le_refl l) (Nat.zero_le 1)
    have hty : ∀ l, l ≤ n → Replays source l 0 none (tyWithin fuel) (Tape.ofString source).ty :=
      fun l hl => (replays_tyWithin (by omega) (by omega)).mono (Nat.le_refl l) (Nat.zero_le 1)
    have hrparen : ∀ l, Replays source l 0 none rparen (Tape.ofString source).rparen :=
      fun l => replays_rparen.mono (Nat.le_refl l) (Nat.zero_le 1)
    split
    · rw [Tape.compoundForm]
      refine (replays_symbol_bind (d := 0) fun name _ l hl => ?_).mono (Nat.le_refl k)
        (Nat.zero_le 1)
      exact (hterm l (by omega)).andThen fun t _ _ => (hrparen _).andThen fun _ _ _ =>
        replays_spanned first.start (.define (.named name) t)
    · rw [Tape.compoundForm]
      refine (replays_symbol_bind (d := 0) fun name _ l hl => ?_).mono (Nat.le_refl k)
        (Nat.zero_le 1)
      exact (hty l (by omega)).andThen fun A _ _ => (hrparen _).andThen fun _ _ _ =>
        replays_spanned first.start (.declare (.named name) A)
    · rw [Tape.compoundForm]
      · refine Replays.bind (d := 0) (c := 0) ?_ fun t _ _ =>
          replays_spanned first.start (.expr t)
        exact (replays_compoundTerm (fun l hl => replays_termWithin (by omega) (by omega))
          (by omega) (by omega) head headSpan).mono (Nat.le_refl k) (Nat.zero_le 1)
      all_goals assumption
  | rparen | symbol | int =>
    exact (replays_termWithin hfuel (by omega)).bind (c := 0) fun t _ _ =>
      replays_spanned first.start (.expr t)

theorem replays_formsWithin {fuel fuel' : Nat} (hfuel : n < fuel) (hfuel' : n < fuel')
    (forms : List Form) :
    Replays source n 0 none (formsWithin fuel forms)
      ((Tape.ofString source).formsWithin fuel' forms) := by
  induction fuel generalizing n fuel' forms with
  | zero => cases hfuel
  | succ fuel ih =>
    obtain ⟨fuel', rfl⟩ : ∃ k, fuel' = k + 1 := ⟨fuel' - 1, by omega⟩
    rw [formsWithin, atEnd, Tape.formsWithin, Tape.atEnd, bind_assoc, bind_assoc]
    refine replays_peek_bind (replays_pure forms.reverse) fun item => ?_
    exact (replays_form.bind (c := 0) fun f m hm => ih (by omega) (by omega) (f :: forms)).mono
      (Nat.le_refl n) (Nat.zero_le 1)

theorem replays_program : Replays source n 0 none program (Tape.ofString source).program :=
  replays_get_bind fun _ _ hr => replays_formsWithin hr.left_lt_budget (by omega) []

/-! ## Requests -/

/-- What is asked for is read at the same place of the text and of the tape. Both end in the same
place, having taken tokens and nothing behind the item that is to blame for an error. -/
inductive Answered (source : String) (request : Request) (i : Nat) (r : Reader) : Prop
  | ok {a : Answer} {j : Nat} {r' : Reader} : answer request r = .ok a r' →
    (Tape.ofString source).answer request i = some (.ok a, j) →
    (Tape.ofString source).Taken i j → Stands source j r' → Answered source request i r
  | error {e : ReadError} {j : Nat} {r' : Reader} : answer request r = .error e r' →
    (Tape.ofString source).answer request i = some (.error e, j) →
    (Tape.ofString source).Stops i e j → Stands source j r' → Answered source request i r

theorem Replays.answered {request : Request}
    (h : Replays source (Tape.ofString source).items.length d none (answer request)
      ((Tape.ofString source).answer request)) (hr : Stands source i r) :
    Answered source request i r := by
  rcases h i r hr nofun (Nat.le_add_left _ i) with
    ⟨a, j, r', hact, hact', hr', ht, -⟩ | ⟨e, j, hact, hact', hj, hstop | ⟨⟨⟩, -⟩⟩
  · exact .ok hact hact' ht hr'
  · exact .error hact hact' hstop (.bare hj)

/-- To find a token where the text should end is an error that leaves the token in its place. -/
theorem Stands.finish (hr : Stands source i r) : Answered source .finish i r := by
  have hread : answer .finish r = EStateM.map (fun _ => .finished) Reader.finish r := rfl
  have htape : (Tape.ofString source).answer .finish =
      ((Tape.ofString source).finish >>= fun _ => pure Answer.finished) :=
    map_eq_pure_bind (fun _ => Answer.finished) (Tape.ofString source).finish
  rw [EStateM.map, Reader.finish] at hread
  rw [Tape.finish, bind_assoc] at htape
  have hle := hr.le_length
  rcases hr.peek_cases with
    ⟨⟨t, span⟩, hitem, hpeek, hpeek'⟩ | ⟨e, hitem, hpeek, hpeek'⟩ | ⟨rfl, rfl, hpeek, hpeek'⟩
  · rw [bind_of_ok hpeek] at hread
    refine .error hread ?_ (.seen (.refl hle) hitem) (.looked hitem)
    rw [htape, Tape.bind_of_ok hpeek']
    rfl
  · have hlt := (List.getElem?_eq_some_iff.mp hitem).1
    rw [bind_of_error hpeek] at hread
    refine .error hread ?_ (.lexical (.refl hle) hitem) (.bare hlt)
    rw [htape, Tape.bind_of_error hpeek']
  · rw [bind_of_ok hpeek] at hread
    refine .ok hread ?_ (.refl hle) hr
    rw [htape, Tape.bind_of_ok hpeek']
    rfl

theorem Stands.answer (hr : Stands source i r) (request : Request) :
    Answered source request i r := by
  cases request with
  | term => exact (replays_term.map Answer.term).answered hr
  | ty => exact (replays_ty.map Answer.ty).answered hr
  | form => exact (replays_form.map Answer.form).answered hr
  | program => exact (replays_program.map Answer.program).answered hr
  | atEnd =>
    refine Replays.answered (d := 0) (Replays.map ?_ Answer.atEnd) hr
    exact replays_peek_bind (replays_pure _) fun _ => replays_pure _
  | finish => exact hr.finish

theorem Stands.answers (hr : Stands source i r) (requests : List Request) :
    ∃ j, (Tape.ofString source).answers requests i = some ((answers requests r).1, j) ∧
      Stands source j (answers requests r).2 := by
  induction requests generalizing i r with
  | nil => exact ⟨i, rfl, hr⟩
  | cons request requests ih =>
    rw [answers, Tape.answers]
    cases hr.answer request with
    | ok hact hact' _ hr' =>
      obtain ⟨j, hanswers, hj⟩ := ih hr'
      rw [hact, hact']
      dsimp only [Option.bind_eq_bind, Option.bind_some]
      rw [hanswers]
      exact ⟨j, rfl, hj⟩
    | error hact hact' _ hr' =>
      obtain ⟨j, hanswers, hj⟩ := ih hr'
      rw [hact, hact']
      dsimp only [Option.bind_eq_bind, Option.bind_some]
      rw [hanswers]
      exact ⟨j, rfl, hj⟩

/-- **The reader follows the tape.** Requests that are made one after the other, also after errors,
are answered as they are on the list of all items of the text, and all of these answers come about.
The items that are left are those of the list from the index on. Whatever is asked for next takes
tokens from there, and if it fails, nothing behind the item that is to blame. -/
theorem answers_replay (source : String) (requests : List Request) :
    ∃ i, (Tape.ofString source).answers requests 0 =
        some ((answers requests (ofString source)).1, i) ∧
      (answers requests (ofString source)).2.items = (Tape.ofString source).items.drop i ∧
      ∀ request, Answered source request i (answers requests (ofString source)).2 := by
  obtain ⟨i, hanswers, hstands⟩ := (stands_start source).answers requests
  exact ⟨i, hanswers, hstands.items_eq, hstands.answer⟩

end Reader

end SystemT
