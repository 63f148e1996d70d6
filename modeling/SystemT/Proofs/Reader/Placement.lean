import SystemT.Proofs.Reader.Splitting
import SystemT.Reader.Form

/-!
# Reading a part of a text

Let a text be part of a longer one: it stands `d` bytes after the start, and what comes after it is
nothing or begins with a line feed. A reader of the part goes together with one of the whole
(`Reader.Placed`). What is read from the part is read from the whole as well, with all places `d`
bytes later (`Reader.follows_form`).

Errors are the same only if nothing comes after the part. Otherwise the end of the part may be an
error for its own reader, while the other goes on to the next line.
-/

namespace SystemT

/-! ## Moving places -/

/-- The same range, `d` bytes later. -/
def Span.move (d : Nat) (span : Span) : Span := ⟨span.start + d, span.stop + d⟩

/-- The same error, `d` bytes later. -/
def ReadError.move (d : Nat) (e : ReadError) : ReadError := ⟨e.cause, e.span.move d⟩

/-- The same form, `d` bytes later. -/
def Form.move (d : Nat) : Form → Form
  | define x t span => define x t (span.move d)
  | declare x A span => declare x A (span.move d)
  | expr t span => expr t (span.move d)

/-- What may come after a part of a text: nothing, or a line feed and any text. -/
def Tail (tail : List Char) : Prop := tail = [] ∨ ∃ cs, tail = '\n' :: cs

namespace Cursor

open Text (byteCount byteCount_cons byteCount_append byteCount_toList)

/-- The same token or error, `d` bytes later. -/
def Item.move (d : Nat) : Item → Item
  | .ok (t, span) => .ok (t, span.move d)
  | .error e => .error (e.move d)

/-! ## Cutting tokens off a part -/

variable {tail : List Char} {d : Nat}

/-- A run of characters does not go on into the next line. -/
theorem takeWhile_tail (htail : Tail tail) {belongs : Char → Bool} (hline : belongs '\n' = false)
    (cs : List Char) : (cs ++ tail).takeWhile belongs = cs.takeWhile belongs ∧
      (cs ++ tail).dropWhile belongs = cs.dropWhile belongs ++ tail := by
  induction cs with
  | nil =>
    rcases htail with rfl | ⟨ds, rfl⟩
    · exact ⟨rfl, rfl⟩
    · simp [hline]
  | cons c cs ih =>
    by_cases hc : belongs c = true
    · simp [hc, ih]
    · simp [hc]

/-- Where something is left after skipping, the same is skipped in the longer text. -/
theorem skip_tail {inComment : Bool} {offset stop : Nat} {c : Char} {cs rest : List Char}
    (h : skip inComment offset cs = ⟨c :: rest, stop⟩) :
    skip inComment (offset + d) (cs ++ tail) = ⟨c :: rest ++ tail, stop + d⟩ ∧
      stop + byteCount (c :: rest) = offset + byteCount cs := by
  induction cs generalizing inComment offset with
  | nil => cases h
  | cons c' cs ih =>
    -- after a character that is skipped
    have hskip : ∀ b, skip b (offset + c'.utf8Size) cs = ⟨c :: rest, stop⟩ →
        skip b (offset + d + c'.utf8Size) (cs ++ tail) = ⟨c :: rest ++ tail, stop + d⟩ ∧
          stop + byteCount (c :: rest) = offset + byteCount (c' :: cs) := by
      intro b hb
      obtain ⟨hmoved, hfits⟩ := ih hb
      rw [Nat.add_right_comm, byteCount_cons c', ← Nat.add_assoc]
      exact ⟨hmoved, hfits⟩
    rw [skip] at h
    rw [List.cons_append, skip]
    split at h
    · next hcomment =>
      rw [if_pos hcomment]
      exact hskip _ h
    · next hcomment =>
      rw [if_neg hcomment]
      split at h
      · next hblank =>
        rw [if_pos hblank]
        exact hskip _ h
      · next hblank =>
        rw [if_neg hblank]
        split at h
        · next hsemicolon =>
          rw [if_pos hsemicolon]
          exact hskip _ h
        · next hsemicolon =>
          rw [if_neg hsemicolon]
          cases h
          exact ⟨rfl, rfl⟩

theorem lex_tail (htail : Tail tail) (offset : Nat) (c : Char) (cs : List Char) :
    lex (offset + d) c (cs ++ tail) = ((lex offset c cs).1.move d,
      ⟨(lex offset c cs).2.rest ++ tail, (lex offset c cs).2.offset + d⟩) ∧
    (lex offset c cs).2.offset + byteCount (lex offset c cs).2.rest =
      offset + byteCount (c :: cs) := by
  -- a single character
  have hsingle : lex.single (offset + d) c = (lex.single offset c).move d := by
    simp only [lex.single, Span.move, Span.mk.injEq, true_and]
    exact Nat.add_right_comm ..
  have hbytes : (lex.single offset c).stop + byteCount cs = offset + byteCount (c :: cs) := by
    rw [byteCount_cons, ← Nat.add_assoc]
    rfl
  -- a run of characters
  have hrun : ∀ belongs make, belongs '\n' = false →
      (∀ text span, make text (Span.move d span) = (make text span).move d) →
      lex.run (offset + d) c (cs ++ tail) belongs make =
        ((lex.run offset c cs belongs make).1.move d,
          ⟨(lex.run offset c cs belongs make).2.rest ++ tail,
            (lex.run offset c cs belongs make).2.offset + d⟩) ∧
      (lex.run offset c cs belongs make).2.offset +
        byteCount (lex.run offset c cs belongs make).2.rest = offset + byteCount (c :: cs) := by
    intro belongs make hline hmake
    obtain ⟨htake, hdrop⟩ := takeWhile_tail htail hline cs
    constructor
    · simp only [lex.run, htake, hdrop, ← hmake, Span.move, Nat.add_right_comm offset d]
    · have hcut : cs.takeWhile belongs ++ cs.dropWhile belongs = cs :=
        List.takeWhile_append_dropWhile
      have hcs := congrArg byteCount hcut
      rw [byteCount_append] at hcs
      simp only [lex.run, ← byteCount_toList, String.toList_ofList, byteCount_cons]
      omega
  rw [lex, lex]
  split
  · exact ⟨by rw [hsingle]; rfl, hbytes⟩
  · split
    · exact ⟨by rw [hsingle]; rfl, hbytes⟩
    · split
      · refine hrun _ _ (by decide) fun text span => ?_
        unfold integer
        split <;> rfl
      · split
        · exact ⟨by rw [hsingle]; rfl, hbytes⟩
        · exact hrun _ _ (by decide) fun text span => rfl

/-- An item of the part is an item of the longer text. -/
theorem next?_tail (htail : Tail tail) {cursor after : Cursor} {item : Item}
    (h : cursor.next? = some (item, after)) :
    (Cursor.mk (cursor.rest ++ tail) (cursor.offset + d)).next? =
      some (item.move d, ⟨after.rest ++ tail, after.offset + d⟩) ∧
    after.offset + byteCount after.rest = cursor.offset + byteCount cursor.rest := by
  rw [next?] at h
  split at h
  · cases h
  · next c cs offset hskip =>
    obtain ⟨hmoved, hfits⟩ : skip false (cursor.offset + d) (cursor.rest ++ tail) =
      ⟨c :: cs ++ tail, offset + d⟩ ∧ _ := skip_tail hskip
    obtain ⟨hlex, hbytes⟩ := lex_tail (d := d) htail offset c cs
    have hitem := Option.some.inj h
    rw [hitem] at hlex hbytes
    rw [next?, hmoved]
    exact ⟨congrArg some hlex, hbytes.trans hfits⟩

/-- Nothing is left on the line that ends with the part. -/
theorem next?_line {cursor : Cursor} (h : cursor.next? = none) (offset : Nat) :
    (Cursor.mk cursor.rest offset).next? = none ∧
    ∀ cs, (Cursor.mk (cursor.rest ++ '\n' :: cs) offset).next? =
      (Cursor.mk cs (offset + byteCount cursor.rest + 1)).next? := by
  obtain ⟨rest, start⟩ := cursor
  rcases gap_cases rest with hgap | ⟨gap, c, rest, rfl, hgap, hblank, hc⟩
  · obtain ⟨hend, hline⟩ := skip_finalGap hgap offset
    constructor
    · rw [next?, hend]
    · intro cs
      rw [next?, hline cs]
      rfl
  · rw [next?, skip_gap hgap, skip_stop hblank hc] at h
    cases h

end Cursor

/-! ## Two readers -/

namespace Reader

open Text (byteCount)

/-- The reader `r'` is where `r` is, in a text in which that of `r` stands `d` bytes after the start
and in front of `tail`. -/
structure Placed (d : Nat) (tail : List Char) (r r' : Reader) : Prop where
  rest : r'.cursor.rest = r.cursor.rest ++ tail
  offset : r'.cursor.offset = r.cursor.offset + d
  peeked : r'.peeked = r.peeked.map (Prod.map id (Span.move d))
  lastStop : r'.lastStop = r.lastStop + d
  size : r'.size = r.size + d + byteCount tail
  /-- What is left of the part is what its reader has not come to. -/
  fits : r.cursor.offset + byteCount r.cursor.rest = r.size

/-- What `act` reads in the part, `act'` reads in the longer text, and the results are as `V` says.
If nothing comes after the part, then `act'` also fails as `act` does. -/
def Follows {α α' : Type} (d : Nat) (tail : List Char) (V : α → α' → Prop) (act : ReadM α)
    (act' : ReadM α') : Prop :=
  ∀ r r', Placed d tail r r' →
    (∀ a s, act r = .ok a s → ∃ a' s', act' r' = .ok a' s' ∧ V a a' ∧ Placed d tail s s') ∧
    (tail = [] → ∀ e s, act r = .error e s → ∃ s', act' r' = .error (e.move d) s')

variable {α α' β β' : Type} {d : Nat} {tail : List Char} {V : α → α' → Prop} {W : β → β' → Prop}
  {act : ReadM α} {act' : ReadM α'}

theorem follows_pure {a : α} {a' : α'} (h : V a a') : Follows d tail V (pure a) (pure a') := by
  refine fun r r' hr => ⟨?_, nofun⟩
  rintro _ _ ⟨⟩
  exact ⟨a', r', rfl, h, hr⟩

theorem follows_throw (e : ReadError) : Follows d tail V (throw e) (throw (e.move d)) := by
  refine fun r r' _ => ⟨nofun, ?_⟩
  rintro - _ _ ⟨⟩
  exact ⟨r', rfl⟩

theorem endError_placed {r r' : Reader} (h : Placed d [] r r') :
    r'.endError = r.endError.move d := by
  rw [endError, h.size]
  rfl

/-- Where the part ends, the longer text may go on. -/
theorem follows_fellShort (h : tail = [] → act' = fellShort) : Follows d tail V fellShort act' := by
  refine fun r r' hr => ⟨nofun, ?_⟩
  rintro rfl _ _ ⟨⟩
  rw [h rfl]
  exact ⟨r', congrArg (EStateM.Result.error · r') (endError_placed hr)⟩

theorem Follows.bind {next : α → ReadM β} {next' : α' → ReadM β'} (h : Follows d tail V act act')
    (hnext : ∀ a a', V a a' → Follows d tail W (next a) (next' a')) :
    Follows d tail W (act >>= next) (act' >>= next') := by
  intro r r' hr
  obtain ⟨hok, herror⟩ := h r r' hr
  show (∀ b t, EStateM.bind act next r = _ → ∃ b' t', EStateM.bind act' next' r' = _ ∧ _) ∧
    (_ → ∀ e t, EStateM.bind act next r = _ → ∃ t', EStateM.bind act' next' r' = _)
  unfold EStateM.bind
  cases hact : act r with
  | ok a s =>
    obtain ⟨a', s', hact', ha, hs⟩ := hok a s hact
    rw [hact']
    exact hnext a a' ha s s' hs
  | error e s =>
    refine ⟨nofun, ?_⟩
    rintro htail _ _ ⟨⟩
    obtain ⟨s', hact'⟩ := herror htail e s hact
    rw [hact']
    exact ⟨s', rfl⟩

theorem Follows.map (h : Follows d tail V act act') {f : α → β} {f' : α' → β'}
    (hf : ∀ a a', V a a' → W (f a) (f' a')) : Follows d tail W (f <$> act) (f' <$> act') := by
  rw [map_eq_pure_bind, map_eq_pure_bind]
  exact h.bind fun a a' ha => follows_pure (hf a a' ha)

theorem Follows.seq {fn : ReadM (α → β)} {fn' : ReadM (α' → β')}
    (hfn : Follows d tail (fun f f' => ∀ a a', V a a' → W (f a) (f' a')) fn fn')
    (h : Follows d tail V act act') : Follows d tail W (fn <*> act) (fn' <*> act') := by
  rw [seq_eq_bind_map, seq_eq_bind_map]
  exact hfn.bind fun f f' hf => h.map hf

/-! ### Looking at the next token -/

theorem peek_placed (htail : Tail tail) {r r' : Reader} (h : Placed d tail r r') :
    (∃ item s s', peek r = .ok (some item) s ∧
      peek r' = .ok (some (Prod.map id (Span.move d) item)) s' ∧ Placed d tail s s') ∨
    (∃ e s s', peek r = .error e s ∧ peek r' = .error (e.move d) s') ∨
    (peek r = .ok none r ∧ (tail = [] → peek r' = .ok none r')) := by
  obtain ⟨cursor, size, peeked, lastStop⟩ := r
  obtain ⟨⟨rest', offset'⟩, size', peeked', lastStop'⟩ := r'
  obtain ⟨hrest, hoffset, hpeeked, hlast, hsize, hfits⟩ := h
  dsimp only at hrest hoffset hpeeked hlast hsize hfits
  subst hrest hoffset hpeeked
  cases peeked with
  | some item => exact .inl ⟨item, _, _, rfl, rfl, rfl, rfl, rfl, hlast, hsize, hfits⟩
  | none =>
    simp only [peek, Option.map_none]
    cases hnext : cursor.next? with
    | none =>
      refine .inr (.inr ⟨rfl, ?_⟩)
      rintro rfl
      rw [List.append_nil, (Cursor.next?_line hnext _).1]
    | some found =>
      obtain ⟨item, after⟩ := found
      obtain ⟨hmoved, hbytes⟩ := Cursor.next?_tail (d := d) htail hnext
      rw [hmoved]
      cases item with
      | ok item =>
        exact .inl ⟨item, _, _, rfl, rfl, rfl, rfl, rfl, hlast, hsize, hbytes.trans hfits⟩
      | error e => exact .inr (.inl ⟨e, _, _, rfl, rfl⟩)

/-- Taking a token is looking at it and moving past it. -/
theorem next_eq (r : Reader) : next r =
    match peek r with
    | .ok (some item) s => .ok item { s with peeked := none, lastStop := item.2.stop }
    | .ok none s => .error s.endError s
    | .error e s => .error e s := by
  obtain ⟨cursor, size, peeked, lastStop⟩ := r
  cases peeked with
  | some item => rfl
  | none =>
    simp only [next, peek]
    cases cursor.next? with
    | none => rfl
    | some found =>
      obtain ⟨item | item, after⟩ := found <;> rfl

theorem follows_next (htail : Tail tail) :
    Follows d tail (fun item item' => item' = Prod.map id (Span.move d) item) next next := by
  intro r r' hr
  rw [next_eq, next_eq]
  rcases peek_placed htail hr with
    ⟨item, s, s', hpeek, hpeek', hs⟩ | ⟨e, s, s', hpeek, hpeek'⟩ | ⟨hpeek, hpeek'⟩
  · rw [hpeek, hpeek']
    refine ⟨?_, nofun⟩
    rintro _ _ ⟨⟩
    exact ⟨_, _, rfl, rfl, hs.rest, hs.offset, rfl, rfl, hs.size, hs.fits⟩
  · rw [hpeek, hpeek']
    refine ⟨nofun, ?_⟩
    rintro - _ _ ⟨⟩
    exact ⟨s', rfl⟩
  · rw [hpeek]
    refine ⟨nofun, ?_⟩
    rintro rfl _ _ ⟨⟩
    rw [hpeek' rfl]
    exact ⟨r', congrArg (EStateM.Result.error · r') (endError_placed hr)⟩

/-- The computation fails if no token is left. -/
def Hungry (act : ReadM α) : Prop := ∀ r, peek r = .ok none r → ∃ e s, act r = .error e s

theorem hungry_fellShort : Hungry (fellShort : ReadM α) := fun r _ => ⟨r.endError, r, rfl⟩

theorem hungry_next_bind (next' : Token × Span → ReadM α) : Hungry (next >>= next') := by
  intro r hr
  refine ⟨r.endError, r, bind_of_error ?_⟩
  rw [next_eq, hr]

/-- Readers look ahead alike, except where the part ends and the longer text does not. A computation
that fails there need not be followed. -/
theorem follows_peek_bind (htail : Tail tail) {next : Option (Token × Span) → ReadM α}
    {next' : Option (Token × Span) → ReadM α'}
    (hsome : ∀ item, Follows d tail V (next (some item))
      (next' (some (Prod.map id (Span.move d) item))))
    (hnone : tail = [] → Follows d tail V (next none) (next' none)) (hhungry : Hungry (next none)) :
    Follows d tail V (peek >>= next) (peek >>= next') := by
  intro r r' hr
  show (∀ b t, EStateM.bind peek next r = _ → ∃ b' t', EStateM.bind peek next' r' = _ ∧ _) ∧
    (_ → ∀ e t, EStateM.bind peek next r = _ → ∃ t', EStateM.bind peek next' r' = _)
  unfold EStateM.bind
  rcases peek_placed htail hr with
    ⟨item, s, s', hpeek, hpeek', hs⟩ | ⟨e, s, s', hpeek, hpeek'⟩ | ⟨hpeek, hpeek'⟩
  · rw [hpeek, hpeek']
    exact hsome item s s' hs
  · rw [hpeek, hpeek']
    refine ⟨nofun, ?_⟩
    rintro - _ _ ⟨⟩
    exact ⟨s', rfl⟩
  · rw [hpeek]
    constructor
    · intro a s ha
      obtain ⟨e, t, herror⟩ := hhungry r hpeek
      exact nomatch herror.symm.trans ha
    · intro hend
      rw [hpeek' hend]
      exact (hnone hend r r' hr).2 hend

/-! ### Tokens of a kind -/

theorem follows_symbol (htail : Tail tail) :
    Follows d tail (fun s s' => s' = Prod.map id (Span.move d) s) symbol symbol := by
  refine (follows_next htail).bind ?_
  rintro ⟨t, span⟩ _ rfl
  cases t with
  | symbol s => exact follows_pure rfl
  | lparen | rparen | int => exact follows_throw _

theorem follows_integer (htail : Tail tail) :
    Follows d tail (fun n n' => n' = Prod.map id (Span.move d) n) integer integer := by
  refine (follows_next htail).bind ?_
  rintro ⟨t, span⟩ _ rfl
  cases t with
  | int n => exact follows_pure rfl
  | lparen | rparen | symbol => exact follows_throw _

theorem follows_rparen (htail : Tail tail) : Follows d tail Eq rparen rparen := by
  refine (follows_next htail).bind ?_
  rintro ⟨t, span⟩ _ rfl
  cases t with
  | rparen => exact follows_pure rfl
  | lparen | symbol | int => exact follows_throw _

/-! ### Lists of elements -/

/-- The fuel for a longer text is no less, and it is the same if nothing comes after the part. -/
structure Fuels (tail : List Char) (fuel fuel' : Nat) : Prop where
  le : fuel ≤ fuel'
  eq : tail = [] → fuel' = fuel

theorem Fuels.pred {fuel fuel' : Nat} (h : Fuels tail (fuel + 1) fuel') :
    ∃ k, fuel' = k + 1 ∧ Fuels tail fuel k := by
  obtain ⟨k, rfl⟩ := Nat.exists_eq_add_of_le' (Nat.le_trans (Nat.succ_pos fuel) h.le)
  exact ⟨k, rfl, Nat.le_of_succ_le_succ h.le, fun htail => Nat.succ.inj (h.eq htail)⟩

theorem follows_foldToRParen (htail : Tail tail) {element element' : ReadM α}
    (h : Follows d tail Eq element element') (hhungry : Hungry element) (combine : β → α → β)
    {fuel fuel' : Nat} (hfuel : Fuels tail fuel fuel') (acc : β) :
    Follows d tail Eq (foldToRParen element combine fuel acc)
      (foldToRParen element' combine fuel' acc) := by
  induction fuel generalizing fuel' acc with
  | zero =>
    refine follows_fellShort fun hend => ?_
    rw [hfuel.eq hend]
    rfl
  | succ fuel ih =>
    obtain ⟨k, rfl, hk⟩ := hfuel.pred
    -- a closing parenthesis ends the list, and anything else is an element
    have hmore : Follows d tail Eq
        (element >>= fun a => foldToRParen element combine fuel (combine acc a))
        (element' >>= fun a => foldToRParen element' combine k (combine acc a)) := by
      refine h.bind ?_
      rintro a _ rfl
      exact ih hk (combine acc a)
    have hend :
        Hungry (element >>= fun a => foldToRParen element combine fuel (combine acc a)) := by
      intro r hr
      obtain ⟨e, s, herror⟩ := hhungry r hr
      exact ⟨e, s, bind_of_error herror⟩
    rw [foldToRParen, foldToRParen, atRParen, bind_assoc, bind_assoc]
    refine follows_peek_bind htail ?_ (fun _ => hmore) hend
    rintro ⟨t, span⟩
    cases t with
    | rparen => exact follows_pure rfl
    | lparen | symbol | int => exact hmore

/-! ### Types and terms -/

theorem follows_compoundTy (htail : Tail tail) {part part' : ReadM Ty}
    (h : Follows d tail Eq part part') (hhungry : Hungry part) {fuel fuel' : Nat}
    (hfuel : Fuels tail fuel fuel') (head : String) (span : Span) :
    Follows d tail Eq (compoundTy part fuel head span)
      (compoundTy part' fuel' head (span.move d)) := by
  have hclosing : ∀ A, Follows d tail Eq (rparen >>= fun _ => pure A : ReadM Ty)
      (rparen >>= fun _ => pure A) := fun A =>
    (follows_rparen htail).bind fun _ _ _ => follows_pure rfl
  unfold compoundTy
  split
  · refine h.bind ?_
    rintro a _ rfl
    refine h.bind ?_
    rintro b _ rfl
    refine (follows_foldToRParen htail h hhungry _ hfuel ([a], b)).bind ?_
    rintro ⟨doms, cod⟩ _ rfl
    exact hclosing _
  · refine h.bind ?_
    rintro a _ rfl
    refine h.bind ?_
    rintro b _ rfl
    exact hclosing _
  · exact (follows_throw _).bind (V := Eq) fun A _ hA => hA ▸ hclosing A

theorem hungry_tyWithin (fuel : Nat) : Hungry (tyWithin fuel) := by
  cases fuel with
  | zero => exact hungry_fellShort
  | succ fuel => exact hungry_next_bind _

theorem follows_tyWithin (htail : Tail tail) {fuel fuel' : Nat} (hfuel : Fuels tail fuel fuel') :
    Follows d tail Eq (tyWithin fuel) (tyWithin fuel') := by
  induction fuel generalizing fuel' with
  | zero =>
    refine follows_fellShort fun hend => ?_
    rw [hfuel.eq hend]
    rfl
  | succ fuel ih =>
    obtain ⟨k, rfl, hk⟩ := hfuel.pred
    refine (follows_next htail).bind ?_
    rintro ⟨t, span⟩ _ rfl
    cases t with
    | symbol s => exact follows_pure rfl
    | int n => exact follows_throw _
    | rparen => exact follows_throw _
    | lparen =>
      refine (follows_symbol htail).bind ?_
      rintro ⟨head, span⟩ _ rfl
      exact follows_compoundTy htail (ih hk) (hungry_tyWithin fuel) hk head span

theorem follows_numeral (htail : Tail tail) : Follows d tail Eq numeral numeral := by
  refine (follows_integer htail).bind ?_
  rintro ⟨n, span⟩ _ rfl
  dsimp only [Prod.map, id]
  split
  · exact follows_pure rfl
  · exact follows_throw _

theorem follows_compoundTerm (htail : Tail tail) {operand operand' : ReadM Term}
    (h : Follows d tail Eq operand operand') (hhungry : Hungry operand) {fuel fuel' : Nat}
    (hfuel : Fuels tail fuel fuel') (head : String) (span : Span) :
    Follows d tail Eq (compoundTerm operand fuel head span)
      (compoundTerm operand' fuel' head (span.move d)) := by
  have hclosed : ∀ {body body' : ReadM Term}, Follows d tail Eq body body' →
      Follows d tail Eq (body >>= fun t => rparen >>= fun _ => pure t)
        (body' >>= fun t => rparen >>= fun _ => pure t) := by
    intro body body' hbody
    refine hbody.bind ?_
    rintro t _ rfl
    exact (follows_rparen htail).bind fun _ _ _ => follows_pure rfl
  have hone : ∀ f : Term → Term, Follows d tail Eq (f <$> operand) (f <$> operand') := fun f =>
    h.map fun a _ ha => congrArg f ha
  have htwo : ∀ f : Term → Term → Term, Follows d tail Eq (f <$> operand <*> operand)
      (f <$> operand' <*> operand') := by
    intro f
    refine Follows.seq (h.map ?_) h
    rintro a _ rfl b _ rfl
    rfl
  have hthree : ∀ f : Term → Term → Term → Term,
      Follows d tail Eq (f <$> operand <*> operand <*> operand)
        (f <$> operand' <*> operand' <*> operand') := by
    intro f
    refine Follows.seq (Follows.seq (h.map ?_) h) h
    rintro a _ rfl b _ rfl c _ rfl
    rfl
  unfold compoundTerm
  split
  · exact hclosed (hone .lam)
  · refine h.bind ?_
    rintro f _ rfl
    refine h.bind ?_
    rintro a _ rfl
    exact hclosed (follows_foldToRParen htail h hhungry _ hfuel (Term.app f a))
  · exact hclosed (htwo .pair)
  · exact hclosed (hone .fst)
  · exact hclosed (hone .snd)
  · exact hclosed (hthree .cond)
  · exact hclosed (hone .succ)
  · exact hclosed (follows_numeral htail)
  · exact hclosed (hthree .natRec)
  · exact hclosed (follows_throw _)

theorem hungry_termWithin (fuel : Nat) : Hungry (termWithin fuel) := by
  cases fuel with
  | zero => exact hungry_fellShort
  | succ fuel => exact hungry_next_bind _

theorem follows_termWithin (htail : Tail tail) {fuel fuel' : Nat} (hfuel : Fuels tail fuel fuel') :
    Follows d tail Eq (termWithin fuel) (termWithin fuel') := by
  induction fuel generalizing fuel' with
  | zero =>
    refine follows_fellShort fun hend => ?_
    rw [hfuel.eq hend]
    rfl
  | succ fuel ih =>
    obtain ⟨k, rfl, hk⟩ := hfuel.pred
    refine (follows_next htail).bind ?_
    rintro ⟨t, span⟩ _ rfl
    cases t with
    | symbol s => exact follows_pure rfl
    | int n => exact follows_pure rfl
    | rparen => exact follows_throw _
    | lparen =>
      refine (follows_symbol htail).bind ?_
      rintro ⟨head, span⟩ _ rfl
      exact follows_compoundTerm htail (ih hk) (hungry_termWithin fuel) hk head span

/-! ### Forms -/

theorem follows_get_bind {next : Reader → ReadM α} {next' : Reader → ReadM α'}
    (h : ∀ r r', Placed d tail r r' → Follows d tail V (next r) (next' r')) :
    Follows d tail V (get >>= next) (get >>= next') := fun r r' hr => h r r' hr r r' hr

theorem Placed.fuels {r r' : Reader} (h : Placed d tail r r') :
    Fuels tail r.budget r'.budget := by
  have hsize := h.size
  have hoffset := h.offset
  constructor
  · simp only [budget]
    omega
  · rintro rfl
    simp only [budget, Text.byteCount_nil] at hsize ⊢
    omega

theorem follows_spanFrom (start : Nat) : Follows d tail (fun span span' => span' = span.move d)
    (spanFrom start) (spanFrom (start + d)) := by
  refine fun r r' hr => ⟨?_, nofun⟩
  rintro _ _ ⟨⟩
  refine ⟨_, _, rfl, ?_, hr⟩
  rw [hr.lastStop]
  rfl

/-- **Forms of a part.** Every form of the part is a form of the longer text, and if nothing comes
after the part, every error is one as well. -/
theorem follows_form (htail : Tail tail) :
    Follows d tail (fun f f' => f' = f.move d) form form := by
  have hspan : ∀ start (make : Span → Form), (∀ span, make (span.move d) = (make span).move d) →
      Follows d tail (fun f f' => f' = f.move d) (spanFrom start >>= fun span => pure (make span))
        (spanFrom (start + d) >>= fun span => pure (make span)) := by
    intro start make hmake
    refine (follows_spanFrom start).bind ?_
    rintro span _ rfl
    exact follows_pure (hmake span)
  unfold form
  refine follows_get_bind fun r r' hr => ?_
  have hfuel := hr.fuels
  refine follows_peek_bind htail ?_ ?_ hungry_fellShort
  · rintro ⟨t, first⟩
    cases t with
    | lparen =>
      refine (follows_next htail).bind ?_
      rintro _ _ -
      refine (follows_symbol htail).bind ?_
      rintro ⟨head, headSpan⟩ _ rfl
      dsimp only [Prod.map, id]
      split
      · refine (follows_symbol htail).bind ?_
        rintro ⟨name, span⟩ _ rfl
        refine (follows_termWithin htail hfuel).bind ?_
        rintro t _ rfl
        refine (follows_rparen htail).bind ?_
        rintro _ _ -
        exact hspan _ _ fun _ => rfl
      · refine (follows_symbol htail).bind ?_
        rintro ⟨name, span⟩ _ rfl
        refine (follows_tyWithin htail hfuel).bind ?_
        rintro A _ rfl
        refine (follows_rparen htail).bind ?_
        rintro _ _ -
        exact hspan _ _ fun _ => rfl
      · refine (follows_compoundTerm htail (follows_termWithin htail hfuel) (hungry_termWithin _)
          hfuel head headSpan).bind ?_
        rintro t _ rfl
        exact hspan _ _ fun _ => rfl
    | rparen | symbol | int =>
      refine (follows_termWithin htail hfuel).bind ?_
      rintro t _ rfl
      exact hspan _ _ fun _ => rfl
  · intro hend
    exact follows_fellShort fun _ => rfl

end Reader

end SystemT
