import SystemT.Proofs.Ty.Subst
import SystemT.Ty.Matching

/-!
# Matching is exact

A match adds bindings to those found so far, from left to right. What is known of a variable at some
point is the type that it is fixed at, or else the one it was bound to, and a substitution *fits* if
it sends every variable there (`Subst.Fits`).

All that follows rests on one invariant (`Subst.Narrows`): the substitutions that fit after a match
are exactly those which fitted before and send the pattern to the target, and a match fails only if
there are none. It holds of a variable, of a failure, and of one match after another
(`Subst.Narrows.bind`), hence of every pattern (`Ty.narrows_matchWith`) and of a list of them.

What a match has found fits itself, as long as it starts from bindings that do. So there is an
answer exactly if some substitution is one. That is what `Ty.instanceOf?` and `Subst.refines?`
promise, the first for one type and the second for the images of all variables at once.
-/

namespace SystemT

/-- `u` sends each variable to the type that it is fixed at, or else bound to by `found`. -/
def Subst.Fits (fixed : Ident → Option Ty) (found u : Subst) : Prop :=
  ∀ x t, (fixed x).or (found.get? x) = some t → u.image x = t

/-- From any bindings `act` binds those variables of `V` that are neither fixed nor bound yet, and
changes no other. Of the substitutions that fitted, those with the property `P` are left, and `act`
fails if there are none. -/
structure Subst.Narrows (fixed : Ident → Option Ty) (V : Ident → Prop) (P : Subst → Prop)
    (act : Subst → Option Subst) : Prop where
  fits_iff : ∀ found u, (∃ found', act found = some found' ∧ Fits fixed found' u) ↔
    Fits fixed found u ∧ P u
  kept : ∀ found found' x t, act found = some found' → found.get? x = some t →
    found'.get? x = some t
  bound_iff : ∀ found found' x, act found = some found' →
    (found'.get? x ≠ none ↔ found.get? x ≠ none ∨ fixed x = none ∧ V x)

namespace Subst

variable {fixed : Ident → Option Ty} {V W : Ident → Prop} {P Q : Subst → Prop}
  {act act' : Subst → Option Subst} {found found' u : Subst} {x : Ident} {t : Ty}

/-- A variable of which nothing is known may be bound to what the substitution makes of it. -/
theorem fits_insert_iff (hfixed : fixed x = none) (hfound : found.get? x = none) :
    Fits fixed (found.insert x t) u ↔ Fits fixed found u ∧ u.image x = t := by
  constructor
  · intro h
    refine ⟨fun y a hy => h y a ?_, h x t ?_⟩
    · have hne : x ≠ y := by
        rintro rfl
        rw [hfixed, hfound] at hy
        cases hy
      rw [get?_insert, if_neg hne]
      exact hy
    · rw [hfixed, get?_insert, if_pos rfl]
      rfl
  · rintro ⟨h, hx⟩ y a hy
    by_cases hxy : x = y
    · subst hxy
      rw [hfixed, get?_insert, if_pos rfl] at hy
      cases hy
      exact hx
    · rw [get?_insert, if_neg hxy] at hy
      exact h y a hy

/-! ## Matches one after another -/

theorem Narrows.congr (h : Narrows fixed V P act) (hV : ∀ x, V x ↔ W x) (hP : ∀ u, P u ↔ Q u) :
    Narrows fixed W Q act := by
  obtain rfl : V = W := funext fun x => propext (hV x)
  obtain rfl : P = Q := funext fun u => propext (hP u)
  exact h

theorem narrows_some : Narrows fixed (fun _ => False) (fun _ => True) some where
  fits_iff found u := by simp
  kept found found' x t h hx := by
    cases h
    exact hx
  bound_iff found found' x h := by
    cases h
    simp

theorem narrows_none (h : ∀ u, ¬ P u) : Narrows fixed V P fun _ => none where
  fits_iff found u := by simp [h u]
  kept found found' x t h := by cases h
  bound_iff found found' x h := by cases h

/-- The second of two matches narrows down what the first has left. -/
theorem Narrows.bind (h : Narrows fixed V P act) (h' : Narrows fixed W Q act') :
    Narrows fixed (fun x => V x ∨ W x) (fun u => P u ∧ Q u)
      fun found => (act found).bind act' where
  fits_iff found u := by
    calc (∃ found', (act found).bind act' = some found' ∧ Fits fixed found' u)
        ↔ ∃ mid, act found = some mid ∧ ∃ found', act' mid = some found' ∧ Fits fixed found' u := by
          simp only [Option.bind_eq_some_iff]
          grind
      _ ↔ (∃ mid, act found = some mid ∧ Fits fixed mid u) ∧ Q u := by
          simp only [h'.fits_iff]
          grind
      _ ↔ Fits fixed found u ∧ P u ∧ Q u := by rw [h.fits_iff, and_assoc]
  kept found found' x t hrun hx := by
    obtain ⟨mid, hmid, hrun⟩ := Option.bind_eq_some_iff.mp hrun
    exact h'.kept mid found' x t hrun (h.kept found mid x t hmid hx)
  bound_iff found found' x hrun := by
    obtain ⟨mid, hmid, hrun⟩ := Option.bind_eq_some_iff.mp hrun
    rw [h'.bound_iff mid found' x hrun, h.bound_iff found mid x hmid, or_assoc, ← and_or_left]

theorem narrows_foldlM {α : Type} {V : α → Ident → Prop} {P : α → Subst → Prop}
    {act : Subst → α → Option Subst} (h : ∀ a, Narrows fixed (V a) (P a) fun found => act found a)
    (l : List α) :
    Narrows fixed (fun x => ∃ a ∈ l, V a x) (fun u => ∀ a ∈ l, P a u)
      fun found => l.foldlM act found := by
  induction l with
  | nil => exact narrows_some.congr (by simp) (by simp)
  | cons a l ih => exact ((h a).bind ih).congr (by simp) (by simp)

/-! ## What is found -/

/-- What is known of a fixed variable does not change. -/
theorem Narrows.get?_of_fixed (h : Narrows fixed V P act) (hrun : act found = some found')
    (hx : fixed x ≠ none) : found'.get? x = found.get? x := by
  have hbound := h.bound_iff found found' x hrun
  cases hold : found.get? x with
  | some t => exact h.kept found found' x t hrun hold
  | none =>
    rw [hold] at hbound
    simpa [hx] using hbound

/-- From bindings that fit themselves, what is found fits them and has the property asked for. -/
theorem Narrows.sound (h : Narrows fixed V P act) (hstart : Fits fixed found found)
    (hrun : act found = some found') : Fits fixed found found' ∧ P found' := by
  have hself : Fits fixed found' found' := by
    intro x t hx
    cases hfixed : fixed x with
    | none =>
      rw [hfixed] at hx
      exact image_of_get? hx
    | some a =>
      -- `found'` does with a fixed variable what `found` did
      have hx' : fixed x ≠ none := by simp [hfixed]
      rw [h.get?_of_fixed hrun hx'] at hx
      rw [image, h.get?_of_fixed hrun hx']
      exact hstart x t hx
  exact (h.fits_iff found found').mp ⟨found', hrun, hself⟩

/-- Something is found if there is anything to find. -/
theorem Narrows.finds_iff (h : Narrows fixed V P act) (hstart : Fits fixed found found) :
    (∃ found', act found = some found') ↔ ∃ u, Fits fixed found u ∧ P u := by
  constructor
  · rintro ⟨found', hrun⟩
    exact ⟨found', h.sound hstart hrun⟩
  · rintro ⟨u, hu⟩
    obtain ⟨found', hrun, -⟩ := (h.fits_iff found u).mpr hu
    exact ⟨found', hrun⟩

end Subst

/-! ## Patterns -/

namespace Ty

open Subst

variable {fixed : Ident → Option Ty}

/-- What is known of a variable decides whether it matches. -/
theorem matchWith_var (x : Ident) (t : Ty) (found : Subst) :
    (var x).matchWith fixed t found =
      match (fixed x).or (found.get? x) with
      | some a => if a = t then some found else none
      | none => some (found.insert x t) := by
  rw [matchWith]
  cases fixed x <;> rfl

/-- A variable matches as it is known, or is bound if nothing is known of it. -/
theorem matchWith_var_cases {x : Ident} {t : Ty} {found found' : Subst}
    (h : (var x).matchWith fixed t found = some found') :
    ((fixed x).or (found.get? x) = some t ∧ found' = found) ∨
      (fixed x = none ∧ found.get? x = none ∧ found' = found.insert x t) := by
  rw [matchWith_var] at h
  cases hknown : (fixed x).or (found.get? x) with
  | some a =>
    rw [hknown] at h
    dsimp only at h
    split at h
    case isFalse => cases h
    case isTrue ha =>
      cases h
      exact .inl ⟨congrArg some ha, rfl⟩
  | none =>
    rw [hknown] at h
    cases h
    obtain ⟨hfixed, hfound⟩ := Option.or_eq_none_iff.mp hknown
    exact .inr ⟨hfixed, hfound, rfl⟩

theorem narrows_matchWith_var (x : Ident) (t : Ty) :
    Narrows fixed (fun y => x = y) (fun u => u.image x = t) ((var x).matchWith fixed t) where
  fits_iff found u := by
    rw [matchWith_var]
    cases hknown : (fixed x).or (found.get? x) with
    | some a =>
      -- a substitution that fits sends `x` to `a`, which is the target or is not
      have hu : Fits fixed found u → u.image x = a := fun h => h x a hknown
      by_cases ha : a = t
      · simp only [if_pos ha]
        grind
      · simp only [if_neg ha]
        grind
    | none =>
      obtain ⟨hfixed, hfound⟩ := Option.or_eq_none_iff.mp hknown
      rw [← fits_insert_iff hfixed hfound]
      simp
  kept found found' y a hrun hy := by
    rcases matchWith_var_cases hrun with ⟨-, rfl⟩ | ⟨-, hfound, rfl⟩
    · exact hy
    · have hne : x ≠ y := by
        rintro rfl
        rw [hfound] at hy
        cases hy
      rw [get?_insert, if_neg hne, hy]
  bound_iff found found' y hrun := by
    rcases matchWith_var_cases hrun with ⟨hknown, rfl⟩ | ⟨hfixed, hfound, rfl⟩
    · refine ⟨.inl, ?_⟩
      rintro (hy | ⟨hfixed, rfl⟩)
      · exact hy
      · intro hnone
        rw [hfixed, hnone] at hknown
        cases hknown
    · rw [get?_insert]
      by_cases hxy : x = y
      · subst hxy
        simp [hfixed]
      · simp [hxy]

/-- **Matching a pattern** binds the variables of the pattern that are not fixed, and leaves the
substitutions that send the pattern to the target. -/
theorem narrows_matchWith (pattern target : Ty) :
    Narrows fixed (fun x => pattern.occurs x = true) (fun u => u.apply pattern = target)
      (pattern.matchWith fixed target) := by
  induction pattern generalizing target with
  | var x =>
    exact (narrows_matchWith_var x target).congr (fun y => (occurs_var x y).symm) fun _ => .rfl
  | nat =>
    cases target with
    | nat => exact narrows_some.congr (by simp [occurs]) (by simp [apply])
    | _ => exact narrows_none (by simp [apply])
  | bool =>
    cases target with
    | bool => exact narrows_some.congr (by simp [occurs]) (by simp [apply])
    | _ => exact narrows_none (by simp [apply])
  | arrow p q ihp ihq =>
    cases target with
    | arrow t u => exact ((ihp t).bind (ihq u)).congr (by simp [occurs]) (by simp [apply])
    | _ => exact narrows_none (by simp [apply])
  | prod p q ihp ihq =>
    cases target with
    | prod t u => exact ((ihp t).bind (ihq u)).congr (by simp [occurs]) (by simp [apply])
    | _ => exact narrows_none (by simp [apply])

/-! ## Instances of a type -/

/-- **One-way matching is decided.** There is an answer exactly if some substitution turns the
general type into the given one. An answer does so, and it binds the variables of the general type
and no others; on these there is no other choice. -/
theorem instanceOf?_exact (t general : Ty) :
    ((∃ s, t.instanceOf? general = some s) ↔ ∃ s : Subst, s.apply general = t) ∧
    ∀ s, t.instanceOf? general = some s →
      (∀ x, s.contains x = true ↔ x ∈ general.vars) ∧ s.apply general = t ∧
      ∀ u : Subst, u.apply general = t → ∀ x ∈ general.vars,
        u.apply (.var x) = s.apply (.var x) := by
  have hfits : ∀ u, Fits (fun _ => none) ∅ u := by
    intro u x a hx
    rw [get?_empty] at hx
    cases hx
  have h := @narrows_matchWith (fun _ => none) general t
  refine ⟨?_, fun s hs => ?_⟩
  · rw [instanceOf?, h.finds_iff (hfits ∅)]
    exact exists_congr fun u => and_iff_right (hfits u)
  · have happly : s.apply general = t := (h.sound (hfits ∅) hs).2
    refine ⟨fun x => ?_, happly, fun u hu x hx => ?_⟩
    · rw [contains_iff, ← Option.ne_none_iff_exists', h.bound_iff ∅ s x hs, mem_vars, get?_empty]
      simp
    · exact image_eq_of_apply_eq (hu.trans happly.symm) ((mem_vars general x).mp hx)

/-- Both types mention `A` and `B`, in different places, and `A` occurs twice in the general one. A
substitution that binds `C` as well agrees with the answer on `B`. -/
theorem instanceOf?_exact_exchange :
    ∃ t general s u, t = Ty.arrow (.var (.named "B")) (.prod (.arrow .nat (.var (.named "A")))
        (.var (.named "B"))) ∧
      general = Ty.arrow (.var (.named "A")) (.prod (.var (.named "B")) (.var (.named "A"))) ∧
      s = Subst.ofList [(.named "A", .var (.named "B")),
        (.named "B", .arrow .nat (.var (.named "A")))] ∧
      u = s.insert (.named "C") .bool ∧
      t.instanceOf? general = some s ∧
      ((∀ x, s.contains x = true ↔ x ∈ general.vars) ∧ s.apply general = t) ∧
      u.apply general = t ∧ .named "B" ∈ general.vars ∧
      u.apply (.var (.named "B")) = s.apply (.var (.named "B")) := by
  refine ⟨_, _, _, _, rfl, rfl, rfl, rfl, ?_⟩
  generalize hs : Subst.ofList [(.named "A", .var (.named "B")),
    (.named "B", .arrow .nat (.var (.named "A")))] = s
  have h : (Ty.arrow (.var (.named "B")) (.prod (.arrow .nat (.var (.named "A")))
      (.var (.named "B")))).instanceOf?
        (.arrow (.var (.named "A")) (.prod (.var (.named "B")) (.var (.named "A")))) = some s := by
    subst hs
    rfl
  have hu : (s.insert (.named "C") .bool).apply
      (.arrow (.var (.named "A")) (.prod (.var (.named "B")) (.var (.named "A")))) =
      .arrow (.var (.named "B")) (.prod (.arrow .nat (.var (.named "A"))) (.var (.named "B"))) := by
    subst hs
    rfl
  have hB : .named "B" ∈ (arrow (.var (.named "A"))
      (.prod (.var (.named "B")) (.var (.named "A")))).vars := by
    rw [mem_vars]
    decide
  obtain ⟨hbinds, happly, hunique⟩ := (instanceOf?_exact _ _).2 s h
  exact ⟨h, ⟨hbinds, happly⟩, hu, hB, hunique _ hu _ hB⟩

end Ty

namespace Subst

/-! ## Refinement -/

/-- The bindings of `s` for variables that `general` leaves alone. -/
def outside (s general : Subst) : Subst :=
  ⟨s.entries.filter fun x _ => !general.contains x⟩

theorem get?_outside (s general : Subst) (x : Ident) :
    (s.outside general).get? x = if general.get? x = none then s.get? x else none := by
  cases hbound : general.contains x with
  | true =>
    obtain ⟨a, ha⟩ := (contains_iff general x).mp hbound
    rw [if_neg (by simp [ha])]
    cases hx : s.entries[x]? <;> simp [get?, outside, hbound, hx]
  | false =>
    rw [if_pos ((contains_eq_false_iff general x).mp hbound)]
    cases hx : s.entries[x]? <;> simp [get?, outside, hbound, hx]

/-- Before anything is matched it is known where a variable goes that `general` leaves alone. -/
theorem fits_outside_iff (s general u : Subst) :
    Fits (s.required general) (s.outside general) u ↔
      ∀ x, general.get? x = none → u.image x = s.image x := by
  constructor
  · intro h x hx
    refine h x (s.image x) ?_
    rw [required, (contains_eq_false_iff general x).mpr hx]
    rfl
  · intro h x t hx
    rw [required] at hx
    cases hbound : general.contains x with
    | true =>
      obtain ⟨a, ha⟩ := (contains_iff general x).mp hbound
      rw [hbound, if_pos rfl, get?_outside, if_neg (by simp [ha])] at hx
      cases hx
    | false =>
      rw [hbound] at hx
      cases hx
      exact h x ((contains_eq_false_iff general x).mp hbound)

theorem mem_toList {s : Subst} {x : Ident} {t : Ty} : (x, t) ∈ s.toList ↔ s.get? x = some t :=
  Std.ExtTreeMap.mem_toList_iff_getElem?_eq_some

/-- `u` completes `general` to `s` if it does so for variables that `general` leaves alone and for
every image of the others. -/
theorem completes_iff (s general u : Subst) :
    ((∀ x, general.get? x = none → u.image x = s.image x) ∧
      ∀ b ∈ general.toList, u.apply b.2 = s.image b.1) ↔
    ∀ x, u.apply (general.image x) = s.image x := by
  constructor
  · rintro ⟨hunbound, hbound⟩ x
    cases hx : general.get? x with
    | none =>
      rw [image_of_unbound hx]
      exact hunbound x hx
    | some t =>
      rw [image_of_get? hx]
      exact hbound (x, t) (mem_toList.mpr hx)
  · intro h
    constructor
    · intro x hx
      have hx' := h x
      rwa [image_of_unbound hx] at hx'
    · rintro ⟨x, t⟩ hmem
      have hx := h x
      rwa [image_of_get? (mem_toList.mp hmem)] at hx

/-- The images of `general` are matched in turn, each against what `s` makes of its variable. -/
theorem refines?_eq (s general : Subst) :
    s.refines? general = general.toList.foldlM
      (fun found b => b.2.matchWith (s.required general) (s.image b.1) found) (s.outside general) :=
  rfl

theorem narrows_refines (s general : Subst) :
    Narrows (s.required general) (fun x => ∃ b ∈ general.toList, b.2.occurs x = true)
      (fun u => ∀ b ∈ general.toList, u.apply b.2 = s.image b.1)
      fun found => general.toList.foldlM
        (fun found b => b.2.matchWith (s.required general) (s.image b.1) found) found :=
  narrows_foldlM (fun b => Ty.narrows_matchWith b.2 (s.image b.1)) general.toList

/-- **The order of substitutions is decided.** There is an answer exactly if `general` followed by
some substitution agrees with `s` on every variable, and an answer is a substitution for which it
does, on every type. -/
theorem refines?_exact (s general : Subst) :
    ((∃ u, s.refines? general = some u) ↔
      ∃ u : Subst, ∀ x, u.apply (general.apply (.var x)) = s.apply (.var x)) ∧
    ∀ u, s.refines? general = some u → ∀ t, (general.compose u).apply t = s.apply t := by
  have h := narrows_refines s general
  have hstart : Fits (s.required general) (s.outside general) (s.outside general) := by
    rw [fits_outside_iff]
    intro x hx
    rw [image, get?_outside, if_pos hx, image]
  -- what matching leaves of the substitutions that fit are those asked for
  have hleft : ∀ u, (Fits (s.required general) (s.outside general) u ∧
      ∀ b ∈ general.toList, u.apply b.2 = s.image b.1) ↔
      ∀ x, u.apply (general.apply (.var x)) = s.apply (.var x) := by
    intro u
    rw [fits_outside_iff]
    exact completes_iff s general u
  constructor
  · rw [refines?_eq, h.finds_iff hstart]
    exact exists_congr hleft
  · intro u hu t
    rw [refines?_eq] at hu
    have hvars := (hleft u).mp (h.sound hstart hu)
    refine apply_congr fun x _ => ?_
    rw [image_compose]
    exact hvars x

/-- The bindings of `general` are cyclic: `X` is in the image of `Y`, and `Y` in that of `X`. The
latter also mentions `Z`, which `s` binds and `general` does not. -/
theorem refines?_exact_cyclic :
    ∃ s general u, s = (((∅ : Subst).insert (.named "X") (.arrow .bool .nat)).insert (.named "Y")
        (.prod .nat (.var (.named "W")))).insert (.named "Z") .nat ∧
      general = ((∅ : Subst).insert (.named "X")
        (.arrow (.var (.named "Y")) (.var (.named "Z")))).insert (.named "Y")
          (.var (.named "X")) ∧
      u = (((∅ : Subst).insert (.named "Z") .nat).insert (.named "Y") .bool).insert (.named "X")
        (.prod .nat (.var (.named "W"))) ∧
      s.refines? general = some u ∧
      (∃ u : Subst, ∀ x, u.apply (general.apply (.var x)) = s.apply (.var x)) ∧
      ∀ t, (general.compose u).apply t = s.apply t := by
  obtain ⟨s, hs⟩ : ∃ s, s = (((∅ : Subst).insert (.named "X") (.arrow .bool .nat)).insert
    (.named "Y") (.prod .nat (.var (.named "W")))).insert (.named "Z") .nat := ⟨_, rfl⟩
  obtain ⟨general, hgeneral⟩ : ∃ general, general = ((∅ : Subst).insert (.named "X")
    (.arrow (.var (.named "Y")) (.var (.named "Z")))).insert (.named "Y")
      (.var (.named "X")) := ⟨_, rfl⟩
  have houtside : s.outside general = (∅ : Subst).insert (.named "Z") .nat := by
    ext1 x
    subst hs hgeneral
    simp only [get?_outside, get?_insert, get?_empty]
    grind
  have h : s.refines? general = some ((((∅ : Subst).insert (.named "Z") .nat).insert
      (.named "Y") .bool).insert (.named "X") (.prod .nat (.var (.named "W")))) := by
    rw [refines?_eq, houtside]
    subst hs hgeneral
    rfl
  obtain ⟨hiff, hcompose⟩ := refines?_exact s general
  exact ⟨s, general, _, hs, hgeneral, rfl, h, hiff.mp ⟨_, h⟩, hcompose _ h⟩

end Subst

end SystemT
