import SystemT.Proofs.Ty.Variables

/-!
# The algebra of type substitutions

What a substitution does to a type is decided by the images of the type's variables
(`Subst.apply_congr`), and composition is application in turn (`Subst.apply_compose`).

A substitution is *resolved* if none of its bound variables is left in an image. Applying it once
more then changes nothing (`Subst.Resolved.apply_apply`), and it composes with any resolved
substitution that mentions none of its bound variables (`Subst.Resolved.compose`). Both the unifier
and type inference keep their substitutions resolved.
-/

namespace SystemT

namespace Subst

/-! ## Images -/

theorem image_of_get? {s : Subst} {x : Ident} {t : Ty} (h : s.get? x = some t) :
    s.image x = t := by
  rw [image, h]
  rfl

theorem image_of_unbound {s : Subst} {x : Ident} (h : s.get? x = none) : s.image x = .var x := by
  rw [image, h]
  rfl

theorem contains_iff (s : Subst) (x : Ident) : s.contains x = true ↔ ∃ t, s.get? x = some t := by
  rw [contains, get?, ← Std.ExtTreeMap.mem_iff_contains, Std.ExtTreeMap.mem_iff_isSome_getElem?,
    Option.isSome_iff_exists]

theorem contains_eq_false_iff (s : Subst) (x : Ident) :
    s.contains x = false ↔ s.get? x = none := by
  rw [← Bool.not_eq_true, contains_iff, not_exists, Option.eq_none_iff_forall_ne_some]

@[simp] theorem image_empty (x : Ident) : (∅ : Subst).image x = .var x :=
  image_of_unbound (get?_empty x)

theorem image_compose (r s : Subst) (x : Ident) :
    (r.compose s).image x = s.apply (r.image x) := by
  rw [image, get?_compose]
  cases h : r.get? x with
  | some t => simp [image_of_get? h]
  | none =>
    rw [image_of_unbound h, apply, image]
    rfl

/-! ## Types under a substitution -/

theorem apply_congr {r s : Subst} {t : Ty}
    (h : ∀ x, t.occurs x = true → r.image x = s.image x) : r.apply t = s.apply t := by
  induction t with
  | nat | bool => rfl
  | var x => exact h x (by simp [Ty.occurs])
  | arrow a b iha ihb | prod a b iha ihb =>
    rw [apply, apply, iha fun x hx => h x (by simp [Ty.occurs, hx]),
      ihb fun x hx => h x (by simp [Ty.occurs, hx])]

/-- What a substitution makes of a type tells the images of the type's variables. -/
theorem image_eq_of_apply_eq {r s : Subst} {t : Ty} (h : r.apply t = s.apply t) {x : Ident}
    (hx : t.occurs x = true) : r.image x = s.image x := by
  induction t with
  | nat | bool => cases hx
  | var y =>
    rw [Ty.occurs, decide_eq_true_eq] at hx
    exact hx ▸ h
  | arrow a b iha ihb =>
    rw [apply, apply, Ty.arrow.injEq] at h
    rw [Ty.occurs, Bool.or_eq_true] at hx
    exact hx.elim (iha h.1) (ihb h.2)
  | prod a b iha ihb =>
    rw [apply, apply, Ty.prod.injEq] at h
    rw [Ty.occurs, Bool.or_eq_true] at hx
    exact hx.elim (iha h.1) (ihb h.2)

@[simp] theorem apply_empty (t : Ty) : (∅ : Subst).apply t = t := by
  induction t with
  | nat | bool => rfl
  | var x => exact image_empty x
  | arrow a b iha ihb | prod a b iha ihb => rw [apply, iha, ihb]

/-- A substitution leaves a type alone whose variables it does not bind. -/
theorem apply_of_unbound {s : Subst} {t : Ty} (h : ∀ x, t.occurs x = true → s.get? x = none) :
    s.apply t = t := by
  calc s.apply t = (∅ : Subst).apply t :=
        apply_congr fun x hx => by rw [image_of_unbound (h x hx), image_empty]
    _ = t := apply_empty t

theorem apply_compose (r s : Subst) (t : Ty) :
    (r.compose s).apply t = s.apply (r.apply t) := by
  induction t with
  | nat | bool => rfl
  | var x => exact image_compose r s x
  | arrow a b iha ihb | prod a b iha ihb => simp only [apply, iha, ihb]

@[simp] theorem compose_empty (s : Subst) : s.compose ∅ = s := by
  ext1 x
  rw [get?_compose, get?_empty]
  cases s.get? x <;> simp

/-- If `s` sends `x` where it sends `a`, then `x := a` before `s` is no more than `s`. -/
theorem apply_subst_absorb {s : Subst} {x : Ident} {a : Ty} (h : s.image x = s.apply a)
    (t : Ty) : s.apply (t.subst x a) = s.apply t := by
  induction t with
  | nat | bool => rfl
  | var y =>
    by_cases hy : y = x
    · rw [Ty.subst, if_pos hy, ← h, hy]
      rfl
    · rw [Ty.subst, if_neg hy]
  | arrow b c ihb ihc | prod b c ihb ihc => simp only [Ty.subst, apply, ihb, ihc]

/-- The variables of a type under a substitution are those of its variables' images. -/
theorem occurs_apply (s : Subst) (t : Ty) (y : Ident) :
    (s.apply t).occurs y = true ↔ ∃ x, t.occurs x = true ∧ (s.image x).occurs y = true := by
  induction t with
  | nat | bool => simp [apply, Ty.occurs]
  | var x => simp [apply, Ty.occurs]
  | arrow a b iha ihb | prod a b iha ihb =>
    simp only [apply, Ty.occurs, Bool.or_eq_true, iha, ihb]
    constructor
    · rintro (⟨x, hx, hy⟩ | ⟨x, hx, hy⟩)
      · exact ⟨x, .inl hx, hy⟩
      · exact ⟨x, .inr hx, hy⟩
    · rintro ⟨x, hx | hx, hy⟩
      · exact .inl ⟨x, hx, hy⟩
      · exact .inr ⟨x, hx, hy⟩

/-- A variable's image is no larger than the image of a type that the variable is in. -/
theorem size_image_le {t : Ty} {x : Ident} (s : Subst) (h : t.occurs x = true) :
    (s.image x).size ≤ (s.apply t).size := by
  induction t with
  | nat | bool => cases h
  | var y =>
    rw [Ty.occurs, decide_eq_true_eq] at h
    rw [h]
    exact Nat.le_refl _
  | arrow a b iha ihb | prod a b iha ihb =>
    rw [Ty.occurs, Bool.or_eq_true] at h
    simp only [apply, Ty.size]
    rcases h with h | h
    · have := iha h
      omega
    · have := ihb h
      omega

/-- No substitution makes a variable equal to a type that properly contains it. -/
theorem image_ne_apply_of_occurs {t : Ty} {x : Ident} (s : Subst) (h : t.occurs x = true)
    (hne : t ≠ .var x) : s.image x ≠ s.apply t := by
  intro heq
  have hsize : (s.image x).size = (s.apply t).size := by rw [heq]
  cases t with
  | nat | bool => cases h
  | var y =>
    rw [Ty.occurs, decide_eq_true_eq] at h
    exact hne (h ▸ rfl)
  | arrow a b | prod a b =>
    rw [Ty.occurs, Bool.or_eq_true] at h
    simp only [apply, Ty.size] at hsize
    rcases h with h | h
    · have := size_image_le s h
      omega
    · have := size_image_le s h
      omega

/-! ## Mentioned variables -/

/-- Is `x` bound by `s`, or a variable of one of its images? -/
def Mentions (s : Subst) (x : Ident) : Prop :=
  s.get? x ≠ none ∨ ∃ y t, s.get? y = some t ∧ t.occurs x = true

theorem not_mentions_empty (x : Ident) : ¬ (∅ : Subst).Mentions x := by
  rintro (h | ⟨y, t, h, -⟩)
  · exact h (get?_empty x)
  · rw [get?_empty] at h
    cases h

/-- A variable of an image is the variable itself, unbound, or one that the substitution
mentions. -/
theorem occurs_image_cases {s : Subst} {x y : Ident} (h : (s.image x).occurs y = true) :
    (y = x ∧ s.get? x = none) ∨ s.Mentions y := by
  cases hx : s.get? x with
  | none =>
    rw [image_of_unbound hx, Ty.occurs, decide_eq_true_eq] at h
    exact .inl ⟨h.symm, rfl⟩
  | some t =>
    rw [image_of_get? hx] at h
    exact .inr (.inr ⟨x, t, hx, h⟩)

/-- A variable of a type under a substitution was there before, unbound, or is one that the
substitution mentions. -/
theorem occurs_apply_cases {s : Subst} {t : Ty} {y : Ident} (h : (s.apply t).occurs y = true) :
    (t.occurs y = true ∧ s.get? y = none) ∨ s.Mentions y := by
  obtain ⟨x, hx, hy⟩ := (occurs_apply s t y).mp h
  rcases occurs_image_cases hy with ⟨rfl, hnone⟩ | hm
  · exact .inl ⟨hx, hnone⟩
  · exact .inr hm

theorem mentions_compose {r s : Subst} {x : Ident} (h : (r.compose s).Mentions x) :
    r.Mentions x ∨ s.Mentions x := by
  rcases h with h | ⟨y, t, hy, ht⟩
  · rw [get?_compose, ne_eq, Option.or_eq_none_iff, Option.map_eq_none_iff] at h
    by_cases hr : r.get? x = none
    · exact .inr (.inl fun hs => h ⟨hr, hs⟩)
    · exact .inl (.inl hr)
  · rw [get?_compose] at hy
    cases hr : r.get? y with
    | none =>
      rw [hr] at hy
      exact .inr (.inr ⟨y, t, by simpa using hy, ht⟩)
    | some u =>
      rw [hr] at hy
      obtain rfl : s.apply u = t := by simpa using hy
      rcases occurs_apply_cases ht with ⟨hu, -⟩ | hs
      · exact .inl (.inr ⟨y, u, hr, hu⟩)
      · exact .inr hs

theorem get?_compose_eq_none {r s : Subst} {x : Ident} :
    (r.compose s).get? x = none ↔ r.get? x = none ∧ s.get? x = none := by
  rw [get?_compose, Option.or_eq_none_iff, Option.map_eq_none_iff]

/-! ## Resolved substitutions -/

/-- No bound variable is left in an image. -/
def Resolved (s : Subst) : Prop :=
  ∀ y t x, s.get? y = some t → t.occurs x = true → s.get? x = none

theorem resolved_empty : (∅ : Subst).Resolved := by
  intro y t x h
  rw [get?_empty] at h
  cases h

/-- What a resolved substitution was applied to holds none of its bound variables. -/
theorem Resolved.unbound_of_occurs_apply {s : Subst} (hs : s.Resolved) {t : Ty} {x : Ident}
    (h : (s.apply t).occurs x = true) : s.get? x = none := by
  obtain ⟨y, -, hx⟩ := (occurs_apply s t x).mp h
  cases hy : s.get? y with
  | none =>
    rw [image_of_unbound hy, Ty.occurs, decide_eq_true_eq] at hx
    exact hx ▸ hy
  | some u =>
    rw [image_of_get? hy] at hx
    exact hs y u x hy hx

/-- A resolved substitution does all its work at once. -/
theorem Resolved.apply_apply {s : Subst} (hs : s.Resolved) (t : Ty) :
    s.apply (s.apply t) = s.apply t :=
  apply_of_unbound fun _ hx => hs.unbound_of_occurs_apply hx

/-- Resolved substitutions compose if the second keeps away from the bound variables of the
first. -/
theorem Resolved.compose {r s : Subst} (hr : r.Resolved) (hs : s.Resolved)
    (hsep : ∀ x, s.Mentions x → r.get? x = none) : (r.compose s).Resolved := by
  intro y t x hy hx
  rw [get?_compose] at hy
  rw [get?_compose_eq_none]
  cases hry : r.get? y with
  | none =>
    rw [hry] at hy
    have hsy : s.get? y = some t := by simpa using hy
    exact ⟨hsep x (.inr ⟨y, t, hsy, hx⟩), hs y t x hsy hx⟩
  | some u =>
    rw [hry] at hy
    obtain rfl : s.apply u = t := by simpa using hy
    refine ⟨?_, hs.unbound_of_occurs_apply hx⟩
    rcases occurs_apply_cases hx with ⟨hu, -⟩ | hm
    · exact hr y u x hry hu
    · exact hsep x hm

end Subst

end SystemT
