import SystemT.Proofs.Term.Closed
import SystemT.Term.Parallel

/-!
# Expanding constants

Definitions are closed, so that a map of definitions is the same below a binder
(`ConstSubst.Closed.lift_eq`), and expanding a term needs no renumbering. What a term becomes
depends on nothing but what its constants become (`substConsts_congr`).

The lifting that is done nevertheless walks through the definitions, below as many binders as these
nest; so many that they could not be counted would be the only reason for it to fail
(`substConsts?_cases`).
-/

namespace SystemT

namespace ConstSubst

/-! ## Entries -/

@[ext] theorem ext {r s : ConstSubst} (h : ∀ x, r.get? x = s.get? x) : r = s := by
  cases r; cases s
  exact congrArg ConstSubst.mk (Std.ExtTreeMap.ext_getElem? h)

@[simp] theorem get?_empty (x : Ident) : (∅ : ConstSubst).get? x = none :=
  Std.ExtTreeMap.getElem?_empty

@[simp] theorem get?_insert (s : ConstSubst) (x y : Ident) (d : Term) :
    (s.insert x d).get? y = if x = y then some d else s.get? y := by
  simp [get?, insert, Std.ExtTreeMap.getElem?_insert]

@[simp] theorem get?_erase (s : ConstSubst) (x y : Ident) :
    (s.erase x).get? y = if x = y then none else s.get? y := by
  simp [get?, erase, Std.ExtTreeMap.getElem?_erase]

theorem get?_lift (s : ConstSubst) (x : Ident) :
    s.lift.get? x = (s.get? x).map (·.shift 0) := by
  simp [get?, lift]

/-- All replacements are closed. -/
def Closed (s : ConstSubst) : Prop := ∀ x d, s.get? x = some d → d.closed = true

theorem closed_empty : (∅ : ConstSubst).Closed := by
  intro x d hx
  rw [get?_empty] at hx
  cases hx

/-- What holds of a new replacement and of the others holds of all. -/
theorem forall_get?_insert {s : ConstSubst} {P : Term → Prop} {x : Ident} {d : Term} (hd : P d)
    (h : ∀ y e, s.get? y = some e → P e) : ∀ y e, (s.insert x d).get? y = some e → P e := by
  intro y e hy
  rw [get?_insert] at hy
  by_cases hxy : x = y
  · rw [if_pos hxy] at hy
    cases hy
    exact hd
  · rw [if_neg hxy] at hy
    exact h y e hy

theorem forall_get?_erase {s : ConstSubst} {P : Term → Prop} {x : Ident}
    (h : ∀ y e, s.get? y = some e → P e) : ∀ y e, (s.erase x).get? y = some e → P e := by
  intro y e hy
  rw [get?_erase] at hy
  by_cases hxy : x = y
  · rw [if_pos hxy] at hy
    cases hy
  · rw [if_neg hxy] at hy
    exact h y e hy

theorem Closed.insert {s : ConstSubst} (hs : s.Closed) (x : Ident) {d : Term}
    (hd : d.closed = true) : (s.insert x d).Closed :=
  forall_get?_insert (P := fun d => d.closed = true) hd hs

theorem Closed.erase {s : ConstSubst} (hs : s.Closed) (x : Ident) : (s.erase x).Closed :=
  forall_get?_erase (P := fun d => d.closed = true) hs

/-- A binder does not change closed replacements. -/
theorem Closed.lift_eq {s : ConstSubst} (hs : s.Closed) : s.lift = s := by
  ext1 x
  rw [get?_lift]
  cases hx : s.get? x with
  | none => rfl
  | some d => exact congrArg some (Term.shift_of_closed (hs x d hx) 0)

/-! ## Images -/

/-- What becomes of the constant `x`. -/
def image (s : ConstSubst) (x : Ident) : Term := (s.get? x).getD (.fvar x)

@[simp] theorem image_empty (x : Ident) : (∅ : ConstSubst).image x = .fvar x := by
  rw [image, get?_empty]
  rfl

theorem image_insert (s : ConstSubst) (x y : Ident) (d : Term) :
    (s.insert x d).image y = if x = y then d else s.image y := by
  rw [image, get?_insert]
  by_cases hxy : x = y
  · rw [if_pos hxy, if_pos hxy]
    rfl
  · rw [if_neg hxy, if_neg hxy, image]

theorem image_erase (s : ConstSubst) (x y : Ident) :
    (s.erase x).image y = if x = y then .fvar y else s.image y := by
  rw [image, get?_erase]
  by_cases hxy : x = y
  · rw [if_pos hxy, if_pos hxy]
    rfl
  · rw [if_neg hxy, if_neg hxy, image]

theorem Closed.image {s : ConstSubst} (hs : s.Closed) (x : Ident) : (s.image x).closed = true := by
  unfold ConstSubst.image
  cases hx : s.get? x with
  | none => rfl
  | some d => exact hs x d hx

end ConstSubst

namespace Term

/-! ## Constants of a term -/

/-- The constant `x` occurs in the term. -/
def HasConst (x : Ident) : Term → Prop
  | fvar y => y = x
  | bvar _ => False
  | lam b => b.HasConst x
  | app f a => f.HasConst x ∨ a.HasConst x
  | pair a b => a.HasConst x ∨ b.HasConst x
  | fst p => p.HasConst x
  | snd p => p.HasConst x
  | tt => False
  | ff => False
  | cond c t e => c.HasConst x ∨ t.HasConst x ∨ e.HasConst x
  | zero => False
  | succ t => t.HasConst x
  | natRec b s n => b.HasConst x ∨ s.HasConst x ∨ n.HasConst x

section

variable {r s : ConstSubst}

/-- Only what becomes of the constants of a term matters. -/
theorem substConsts_congr (hr : r.Closed) (hs : s.Closed) {t : Term}
    (h : ∀ x, t.HasConst x → r.image x = s.image x) : t.substConsts r = t.substConsts s := by
  induction t with
  | fvar x => exact h x rfl
  | bvar | tt | ff | zero => rfl
  | lam b ih => rw [substConsts_lam, substConsts_lam, hr.lift_eq, hs.lift_eq, ih h]
  | fst p ih => rw [substConsts_fst, substConsts_fst, ih h]
  | snd p ih => rw [substConsts_snd, substConsts_snd, ih h]
  | succ p ih => rw [substConsts_succ, substConsts_succ, ih h]
  | app a b iha ihb | pair a b iha ihb =>
    have ha := iha fun x hx => h x (.inl hx)
    have hb := ihb fun x hx => h x (.inr hx)
    simp only [substConsts_app, substConsts_pair, ha, hb]
  | cond a b c iha ihb ihc | natRec a b c iha ihb ihc =>
    have ha := iha fun x hx => h x (.inl hx)
    have hb := ihb fun x hx => h x (.inr (.inl hx))
    have hc := ihc fun x hx => h x (.inr (.inr hx))
    simp only [substConsts_cond, substConsts_natRec, ha, hb, hc]

theorem substConsts_empty (t : Term) : t.substConsts ∅ = t := by
  induction t with
  | fvar x => exact ConstSubst.image_empty x
  | bvar | tt | ff | zero => rfl
  | lam b ih => rw [substConsts_lam, ConstSubst.closed_empty.lift_eq, ih]
  | fst p ih => rw [substConsts_fst, ih]
  | snd p ih => rw [substConsts_snd, ih]
  | succ p ih => rw [substConsts_succ, ih]
  | app a b iha ihb | pair a b iha ihb => simp only [substConsts_app, substConsts_pair, iha, ihb]
  | cond a b c iha ihb ihc | natRec a b c iha ihb ihc =>
    simp only [substConsts_cond, substConsts_natRec, iha, ihb, ihc]

theorem closedAt_substConsts (hs : s.Closed) {t : Term} {n : Nat} (ht : t.closedAt n = true) :
    (t.substConsts s).closedAt n = true := by
  refine (descends_run Traversal.replacingConsts (fun _ _ => rfl) fun _ _ => rfl).closedAt
    (R := fun r n m => r = s ∧ n = m) ?_ ?_ ?_ ⟨rfl, rfl⟩ ht
  · rintro r n _ ⟨rfl, rfl⟩
    exact ⟨hs.lift_eq, rfl⟩
  · rintro r n _ ⟨-, rfl⟩ i hi
    exact decide_eq_true hi
  · rintro r n _ ⟨rfl, -⟩ x
    exact closedAt_of_closed (hs.image x) _

/-- A constant is there because it stands in what another one became. -/
theorem hasConst_substConsts (hs : s.Closed) {t : Term} {y : Ident}
    (h : (t.substConsts s).HasConst y) : ∃ x, t.HasConst x ∧ (s.image x).HasConst y := by
  induction t with
  | fvar x => exact ⟨x, rfl, h⟩
  | bvar | tt | ff | zero => exact absurd h id
  | lam b ih =>
    rw [substConsts_lam, hs.lift_eq] at h
    exact ih h
  | fst p ih | snd p ih => exact ih h
  | succ p ih =>
    rw [substConsts_succ] at h
    exact ih h
  | app a b iha ihb | pair a b iha ihb =>
    rcases h with h | h
    · obtain ⟨x, hx, hy⟩ := iha h
      exact ⟨x, .inl hx, hy⟩
    · obtain ⟨x, hx, hy⟩ := ihb h
      exact ⟨x, .inr hx, hy⟩
  | cond a b c iha ihb ihc | natRec a b c iha ihb ihc =>
    rcases h with h | h | h
    · obtain ⟨x, hx, hy⟩ := iha h
      exact ⟨x, .inl hx, hy⟩
    · obtain ⟨x, hx, hy⟩ := ihb h
      exact ⟨x, .inr (.inl hx), hy⟩
    · obtain ⟨x, hx, hy⟩ := ihc h
      exact ⟨x, .inr (.inr hx), hy⟩

end

end Term

namespace ConstSubst

/-! ## Composition -/

/-- First `r` and then `s`: a constant that only `s` replaces keeps its replacement. -/
def compose (r s : ConstSubst) : ConstSubst :=
  ⟨s.entries ∪ r.entries.map fun _ d => d.substConsts s⟩

theorem get?_compose (r s : ConstSubst) (x : Ident) :
    (r.compose s).get? x = ((r.get? x).map (·.substConsts s)).or (s.get? x) := by
  simp [get?, compose, Std.ExtTreeMap.getElem?_union]

variable {r s : ConstSubst}

theorem Closed.compose (hr : r.Closed) (hs : s.Closed) : (r.compose s).Closed := by
  intro x d hx
  rw [get?_compose] at hx
  cases hrx : r.get? x with
  | none =>
    rw [hrx] at hx
    exact hs x d hx
  | some e =>
    rw [hrx] at hx
    cases hx
    exact Term.closedAt_substConsts hs (hr x e hrx)

end ConstSubst

namespace Term

/-! ## Bounds -/

/-- How many binders lie inside one another at most. -/
def nesting : Term → Nat
  | fvar _ => 0
  | bvar _ => 0
  | lam b => b.nesting + 1
  | app f a => max f.nesting a.nesting
  | pair a b => max a.nesting b.nesting
  | fst p => p.nesting
  | snd p => p.nesting
  | tt => 0
  | ff => 0
  | cond c t e => max c.nesting (max t.nesting e.nesting)
  | zero => 0
  | succ t => t.nesting
  | natRec b s n => max b.nesting (max s.nesting n.nesting)

/-- Expanding a term nests the binders of definitions within those of the term. -/
theorem nesting_substConsts_le {s : ConstSubst} (hs : s.Closed) {n : Nat}
    (hn : ∀ x d, s.get? x = some d → d.nesting ≤ n) (t : Term) :
    (t.substConsts s).nesting ≤ t.nesting + n := by
  induction t with
  | fvar x =>
    show (s.image x).nesting ≤ 0 + n
    rw [Nat.zero_add, ConstSubst.image]
    cases hx : s.get? x with
    | none => exact Nat.zero_le n
    | some d => exact hn x d hx
  | bvar | tt | ff | zero => exact Nat.zero_le _
  | lam b ih =>
    rw [substConsts_lam, hs.lift_eq, nesting, nesting]
    omega
  | fst p ih | snd p ih | succ p ih =>
    simp only [substConsts_fst, substConsts_snd, substConsts_succ, nesting]
    exact ih
  | app a b iha ihb | pair a b iha ihb =>
    simp only [substConsts_app, substConsts_pair, nesting]
    omega
  | cond a b c iha ihb ihc | natRec a b c iha ihb ihc =>
    simp only [substConsts_cond, substConsts_natRec, nesting]
    omega

/-- Shifting what is closed only counts its binders. -/
theorem shiftByFits_of_closedAt {t : Term} {c : Nat} (d : Nat) (ht : t.closedAt c = true)
    (hc : c + t.nesting < indexLimit) : t.shiftByFits c d = true := by
  unfold shiftByFits
  induction t generalizing c with
  | fvar | tt | ff | zero => rfl
  | bvar i =>
    have hi : i < c := by simpa [closedAt] using ht
    simp [Traversal.fits, Traversal.shifting, hi]
  | lam b ih =>
    rw [nesting] at hc
    have hb := ih ht (by omega)
    simp only [Traversal.fits, Bool.and_eq_true, Bool.or_eq_true]
    exact ⟨decide_eq_true (by omega), .inr hb⟩
  | fst p ih | snd p ih | succ p ih => exact ih ht hc
  | app a b iha ihb | pair a b iha ihb =>
    rw [nesting] at hc
    simp only [closedAt, Bool.and_eq_true] at ht
    simp only [Traversal.fits, Bool.and_eq_true, Bool.or_eq_true]
    exact ⟨.inr (@iha c ht.1 (by omega)), .inr (@ihb c ht.2 (by omega))⟩
  | cond a b e iha ihb ihe | natRec a b e iha ihb ihe =>
    rw [nesting] at hc
    simp only [closedAt, Bool.and_eq_true] at ht
    simp only [Traversal.fits, Bool.and_eq_true, Bool.or_eq_true]
    exact ⟨⟨.inr (@iha c ht.1.1 (by omega)), .inr (@ihb c ht.1.2 (by omega))⟩,
      .inr (@ihe c ht.2 (by omega))⟩

theorem fits_of_liftFits {s : ConstSubst} (hs : s.Closed) (hfits : s.liftFits = true) (t : Term) :
    Traversal.replacingConsts.fits s t = true := by
  induction t with
  | fvar | bvar | tt | ff | zero => rfl
  | lam b ih =>
    simp only [Traversal.fits, Bool.and_eq_true, Bool.or_eq_true]
    refine ⟨hfits, .inr ?_⟩
    show Traversal.replacingConsts.fits s.lift b = true
    rw [hs.lift_eq]
    exact ih
  | fst p ih | snd p ih | succ p ih => exact ih
  | app a b iha ihb | pair a b iha ihb =>
    simp only [Traversal.fits, Bool.and_eq_true, Bool.or_eq_true]
    exact ⟨.inr iha, .inr ihb⟩
  | cond a b c iha ihb ihc | natRec a b c iha ihb ihc =>
    simp only [Traversal.fits, Bool.and_eq_true, Bool.or_eq_true]
    exact ⟨⟨.inr iha, .inr ihb⟩, .inr ihc⟩

/-- Definitions are put in unless the binders of one of them cannot be counted. -/
theorem substConsts?_cases {s : ConstSubst} (hs : s.Closed) (t : Term) :
    t.substConsts? s = .ok (t.substConsts s) ∨
      (t.substConsts? s = .error .indexOverflow ∧
        ∃ x d, s.get? x = some d ∧ indexLimit ≤ d.nesting) := by
  by_cases hfits : Traversal.replacingConsts.fits s t = true
  · exact .inl (if_pos hfits)
  · -- if the binders of every definition can be counted, lifting the definitions fits
    refine .inr ⟨if_neg hfits, Classical.byContradiction fun hsmall => hfits ?_⟩
    refine fits_of_liftFits hs ?_ t
    rw [ConstSubst.liftFits, List.all_eq_true]
    rintro ⟨x, d⟩ hmem
    have hx : s.get? x = some d := Std.ExtTreeMap.mem_toList_iff_getElem?_eq_some.mp hmem
    refine shiftByFits_of_closedAt 1 (hs x d hx) ?_
    have hd : ¬ indexLimit ≤ d.nesting := fun hd => hsmall ⟨x, d, hx, hd⟩
    omega

end Term

end SystemT
