import SystemT.Proofs.Term.Indices
import SystemT.Term.Closed

/-!
# Closed terms under substitution

What an operation on indices makes of a closed term is closed if it is at the indices, at whatever
depth (`Descends.closedAt`), and the term is left alone if its indices are (`Rebuilds.eq_self`).
Shifting and substitution leave alone what is closed. So closed terms may be put for the indices of
several binders in any order (`subst_subst_of_closed`), which is what relates the body of a function
to the function under a closing substitution (`instantiate`).
-/

namespace SystemT

namespace Term

/-! ## Depths -/

theorem closedAt_mono {t : Term} {m n : Nat} (h : t.closedAt m = true) (hle : m ≤ n) :
    t.closedAt n = true := by
  rw [closedAt_iff_scope_le] at h ⊢
  exact Nat.le_trans h hle

theorem closedAt_of_closed {t : Term} (h : t.closed = true) (n : Nat) : t.closedAt n = true :=
  closedAt_mono h (Nat.zero_le n)

theorem closed_app {f a : Term} :
    (app f a).closed = true ↔ f.closed = true ∧ a.closed = true := by
  rw [closed, closedAt, Bool.and_eq_true]
  exact Iff.rfl

theorem closed_pair {a b : Term} :
    (pair a b).closed = true ↔ a.closed = true ∧ b.closed = true := by
  rw [closed, closedAt, Bool.and_eq_true]
  exact Iff.rfl

theorem closed_cond {c t e : Term} :
    (cond c t e).closed = true ↔ c.closed = true ∧ t.closed = true ∧ e.closed = true := by
  rw [closed, closedAt, Bool.and_eq_true, Bool.and_eq_true, and_assoc]
  exact Iff.rfl

theorem closed_natRec {b s n : Term} :
    (natRec b s n).closed = true ↔ b.closed = true ∧ s.closed = true ∧ n.closed = true := by
  rw [closed, closedAt, Bool.and_eq_true, Bool.and_eq_true, and_assoc]
  exact Iff.rfl

/-- No index escapes from a term exactly if it is closed. -/
theorem firstEscaping?_eq_none_iff (t : Term) (depth : Nat) :
    t.firstEscaping? depth = none ↔ t.closedAt depth = true := by
  induction t generalizing depth with
  | fvar | tt | ff | zero => simp [firstEscaping?, closedAt]
  | bvar i => simp [firstEscaping?, closedAt]
  | lam b ih => exact ih (depth + 1)
  | fst p ih | snd p ih | succ p ih => exact ih depth
  | app a b iha ihb | pair a b iha ihb => simp [firstEscaping?, closedAt, iha, ihb]
  | cond a b c iha ihb ihc | natRec a b c iha ihb ihc =>
    simp [firstEscaping?, closedAt, iha, ihb, ihc]

theorem isClosedValue_iff (t : Term) :
    t.isClosedValue = true ↔ t.isValue = true ∧ t.closed = true := by
  rw [closed_iff_scope_eq_zero, isClosedValue, Bool.and_eq_true, beq_iff_eq]

/-! ## Operations on indices -/

section

variable {ε : Type} {f : ε → Term → Term} {u : ε → ε}

/-- An operation takes terms closed at `n` to terms closed at `m` if it does so with indices and
constants, whenever `R` relates what it carries along to `n` and `m`, and `R` is kept below
binders. -/
theorem Descends.closedAt (hf : Descends f u) {R : ε → Nat → Nat → Prop}
    (hunder : ∀ e n m, R e n m → R (u e) (n + 1) (m + 1))
    (hindex : ∀ e n m, R e n m → ∀ i < n, (f e (bvar i)).closedAt m = true)
    (hconst : ∀ e n m, R e n m → ∀ x, (f e (fvar x)).closedAt m = true) {e : ε} {n m : Nat}
    (h : R e n m) {t : Term} (ht : t.closedAt n = true) : (f e t).closedAt m = true := by
  induction t generalizing e n m with
  | bvar i => exact hindex e n m h i (by simpa [Term.closedAt] using ht)
  | fvar x => exact hconst e n m h x
  | tt => rw [hf.tt]; rfl
  | ff => rw [hf.ff]; rfl
  | zero => rw [hf.zero]; rfl
  | lam b ih =>
    rw [hf.lam]
    exact ih (hunder e n m h) ht
  | fst p ih => rw [hf.fst]; exact ih h ht
  | snd p ih => rw [hf.snd]; exact ih h ht
  | succ p ih => rw [hf.succ]; exact ih h ht
  | app a b iha ihb | pair a b iha ihb =>
    simp only [Term.closedAt, Bool.and_eq_true] at ht
    simp only [hf.app, hf.pair, Term.closedAt, iha h ht.1, ihb h ht.2, Bool.and_true]
  | cond a b c iha ihb ihc | natRec a b c iha ihb ihc =>
    simp only [Term.closedAt, Bool.and_eq_true] at ht
    simp only [hf.cond, hf.natRec, Term.closedAt, iha h ht.1.1, ihb h ht.1.2, ihc h ht.2,
      Bool.and_true]

/-- An operation leaves terms closed at `n` alone if it does so with the indices below `n`, whenever
`R` relates what it carries along to `n`, and `R` is kept below binders. -/
theorem Rebuilds.eq_self (hf : Rebuilds f u) {R : ε → Nat → Prop}
    (hunder : ∀ e n, R e n → R (u e) (n + 1))
    (hindex : ∀ e n, R e n → ∀ i < n, f e (bvar i) = bvar i) {e : ε} {n : Nat} (h : R e n)
    {t : Term} (ht : t.closedAt n = true) : f e t = t := by
  induction t generalizing e n with
  | bvar i => exact hindex e n h i (by simpa [Term.closedAt] using ht)
  | fvar x => exact hf.fvar e x
  | tt => exact hf.tt e
  | ff => exact hf.ff e
  | zero => exact hf.zero e
  | lam b ih => rw [hf.lam, ih (hunder e n h) ht]
  | fst p ih => rw [hf.fst, ih h ht]
  | snd p ih => rw [hf.snd, ih h ht]
  | succ p ih => rw [hf.succ, ih h ht]
  | app a b iha ihb | pair a b iha ihb =>
    simp only [Term.closedAt, Bool.and_eq_true] at ht
    simp only [hf.app, hf.pair, iha h ht.1, ihb h ht.2]
  | cond a b c iha ihb ihc | natRec a b c iha ihb ihc =>
    simp only [Term.closedAt, Bool.and_eq_true] at ht
    simp only [hf.cond, hf.natRec, iha h ht.1.1, ihb h ht.1.2, ihc h ht.2]

end

theorem shiftBy_of_closedAt {t : Term} {n c : Nat} (h : t.closedAt n = true) (hle : n ≤ c)
    (d : Nat) : t.shiftBy c d = t := by
  refine (rebuilds_shiftBy d).eq_self (R := fun c n => n ≤ c)
    (fun _ _ hle => Nat.succ_le_succ hle) (fun c n hle i hi => ?_) hle h
  exact shiftBy_bvar_of_lt (Nat.lt_of_lt_of_le hi hle) d

theorem shift_of_closed {t : Term} (h : t.closed = true) (n : Nat) : t.shift n = t :=
  shiftBy_of_closedAt h (Nat.zero_le n) 1

theorem subst_of_closedAt {t : Term} {n k : Nat} (h : t.closedAt n = true) (hle : n ≤ k)
    (a : Term) : t.subst k a = t := by
  refine rebuilds_subst.eq_self (R := fun e n => n ≤ e.1) (fun _ _ hle => Nat.succ_le_succ hle)
    (fun e n hle i hi => ?_) (e := (k, a)) hle h
  exact subst_bvar_of_lt (Nat.lt_of_lt_of_le hi hle) e.2

theorem subst_of_closed {t : Term} (h : t.closed = true) (k : Nat) (a : Term) :
    t.subst k a = t :=
  subst_of_closedAt h (Nat.zero_le k) a

/-- A term needs as many binders more around it as its escaping indices were raised by. -/
theorem closedAt_shiftBy {c n : Nat} (h : c ≤ n) (t : Term) (d : Nat) :
    (t.shiftBy c d).closedAt (n + d) = t.closedAt n := by
  induction t generalizing c n with
  | fvar | tt | ff | zero => rfl
  | bvar i =>
    rcases Nat.lt_or_ge i c with hi | hi
    · rw [shiftBy_bvar_of_lt hi, closedAt, closedAt, decide_eq_decide]
      omega
    · rw [shiftBy_bvar_of_ge hi, closedAt, closedAt, decide_eq_decide]
      omega
  | lam b ih =>
    rw [shiftBy_lam, closedAt, closedAt, Nat.add_right_comm, ih (Nat.succ_le_succ h)]
  | fst p ih | snd p ih | succ p ih =>
    simp only [shiftBy_fst, shiftBy_snd, shiftBy_succ, closedAt, ih h]
  | app a b iha ihb | pair a b iha ihb =>
    simp only [shiftBy_app, shiftBy_pair, closedAt, iha h, ihb h]
  | cond a b e iha ihb ihe | natRec a b e iha ihb ihe =>
    simp only [shiftBy_cond, shiftBy_natRec, closedAt, iha h, ihb h, ihe h]

theorem closedAt_subst {t a : Term} {k n : Nat} (ht : t.closedAt (n + 1) = true)
    (ha : a.closedAt n = true) (hk : k ≤ n) : (t.subst k a).closedAt n = true := by
  refine rebuilds_subst.toDescends.closedAt
    (R := fun e n m => n = m + 1 ∧ e.2.closedAt m = true ∧ e.1 ≤ m) ?_ ?_ (fun _ _ _ _ _ => rfl)
    (e := (k, a)) ⟨rfl, ha, hk⟩ ht
  · rintro ⟨k, a⟩ _ m ⟨rfl, ha, hk⟩
    exact ⟨rfl, (closedAt_shiftBy (Nat.zero_le m) a 1).trans ha, Nat.succ_le_succ hk⟩
  · rintro ⟨k, a⟩ _ m ⟨rfl, ha, hk⟩ i hi
    dsimp only at ha hk ⊢
    rcases Nat.lt_trichotomy i k with hik | rfl | hik
    · rw [subst_bvar_of_lt hik]
      exact decide_eq_true (by omega)
    · rwa [subst_bvar_self]
    · rw [subst_bvar_of_gt hik]
      exact decide_eq_true (by omega)

/-! ## Putting in closed terms -/

section

variable {a v : Term}

/-- Two neighbouring binders may be removed in either order. -/
theorem subst_subst_of_closed (t : Term) (k : Nat) (ha : a.closed = true) (hv : v.closed = true) :
    (t.subst (k + 1) v).subst k a = (t.subst k a).subst k v := by
  have h := subst_subst (Nat.le_refl k) t a v
  rw [shift_of_closed hv, subst_of_closed ha] at h
  exact h.symm

end

/-! ## Closing substitutions -/

/-- Put closed terms for the indices from `k` on, the first of them for the index `k`. -/
def instantiate (t : Term) (k : Nat) (vs : List Term) : Term :=
  vs.foldl (fun t v => t.subst k v) t

section

variable {vs : List Term}

theorem instantiate_cons (t : Term) (k : Nat) (v : Term) :
    t.instantiate k (v :: vs) = (t.subst k v).instantiate k vs := rfl

@[simp] theorem instantiate_app (f a : Term) (k : Nat) :
    (app f a).instantiate k vs = app (f.instantiate k vs) (a.instantiate k vs) := by
  induction vs generalizing f a with
  | nil => rfl
  | cons v vs ih => simp only [instantiate_cons, subst_app, ih]

@[simp] theorem instantiate_pair (a b : Term) (k : Nat) :
    (pair a b).instantiate k vs = pair (a.instantiate k vs) (b.instantiate k vs) := by
  induction vs generalizing a b with
  | nil => rfl
  | cons v vs ih => simp only [instantiate_cons, subst_pair, ih]

@[simp] theorem instantiate_fst (p : Term) (k : Nat) :
    (fst p).instantiate k vs = fst (p.instantiate k vs) := by
  induction vs generalizing p with
  | nil => rfl
  | cons v vs ih => simp only [instantiate_cons, subst_fst, ih]

@[simp] theorem instantiate_snd (p : Term) (k : Nat) :
    (snd p).instantiate k vs = snd (p.instantiate k vs) := by
  induction vs generalizing p with
  | nil => rfl
  | cons v vs ih => simp only [instantiate_cons, subst_snd, ih]

@[simp] theorem instantiate_cond (c t e : Term) (k : Nat) :
    (cond c t e).instantiate k vs =
      cond (c.instantiate k vs) (t.instantiate k vs) (e.instantiate k vs) := by
  induction vs generalizing c t e with
  | nil => rfl
  | cons v vs ih => simp only [instantiate_cons, subst_cond, ih]

@[simp] theorem instantiate_succ (t : Term) (k : Nat) :
    (succ t).instantiate k vs = succ (t.instantiate k vs) := by
  induction vs generalizing t with
  | nil => rfl
  | cons v vs ih => simp only [instantiate_cons, subst_succ, ih]

@[simp] theorem instantiate_natRec (b s n : Term) (k : Nat) :
    (natRec b s n).instantiate k vs =
      natRec (b.instantiate k vs) (s.instantiate k vs) (n.instantiate k vs) := by
  induction vs generalizing b s n with
  | nil => rfl
  | cons v vs ih => simp only [instantiate_cons, subst_natRec, ih]

variable (hvs : ∀ v ∈ vs, v.closed = true)

include hvs

theorem instantiate_lam (b : Term) (k : Nat) :
    (lam b).instantiate k vs = lam (b.instantiate (k + 1) vs) := by
  induction vs generalizing b with
  | nil => rfl
  | cons v vs ih =>
    have hv : v.closed = true := hvs v List.mem_cons_self
    rw [instantiate_cons, instantiate_cons, subst_lam, shift_of_closed hv]
    exact ih (fun u hu => hvs u (List.mem_cons_of_mem v hu)) _

theorem instantiate_of_closed {t : Term} (ht : t.closed = true) (k : Nat) :
    t.instantiate k vs = t := by
  induction vs with
  | nil => rfl
  | cons v vs ih =>
    rw [instantiate_cons, subst_of_closed ht]
    exact ih fun u hu => hvs u (List.mem_cons_of_mem v hu)

/-- Each term is put for its own index. -/
theorem instantiate_bvar {i : Nat} {u : Term} (hi : vs[i]? = some u) :
    (bvar i).instantiate 0 vs = u := by
  induction vs generalizing i with
  | nil => cases hi
  | cons v vs ih =>
    have hrest : ∀ u ∈ vs, u.closed = true := fun u hu => hvs u (List.mem_cons_of_mem v hu)
    rw [instantiate_cons]
    cases i with
    | zero =>
      obtain rfl : v = u := by simpa using hi
      exact instantiate_of_closed hrest (hvs v List.mem_cons_self) 0
    | succ i => exact ih hrest hi

/-- A binder may be opened before or after the indices past it are replaced. -/
theorem subst_instantiate {a : Term} (t : Term) (k : Nat) (ha : a.closed = true) :
    (t.instantiate (k + 1) vs).subst k a = t.instantiate k (a :: vs) := by
  induction vs generalizing t with
  | nil => rfl
  | cons v vs ih =>
    have hv : v.closed = true := hvs v List.mem_cons_self
    -- the binder that `a` opens changes places with the one that `v` is put for
    rw [instantiate_cons, ih (fun u hu => hvs u (List.mem_cons_of_mem v hu)), instantiate_cons,
      instantiate_cons, instantiate_cons, subst_subst_of_closed t k ha hv]

theorem closedAt_instantiate {t : Term} {k n : Nat} (ht : t.closedAt (n + vs.length) = true)
    (hk : k ≤ n) : (t.instantiate k vs).closedAt n = true := by
  induction vs generalizing t with
  | nil => exact ht
  | cons v vs ih =>
    rw [instantiate_cons]
    refine ih (fun u hu => hvs u (List.mem_cons_of_mem v hu)) ?_
    exact closedAt_subst ht (closedAt_of_closed (hvs v List.mem_cons_self) _) (by omega)

end

end Term

end SystemT
