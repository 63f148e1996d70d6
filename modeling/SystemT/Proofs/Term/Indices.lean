import SystemT.Term.Subst

/-!
# The calculus of indices

Shifting and substitution rebuild a term from what they make of its leaves (`Descends`), and so do
two such operations one after the other. An equation between them is therefore checked at the
leaves alone, for everything that may be carried along below binders (`Descends.agree`); this is
the only induction on terms. Constants are left alone (`Rebuilds`), so that it is the indices that
remain.

The laws that relate the operations follow one from the other. Shifts commute
(`shiftBy_shiftBy`), which is what shifting a substituted term needs below a binder
(`shiftBy_subst_of_le`, `shiftBy_subst_of_ge`), which is what substituting twice needs
(`subst_subst`). They hold of the operations over all numbers; those over numbers of 64 bits give
the same wherever no addition leaves the bounds (`index_laws`).
-/

namespace SystemT

namespace Term

/-! ## Rebuilding -/

section

variable {ε ε' : Type}

/-- The operation rebuilds a term from what it makes of the leaves, and `under` is what it carries
along below a binder. -/
structure Descends (op : ε → Term → Term) (under : ε → ε) : Prop where
  lam : ∀ e b, op e (lam b) = lam (op (under e) b)
  app : ∀ e f a, op e (app f a) = app (op e f) (op e a)
  pair : ∀ e a b, op e (pair a b) = pair (op e a) (op e b)
  fst : ∀ e p, op e (fst p) = fst (op e p)
  snd : ∀ e p, op e (snd p) = snd (op e p)
  tt : ∀ e, op e tt = tt
  ff : ∀ e, op e ff = ff
  cond : ∀ e c t u, op e (cond c t u) = cond (op e c) (op e t) (op e u)
  zero : ∀ e, op e zero = zero
  succ : ∀ e t, op e (succ t) = succ (op e t)
  natRec : ∀ e b s n, op e (natRec b s n) = natRec (op e b) (op e s) (op e n)

/-- The operation rebuilds a term from what it makes of the indices. -/
structure Rebuilds (op : ε → Term → Term) (under : ε → ε) : Prop extends Descends op under where
  fvar : ∀ e x, op e (fvar x) = fvar x

variable {f : ε → Term → Term} {g : ε' → Term → Term} {u : ε → ε} {v : ε' → ε'}

/-- First `f` and then `g`. -/
theorem Descends.comp (hf : Descends f u) (hg : Descends g v) :
    Descends (fun (e : ε × ε') t => g e.2 (f e.1 t)) (Prod.map u v) where
  lam e b := by rw [hf.lam, hg.lam]; rfl
  app e a b := by rw [hf.app, hg.app]
  pair e a b := by rw [hf.pair, hg.pair]
  fst e p := by rw [hf.fst, hg.fst]
  snd e p := by rw [hf.snd, hg.snd]
  tt e := by rw [hf.tt, hg.tt]
  ff e := by rw [hf.ff, hg.ff]
  cond e a b c := by rw [hf.cond, hg.cond]
  zero e := by rw [hf.zero, hg.zero]
  succ e t := by rw [hf.succ, hg.succ]
  natRec e a b c := by rw [hf.natRec, hg.natRec]

theorem Rebuilds.comp (hf : Rebuilds f u) (hg : Rebuilds g v) :
    Rebuilds (fun (e : ε × ε') t => g e.2 (f e.1 t)) (Prod.map u v) where
  toDescends := hf.toDescends.comp hg.toDescends
  fvar e x := by rw [hf.fvar, hg.fvar]

/-- **Only leaves matter.** Two operations agree on all terms if they agree on indices and
constants, whenever what they carry along is related as `R` says, and `R` is kept below binders. -/
theorem Descends.agree (hf : Descends f u) (hg : Descends g v) {R : ε → ε' → Prop}
    (hunder : ∀ e e', R e e' → R (u e) (v e'))
    (hindex : ∀ e e', R e e' → ∀ i, f e (bvar i) = g e' (bvar i))
    (hconst : ∀ e e', R e e' → ∀ x, f e (fvar x) = g e' (fvar x)) (e : ε) (e' : ε')
    (h : R e e') (t : Term) : f e t = g e' t := by
  induction t generalizing e e' with
  | bvar i => exact hindex e e' h i
  | fvar x => exact hconst e e' h x
  | tt => rw [hf.tt, hg.tt]
  | ff => rw [hf.ff, hg.ff]
  | zero => rw [hf.zero, hg.zero]
  | lam b ih => rw [hf.lam, hg.lam, ih _ _ (hunder e e' h)]
  | fst p ih => rw [hf.fst, hg.fst, ih e e' h]
  | snd p ih => rw [hf.snd, hg.snd, ih e e' h]
  | succ t ih => rw [hf.succ, hg.succ, ih e e' h]
  | app a b iha ihb => rw [hf.app, hg.app, iha e e' h, ihb e e' h]
  | pair a b iha ihb => rw [hf.pair, hg.pair, iha e e' h, ihb e e' h]
  | cond a b c iha ihb ihc => rw [hf.cond, hg.cond, iha e e' h, ihb e e' h, ihc e e' h]
  | natRec a b c iha ihb ihc => rw [hf.natRec, hg.natRec, iha e e' h, ihb e e' h, ihc e e' h]

/-- **Only indices matter**, if both operations leave constants alone. -/
theorem Rebuilds.agree (hf : Rebuilds f u) (hg : Rebuilds g v) {R : ε → ε' → Prop}
    (hunder : ∀ e e', R e e' → R (u e) (v e'))
    (hindex : ∀ e e', R e e' → ∀ i, f e (bvar i) = g e' (bvar i)) (e : ε) (e' : ε') (h : R e e')
    (t : Term) : f e t = g e' t := by
  refine hf.toDescends.agree hg.toDescends hunder hindex (fun e e' _ x => ?_) e e' h t
  rw [hf.fvar, hg.fvar]

/-- A traversal that visits all children, and treats them alike, rebuilds terms. -/
theorem descends_run (m : Traversal ε) (hkeeps : ∀ e t, m.keeps e t = false)
    (hpart : ∀ i e, m.part i e = e) : Descends m.run m.under := by
  have hchild : ∀ e t, m.child e t = m.run e t := by
    intro e t
    rw [Traversal.child, hkeeps]
    rfl
  constructor <;> intros <;> simp only [Traversal.run_lam, Traversal.run_app, Traversal.run_pair,
    Traversal.run_fst, Traversal.run_snd, Traversal.run_tt, Traversal.run_ff, Traversal.run_cond,
    Traversal.run_zero, Traversal.run_succ, Traversal.run_natRec, hchild, hpart]

theorem rebuilds_run (m : Traversal ε) (hkeeps : ∀ e t, m.keeps e t = false)
    (hpart : ∀ i e, m.part i e = e) (hfree : ∀ e x, m.free e x = .fvar x) :
    Rebuilds m.run m.under where
  toDescends := descends_run m hkeeps hpart
  fvar := hfree

theorem rebuilds_self : Rebuilds (fun _ t => t) (id : ε → ε) where
  toDescends := by constructor <;> intros <;> rfl
  fvar _ _ := rfl

end

theorem rebuilds_shiftBy (d : Nat) : Rebuilds (fun c t => t.shiftBy c d) (· + 1) :=
  rebuilds_run (Traversal.shifting d) (fun _ _ => rfl) (fun _ _ => rfl) fun _ _ => rfl

theorem rebuilds_subst :
    Rebuilds (fun (e : Nat × Term) t => t.subst e.1 e.2) fun e => (e.1 + 1, e.2.shift 0) :=
  rebuilds_run Traversal.substituting (fun _ _ => rfl) (fun _ _ => rfl) fun _ _ => rfl

/-! ## Indices -/

theorem subst_bvar_self (k : Nat) (a : Term) : (bvar k).subst k a = a := if_pos rfl

theorem subst_bvar_of_lt {i k : Nat} (h : i < k) (a : Term) : (bvar i).subst k a = bvar i := by
  rw [subst_bvar, Traversal.replaceIndex, if_neg (Nat.ne_of_lt h), if_neg (Nat.lt_asymm h)]

theorem subst_bvar_of_gt {i k : Nat} (h : k < i) (a : Term) :
    (bvar i).subst k a = bvar (i - 1) := by
  rw [subst_bvar, Traversal.replaceIndex, if_neg (Nat.ne_of_gt h), if_pos h]

theorem shiftBy_bvar_of_lt {i c : Nat} (h : i < c) (d : Nat) : (bvar i).shiftBy c d = bvar i := by
  rw [shiftBy_bvar, if_pos h]

theorem shiftBy_bvar_of_ge {i c : Nat} (h : c ≤ i) (d : Nat) :
    (bvar i).shiftBy c d = bvar (i + d) := by
  rw [shiftBy_bvar, if_neg (Nat.not_lt.mpr h)]

/-! ## Laws -/

/-- Nothing is shifted by nothing. -/
theorem shiftBy_by_zero (t : Term) (c : Nat) : t.shiftBy c 0 = t := by
  refine (rebuilds_shiftBy 0).agree rebuilds_self (R := fun _ _ => True)
    (fun _ _ _ => trivial) (fun c _ _ i => ?_) c () trivial t
  rw [shiftBy_bvar, Nat.add_zero, ite_self]

/-- Shifts commute; past the lower one, the cutoff of the upper one has moved. -/
theorem shiftBy_shiftBy {i j : Nat} (h : i ≤ j) (t : Term) (a b : Nat) :
    (t.shiftBy j b).shiftBy i a = (t.shiftBy i a).shiftBy (j + a) b := by
  refine ((rebuilds_shiftBy b).comp (rebuilds_shiftBy a)).agree
    ((rebuilds_shiftBy a).comp (rebuilds_shiftBy b))
    (R := fun e e' => e.2 ≤ e.1 ∧ e' = (e.2, e.1 + a)) ?_ ?_ (j, i) (i, j + a) ⟨h, rfl⟩ t
  · rintro ⟨j, i⟩ _ ⟨hle, rfl⟩
    exact ⟨Nat.succ_le_succ hle, congrArg (Prod.mk (i + 1)) (Nat.add_right_comm j a 1)⟩
  · rintro ⟨j, i⟩ _ ⟨hle, rfl⟩ n
    dsimp only at hle ⊢
    rcases Nat.lt_or_ge n i with hn | hn
    · rw [shiftBy_bvar_of_lt (by omega), shiftBy_bvar_of_lt hn, shiftBy_bvar_of_lt (by omega)]
    · rw [shiftBy_bvar_of_ge hn]
      rcases Nat.lt_or_ge n j with hn' | hn'
      · rw [shiftBy_bvar_of_lt hn', shiftBy_bvar_of_ge hn, shiftBy_bvar_of_lt (by omega)]
      · rw [shiftBy_bvar_of_ge hn', shiftBy_bvar_of_ge (by omega), shiftBy_bvar_of_ge (by omega),
          Nat.add_right_comm]

/-- A binder that a term was shifted past does not occur in it, so what is put for it vanishes. -/
theorem shiftBy_subst_cancel {n j d : Nat} (h : j ≤ d) (t a : Term) :
    (t.shiftBy n (d + 1)).subst (n + j) a = t.shiftBy n d := by
  refine ((rebuilds_shiftBy (d + 1)).comp rebuilds_subst).agree (rebuilds_shiftBy d)
    (R := fun e c => c = e.1 ∧ e.1 ≤ e.2.1 ∧ e.2.1 ≤ e.1 + d) ?_ ?_ (n, n + j, a) n
    ⟨rfl, Nat.le_add_right n j, Nat.add_le_add_left h n⟩ t
  · rintro ⟨c, k, b⟩ _ ⟨rfl, hle, hge⟩
    refine ⟨rfl, Nat.succ_le_succ hle, ?_⟩
    rw [Prod.map, Nat.add_right_comm]
    exact Nat.succ_le_succ hge
  · rintro ⟨n, k, b⟩ c ⟨hc, hle, hge⟩ i
    dsimp only at hc hle hge ⊢
    subst hc
    rcases Nat.lt_or_ge i c with hi | hi
    · rw [shiftBy_bvar_of_lt hi, shiftBy_bvar_of_lt hi, subst_bvar_of_lt (by omega)]
    · rw [shiftBy_bvar_of_ge hi, shiftBy_bvar_of_ge hi, subst_bvar_of_gt (by omega)]
      rfl

theorem shift_subst_cancel (t a : Term) (k : Nat) : (t.shift k).subst k a = t := by
  have h := shiftBy_subst_cancel (n := k) (Nat.le_refl 0) t a
  rwa [shiftBy_by_zero] at h

/-- What is put for an index below the cutoff is shifted on its own; the term is shifted past the
binder that goes. -/
theorem shiftBy_subst_of_le {k c : Nat} (h : k ≤ c) (t s : Term) (d : Nat) :
    (t.subst k s).shiftBy c d = (t.shiftBy (c + 1) d).subst k (s.shiftBy c d) := by
  refine (rebuilds_subst.comp (rebuilds_shiftBy d)).agree
    ((rebuilds_shiftBy d).comp rebuilds_subst)
    (R := fun e e' => e.1.1 ≤ e.2 ∧ e' = (e.2 + 1, e.1.1, e.1.2.shiftBy e.2 d)) ?_ ?_
    ((k, s), c) (c + 1, k, s.shiftBy c d) ⟨h, rfl⟩ t
  · rintro ⟨⟨k, s⟩, c⟩ _ ⟨hle, rfl⟩
    have hs : (s.shiftBy c d).shift 0 = (s.shift 0).shiftBy (c + 1) d :=
      shiftBy_shiftBy (Nat.zero_le c) s 1 d
    exact ⟨Nat.succ_le_succ hle, congrArg (fun s' => (c + 2, k + 1, s')) hs⟩
  · rintro ⟨⟨k, s⟩, c⟩ _ ⟨hle, rfl⟩ i
    dsimp only at hle ⊢
    rcases Nat.lt_trichotomy i k with hi | rfl | hi
    · rw [subst_bvar_of_lt hi, shiftBy_bvar_of_lt (by omega), shiftBy_bvar_of_lt (by omega),
        subst_bvar_of_lt hi]
    · rw [subst_bvar_self, shiftBy_bvar_of_lt (by omega), subst_bvar_self]
    · rw [subst_bvar_of_gt hi]
      rcases Nat.lt_or_ge i (c + 1) with hic | hic
      · rw [shiftBy_bvar_of_lt (by omega), shiftBy_bvar_of_lt hic, subst_bvar_of_gt hi]
      · rw [shiftBy_bvar_of_ge (by omega), shiftBy_bvar_of_ge hic, subst_bvar_of_gt (by omega),
          Nat.sub_add_comm (by omega)]

/-- An index at or above the cutoff is shifted as well. -/
theorem shiftBy_subst_of_ge {k c : Nat} (h : c ≤ k) (t s : Term) (d : Nat) :
    (t.subst k s).shiftBy c d = (t.shiftBy c d).subst (k + d) (s.shiftBy c d) := by
  refine (rebuilds_subst.comp (rebuilds_shiftBy d)).agree
    ((rebuilds_shiftBy d).comp rebuilds_subst)
    (R := fun e e' => e.2 ≤ e.1.1 ∧ e' = (e.2, e.1.1 + d, e.1.2.shiftBy e.2 d)) ?_ ?_
    ((k, s), c) (c, k + d, s.shiftBy c d) ⟨h, rfl⟩ t
  · rintro ⟨⟨k, s⟩, c⟩ _ ⟨hle, rfl⟩
    have hs : (s.shiftBy c d).shift 0 = (s.shift 0).shiftBy (c + 1) d :=
      shiftBy_shiftBy (Nat.zero_le c) s 1 d
    refine ⟨Nat.succ_le_succ hle, ?_⟩
    exact congrArg (Prod.mk (c + 1)) (Prod.ext (Nat.add_right_comm k d 1) hs)
  · rintro ⟨⟨k, s⟩, c⟩ _ ⟨hle, rfl⟩ i
    dsimp only at hle ⊢
    rcases Nat.lt_trichotomy i k with hi | rfl | hi
    · rw [subst_bvar_of_lt hi]
      rcases Nat.lt_or_ge i c with hic | hic
      · rw [shiftBy_bvar_of_lt hic, subst_bvar_of_lt (by omega)]
      · rw [shiftBy_bvar_of_ge hic, subst_bvar_of_lt (by omega)]
    · rw [subst_bvar_self, shiftBy_bvar_of_ge hle, subst_bvar_self]
    · rw [subst_bvar_of_gt hi, shiftBy_bvar_of_ge (by omega), shiftBy_bvar_of_ge (by omega),
        subst_bvar_of_gt (by omega), Nat.sub_add_comm (by omega)]

/-- **Substitution lemma.** Of two indices the higher one may be replaced first, with what is put
for the lower one replaced in as well. -/
theorem subst_subst {j k : Nat} (h : j ≤ k) (t a b : Term) :
    (t.subst j a).subst k b = (t.subst (k + 1) (b.shift j)).subst j (a.subst k b) := by
  refine (rebuilds_subst.comp rebuilds_subst).agree (rebuilds_subst.comp rebuilds_subst)
    (R := fun e e' => e.1.1 ≤ e.2.1 ∧
      e' = ((e.2.1 + 1, e.2.2.shift e.1.1), (e.1.1, e.1.2.subst e.2.1 e.2.2))) ?_ ?_
    ((j, a), (k, b)) ((k + 1, b.shift j), (j, a.subst k b)) ⟨h, rfl⟩ t
  · rintro ⟨⟨j, a⟩, ⟨k, b⟩⟩ _ ⟨hle, rfl⟩
    have hb : (b.shift j).shift 0 = (b.shift 0).shift (j + 1) :=
      shiftBy_shiftBy (Nat.zero_le j) b 1 1
    have ha : (a.subst k b).shift 0 = (a.shift 0).subst (k + 1) (b.shift 0) :=
      shiftBy_subst_of_ge (Nat.zero_le k) a b 1
    exact ⟨Nat.succ_le_succ hle, congr (congrArg (fun b' a' => ((k + 2, b'), (j + 1, a'))) hb) ha⟩
  · rintro ⟨⟨j, a⟩, ⟨k, b⟩⟩ _ ⟨hle, rfl⟩ i
    dsimp only at hle ⊢
    rcases Nat.lt_trichotomy i j with hi | rfl | hi
    · rw [subst_bvar_of_lt hi, subst_bvar_of_lt (by omega), subst_bvar_of_lt (by omega),
        subst_bvar_of_lt hi]
    · rw [subst_bvar_self, subst_bvar_of_lt (by omega), subst_bvar_self]
    · rw [subst_bvar_of_gt hi]
      rcases Nat.lt_trichotomy i (k + 1) with hik | rfl | hik
      · rw [subst_bvar_of_lt (by omega), subst_bvar_of_lt hik, subst_bvar_of_gt hi]
      · rw [Nat.add_sub_cancel, subst_bvar_self, subst_bvar_self, shift_subst_cancel]
      · rw [subst_bvar_of_gt (by omega), subst_bvar_of_gt hik, subst_bvar_of_gt (by omega)]

/-! ## Bounds -/

/-- The computation gives `t`, unless an addition reaches `indexLimit`. -/
def Checks (x : Except Fault Term) (t : Term) : Prop := x = .ok t ∨ x = .error .indexOverflow

theorem checks_run? {ε : Type} (m : Traversal ε) (e : ε) (t : Term) :
    Checks (m.run? e t) (m.run e t) := by
  unfold Checks Traversal.run?
  split
  · exact .inl rfl
  · exact .inr rfl

theorem checks_shiftBy? (t : Term) (c d : Nat) : Checks (t.shiftBy? c d) (t.shiftBy c d) :=
  checks_run? _ c t

theorem checks_subst? (t : Term) (k : Nat) (a : Term) : Checks (t.subst? k a) (t.subst k a) :=
  checks_run? _ (k, a) t

theorem Checks.bind {x : Except Fault Term} {f : Term → Except Fault Term} {t u : Term}
    (hx : Checks x t) (hf : Checks (f t) u) : Checks (x >>= f) u := by
  rcases hx with rfl | rfl
  · exact hf
  · exact .inr rfl

/-- Both computations give `t`, unless an addition reaches `indexLimit`. -/
structure Concur (x y : Except Fault Term) (t : Term) : Prop where
  left : Checks x t
  right : Checks y t

/-- **The laws of indices**: cancellation, shifts of shifts, shifts of substituted terms and the
substitution lemma. Over numbers of 64 bits, both sides of each law give the same term unless an
addition leaves the bounds. -/
theorem index_laws :
    (∀ (t a : Term) (n j d : Nat), j ≤ d →
      (t.shiftBy n (d + 1)).subst (n + j) a = t.shiftBy n d ∧
      Concur (do let u ← t.shiftBy? n (d + 1); u.subst? (n + j) a) (t.shiftBy? n d)
        (t.shiftBy n d)) ∧
    (∀ (t : Term) (i j a b : Nat), i ≤ j →
      (t.shiftBy j b).shiftBy i a = (t.shiftBy i a).shiftBy (j + a) b ∧
      Concur (do let u ← t.shiftBy? j b; u.shiftBy? i a)
        (do let u ← t.shiftBy? i a; u.shiftBy? (j + a) b) ((t.shiftBy j b).shiftBy i a)) ∧
    (∀ (t s : Term) (k c d : Nat), k ≤ c →
      (t.subst k s).shiftBy c d = (t.shiftBy (c + 1) d).subst k (s.shiftBy c d) ∧
      Concur (do let u ← t.subst? k s; u.shiftBy? c d)
        (do let u ← t.shiftBy? (c + 1) d; let s' ← s.shiftBy? c d; u.subst? k s')
        ((t.subst k s).shiftBy c d)) ∧
    (∀ (t s : Term) (k c d : Nat), c ≤ k →
      (t.subst k s).shiftBy c d = (t.shiftBy c d).subst (k + d) (s.shiftBy c d) ∧
      Concur (do let u ← t.subst? k s; u.shiftBy? c d)
        (do let u ← t.shiftBy? c d; let s' ← s.shiftBy? c d; u.subst? (k + d) s')
        ((t.subst k s).shiftBy c d)) ∧
    ∀ (t a b : Term) (j k : Nat), j ≤ k →
      (t.subst j a).subst k b = (t.subst (k + 1) (b.shift j)).subst j (a.subst k b) ∧
      Concur (do let u ← t.subst? j a; u.subst? k b)
        (do let b' ← b.shift? j; let u ← t.subst? (k + 1) b'; let a' ← a.subst? k b; u.subst? j a')
        ((t.subst j a).subst k b) := by
  refine ⟨fun t a n j d h => ?_, fun t i j a b h => ?_, fun t s k c d h => ?_,
    fun t s k c d h => ?_, fun t a b j k h => ?_⟩
  · have heq := shiftBy_subst_cancel (n := n) h t a
    refine ⟨heq, ?_, checks_shiftBy? t n d⟩
    rw [← heq]
    exact (checks_shiftBy? t n (d + 1)).bind (checks_subst? _ _ a)
  · have heq := shiftBy_shiftBy h t a b
    refine ⟨heq, (checks_shiftBy? t j b).bind (checks_shiftBy? _ i a), ?_⟩
    rw [heq]
    exact (checks_shiftBy? t i a).bind (checks_shiftBy? _ _ b)
  · have heq := shiftBy_subst_of_le h t s d
    refine ⟨heq, (checks_subst? t k s).bind (checks_shiftBy? _ c d), ?_⟩
    rw [heq]
    exact (checks_shiftBy? t _ d).bind ((checks_shiftBy? s c d).bind (checks_subst? _ k _))
  · have heq := shiftBy_subst_of_ge h t s d
    refine ⟨heq, (checks_subst? t k s).bind (checks_shiftBy? _ c d), ?_⟩
    rw [heq]
    exact (checks_shiftBy? t c d).bind ((checks_shiftBy? s c d).bind (checks_subst? _ _ _))
  · have heq := subst_subst h t a b
    refine ⟨heq, (checks_subst? t j a).bind (checks_subst? _ k b), ?_⟩
    rw [heq]
    exact (checks_shiftBy? b j 1).bind ((checks_subst? t _ _).bind
      ((checks_subst? a k b).bind (checks_subst? _ j _)))

/-- An open term is put for an index under a binder, and a constant for an index of that term. -/
theorem index_laws_open :
    0 ≤ 1 ∧ ((lam (app (bvar 1) (bvar 4))).subst 0 (bvar 1)).subst 1 (fvar (.named "c")) =
        lam (app (fvar (.named "c")) (bvar 2)) ∧
      ((lam (app (bvar 1) (bvar 4))).subst 2 ((fvar (.named "c")).shift 0)).subst 0
          ((bvar 1).subst 1 (fvar (.named "c"))) = lam (app (fvar (.named "c")) (bvar 2)) := by
  have h := (index_laws.2.2.2.2 (lam (app (bvar 1) (bvar 4))) (bvar 1) (fvar (.named "c")) 0 1
    (Nat.zero_le 1)).1
  exact ⟨Nat.zero_le 1, rfl, h ▸ rfl⟩

end Term

end SystemT
