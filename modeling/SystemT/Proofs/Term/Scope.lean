import SystemT.Proofs.Term.Closed
import SystemT.Proofs.Term.Parallel

/-!
# How many binders a term needs

Every operation on indices tells from the depth at which a term is closed the one at which its
result is (`closedness_laws`). Shifting by `d` adds `d` at every depth that is not below the cutoff.
Substitution takes off the one binder that it removes, and parallel substitution as many as indices
below the depth are replaced; it is enough that the replacements need no more. None of them has
anything to do in a term that is closed below the indices that it moves or replaces.

The indices that parallel substitution keeps stay in order, so those below the depth fit below what
is left of it (`IndexSubst.sub_countBelow_lt`); below a binder, both the depth and what is left are
one more (`IndexSubst.countBelow_lift`).
-/

namespace SystemT

namespace IndexSubst

variable {s : IndexSubst} {n : Nat}

/-! ## Counting -/

theorem countBelow_le (s : IndexSubst) (n : Nat) : s.countBelow n ≤ n := by
  have h := List.countP_le_length (p := fun j => (s.get? j).isSome) (l := List.range n)
  rwa [List.length_range] at h

theorem countBelow_lift (s : IndexSubst) (n : Nat) :
    s.lift.countBelow (n + 1) = s.countBelow n := by
  induction n with
  | zero => rw [countBelow_succ, get?_lift_zero]; rfl
  | succ n ih => rw [countBelow_succ, ih, countBelow_succ, get?_lift_succ, Option.isSome_map]

/-- An index that stays is renumbered to one below what is left of the indices below `n`. -/
theorem sub_countBelow_lt {i : Nat} (hi : i < n) (hs : s.get? i = none) :
    i - s.countBelow i < n - s.countBelow n := by
  -- no more indices are replaced from `i` on than there are past it
  have hcount : s.countBelow n + i < s.countBelow i + n := by
    induction n with
    | zero => exact absurd hi (Nat.not_lt_zero i)
    | succ n ih =>
      rw [countBelow_succ]
      rcases Nat.lt_succ_iff_lt_or_eq.mp hi with hlt | rfl
      · have hle := ih hlt
        split <;> omega
      · rw [hs, Option.isSome_none, if_neg Bool.false_ne_true]
        omega
  have hi' := s.countBelow_le i
  have hn' := s.countBelow_le n
  omega

theorem countBelow_eq_zero (h : ∀ i < n, s.get? i = none) : s.countBelow n = 0 := by
  rw [countBelow, List.countP_eq_zero]
  intro i hi
  rw [h i (List.mem_range.mp hi)]
  exact Bool.false_ne_true

end IndexSubst

namespace Term

open IndexSubst

variable {t : Term} {s : IndexSubst} {n : Nat}

/-! ## Shifting -/

/-- What is closed after a shift has no index at or above the cutoff, so it was not shifted. -/
theorem closed_shift (t : Term) (n : Nat) : (t.shift n).closed = t.closed := by
  rw [Bool.eq_iff_iff]
  constructor
  · intro h
    have hcutoff : t.closedAt n = true := by
      rw [← closedAt_shiftBy (Nat.le_refl n) t 1]
      exact closedAt_of_closed h (n + 1)
    have heq : t.shift n = t := shiftBy_of_closedAt hcutoff (Nat.le_refl n) 1
    rwa [heq] at h
  · intro h
    rwa [shift_of_closed h n]

/-! ## Parallel substitution -/

theorem closedAt_substIndices (ht : t.closedAt n = true)
    (hs : ∀ i a, s.get? i = some a → a.closedAt (n - s.countBelow n) = true) :
    (t.substIndices s).closedAt (n - s.countBelow n) = true := by
  refine rebuilds_substIndices.toDescends.closedAt
    (R := fun s n m => m = n - s.countBelow n ∧ ∀ i a, s.get? i = some a → a.closedAt m = true)
    ?_ ?_ (fun _ _ _ _ _ => rfl) ⟨rfl, hs⟩ ht
  · rintro s n _ ⟨rfl, hs⟩
    refine ⟨?_, fun i b hb => ?_⟩
    · rw [countBelow_lift, Nat.sub_add_comm (s.countBelow_le n)]
    · cases i with
      | zero => rw [get?_lift_zero] at hb; cases hb
      | succ i =>
        rw [get?_lift_succ, Option.map_eq_some_iff] at hb
        obtain ⟨a, ha, rfl⟩ := hb
        exact (closedAt_shiftBy (Nat.zero_le _) a 1).trans (hs i a ha)
  · rintro s n _ ⟨rfl, hs⟩ i hi
    rw [substIndices_bvar]
    cases hget : s.get? i with
    | some a => exact hs i a hget
    | none =>
      rw [renumber_eq]
      exact decide_eq_true (sub_countBelow_lt hi hget)

theorem substIndices_of_closedAt (ht : t.closedAt n = true) (hs : ∀ i < n, s.get? i = none) :
    t.substIndices s = t := by
  refine rebuilds_substIndices.eq_self (R := fun s n => ∀ i < n, s.get? i = none) ?_ ?_ hs ht
  · intro s n hs i hi
    cases i with
    | zero => exact s.get?_lift_zero
    | succ i => rw [get?_lift_succ, hs i (Nat.lt_of_succ_lt_succ hi)]; rfl
  · intro s n hs i hi
    have hcount := countBelow_eq_zero fun j hj => hs j (Nat.lt_trans hj hi)
    rw [substIndices_bvar, hs i hi, renumber_eq, hcount]
    rfl

/-! ## Bounds -/

theorem closedAt?_cases (t : Term) (n : Nat) :
    t.closedAt? n = .ok (t.closedAt n) ∨ t.closedAt? n = .error .indexOverflow := by
  -- the second answer counts only if the first is `true`
  have hand : ∀ {x y : Except Fault Bool} {a b : Bool},
      x = .ok a ∨ x = .error .indexOverflow → y = .ok b ∨ y = .error .indexOverflow →
      closedAt?.andThen x (fun _ => y) = .ok (a && b) ∨
        closedAt?.andThen x (fun _ => y) = .error .indexOverflow := by
    rintro x y a b (rfl | rfl) hy
    · cases a with
      | true => exact hy
      | false => exact .inl rfl
    · exact .inr rfl
  induction t generalizing n with
  | fvar | bvar | tt | ff | zero => exact .inl rfl
  | lam b ih =>
    rw [closedAt?]
    split
    · exact ih (n + 1)
    · exact .inr rfl
  | fst p ih | snd p ih | succ p ih => exact ih n
  | app a b iha ihb | pair a b iha ihb => exact hand (iha n) (ihb n)
  | cond a b c iha ihb ihc | natRec a b c iha ihb ihc =>
    rw [closedAt, Bool.and_assoc]
    exact hand (iha n) (hand (ihb n) (ihc n))

/-- **Closedness is tracked exactly** by shifting, substitution and parallel substitution, and what
is closed below all that they move or replace stays as it is; so a term is closed exactly if it is
after a shift. Over numbers of 64 bits, the operations give the same terms and the test of
closedness gives the same answer, unless an addition leaves the bounds. -/
theorem closedness_laws (t : Term) :
    (∀ c n d, c ≤ n →
      ((t.shiftBy c d).closedAt (n + d) = true ↔ t.closedAt n = true) ∧
      Checks (t.shiftBy? c d) (t.shiftBy c d)) ∧
    (∀ a k n, t.closedAt (n + 1) = true → a.closedAt n = true → k ≤ n →
      (t.subst k a).closedAt n = true ∧ Checks (t.subst? k a) (t.subst k a)) ∧
    (∀ s n, t.closedAt n = true →
      (∀ i a, s.get? i = some a → a.closedAt (n - s.countBelow n) = true) →
      (t.substIndices s).closedAt (n - s.countBelow n) = true ∧
      Checks (t.substIndices? s) (t.substIndices s)) ∧
    (∀ n, t.closedAt n = true →
      (∀ c d, n ≤ c → t.shiftBy c d = t ∧ Checks (t.shiftBy? c d) t) ∧
      (∀ c a, n ≤ c → t.subst c a = t ∧ Checks (t.subst? c a) t) ∧
      ∀ s, (∀ i a, s.get? i = some a → n ≤ i) →
        t.substIndices s = t ∧ Checks (t.substIndices? s) t) ∧
    (∀ n, (t.shift n).closed = t.closed ∧ Checks (t.shift? n) (t.shift n)) ∧
    ∀ n, t.closedAt? n = .ok (t.closedAt n) ∨ t.closedAt? n = .error .indexOverflow := by
  have hmany : ∀ s, Checks (t.substIndices? s) (t.substIndices s) := fun s => checks_run? _ s t
  refine ⟨fun c n d h => ?_, fun a k n ht ha hk => ?_, fun s n ht hs => ?_, fun n ht => ?_,
    fun n => ?_, t.closedAt?_cases⟩
  · rw [closedAt_shiftBy h]
    exact ⟨Iff.rfl, checks_shiftBy? t c d⟩
  · exact ⟨closedAt_subst ht ha hk, checks_subst? t k a⟩
  · exact ⟨closedAt_substIndices ht hs, hmany s⟩
  · refine ⟨fun c d hc => ?_, fun c a hc => ?_, fun s hs => ?_⟩
    · have heq := shiftBy_of_closedAt ht hc d
      have hchecks := checks_shiftBy? t c d
      rw [heq] at hchecks
      exact ⟨heq, hchecks⟩
    · have heq := subst_of_closedAt ht hc a
      have hchecks := checks_subst? t c a
      rw [heq] at hchecks
      exact ⟨heq, hchecks⟩
    · have hfree : ∀ i < n, s.get? i = none := by
        intro i hi
        rw [Option.eq_none_iff_forall_ne_some]
        exact fun a ha => absurd (hs i a ha) (Nat.not_le.mpr hi)
      have heq := substIndices_of_closedAt ht hfree
      have hchecks := hmany s
      rw [heq] at hchecks
      exact ⟨heq, hchecks⟩
  · exact ⟨closed_shift t n, checks_shiftBy? t n 1⟩

/-- Two of three indices are replaced, with a gap between them and by open terms, below a binder. -/
theorem closedness_laws_gap :
    ∃ t s, t = lam (app (bvar 1) (app (bvar 2) (bvar 3))) ∧
      s = (IndexSubst.empty.insert 0 (bvar 0)).insert 2 (lam (bvar 1)) ∧
      t.closedAt 3 = true ∧ s.countBelow 3 = 2 ∧
      (∀ i a, s.get? i = some a → a.closedAt (3 - s.countBelow 3) = true) ∧
      t.substIndices s = lam (app (bvar 1) (app (bvar 1) (lam (bvar 2)))) ∧
      (t.substIndices s).closedAt (3 - s.countBelow 3) = true := by
  refine ⟨_, _, rfl, rfl, rfl, rfl, ?_⟩
  have hs : ∀ i a, ((IndexSubst.empty.insert 0 (bvar 0)).insert 2 (lam (bvar 1))).get? i = some a →
      a.closedAt 1 = true := by
    intro i a h
    rw [get?_insert, get?_insert] at h
    split at h
    · cases h
      rfl
    · split at h <;> cases h
      rfl
  exact ⟨hs, rfl, ((closedness_laws _).2.2.1 _ 3 rfl hs).1⟩

end Term

end SystemT
