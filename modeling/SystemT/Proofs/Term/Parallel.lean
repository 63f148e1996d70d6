import SystemT.Proofs.Term.Indices
import SystemT.Term.Parallel

/-!
# Parallel substitution is iterated substitution

Instead of replacing many indices at once one may replace them one after the other, from the highest
down. When it is an index's turn, the binders of all lower ones are still there, so what is put for
it is first shifted past these (`Term.substEach`).

The lowest index is split off in one step (`IndexSubst.Splits`, `Term.substIndices_of_splits`). What
the other indices become depends on how many of those replaced lie below them
(`IndexSubst.renumber_eq`), and the lowest one counts wherever it lies below
(`IndexSubst.Splits.countBelow`). Gaps between the indices and open replacements need no attention
of their own: below a binder, the map splits again (`IndexSubst.Splits.lift`).
-/

namespace SystemT

namespace IndexSubst

/-! ## Entries -/

@[ext] theorem ext {r s : IndexSubst} (h : ∀ i, r.get? i = s.get? i) : r = s := by
  cases r; cases s
  exact congrArg IndexSubst.mk (Std.ExtTreeMap.ext_getElem? h)

@[simp] theorem get?_empty (i : Nat) : (∅ : IndexSubst).get? i = none :=
  Std.ExtTreeMap.getElem?_empty

theorem get?_insert (s : IndexSubst) (k i : Nat) (a : Term) :
    (s.insert k a).get? i = if k = i then some a else s.get? i := by
  simp [get?, insert, Std.ExtTreeMap.getElem?_insert]

/-- The replacements in the order of their indices. -/
def toList (s : IndexSubst) : List (Nat × Term) := s.entries.toList

theorem mem_toList {s : IndexSubst} {i : Nat} {a : Term} :
    (i, a) ∈ s.toList ↔ s.get? i = some a :=
  Std.ExtTreeMap.mem_toList_iff_getElem?_eq_some

theorem pairwise_toList (s : IndexSubst) : s.toList.Pairwise (·.1 < ·.1) :=
  Std.ExtTreeMap.ordered_keys_toList.imp Nat.compare_eq_lt.mp

/-- A list without two replacements for one index is looked up by membership. -/
theorem get?_ofList {l : List (Nat × Term)} (hl : l.Pairwise (·.1 ≠ ·.1)) {i : Nat} {a : Term} :
    (ofList l).get? i = some a ↔ (i, a) ∈ l := by
  have hdistinct : l.Pairwise fun b c => ¬ compare b.1 c.1 = .eq :=
    hl.imp fun h hbc => h (Nat.compare_eq_eq.mp hbc)
  constructor
  · intro h
    by_cases hi : i ∈ l.map Prod.fst
    · obtain ⟨⟨j, b⟩, hmem, rfl⟩ := List.mem_map.mp hi
      rw [get?, ofList, Std.ExtTreeMap.getElem?_ofList_of_mem Std.ReflOrd.compare_self hdistinct
        hmem] at h
      rwa [← Option.some.inj h]
    · have hnone : (l.map Prod.fst).contains i = false := by simpa using hi
      rw [get?, ofList, Std.ExtTreeMap.getElem?_ofList_of_contains_eq_false hnone] at h
      cases h
  · exact Std.ExtTreeMap.getElem?_ofList_of_mem Std.ReflOrd.compare_self hdistinct

theorem ofList_toList (s : IndexSubst) : ofList s.toList = s := by
  ext i a
  rw [get?_ofList (s.pairwise_toList.imp Nat.ne_of_lt), mem_toList]

/-! ## Below a binder -/

private theorem get?_lift_iff (s : IndexSubst) {i : Nat} {b : Term} :
    s.lift.get? i = some b ↔ ∃ j a, s.get? j = some a ∧ i = j + 1 ∧ b = a.shift 0 := by
  have hdistinct : (s.toList.map fun e => (e.1 + 1, e.2.shift 0)).Pairwise (·.1 ≠ ·.1) := by
    rw [List.pairwise_map]
    exact s.pairwise_toList.imp fun h => Nat.ne_of_lt (Nat.succ_lt_succ h)
  rw [show s.lift = ofList (s.toList.map fun e => (e.1 + 1, e.2.shift 0)) from rfl,
    get?_ofList hdistinct, List.mem_map]
  constructor
  · rintro ⟨⟨j, a⟩, hmem, ⟨⟩⟩
    exact ⟨j, a, mem_toList.mp hmem, rfl, rfl⟩
  · rintro ⟨j, a, ha, rfl, rfl⟩
    exact ⟨(j, a), mem_toList.mpr ha, rfl⟩

theorem get?_lift_zero (s : IndexSubst) : s.lift.get? 0 = none := by
  rw [Option.eq_none_iff_forall_ne_some]
  intro b hb
  obtain ⟨j, a, -, hj, -⟩ := s.get?_lift_iff.mp hb
  cases hj

theorem get?_lift_succ (s : IndexSubst) (i : Nat) :
    s.lift.get? (i + 1) = (s.get? i).map (·.shift 0) := by
  ext b
  rw [get?_lift_iff, Option.map_eq_some_iff]
  constructor
  · rintro ⟨j, a, ha, ⟨⟩, rfl⟩
    exact ⟨a, ha, rfl⟩
  · rintro ⟨a, ha, rfl⟩
    exact ⟨i, a, ha, rfl, rfl⟩

theorem lift_empty : (∅ : IndexSubst).lift = ∅ := by
  ext1 i
  cases i with
  | zero => rw [get?_lift_zero, get?_empty]
  | succ i => rw [get?_lift_succ, get?_empty, get?_empty]; rfl

/-! ## Renumbering -/

/-- How many indices below `i` are replaced. -/
def countBelow (s : IndexSubst) (i : Nat) : Nat :=
  (List.range i).countP fun j => (s.get? j).isSome

theorem countBelow_succ (s : IndexSubst) (i : Nat) :
    s.countBelow (i + 1) = s.countBelow i + if (s.get? i).isSome then 1 else 0 := by
  rw [countBelow, countBelow, List.range_succ, List.countP_append, List.countP_singleton]

/-- An index that stays drops by the number of those below it that are replaced. -/
theorem renumber_eq (s : IndexSubst) (i : Nat) : s.renumber i = i - s.countBelow i := by
  have hkeys : s.entries.keys.Nodup :=
    Std.ExtTreeMap.distinct_keys.imp fun h heq => h (Nat.compare_eq_eq.mpr heq)
  -- the keys below `i` are the numbers below `i` that are keys
  have hperm : (s.entries.keys.filter (· < i)).Perm
      ((List.range i).filter fun j => (s.get? j).isSome) := by
    rw [List.perm_ext_iff_of_nodup (hkeys.filter _) (List.nodup_range.filter _)]
    intro j
    simp only [List.mem_filter, List.mem_range, decide_eq_true_eq, Std.ExtTreeMap.mem_keys,
      Std.ExtTreeMap.mem_iff_isSome_getElem?, get?]
    exact and_comm
  rw [renumber, countBelow, List.countP_eq_length_filter, List.countP_eq_length_filter,
    hperm.length_eq]

theorem renumber_empty (i : Nat) : (∅ : IndexSubst).renumber i = i := by
  have hcount : (∅ : IndexSubst).countBelow i = 0 := by
    simp [countBelow]
  rw [renumber_eq, hcount, Nat.sub_zero]

/-! ## The lowest index -/

/-- The lowest index that `s` replaces is `k`, by `a`; and `r` is the rest, which is to be put in
while the binder of `k` is still there. -/
structure Splits (s : IndexSubst) (k : Nat) (a : Term) (r : IndexSubst) : Prop where
  lowest : ∀ i, i < k → s.get? i = none
  first : s.get? k = some a
  rest : ∀ i, r.get? i = if i = k then none else (s.get? i).map (·.shift k)

variable {s r : IndexSubst} {k : Nat} {a : Term}

theorem Splits.lift (h : s.Splits k a r) : s.lift.Splits (k + 1) (a.shift 0) r.lift where
  lowest i hi := by
    cases i with
    | zero => exact s.get?_lift_zero
    | succ i => rw [get?_lift_succ, h.lowest i (Nat.lt_of_succ_lt_succ hi)]; rfl
  first := by
    rw [get?_lift_succ, h.first]
    rfl
  rest i := by
    cases i with
    | zero => rw [get?_lift_zero, get?_lift_zero, if_neg (Nat.succ_ne_zero k).symm]; rfl
    | succ i =>
      rw [get?_lift_succ, get?_lift_succ, h.rest]
      by_cases hi : i = k
      · rw [if_pos hi, if_pos (congrArg (· + 1) hi)]
        rfl
      · rw [if_neg hi, if_neg (mt Nat.succ.inj hi), Option.map_map, Option.map_map]
        congr 1
        funext b
        exact Term.shiftBy_shiftBy (Nat.zero_le k) b 1 1

/-- The lowest index counts where it lies below, and so many other numbers lie between that there is
room for the rest. -/
theorem Splits.countBelow (h : s.Splits k a r) (i : Nat) :
    (i ≤ k → s.countBelow i = 0 ∧ r.countBelow i = 0) ∧
      (k < i → s.countBelow i = r.countBelow i + 1 ∧ r.countBelow i + k < i) := by
  induction i with
  | zero => exact ⟨fun _ => ⟨rfl, rfl⟩, fun hk => absurd hk (Nat.not_lt_zero k)⟩
  | succ i ih =>
    have hsome : (r.get? i).isSome = ((s.get? i).isSome && decide (i ≠ k)) := by
      rw [h.rest]
      by_cases hi : i = k <;> simp [hi]
    rw [countBelow_succ, countBelow_succ, hsome]
    rcases Nat.lt_trichotomy i k with hi | rfl | hi
    · obtain ⟨hs, hr⟩ := ih.1 (Nat.le_of_lt hi)
      rw [h.lowest i hi]
      exact ⟨fun _ => ⟨hs, hr⟩, fun hk => absurd hk (by omega)⟩
    · obtain ⟨hs, hr⟩ := ih.1 (Nat.le_refl i)
      rw [h.first, hs, hr]
      exact ⟨fun hk => absurd hk (by omega), fun _ => ⟨by simp, by simp⟩⟩
    · obtain ⟨hs, hr⟩ := ih.2 hi
      rw [hs]
      refine ⟨fun hk => absurd hk (by omega), fun _ => ?_⟩
      have hne : i ≠ k := by omega
      cases hsome : (s.get? i).isSome <;> simp [hne] <;> omega

end IndexSubst

namespace Term

open IndexSubst

theorem rebuilds_substIndices : Rebuilds (fun s t => t.substIndices s) IndexSubst.lift :=
  rebuilds_run Traversal.replacingIndices (fun _ _ => rfl) (fun _ _ => rfl) fun _ _ => rfl

theorem substIndices_empty (t : Term) : t.substIndices ∅ = t := by
  refine rebuilds_substIndices.agree rebuilds_self (R := fun s _ => s = ∅) ?_ ?_ ∅ () rfl t
  · rintro _ _ rfl
    exact lift_empty
  · rintro _ _ rfl i
    rw [substIndices_bvar, get?_empty, renumber_empty]
    rfl

/-- The lowest index is replaced last. -/
theorem substIndices_of_splits {s r : IndexSubst} {k : Nat} {a : Term} (h : s.Splits k a r)
    (t : Term) : t.substIndices s = (t.substIndices r).subst k a := by
  refine rebuilds_substIndices.agree (rebuilds_substIndices.comp rebuilds_subst)
    (R := fun s e => s.Splits e.2.1 e.2.2 e.1) (fun _ _ h => h.lift) ?_ s (r, k, a) h t
  rintro s ⟨r, k, a⟩ h i
  dsimp only at h ⊢
  have hcount := h.countBelow i
  have hrest := h.rest i
  rw [substIndices_bvar, substIndices_bvar, renumber_eq, renumber_eq]
  rcases Nat.lt_trichotomy i k with hi | rfl | hi
  · -- nothing below `k` is replaced
    obtain ⟨hs, hr⟩ := hcount.1 (Nat.le_of_lt hi)
    rw [h.lowest i hi] at hrest ⊢
    rw [hrest, hs, hr, if_neg (Nat.ne_of_lt hi)]
    exact (subst_bvar_of_lt hi a).symm
  · obtain ⟨-, hr⟩ := hcount.1 (Nat.le_refl i)
    rw [hrest, h.first, hr, if_pos rfl]
    exact (subst_bvar_self i a).symm
  · obtain ⟨hs, hr⟩ := hcount.2 hi
    rw [hrest, if_neg (Nat.ne_of_gt hi)]
    cases s.get? i with
    | some b => exact (shift_subst_cancel b a k).symm
    | none =>
      show bvar _ = (bvar _).subst k a
      rw [subst_bvar_of_gt (by omega), hs, Nat.sub_sub]

/-! ## One index at a time -/

/-- Put the terms of a list for their indices, the last one first. What is put for an index is
shifted past the binders of the indices before it; those of `below` come before the list. -/
def substEach (t : Term) (below : List Nat) : List (Nat × Term) → Term
  | [] => t
  | (k, a) :: rest => (t.substEach (below ++ [k]) rest).subst k (below.foldl shift a)

/-- As `substEach`, but a fault if an addition reaches `indexLimit`. -/
def substEach? (t : Term) (below : List Nat) : List (Nat × Term) → Except Fault Term
  | [] => .ok t
  | (k, a) :: rest => do
    let u ← t.substEach? (below ++ [k]) rest
    let b ← below.foldlM shift? a
    u.subst? k b

theorem checks_foldlM_shift? (below : List Nat) (a : Term) :
    Checks (below.foldlM shift? a) (below.foldl shift a) := by
  induction below generalizing a with
  | nil => exact .inl rfl
  | cons k below ih =>
    rw [List.foldlM_cons]
    exact (checks_shiftBy? a k 1).bind (ih _)

theorem checks_substEach? (t : Term) (below : List Nat) (l : List (Nat × Term)) :
    Checks (t.substEach? below l) (t.substEach below l) := by
  induction l generalizing below with
  | nil => exact .inl rfl
  | cons e l ih =>
    exact (ih _).bind ((checks_foldlM_shift? below e.2).bind (checks_subst? _ e.1 _))

/-- The map of a list in ascending order splits at the first entry. -/
theorem splits_ofList {k : Nat} {a : Term} {l : List (Nat × Term)}
    (h : ((k, a) :: l).Pairwise (·.1 < ·.1)) :
    (ofList ((k, a) :: l)).Splits k a (ofList (l.map fun e => (e.1, e.2.shift k))) := by
  obtain ⟨hfirst, hl⟩ := List.pairwise_cons.mp h
  have hget : ∀ {i b}, (ofList ((k, a) :: l)).get? i = some b ↔ (i, b) ∈ (k, a) :: l :=
    get?_ofList (h.imp Nat.ne_of_lt)
  refine ⟨fun i hi => ?_, hget.mpr List.mem_cons_self, fun i => ?_⟩
  · rw [Option.eq_none_iff_forall_ne_some]
    intro b hb
    rcases List.mem_cons.mp (hget.mp hb) with heq | hmem
    · exact Nat.ne_of_lt hi (congrArg Prod.fst heq)
    · exact Nat.lt_asymm hi (hfirst _ hmem)
  · ext b
    have hdistinct : (l.map fun e => (e.1, e.2.shift k)).Pairwise (·.1 ≠ ·.1) :=
      List.pairwise_map.mpr (hl.imp Nat.ne_of_lt)
    rw [get?_ofList hdistinct, List.mem_map]
    by_cases hi : i = k
    · subst hi
      rw [if_pos rfl]
      refine ⟨?_, nofun⟩
      rintro ⟨⟨j, c⟩, hmem, ⟨⟩⟩
      exact absurd (hfirst _ hmem) (Nat.lt_irrefl _)
    · rw [if_neg hi, Option.map_eq_some_iff]
      constructor
      · rintro ⟨⟨j, c⟩, hmem, ⟨⟩⟩
        exact ⟨c, hget.mpr (List.mem_cons_of_mem _ hmem), rfl⟩
      · rintro ⟨c, hc, rfl⟩
        rcases List.mem_cons.mp (hget.mp hc) with heq | hmem
        · exact absurd (congrArg Prod.fst heq) hi
        · exact ⟨(i, c), hmem, rfl⟩

theorem substIndices_ofList (t : Term) (below : List Nat) {l : List (Nat × Term)}
    (hl : l.Pairwise (·.1 < ·.1)) :
    t.substIndices (ofList (l.map fun e => (e.1, below.foldl shift e.2))) =
      t.substEach below l := by
  induction l generalizing below with
  | nil => exact t.substIndices_empty
  | cons e l ih =>
    obtain ⟨k, a⟩ := e
    have hmap : (((k, a) :: l).map fun e => (e.1, below.foldl shift e.2)).Pairwise (·.1 < ·.1) :=
      List.pairwise_map.mpr hl
    rw [List.map_cons] at hmap ⊢
    rw [substIndices_of_splits (splits_ofList hmap), List.map_map, substEach,
      ← ih (below ++ [k]) (List.pairwise_cons.mp hl).2]
    -- past `k`, what is put for the other indices is shifted once more
    congr 3
    exact List.map_congr_left fun e _ => by rw [List.foldl_append]; rfl

/-- **Parallel substitution is iterated substitution**, the highest index first. Over numbers of 64
bits, both give the same term unless an addition leaves the bounds. One replacement alone is a
substitution, and none changes nothing. -/
theorem substIndices_eq_substEach (t : Term) (s : IndexSubst) :
    (t.substIndices s = t.substEach [] s.toList ∧
      Concur (t.substIndices? s) (t.substEach? [] s.toList) (t.substIndices s)) ∧
    (∀ k a, t.substIndices (IndexSubst.empty.insert k a) = t.subst k a ∧
      Concur (t.substIndices? (IndexSubst.empty.insert k a)) (t.subst? k a) (t.subst k a)) ∧
    t.substIndices .empty = t ∧ Checks (t.substIndices? .empty) t := by
  have heach : t.substIndices s = t.substEach [] s.toList := by
    have h := substIndices_ofList t [] s.pairwise_toList
    simpa only [List.foldl_nil, List.map_id', ofList_toList] using h
  have hone : ∀ k a, t.substIndices (IndexSubst.empty.insert k a) = t.subst k a := by
    intro k a
    have hsplits : (IndexSubst.empty.insert k a).Splits k a ∅ := by
      refine ⟨fun i hi => ?_, ?_, fun i => ?_⟩
      · rw [get?_insert, if_neg (Nat.ne_of_gt hi)]
        exact get?_empty i
      · rw [get?_insert, if_pos rfl]
      · rw [get?_insert, get?_empty]
        by_cases hi : i = k
        · rw [if_pos hi]
        · rw [if_neg hi, if_neg (Ne.symm hi)]
          exact (congrArg (Option.map _) (get?_empty i)).symm
    rw [substIndices_of_splits hsplits, substIndices_empty]
  have hchecks : ∀ r, Checks (t.substIndices? r) (t.substIndices r) := fun r => checks_run? _ r t
  refine ⟨⟨heach, hchecks s, ?_⟩, fun k a => ⟨hone k a, ?_, checks_subst? t k a⟩,
    t.substIndices_empty, ?_⟩
  · rw [heach]
    exact checks_substEach? t [] s.toList
  · rw [← hone k a]
    exact hchecks _
  · have h := hchecks .empty
    rwa [show t.substIndices .empty = t from t.substIndices_empty] at h

end Term

end SystemT
