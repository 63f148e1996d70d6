import Mathlib.Data.Nat.Nth
import SystemT.Proofs.Ty.Display
import SystemT.Proofs.Ty.Renaming

/-!
# Display names are canonical

To display a type is to rename its generated variables (`Ty.withDisplayNames_eq`). Three things
determine the names (`Ty.FirstUnused`): the type does not use them, their order is that of the
numbers of the variables, and none is passed over that would do. The name of `?n` is thus the
unused one with as many unused names before it as there are generated variables before `?n`
(`Ty.firstUnused_nth`).

As the names are determined (`Ty.FirstUnused.unique`) by what is not changed by other numbers in the
same order (`Ty.FirstUnused.comp`), types that differ in these alone are displayed alike.
-/

namespace SystemT

open List (range)

/-! ## The first members of a list -/

/-- The numbers with a property, listed in order, are the first ones that have it. -/
theorem getElem?_filter_range (p : Nat → Prop) [DecidablePred p] {N k : Nat}
    (h : k < Nat.count p N) : ((range N).filter p)[k]? = some (Nat.nth p k) := by
  induction N with
  | zero => cases h
  | succ N ih =>
    have hlength : ((range N).filter p).length = Nat.count p N :=
      List.countP_eq_length_filter.symm
    rw [List.range_succ, List.filter_append]
    rcases Nat.lt_or_ge k (Nat.count p N) with hk | hk
    · rw [List.getElem?_append_left (hlength ▸ hk), ih hk]
    · -- the last number counts, and it is the one that is looked for
      rw [Nat.count_succ] at h
      have hN : p N := by
        by_contra hN
        rw [if_neg hN] at h
        omega
      rw [if_pos hN] at h
      obtain rfl : k = Nat.count p N := by omega
      rw [List.getElem?_append_right (Nat.le_of_eq hlength), hlength, Nat.sub_self,
        Nat.nth_count hN]
      simp [hN]

/-- If the `q`s are matched one by one with the first `p`s, all `p`s before the match of one `q` are
matched with earlier ones. -/
theorem exists_nth_count_eq {p q : Nat → Prop} [DecidablePred p] [DecidablePred q]
    (hp : (Set.ofPred p).Infinite) {n i : Nat} (hn : q n) (hi : i < Nat.nth p (Nat.count q n))
    (hpi : p i) : ∃ m < n, q m ∧ Nat.nth p (Nat.count q m) = i := by
  have hk : Nat.count p i < Nat.count q n := by
    rwa [← Nat.nth_lt_nth hp, Nat.nth_count hpi]
  have hcard : ∀ hq : (Set.ofPred q).Finite, Nat.count p i < hq.toFinset.card :=
    fun hq => Nat.lt_trans hk (Nat.count_lt_card hq hn)
  refine ⟨Nat.nth q (Nat.count p i), Nat.nth_lt_of_lt_count hk, Nat.nth_mem _ hcard, ?_⟩
  rw [Nat.count_nth hcard, Nat.nth_count hpi]

theorem IdentSet.nodup_toList (a : IdentSet) : a.toList.Nodup :=
  a.distinct_toList.imp fun h heq => h (Std.LawfulEqOrd.compare_eq_iff_eq.mpr heq)

/-- A list that binds no variable twice is looked up by membership. -/
theorem Subst.get?_ofList_of_mem {l : List (Ident × Ty)} (hl : (l.map Prod.fst).Nodup) {x : Ident}
    {t : Ty} (h : (x, t) ∈ l) : (ofList l).get? x = some t := by
  have hdistinct : l.Pairwise fun b c => ¬ compare b.1 c.1 = .eq :=
    (List.pairwise_map.mp hl).imp fun hne heq => hne (Std.LawfulEqOrd.compare_eq_iff_eq.mp heq)
  exact Std.ExtTreeMap.getElem?_ofList_of_mem Std.ReflOrd.compare_self hdistinct h

namespace Ty

/-- What other variables are put for can be written down as a substitution. -/
theorem exists_apply_eq_relabel (f : Ident → Ident) (t : Ty) :
    ∃ s : Subst, s.apply t = t.relabel f := by
  refine ⟨.ofList (t.vars.toList.map fun x => (x, var (f x))), apply_eq_relabel fun x hx => ?_⟩
  refine Subst.image_of_get? (Subst.get?_ofList_of_mem ?_ ?_)
  · rw [List.map_map, Function.comp_def, List.map_id']
    exact IdentSet.nodup_toList t.vars
  · have hmem : x ∈ t.vars.toList := Std.ExtTreeSet.mem_toList.mpr ((mem_vars t x).mpr hx)
    exact List.mem_map_of_mem hmem

/-! ## The order of names -/

/-- Of the display names, those that are not taken are used in their order. -/
theorem getElem?_unusedNames (taken : List Ident) {n k : Nat} (hk : k < n) :
    (unusedNames taken n)[k]? =
      some (.named (displayName (Nat.nth (fun i => .named (displayName i) ∉ taken) k))) := by
  have hlength := length_unusedNames taken n
  have hfilter : ∀ l : List Nat,
      (l.map fun i => Ident.named (displayName i)).filter (!taken.contains ·) =
        (l.filter fun i => .named (displayName i) ∉ taken).map fun i => .named (displayName i) := by
    intro l
    rw [List.filter_map]
    congr 2
    funext i
    simp
  rw [unusedNames, hfilter] at hlength ⊢
  rw [List.length_take, List.length_map, ← List.countP_eq_length_filter] at hlength
  -- there are as many as asked for, so that none of these is cut off
  have hcount : n ≤ Nat.count (fun i => .named (displayName i) ∉ taken) (n + taken.length) := by
    rw [Nat.count]
    omega
  rw [List.getElem?_take_of_lt hk, List.getElem?_map,
    getElem?_filter_range _ (Nat.lt_of_lt_of_le hk hcount), Option.map_some]

theorem exists_fresh_lt (t : Ty) : ∃ N, ∀ n, t.occurs (.fresh n) = true → n < N := by
  induction t with
  | nat | bool => exact ⟨0, fun n h => nomatch h⟩
  | var x =>
    cases x with
    | named s => exact ⟨0, fun n h => nomatch (occurs_var _ _).mp h⟩
    | fresh m =>
      refine ⟨m + 1, fun n h => ?_⟩
      cases (occurs_var _ _).mp h
      exact Nat.lt_succ_self m
  | arrow a b iha ihb | prod a b iha ihb =>
    obtain ⟨M, hM⟩ := iha
    obtain ⟨N, hN⟩ := ihb
    refine ⟨max M N, fun n h => ?_⟩
    rcases Bool.or_eq_true_iff.mp h with h | h
    · exact lt_max_of_lt_left (hM n h)
    · exact lt_max_of_lt_right (hN n h)

/-- The generated variables of a type are listed in the order of their numbers. -/
theorem filter_isFresh_vars (t : Ty) {N : Nat} (hN : ∀ n, t.occurs (.fresh n) = true → n < N) :
    t.vars.toList.filter Ident.isFresh =
      ((range N).filter fun n => t.occurs (.fresh n) = true).map .fresh := by
  have hleft : (t.vars.toList.filter Ident.isFresh).Pairwise fun x y => compare x y = .lt :=
    Std.ExtTreeSet.ordered_toList.filter _
  have hright : (((range N).filter fun n => t.occurs (.fresh n) = true).map Ident.fresh).Pairwise
      fun x y => compare x y = .lt := by
    rw [List.pairwise_map]
    exact (List.pairwise_lt_range.filter _).imp fun h => Nat.compare_eq_lt.mpr h
  refine List.Perm.eq_of_pairwise (fun x y _ _ hxy hyx => ?_) hleft hright ?_
  · rw [Std.OrientedOrd.eq_swap, hyx] at hxy
    cases hxy
  · have hfresh : (((range N).filter fun n => t.occurs (.fresh n) = true).map Ident.fresh).Nodup :=
      List.Nodup.map (fun _ _ h => Ident.fresh.inj h) (List.nodup_range.filter _)
    refine (List.perm_ext_iff_of_nodup ((IdentSet.nodup_toList t.vars).filter _) hfresh).mpr
      fun x => ?_
    cases x with
    | named s => simp [Ident.isFresh]
    | fresh n => simpa [Ident.isFresh, mem_vars] using hN n

end Ty

/-! ## The choice of names -/

/-- Show `?n` as the display name number `σ n`; written names stay. -/
def Ident.display (σ : Nat → Nat) : Ident → Ident
  | named s => named s
  | fresh n => named (displayName (σ n))

/-- Give `?n` the number `ρ n`; written names stay. -/
def Ident.renumber (ρ : Nat → Nat) : Ident → Ident
  | named s => named s
  | fresh n => fresh (ρ n)

namespace Ty

/-- The generated variables `?n` of the type are given the display names number `σ n`: names that it
does not use, in the order of `n`, and as early ones as that allows. -/
structure FirstUnused (t : Ty) (σ : Nat → Nat) : Prop where
  unused : ∀ n, t.occurs (.fresh n) = true → t.occurs (.named (displayName (σ n))) = false
  increasing : ∀ m n, t.occurs (.fresh m) = true → t.occurs (.fresh n) = true → m < n → σ m < σ n
  first : ∀ n, t.occurs (.fresh n) = true → ∀ i < σ n,
    t.occurs (.named (displayName i)) = true ∨ ∃ m < n, t.occurs (.fresh m) = true ∧ σ m = i

variable {t : Ty} {σ τ : Nat → Nat}

/-- Up to `?n` there is only one choice if there was only one before it. -/
theorem FirstUnused.le (h : t.FirstUnused σ) (h' : t.FirstUnused τ) {n : Nat}
    (hn : t.occurs (.fresh n) = true)
    (heq : ∀ m < n, t.occurs (.fresh m) = true → σ m = τ m) : τ n ≤ σ n := by
  by_contra hlt
  rcases h'.first n hn (σ n) (Nat.not_le.mp hlt) with hused | ⟨m, hmn, hm, hτ⟩
  · rw [h.unused n hn] at hused
    cases hused
  · have hσ := h.increasing m n hm hn hmn
    rw [heq m hmn hm, hτ] at hσ
    exact Nat.lt_irrefl _ hσ

theorem FirstUnused.unique (h : t.FirstUnused σ) (h' : t.FirstUnused τ) {n : Nat}
    (hn : t.occurs (.fresh n) = true) : σ n = τ n := by
  induction n using Nat.strongRecOn with
  | ind n ih =>
    have hτ := h.le h' hn fun m hm hocc => ih m hm hocc
    have hσ := h'.le h hn fun m hm hocc => (ih m hm hocc).symm
    exact Nat.le_antisymm hσ hτ

/-- Different variables are displayed as different ones. -/
theorem FirstUnused.injective (h : t.FirstUnused σ) {x y : Ident} (hx : t.occurs x = true)
    (hy : t.occurs y = true) (heq : x.display σ = y.display σ) : x = y := by
  have hcapture : ∀ s n, t.occurs (.named s) = true → t.occurs (.fresh n) = true →
      s ≠ displayName (σ n) := by
    rintro _ n hs hn rfl
    rw [h.unused n hn] at hs
    cases hs
  cases x with
  | named s =>
    cases y with
    | named r => exact heq
    | fresh n => exact absurd (Ident.named.inj heq) (hcapture s n hx hy)
  | fresh m =>
    cases y with
    | named s => exact absurd (Ident.named.inj heq).symm (hcapture s m hy hx)
    | fresh n =>
      have hσ : σ m = σ n := displayName_injective (Ident.named.inj heq)
      rcases Nat.lt_trichotomy m n with hmn | rfl | hmn
      · exact absurd hσ (Nat.ne_of_lt (h.increasing m n hx hy hmn))
      · rfl
      · exact absurd hσ (Nat.ne_of_gt (h.increasing n m hy hx hmn))

/-! ## Other numbers -/

theorem occurs_renumber_named (ρ : Nat → Nat) (t : Ty) (s : String) :
    (t.relabel (Ident.renumber ρ)).occurs (.named s) = t.occurs (.named s) := by
  rw [Bool.eq_iff_iff, occurs_relabel_iff]
  constructor
  · rintro ⟨x | n, hx, h⟩
    · rwa [← hx]
    · cases hx
  · exact fun h => ⟨.named s, rfl, h⟩

theorem occurs_renumber_fresh (ρ : Nat → Nat) (t : Ty) (k : Nat) :
    (t.relabel (Ident.renumber ρ)).occurs (.fresh k) = true ↔
      ∃ n, ρ n = k ∧ t.occurs (.fresh n) = true := by
  rw [occurs_relabel_iff]
  constructor
  · rintro ⟨s | n, hx, h⟩
    · cases hx
    · exact ⟨n, Ident.fresh.inj hx, h⟩
  · rintro ⟨n, rfl, h⟩
    exact ⟨.fresh n, rfl, h⟩

/-- The choice of names depends on nothing but the order of the numbers and the display names that
are in the type already. -/
theorem FirstUnused.comp {u : Ty} {ρ : Nat → Nat}
    (hnames : ∀ i, u.occurs (.named (displayName i)) = t.occurs (.named (displayName i)))
    (hnumbers : ∀ k, u.occurs (.fresh k) = true ↔ ∃ n, ρ n = k ∧ t.occurs (.fresh n) = true)
    (hρ : ∀ m n, t.occurs (.fresh m) = true → t.occurs (.fresh n) = true → m < n → ρ m < ρ n)
    (h : u.FirstUnused σ) : t.FirstUnused (σ ∘ ρ) := by
  have hfresh : ∀ n, t.occurs (.fresh n) = true → u.occurs (.fresh (ρ n)) = true :=
    fun n hn => (hnumbers _).mpr ⟨n, rfl, hn⟩
  refine ⟨fun n hn => ?_, fun m n hm hn hmn => ?_, fun n hn i hi => ?_⟩
  · rw [← hnames]
    exact h.unused _ (hfresh n hn)
  · exact h.increasing _ _ (hfresh m hm) (hfresh n hn) (hρ m n hm hn hmn)
  · rcases h.first _ (hfresh n hn) i hi with hused | ⟨k, hk, hocc, hσ⟩
    · exact .inl ((hnames i).symm.trans hused)
    · obtain ⟨m, rfl, hm⟩ := (hnumbers k).mp hocc
      refine .inr ⟨m, ?_, hm, hσ⟩
      by_contra hle
      rcases Nat.lt_or_eq_of_le (Nat.not_lt.mp hle) with hnm | rfl
      · exact Nat.lt_asymm hk (hρ n m hn hm hnm)
      · exact Nat.lt_irrefl _ hk

/-! ## What is displayed -/

/-- Only finitely many display names are in a type. -/
theorem infinite_unused (t : Ty) :
    {i | ¬ t.occurs (.named (displayName i)) = true}.Infinite := by
  have hvars : {x | t.occurs x = true}.Finite := by
    refine (List.finite_toSet t.vars.toList).subset fun x hx => ?_
    exact Std.ExtTreeSet.mem_toList.mpr ((mem_vars t x).mpr hx)
  have hnames : Function.Injective fun i => Ident.named (displayName i) :=
    fun i j h => displayName_injective (Ident.named.inj h)
  exact (hvars.preimage hnames.injOn).infinite_compl

/-- The name of `?n` is the unused one that has as many unused names before it as there are
generated variables before `?n`. -/
theorem firstUnused_nth (t : Ty) :
    t.FirstUnused fun n => Nat.nth (fun i => ¬ t.occurs (.named (displayName i)) = true)
      (Nat.count (fun m => t.occurs (.fresh m) = true) n) := by
  have hinf := t.infinite_unused
  refine ⟨fun n _ => ?_, fun m n hm _ hmn => ?_, fun n hn i hi => ?_⟩
  · exact Bool.eq_false_iff.mpr (Nat.nth_mem_of_infinite hinf _)
  · exact Nat.nth_strictMono hinf (Nat.count_strict_mono hm hmn)
  · rw [or_iff_not_imp_left]
    intro hunused
    exact exists_nth_count_eq hinf hn hi hunused

/-- To display a type is to rename its generated variables. -/
theorem withDisplayNames_eq (t : Ty) :
    ∃ σ, t.FirstUnused σ ∧ t.withDisplayNames = t.relabel (Ident.display σ) := by
  refine ⟨_, t.firstUnused_nth, apply_eq_relabel fun x hx => ?_⟩
  cases x with
  | named s =>
    refine Subst.image_of_unbound (Option.eq_none_iff_forall_ne_some.mpr fun u hu => ?_)
    obtain ⟨n, hn⟩ := fresh_of_get?_displaying hu
    cases hn
  | fresh n =>
    obtain ⟨N, hN⟩ := t.exists_fresh_lt
    have hlist := t.filter_isFresh_vars hN
    have hwritten : (fun i => .named (displayName i) ∉ t.vars.toList.filter (!·.isFresh)) =
        fun i => ¬ t.occurs (.named (displayName i)) = true := by
      funext i
      simp [mem_vars, Ident.isFresh]
    -- `?n` and its name are at the same place of their lists
    have hcount := Nat.count_strict_mono (p := fun m => t.occurs (.fresh m) = true) hx (hN n hx)
    have hplace : (t.vars.toList.filter Ident.isFresh)[
        Nat.count (fun m => t.occurs (.fresh m) = true) n]? = some (.fresh n) := by
      rw [hlist, List.getElem?_map, getElem?_filter_range _ hcount, Nat.nth_count hx]
      rfl
    obtain ⟨hlength, -⟩ := List.getElem?_eq_some_iff.mp hplace
    refine Subst.image_of_get? (Subst.get?_ofList_of_mem ?_ ?_)
    · rw [List.map_fst_zip (Nat.le_of_eq (by rw [List.length_map, length_unusedNames]))]
      exact (IdentSet.nodup_toList t.vars).filter _
    · refine List.mem_of_getElem? (List.getElem?_zip_eq_some.mpr ⟨hplace, ?_⟩)
      rw [List.getElem?_map, getElem?_unusedNames _ hlength, hwritten]
      rfl

/-- Display names run through the letters, round by round. -/
theorem displayName_round (r : Nat) {j : Nat} (hj : j < 26) :
    displayName (26 * r + j) =
      String.singleton (Char.ofNat ('A'.toNat + j)) ++ if r = 0 then "" else Nat.repr r := by
  have hmod : (26 * r + j) % 26 = j := by omega
  have hdiv : (26 * r + j) / 26 = r := by omega
  rw [displayName, hmod, hdiv]
  by_cases hr : r = 0
  · rw [if_pos hr, if_pos (by omega), String.append_empty]
  · rw [if_neg hr, if_neg (by omega)]

/-- What is displayed has no generated variables. -/
theorem written_withDisplayNames (t : Ty) : t.withDisplayNames.Written := by
  obtain ⟨σ, -, heq⟩ := t.withDisplayNames_eq
  intro n
  rw [heq, Bool.eq_false_iff]
  intro hocc
  obtain ⟨x, hx, -⟩ := (occurs_relabel_iff _ t _).mp hocc
  cases x with
  | named s => cases hx
  | fresh m => cases hx

/-- A type without generated variables is displayed as it is. -/
theorem Written.withDisplayNames_eq (h : t.Written) : t.withDisplayNames = t := by
  obtain ⟨σ, -, heq⟩ := t.withDisplayNames_eq
  rw [heq]
  refine (relabel_congr fun x hx => ?_).trans t.relabel_id
  cases x with
  | named s => rfl
  | fresh n => rw [h n] at hx; cases hx

/-- Types that differ in the numbers of generated variables, but not in the order of these, are
displayed alike. -/
theorem withDisplayNames_renumber {ρ : Nat → Nat}
    (hρ : ∀ m n, t.occurs (.fresh m) = true → t.occurs (.fresh n) = true → m < n → ρ m < ρ n) :
    (t.relabel (Ident.renumber ρ)).withDisplayNames = t.withDisplayNames := by
  obtain ⟨σ, hσ, heq⟩ := t.withDisplayNames_eq
  obtain ⟨τ, hτ, heq'⟩ := (t.relabel (Ident.renumber ρ)).withDisplayNames_eq
  rw [heq, heq', relabel_relabel]
  refine relabel_congr fun x hx => ?_
  cases x with
  | named s => rfl
  | fresh n =>
    have hcomp := hτ.comp (fun i => occurs_renumber_named ρ t _) (occurs_renumber_fresh ρ t) hρ
    exact congrArg (fun i => Ident.named (displayName i)) (hcomp.unique hσ hx)

/-- A renaming that leaves the display names alone commutes with giving display names to generated
variables. -/
theorem withDisplayNames_rename {ρ : String → String} (hρ : Function.Injective ρ)
    (hdisplay : ∀ i, ρ (displayName i) = displayName i) (t : Ty) :
    (t.rename ρ).withDisplayNames = t.withDisplayNames.rename ρ := by
  obtain ⟨σ, hσ, heq⟩ := t.withDisplayNames_eq
  obtain ⟨τ, hτ, heq'⟩ := (t.rename ρ).withDisplayNames_eq
  have hnames : ∀ i, (t.rename ρ).occurs (.named (displayName i)) =
      t.occurs (.named (displayName i)) := by
    intro i
    have h := occurs_rename hρ t (.named (displayName i))
    rwa [Ident.rename, hdisplay] at h
  have hnumbers : ∀ k, (t.rename ρ).occurs (.fresh k) = true ↔
      ∃ n, id n = k ∧ t.occurs (.fresh n) = true := by
    intro k
    have h : (t.rename ρ).occurs (.fresh k) = t.occurs (.fresh k) := occurs_rename hρ t (.fresh k)
    simp [h]
  rw [heq, heq', rename_eq_relabel, rename_eq_relabel, relabel_relabel, relabel_relabel]
  refine relabel_congr fun x hx => ?_
  cases x with
  | named s => rfl
  | fresh n =>
    have hcomp := hτ.comp hnames hnumbers fun _ _ _ _ h => h
    show Ident.named (displayName (τ n)) = .named (ρ (displayName (σ n)))
    rw [hdisplay, ← hcomp.unique hσ hx]
    rfl

/-- What is displayed can be turned back by putting other variables for its variables. -/
theorem exists_apply_withDisplayNames (t : Ty) : ∃ s : Subst, s.apply t.withDisplayNames = t := by
  obtain ⟨σ, hσ, heq⟩ := t.withDisplayNames_eq
  let back := Function.invFunOn (Ident.display σ) {x | t.occurs x = true}
  obtain ⟨s, hs⟩ := exists_apply_eq_relabel back t.withDisplayNames
  refine ⟨s, hs.trans ?_⟩
  rw [heq, relabel_relabel]
  refine (relabel_congr fun x hx => ?_).trans t.relabel_id
  have hinj : Set.InjOn (Ident.display σ) {x | t.occurs x = true} :=
    fun x hx y hy h => hσ.injective hx hy h
  exact hinj.leftInvOn_invFunOn hx

/-- **Display names are canonical.** What is displayed has no generated variable left. It is the
type with other variables put for these, each for one only, namely the first of `A` to `Z`, `A1` to
`Z1` and so on that the type does not use, in the order of numbers; so either is an instance of the
other. Displaying it again changes nothing, and neither do other numbers in the same order. -/
theorem withDisplayNames_canonical (t : Ty) :
    t.withDisplayNames.Written ∧
    (∃ σ, t.FirstUnused σ ∧ t.withDisplayNames = t.relabel (Ident.display σ) ∧
      ∀ x y, t.occurs x = true → t.occurs y = true → x.display σ = y.display σ → x = y) ∧
    (∃ s : Subst, s.apply t = t.withDisplayNames) ∧
    (∃ s : Subst, s.apply t.withDisplayNames = t) ∧
    t.withDisplayNames.withDisplayNames = t.withDisplayNames ∧
    (∀ ρ : Nat → Nat,
      (∀ m n, t.occurs (.fresh m) = true → t.occurs (.fresh n) = true → m < n → ρ m < ρ n) →
      (t.relabel (Ident.renumber ρ)).withDisplayNames = t.withDisplayNames) ∧
    ∀ r j, j < 26 → displayName (26 * r + j) =
      String.singleton (Char.ofNat ('A'.toNat + j)) ++ if r = 0 then "" else Nat.repr r := by
  have hwritten := written_withDisplayNames t
  obtain ⟨σ, hσ, heq⟩ := t.withDisplayNames_eq
  exact ⟨hwritten, ⟨σ, hσ, heq, fun x y => hσ.injective⟩, ⟨_, rfl⟩,
    t.exists_apply_withDisplayNames, hwritten.withDisplayNames_eq,
    fun ρ => withDisplayNames_renumber, fun r j => displayName_round r⟩

/-- Two numbers change but keep their order, and the type uses the names `A` and `C`. -/
theorem withDisplayNames_canonical_used :
    ∃ t ρ, t = Ty.arrow (.var (.fresh 7)) (.arrow (.prod (.var (.named "A")) (.var (.named "C")))
        (.arrow (.var (.fresh 3)) (.var (.fresh 7)))) ∧
      ρ = (fun n => 100 * n + 1) ∧
      (∀ m n, t.occurs (.fresh m) = true → t.occurs (.fresh n) = true → m < n → ρ m < ρ n) ∧
      t.withDisplayNames = .arrow (.var (.named "D"))
        (.arrow (.prod (.var (.named "A")) (.var (.named "C")))
          (.arrow (.var (.named "B")) (.var (.named "D")))) ∧
      (t.relabel (Ident.renumber ρ)).withDisplayNames = t.withDisplayNames := by
  have hρ : ∀ m n, m < n → 100 * m + 1 < 100 * n + 1 := fun m n h => by omega
  refine ⟨_, _, rfl, rfl, fun m n _ _ => hρ m n, by decide, ?_⟩
  exact (withDisplayNames_canonical _).2.2.2.2.2.1 _ fun m n _ _ => hρ m n

end Ty

end SystemT
