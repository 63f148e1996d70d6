import SystemT.Unification
import SystemT.Context

/-!
# The variables of types, problems and contexts

A type `t` mentions the variable `x` if `t.occurs x`. The sets of variables that the library
computes are described here by that one notion: `Ty.mem_vars`, `mem_equationVars`,
`Context.mem_declaredVars` and `Context.mem_vars`. Sizes of such sets are compared by inclusion
(`IdentSet.size_le_of_subset`, `IdentSet.size_lt_of_subset`), which is what measures of unification
problems rest on.
-/

namespace SystemT

/-! ## Sets of identifiers -/

namespace IdentSet

theorem size_le_of_subset {a b : IdentSet} (h : ∀ x, x ∈ a → x ∈ b) : a.size ≤ b.size := by
  have hinter : (a ∩ b).size = a.size := Std.ExtTreeSet.size_inter_eq_size_left h
  rw [← hinter]
  exact Std.ExtTreeSet.size_inter_le_size_right

/-- A set that lacks a member of a larger one has fewer members. -/
theorem size_lt_of_subset {a b : IdentSet} {x : Ident} (h : ∀ y, y ∈ a → y ∈ b) (hb : x ∈ b)
    (ha : x ∉ a) : a.size < b.size := by
  have hle : a.size ≤ (b.erase x).size := by
    refine size_le_of_subset fun y hy => ?_
    rw [Std.ExtTreeSet.mem_erase]
    refine ⟨fun hxy => ?_, h y hy⟩
    rw [Std.LawfulEqOrd.compare_eq_iff_eq] at hxy
    exact ha (hxy ▸ hy)
  have hpos : 0 < b.size := by
    rw [Nat.pos_iff_ne_zero]
    intro hzero
    rw [← Std.ExtTreeSet.eq_empty_iff_size_eq_zero] at hzero
    exact Std.ExtTreeSet.not_mem_empty (hzero ▸ hb)
  rw [Std.ExtTreeSet.size_erase, if_pos (Std.ExtTreeSet.mem_iff_contains.mp hb)] at hle
  omega

/-- Sets with the same generated members list these in the same order. -/
theorem filter_isFresh_congr {a b : IdentSet} (h : ∀ n, .fresh n ∈ b ↔ .fresh n ∈ a) :
    b.toList.filter Ident.isFresh = a.toList.filter Ident.isFresh := by
  rw [← Std.ExtTreeSet.toList_filter, ← Std.ExtTreeSet.toList_filter]
  congr 1
  refine Std.ExtTreeSet.ext_mem fun x => ?_
  simp only [Std.ExtTreeSet.mem_filter, Std.ExtTreeSet.get_eq, exists_prop]
  cases x with
  | named s => simp [Ident.isFresh]
  | fresh n => rw [h]

end IdentSet

/-! ## Types -/

namespace Ty

theorem mem_addVars (t : Ty) (seen : IdentSet) (x : Ident) :
    x ∈ t.addVars seen ↔ x ∈ seen ∨ t.occurs x = true := by
  induction t generalizing seen with
  | nat | bool => simp [addVars, occurs]
  | var y =>
    simp only [addVars, occurs, Std.ExtTreeSet.mem_insert, Std.LawfulEqOrd.compare_eq_iff_eq,
      decide_eq_true_eq]
    exact or_comm
  | arrow a b iha ihb | prod a b iha ihb =>
    simp only [addVars, occurs, ihb, iha, Bool.or_eq_true, or_assoc]

theorem mem_vars (t : Ty) (x : Ident) : x ∈ t.vars ↔ t.occurs x = true := by
  simp [vars, mem_addVars]

theorem mem_foldl_addVars (ts : List Ty) (seen : IdentSet) (x : Ident) :
    x ∈ ts.foldl addVars seen ↔ x ∈ seen ∨ ∃ t ∈ ts, t.occurs x = true := by
  induction ts generalizing seen with
  | nil => simp
  | cons t ts ih =>
    rw [List.foldl_cons, ih, mem_addVars]
    simp [or_assoc]

theorem occurs_var (x y : Ident) : (var x).occurs y = true ↔ x = y := by
  rw [occurs, decide_eq_true_eq]

theorem size_pos (t : Ty) : 0 < t.size := by
  cases t <;> simp only [size] <;> omega

/-- The variables of `t` with `a` put for `x`: those of `t` apart from `x`, and those of `a` if `x`
was there. -/
theorem occurs_subst (t : Ty) (x y : Ident) (a : Ty) :
    (t.subst x a).occurs y = true ↔
      (y ≠ x ∧ t.occurs y = true) ∨ (t.occurs x = true ∧ a.occurs y = true) := by
  induction t with
  | nat | bool => simp [subst, occurs]
  | var z =>
    by_cases h : z = x
    · subst h
      simp only [subst, occurs, if_pos, decide_eq_true_eq, true_and]
      constructor
      · exact .inr
      · rintro (⟨hne, hz⟩ | h)
        · exact absurd hz.symm hne
        · exact h
    · rw [subst, if_neg h]
      simp only [occurs, decide_eq_true_eq, h, false_and, or_false]
      constructor
      · rintro rfl
        exact ⟨h, rfl⟩
      · exact And.right
  | arrow b c ihb ihc | prod b c ihb ihc =>
    simp only [subst, occurs, Bool.or_eq_true, ihb, ihc]
    grind

end Ty

/-! ## Problems -/

theorem mem_equationVars (problem : List Equation) (x : Ident) :
    x ∈ equationVars problem ↔ ∃ e ∈ problem, e.1.occurs x = true ∨ e.2.occurs x = true := by
  have hfold : ∀ seen : IdentSet,
      x ∈ problem.foldl (fun seen e => e.2.addVars (e.1.addVars seen)) seen ↔
        x ∈ seen ∨ ∃ e ∈ problem, e.1.occurs x = true ∨ e.2.occurs x = true := by
    induction problem with
    | nil => simp
    | cons e rest ih =>
      intro seen
      rw [List.foldl_cons, ih, Ty.mem_addVars, Ty.mem_addVars]
      simp [or_assoc]
  exact (hfold ∅).trans (by simp)

theorem mem_equationVars_cons (e : Equation) (rest : List Equation) (x : Ident) :
    x ∈ equationVars (e :: rest) ↔
      (e.1.occurs x = true ∨ e.2.occurs x = true) ∨ x ∈ equationVars rest := by
  simp only [mem_equationVars, List.mem_cons, exists_eq_or_imp]

/-! ## Contexts -/

/-- The values of a map are what its entries hold. -/
theorem mem_values {m : IdentMap Ty} {t : Ty} : t ∈ m.values ↔ ∃ x : Ident, m[x]? = some t := by
  have hvalues : m.values = m.toList.map (·.2) := by
    rcases m with ⟨⟨q⟩⟩
    induction q using Quotient.inductionOn with
    | _ tree =>
      show Std.DTreeMap.Internal.Impl.values tree.inner =
        (Std.DTreeMap.Internal.Impl.Const.toList tree.inner).map _
      rw [Std.DTreeMap.Internal.Impl.values_eq_map_snd,
        Std.DTreeMap.Internal.Impl.Const.toList_eq_toListModel_map]
      simp
  simp [hvalues, Std.ExtTreeMap.mem_toList_iff_getElem?_eq_some]

namespace Context

theorem mem_declaredVars (Γ : Context) (x : Ident) :
    x ∈ Γ.declaredVars ↔ ∃ c t, Γ.lookup? c = some t ∧ t.occurs x = true := by
  simp only [declaredVars, Ty.mem_foldl_addVars, mem_values, lookup?]
  constructor
  · rintro (h | ⟨t, ⟨c, hc⟩, ht⟩)
    · exact absurd h Std.ExtTreeSet.not_mem_empty
    · exact ⟨c, t, hc, ht⟩
  · rintro ⟨c, t, hc, ht⟩
    exact .inr ⟨t, ⟨c, hc⟩, ht⟩

theorem mem_vars (Γ : Context) (x : Ident) :
    x ∈ Γ.vars ↔ x ∈ Γ.declaredVars ∨ ∃ t ∈ Γ.bound, t.occurs x = true :=
  Ty.mem_foldl_addVars ..

@[simp] theorem lookup?_empty (x : Ident) : empty.lookup? x = none :=
  Std.ExtTreeMap.getElem?_empty

theorem lookup?_declare (Γ : Context) (x y : Ident) (t : Ty) :
    (Γ.declare x t).lookup? y = if x = y then some t else Γ.lookup? y := by
  simp [lookup?, declare, Std.ExtTreeMap.getElem?_insert]

/-- What holds of a new declaration and of the others holds of all. -/
theorem forall_lookup?_declare {Γ : Context} {P : Ty → Prop} {x : Ident} {t : Ty} (ht : P t)
    (h : ∀ y u, Γ.lookup? y = some u → P u) :
    ∀ y u, (Γ.declare x t).lookup? y = some u → P u := by
  intro y u hy
  rw [lookup?_declare] at hy
  by_cases hxy : x = y
  · rw [if_pos hxy] at hy
    cases hy
    exact ht
  · rw [if_neg hxy] at hy
    exact h y u hy

@[simp] theorem bound_apply (Γ : Context) (s : Subst) :
    (Γ.apply s).bound = Γ.bound.map s.apply := rfl

end Context

end SystemT
