import SystemT.Proofs.Inference.Rules
import SystemT.Proofs.Typing

/-!
# Inference is sound

What type inference answers is a typing: the term has the inferred type in the context under the
inferred substitution. The proof follows the derivation of the answer and carries along

- that the substitution so far is resolved, leaves the variables of declarations alone, and mentions
  only variables of the context and variables issued since the inference began (`Solved`);
- that the types in play hold none of its bound variables (`Settled`).

Every further substitution that inference finds, be it inferred from the next subterm or found by
the unifier, mentions only variables that are not bound so far (`Extends`). That makes compositions
resolved, and keeps both invariants (`Solved.compose`, `Settled.compose`).
-/

namespace SystemT

namespace Context

/-- The variables of the context, and those that were issued from number `lo` on up to `hi`. -/
def Scope (Γ : Context) (lo hi : Nat) (x : Ident) : Prop :=
  x ∈ Γ.vars ∨ ∃ n, x = .fresh n ∧ lo ≤ n ∧ n < hi

/-- The numbers from `n` on are not used in the context. -/
def FreshFrom (Γ : Context) (n : Nat) : Prop := ∀ m, .fresh m ∈ Γ.vars → m < n

/-- `s` is resolved, binds no variable of a declaration, and mentions only variables in scope. -/
structure Solved (Γ : Context) (lo hi : Nat) (s : Subst) : Prop where
  declared : ∀ x ∈ Γ.declaredVars, s.get? x = none
  resolved : s.Resolved
  scope : ∀ x, s.Mentions x → Γ.Scope lo hi x

/-- The variables of `A` are in scope and not bound by `s`. -/
def Settled (Γ : Context) (lo hi : Nat) (s : Subst) (A : Ty) : Prop :=
  ∀ x, A.occurs x = true → s.get? x = none ∧ Γ.Scope lo hi x

/-- `s'` is resolved, binds no variable of a declaration, and mentions only variables that are in
scope and not bound by `s`. -/
structure Extends (Γ : Context) (lo hi : Nat) (s s' : Subst) : Prop where
  declared : ∀ x ∈ Γ.declaredVars, s'.get? x = none
  resolved : s'.Resolved
  scope : ∀ x, s'.Mentions x → s.get? x = none ∧ Γ.Scope lo hi x

variable {Γ : Context} {lo mid hi : Nat} {s s' : Subst} {A B : Ty}

theorem Scope.mono {x : Ident} (h : Γ.Scope lo mid x) (hle : mid ≤ hi) : Γ.Scope lo hi x := by
  rcases h with h | ⟨n, rfl, hlo, hmid⟩
  · exact .inl h
  · exact .inr ⟨n, rfl, hlo, by omega⟩

theorem Solved.mono (h : Γ.Solved lo mid s) (hle : mid ≤ hi) : Γ.Solved lo hi s :=
  ⟨h.declared, h.resolved, fun x hx => (h.scope x hx).mono hle⟩

theorem Settled.mono (h : Γ.Settled lo mid s A) (hle : mid ≤ hi) : Γ.Settled lo hi s A :=
  fun x hx => ⟨(h x hx).1, (h x hx).2.mono hle⟩

theorem solved_empty (Γ : Context) (lo hi : Nat) : Γ.Solved lo hi ∅ :=
  ⟨fun x _ => Subst.get?_empty x, Subst.resolved_empty,
    fun x hx => absurd hx (Subst.not_mentions_empty x)⟩

/-! ## Composition -/

theorem Solved.compose (h : Γ.Solved lo hi s) (h' : Γ.Extends lo hi s s') :
    Γ.Solved lo hi (s.compose s') := by
  refine ⟨fun x hx => ?_, ?_, fun x hx => ?_⟩
  · exact Subst.get?_compose_eq_none.mpr ⟨h.declared x hx, h'.declared x hx⟩
  · exact h.resolved.compose h'.resolved fun x hx => (h'.scope x hx).1
  · rcases Subst.mentions_compose hx with hx | hx
    · exact h.scope x hx
    · exact (h'.scope x hx).2

theorem Settled.compose (hA : Γ.Settled lo hi s A) (h' : Γ.Extends lo hi s s') :
    Γ.Settled lo hi (s.compose s') (s'.apply A) := by
  intro x hx
  have hs' : s'.get? x = none := h'.resolved.unbound_of_occurs_apply hx
  rw [Subst.get?_compose_eq_none]
  rcases Subst.occurs_apply_cases hx with ⟨hx, -⟩ | hx
  · exact ⟨⟨(hA x hx).1, hs'⟩, (hA x hx).2⟩
  · exact ⟨⟨(h'.scope x hx).1, hs'⟩, (h'.scope x hx).2⟩

/-- A settled type does not change under the substitution. -/
theorem Settled.apply_eq (hA : Γ.Settled lo hi s A) : s.apply A = A :=
  Subst.apply_of_unbound fun x hx => (hA x hx).1

/-! ## What extends a substitution -/

/-- The variables of a context under a substitution are in scope and not bound. -/
theorem Solved.unbound_of_mem_vars (h : Γ.Solved lo mid s) {x : Ident}
    (hx : x ∈ (Γ.apply s).vars) : s.get? x = none ∧ Γ.Scope lo mid x := by
  rcases (mem_vars _ x).mp hx with hx | ⟨B, hB, hx⟩
  · exact ⟨h.declared x hx, .inl ((mem_vars Γ x).mpr (.inl hx))⟩
  · rw [bound_apply, List.mem_map] at hB
    obtain ⟨A, hA, rfl⟩ := hB
    refine ⟨h.resolved.unbound_of_occurs_apply hx, ?_⟩
    rcases Subst.occurs_apply_cases hx with ⟨hx, -⟩ | hx
    · exact .inl ((mem_vars Γ x).mpr (.inr ⟨A, hA, hx⟩))
    · exact h.scope x hx

/-- A variable that was issued later is not bound. -/
theorem Solved.unbound_of_le (h : Γ.Solved lo mid s) (hΓ : Γ.FreshFrom lo) (hlo : lo ≤ mid)
    {n : Nat} (hn : mid ≤ n) : s.get? (.fresh n) = none := by
  refine Classical.byContradiction fun hbound => ?_
  rcases h.scope _ (.inl hbound) with hmem | ⟨m, hm, -, hlt⟩
  · have := hΓ n hmem
    omega
  · cases hm
    omega

/-- What is in scope for the next subterm is in scope here and not bound. -/
theorem Solved.scope_apply (h : Γ.Solved lo mid s) (hΓ : Γ.FreshFrom lo) (hlo : lo ≤ mid)
    (hmid : mid ≤ hi) {x : Ident} (hx : (Γ.apply s).Scope mid hi x) :
    s.get? x = none ∧ Γ.Scope lo hi x := by
  rcases hx with hx | ⟨n, rfl, hn, hlt⟩
  · obtain ⟨hs, hscope⟩ := h.unbound_of_mem_vars hx
    exact ⟨hs, hscope.mono hmid⟩
  · exact ⟨h.unbound_of_le hΓ hlo hn, .inr ⟨n, rfl, by omega, hlt⟩⟩

/-- What is inferred from the next subterm extends the substitution so far. -/
theorem Solved.extends (h : Γ.Solved lo mid s) (hΓ : Γ.FreshFrom lo) (hlo : lo ≤ mid)
    (hmid : mid ≤ hi) (h' : (Γ.apply s).Solved mid hi s') : Γ.Extends lo hi s s' :=
  ⟨h'.declared, h'.resolved, fun x hx => h.scope_apply hΓ hlo hmid (h'.scope x hx)⟩

/-- The type inferred for the next subterm is settled. -/
theorem Solved.settled_next (h : Γ.Solved lo mid s) (hΓ : Γ.FreshFrom lo) (hlo : lo ≤ mid)
    (hmid : mid ≤ hi) (hA : (Γ.apply s).Settled mid hi s' A) :
    Γ.Settled lo hi (s.compose s') A := by
  intro x hx
  obtain ⟨hs', hscope⟩ := hA x hx
  obtain ⟨hs, hscope⟩ := h.scope_apply hΓ hlo hmid hscope
  exact ⟨Subst.get?_compose_eq_none.mpr ⟨hs, hs'⟩, hscope⟩

/-- What makes two settled types equal extends the substitution. -/
theorem extends_of_unify (hA : Γ.Settled lo hi s A) (hB : Γ.Settled lo hi s B)
    (h : unify [(A, B)] Γ.declaredVars = .ok s') : Γ.Extends lo hi s s' := by
  have hspec := unify_spec [(A, B)] Γ.declaredVars
  rw [h] at hspec
  obtain ⟨hgen, hmentions⟩ := hspec
  refine ⟨fun x hx => ?_, fun y t x hy hx => ?_, fun x hx => ?_⟩
  · rw [← Subst.contains_eq_false_iff, ← Bool.not_eq_true]
    exact fun hbound => (hgen.bound x hbound).2 hx
  · rw [← Subst.contains_eq_false_iff]
    exact hgen.resolved y t x hy hx
  · obtain ⟨e, he, hx⟩ := (mem_equationVars _ x).mp (hmentions x hx)
    obtain rfl := List.mem_singleton.mp he
    rcases hx with hx | hx
    · exact hA x hx
    · exact hB x hx

/-- A later issued variable is settled. -/
theorem Solved.settled_fresh (h : Γ.Solved lo mid s) (hΓ : Γ.FreshFrom lo) (hlo : lo ≤ mid)
    {n : Nat} (hmid : mid ≤ n) (hn : n < hi) : Γ.Settled lo hi s (.var (.fresh n)) := by
  intro x hx
  obtain rfl : Ident.fresh n = x := (Ty.occurs_var _ x).mp hx
  exact ⟨h.unbound_of_le hΓ hlo hmid, .inr ⟨n, rfl, by omega, hn⟩⟩

theorem settled_arrow : Γ.Settled lo hi s (.arrow A B) ↔
    Γ.Settled lo hi s A ∧ Γ.Settled lo hi s B := by
  simp only [Settled, Ty.occurs, Bool.or_eq_true]
  constructor
  · intro h
    exact ⟨fun x hx => h x (.inl hx), fun x hx => h x (.inr hx)⟩
  · rintro ⟨hA, hB⟩ x (hx | hx)
    · exact hA x hx
    · exact hB x hx

theorem settled_prod : Γ.Settled lo hi s (.prod A B) ↔
    Γ.Settled lo hi s A ∧ Γ.Settled lo hi s B := settled_arrow

theorem settled_nat : Γ.Settled lo hi s .nat := fun _ hx => nomatch hx

theorem settled_bool : Γ.Settled lo hi s .bool := fun _ hx => nomatch hx

/-- The types of a context are settled before anything is solved. -/
theorem settled_of_mem_vars (h : ∀ x, A.occurs x = true → x ∈ Γ.vars) :
    Γ.Settled lo hi ∅ A :=
  fun x hx => ⟨Subst.get?_empty x, .inl (h x hx)⟩

theorem FreshFrom.apply (hΓ : Γ.FreshFrom lo) (h : Γ.Solved lo mid s) (hlo : lo ≤ mid) :
    (Γ.apply s).FreshFrom mid := by
  intro n hn
  rcases (h.unbound_of_mem_vars hn).2 with hn | ⟨k, hk, -, hlt⟩
  · have := hΓ n hn
    omega
  · cases hk
    exact hlt

/-! ## Below a binder -/

/-- The variables below a binder are those of the context and the one issued for it. -/
theorem mem_vars_push {n : Nat} {x : Ident} (hx : x ∈ (Γ.push (.var (.fresh n))).vars) :
    x ∈ Γ.vars ∨ x = .fresh n := by
  rw [mem_vars] at hx ⊢
  rcases hx with hx | ⟨A, hA, hx⟩
  · exact .inl (.inl hx)
  · rcases List.mem_cons.mp hA with rfl | hA
    · exact .inr ((Ty.occurs_var _ x).mp hx).symm
    · exact .inl (.inr ⟨A, hA, hx⟩)

theorem FreshFrom.push (hΓ : Γ.FreshFrom lo) :
    (Γ.push (.var (.fresh lo))).FreshFrom (lo + 1) := by
  intro n hn
  rcases mem_vars_push hn with hn | hn
  · have := hΓ n hn
    omega
  · cases hn
    omega

theorem Scope.of_push {x : Ident} (h : (Γ.push (.var (.fresh lo))).Scope (lo + 1) hi x)
    (hle : lo + 1 ≤ hi) : Γ.Scope lo hi x := by
  rcases h with hx | ⟨n, rfl, hn, hlt⟩
  · rcases mem_vars_push hx with hx | rfl
    · exact .inl hx
    · exact .inr ⟨lo, rfl, Nat.le_refl lo, hle⟩
  · exact .inr ⟨n, rfl, by omega, hlt⟩

theorem Solved.of_push (h : (Γ.push (.var (.fresh lo))).Solved (lo + 1) hi s)
    (hle : lo + 1 ≤ hi) : Γ.Solved lo hi s :=
  ⟨h.declared, h.resolved, fun x hx => (h.scope x hx).of_push hle⟩

theorem Settled.of_push (h : (Γ.push (.var (.fresh lo))).Settled (lo + 1) hi s A)
    (hle : lo + 1 ≤ hi) : Γ.Settled lo hi s A :=
  fun x hx => ⟨(h x hx).1, (h x hx).2.of_push hle⟩

/-- What the variable issued for a binder becomes is settled. -/
theorem Solved.settled_param (h : Γ.Solved lo hi s) (hle : lo + 1 ≤ hi) :
    Γ.Settled lo hi s (s.apply (.var (.fresh lo))) := by
  intro x hx
  refine ⟨h.resolved.unbound_of_occurs_apply hx, ?_⟩
  rcases Subst.occurs_apply_cases hx with ⟨hx, -⟩ | hx
  · obtain rfl : Ident.fresh lo = x := (Ty.occurs_var _ x).mp hx
    exact .inr ⟨lo, rfl, Nat.le_refl lo, hle⟩
  · exact h.scope x hx

end Context

/-! ## The rules -/

/-- The answer `r` for `t` is a typing, and keeps the invariants. -/
structure SoundAt (Γ : Context) (t : Term) (lo hi : Nat) (r : Inferred) : Prop where
  solved : Γ.Solved lo hi r.subst
  settled : Γ.Settled lo hi r.subst r.ty
  typed : (Γ.apply r.subst).Types t r.ty

theorem unify_equalizes {A B : Ty} {rigid : IdentSet} {s : Subst}
    (h : unify [(A, B)] rigid = .ok s) : s.apply A = s.apply B := by
  have hspec := unify_spec [(A, B)] rigid
  rw [h] at hspec
  exact hspec.1.solution.equalizes (A, B) List.mem_cons_self

section

variable {Γ : Context} {n k l m : Nat}

/-- A type found without solving anything. -/
theorem soundAt_plain {t : Term} {A : Ty} (ht : Γ.Types t A)
    (hA : ∀ x, A.occurs x = true → x ∈ Γ.vars) : SoundAt Γ t n n (.plain A) := by
  refine ⟨Context.solved_empty Γ n n, Context.settled_of_mem_vars hA, ?_⟩
  show (Γ.apply ∅).Types t A
  rwa [Context.apply_empty]

theorem soundAt_lam {b : Term} {s : Subst} {B : Ty} (hΓ : Γ.FreshFrom n) (hle : n + 1 ≤ m)
    (hb : (Γ.push (.var (.fresh n))).FreshFrom (n + 1) →
      SoundAt (Γ.push (.var (.fresh n))) b (n + 1) m ⟨s, B⟩) :
    SoundAt Γ (.lam b) n m ⟨s, .arrow (s.apply (.var (.fresh n))) B⟩ := by
  obtain ⟨hsolved, hsettled, htyped⟩ := hb hΓ.push
  have hs : Γ.Solved n m s := hsolved.of_push hle
  have hparam : Γ.Settled n m s (s.apply (.var (.fresh n))) := hs.settled_param hle
  exact ⟨hs, Context.settled_arrow.mpr ⟨hparam, hsettled.of_push hle⟩, .lam htyped⟩

theorem soundAt_app {f a : Term} {s₁ s₂ s₃ : Subst} {A B : Ty} (hΓ : Γ.FreshFrom n)
    (hnk : n ≤ k) (hkm : k ≤ m) (hf : SoundAt Γ f n k ⟨s₁, A⟩)
    (ha : SoundAt (Γ.apply s₁) a k m ⟨s₂, B⟩)
    (heq : unify [(s₂.apply A, .arrow B (.var (.fresh m)))] Γ.declaredVars = .ok s₃) :
    SoundAt Γ (.app f a) n (m + 1)
      ⟨(s₁.compose s₂).compose s₃, s₃.apply (.var (.fresh m))⟩ := by
  have h₂ : Γ.Extends n m s₁ s₂ := hf.solved.extends hΓ hnk hkm ha.solved
  have hs : Γ.Solved n m (s₁.compose s₂) := (hf.solved.mono hkm).compose h₂
  have hA := ((hf.settled.mono hkm).compose h₂).mono (Nat.le_succ m)
  have hB := (hf.solved.settled_next hΓ hnk hkm ha.settled).mono (Nat.le_succ m)
  have hresult := hs.settled_fresh hΓ (by omega) (Nat.le_refl m) (Nat.lt_succ_self m)
  have h₃ := Context.extends_of_unify hA (Context.settled_arrow.mpr ⟨hB, hresult⟩) heq
  refine ⟨(hs.mono (Nat.le_succ m)).compose h₃, hresult.compose h₃, ?_⟩
  rw [Context.apply_compose, Context.apply_compose]
  have hfun := (hf.typed.apply ha.solved.declared).apply h₃.declared
  rw [unify_equalizes heq] at hfun
  exact .app hfun (ha.typed.apply h₃.declared)

theorem soundAt_pair {a b : Term} {s₁ s₂ : Subst} {A B : Ty} (hΓ : Γ.FreshFrom n)
    (hnk : n ≤ k) (hkm : k ≤ m) (ha : SoundAt Γ a n k ⟨s₁, A⟩)
    (hb : SoundAt (Γ.apply s₁) b k m ⟨s₂, B⟩) :
    SoundAt Γ (.pair a b) n m ⟨s₁.compose s₂, .prod (s₂.apply A) B⟩ := by
  have h₂ : Γ.Extends n m s₁ s₂ := ha.solved.extends hΓ hnk hkm hb.solved
  have hA := (ha.settled.mono hkm).compose h₂
  have hB := ha.solved.settled_next hΓ hnk hkm hb.settled
  refine ⟨(ha.solved.mono hkm).compose h₂, Context.settled_prod.mpr ⟨hA, hB⟩, ?_⟩
  rw [Context.apply_compose]
  exact .pair (ha.typed.apply hb.solved.declared) hb.typed

/-- What both projections have in common: the operand is a pair of the two new variables' images. -/
theorem soundAt_projection {p : Term} {s₁ s₂ : Subst} {A : Ty} (hΓ : Γ.FreshFrom n) (hnm : n ≤ m)
    (hp : SoundAt Γ p n m ⟨s₁, A⟩)
    (heq : unify [(A, .prod (.var (.fresh m)) (.var (.fresh (m + 1))))] Γ.declaredVars =
      .ok s₂) :
    Γ.Solved n (m + 2) (s₁.compose s₂) ∧
      Γ.Settled n (m + 2) (s₁.compose s₂) (s₂.apply (.var (.fresh m))) ∧
      Γ.Settled n (m + 2) (s₁.compose s₂) (s₂.apply (.var (.fresh (m + 1)))) ∧
      (Γ.apply (s₁.compose s₂)).Types p
        (.prod (s₂.apply (.var (.fresh m))) (s₂.apply (.var (.fresh (m + 1))))) := by
  have hs : Γ.Solved n (m + 2) s₁ := hp.solved.mono (by omega)
  have hA : Γ.Settled n (m + 2) s₁ A := hp.settled.mono (by omega)
  have hleft : Γ.Settled n (m + 2) s₁ (.var (.fresh m)) :=
    hp.solved.settled_fresh hΓ hnm (Nat.le_refl m) (by omega)
  have hright : Γ.Settled n (m + 2) s₁ (.var (.fresh (m + 1))) :=
    hp.solved.settled_fresh hΓ hnm (by omega) (by omega)
  have h₂ := Context.extends_of_unify hA (Context.settled_prod.mpr ⟨hleft, hright⟩) heq
  refine ⟨hs.compose h₂, hleft.compose h₂, hright.compose h₂, ?_⟩
  rw [Context.apply_compose]
  have hpair := hp.typed.apply h₂.declared
  rwa [unify_equalizes heq] at hpair

theorem soundAt_succ {t : Term} {s₁ s₂ : Subst} {A : Ty}
    (ht : SoundAt Γ t n m ⟨s₁, A⟩) (heq : unify [(A, .nat)] Γ.declaredVars = .ok s₂) :
    SoundAt Γ (.succ t) n m ⟨s₁.compose s₂, .nat⟩ := by
  have h₂ := Context.extends_of_unify ht.settled Context.settled_nat heq
  refine ⟨ht.solved.compose h₂, Context.settled_nat, ?_⟩
  rw [Context.apply_compose]
  have hnat := ht.typed.apply h₂.declared
  rw [unify_equalizes heq] at hnat
  exact .succ hnat

theorem soundAt_cond {c t e : Term} {s₁ u₁ s₂ s₃ s₄ : Subst} {C A B : Ty}
    (hΓ : Γ.FreshFrom n) (hnk : n ≤ k) (hkl : k ≤ l) (hlm : l ≤ m)
    (hc : SoundAt Γ c n k ⟨s₁, C⟩) (hbool : unify [(C, .bool)] Γ.declaredVars = .ok u₁)
    (ht : (Γ.apply (s₁.compose u₁)).FreshFrom k →
      SoundAt (Γ.apply (s₁.compose u₁)) t k l ⟨s₂, A⟩)
    (he : (Γ.apply ((s₁.compose u₁).compose s₂)).FreshFrom l →
      SoundAt (Γ.apply ((s₁.compose u₁).compose s₂)) e l m ⟨s₃, B⟩)
    (heq : unify [(s₃.apply A, B)] Γ.declaredVars = .ok s₄) :
    SoundAt Γ (.cond c t e) n m
      ⟨(((s₁.compose u₁).compose s₂).compose s₃).compose s₄, s₄.apply B⟩ := by
  -- the condition
  have hu₁ := Context.extends_of_unify hc.settled Context.settled_bool hbool
  have hs₁ := hc.solved.compose hu₁
  -- the first branch
  replace ht := ht (hΓ.apply hs₁ hnk)
  have h₂ := hs₁.extends hΓ hnk hkl ht.solved
  have hs₂ := (hs₁.mono hkl).compose h₂
  have hA := hs₁.settled_next hΓ hnk hkl ht.settled
  -- the second branch
  replace he := he (hΓ.apply hs₂ (by omega))
  have h₃ := hs₂.extends hΓ (by omega) hlm he.solved
  have hs₃ := (hs₂.mono hlm).compose h₃
  have hB := hs₂.settled_next hΓ (by omega) hlm he.settled
  have h₄ := Context.extends_of_unify ((hA.mono hlm).compose h₃) hB heq
  refine ⟨hs₃.compose h₄, hB.compose h₄, ?_⟩
  have hcond := (((hc.typed.apply hu₁.declared).apply h₂.declared).apply h₃.declared).apply
    h₄.declared
  rw [unify_equalizes hbool] at hcond
  have hthen := (ht.typed.apply h₃.declared).apply h₄.declared
  rw [unify_equalizes heq] at hthen
  have helse := he.typed.apply h₄.declared
  simp only [Context.apply_compose] at hthen helse ⊢
  exact .cond hcond hthen helse

theorem soundAt_natRec {base step scrutinee : Term} {s s₁ s₂ s₃ s₄ : Subst} {A S N : Ty}
    (hΓ : Γ.FreshFrom n) (hnk : n ≤ k) (hkl : k ≤ l) (hlm : l ≤ m)
    (hb : SoundAt Γ base n k ⟨s, A⟩)
    (hs : (Γ.apply s).FreshFrom k → SoundAt (Γ.apply s) step k l ⟨s₁, S⟩)
    (hstep : unify [(S, .arrow .nat (.arrow (s₁.apply A) (s₁.apply A)))] Γ.declaredVars = .ok s₂)
    (hn : (Γ.apply ((s.compose s₁).compose s₂)).FreshFrom l →
      SoundAt (Γ.apply ((s.compose s₁).compose s₂)) scrutinee l m ⟨s₃, N⟩)
    (hnat : unify [(N, .nat)] Γ.declaredVars = .ok s₄) :
    SoundAt Γ (.natRec base step scrutinee) n m
      ⟨(((s.compose s₁).compose s₂).compose s₃).compose s₄,
        s₄.apply (s₃.apply (s₂.apply (s₁.apply A)))⟩ := by
  -- the base and the step
  replace hs := hs (hΓ.apply hb.solved hnk)
  have h₁ := hb.solved.extends hΓ hnk hkl hs.solved
  have hr₁ := (hb.solved.mono hkl).compose h₁
  have hA₁ := (hb.settled.mono hkl).compose h₁
  have hS := hb.solved.settled_next hΓ hnk hkl hs.settled
  have hwanted := Context.settled_arrow.mpr
    ⟨Context.settled_nat, Context.settled_arrow.mpr ⟨hA₁, hA₁⟩⟩
  have h₂ := Context.extends_of_unify hS hwanted hstep
  have hr₂ := hr₁.compose h₂
  -- the scrutinee
  replace hn := hn (hΓ.apply hr₂ (by omega))
  have h₃ := hr₂.extends hΓ (by omega) hlm hn.solved
  have hr₃ := (hr₂.mono hlm).compose h₃
  have hA₃ := ((hA₁.compose h₂).mono hlm).compose h₃
  have hN := hr₂.settled_next hΓ (by omega) hlm hn.settled
  have h₄ := Context.extends_of_unify hN Context.settled_nat hnat
  refine ⟨hr₃.compose h₄, hA₃.compose h₄, ?_⟩
  have hbase := (((hb.typed.apply h₁.declared).apply h₂.declared).apply h₃.declared).apply
    h₄.declared
  have hstep' := hs.typed.apply h₂.declared
  rw [unify_equalizes hstep] at hstep'
  have hstep' := (hstep'.apply h₃.declared).apply h₄.declared
  have hcount := hn.typed.apply h₄.declared
  rw [unify_equalizes hnat] at hcount
  simp only [Context.apply_compose] at hcount ⊢
  exact .natRec hbase hstep' hcount

end

/-! ## Derivations -/

theorem Infers.le {rigid : IdentSet} {Γ : Context} {t : Term} {n m : Nat} {r : Inferred}
    (h : Infers rigid Γ t n r m) : n ≤ m := by
  induction h with
  | bvar | fvar | tt | ff | zero => exact Nat.le_refl _
  | lam | app | pair | fst | snd | cond | succ | natRec => omega

/-- What inference derives is a typing. -/
theorem Infers.sound {rigid : IdentSet} {Γ : Context} {t : Term} {n m : Nat} {r : Inferred}
    (h : Infers rigid Γ t n r m) (hrigid : Γ.declaredVars = rigid) (hΓ : Γ.FreshFrom n) :
    SoundAt Γ t n m r := by
  induction h with
  | bvar hi =>
    refine soundAt_plain (.bvar hi) fun x hx => ?_
    exact (Context.mem_vars _ x).mpr (.inr ⟨_, List.mem_of_getElem? hi, hx⟩)
  | @fvar Γ c A n hc =>
    refine soundAt_plain (.fvar hc) fun x hx => ?_
    exact (Context.mem_vars _ x).mpr (.inl ((Context.mem_declaredVars _ x).mpr ⟨c, A, hc, hx⟩))
  | lam _ hb ih => exact soundAt_lam hΓ hb.le fun h => ih hrigid h
  | app hf ha _ heq ihf iha =>
    have hsf := ihf hrigid hΓ
    have hsa := iha hrigid (hΓ.apply hsf.solved hf.le)
    subst hrigid
    exact soundAt_app hΓ hf.le ha.le hsf hsa heq
  | pair ha hb iha ihb =>
    have hsa := iha hrigid hΓ
    exact soundAt_pair hΓ ha.le hb.le hsa (ihb hrigid (hΓ.apply hsa.solved ha.le))
  | fst hp _ heq ih =>
    subst hrigid
    obtain ⟨hs, hleft, -, htyped⟩ := soundAt_projection hΓ hp.le (ih rfl hΓ) heq
    exact ⟨hs, hleft, .fst htyped⟩
  | snd hp _ heq ih =>
    subst hrigid
    obtain ⟨hs, -, hright, htyped⟩ := soundAt_projection hΓ hp.le (ih rfl hΓ) heq
    exact ⟨hs, hright, .snd htyped⟩
  | tt => exact soundAt_plain .tt fun _ hx => nomatch hx
  | ff => exact soundAt_plain .ff fun _ hx => nomatch hx
  | cond hc hbool ht he heq ihc iht ihe =>
    subst hrigid
    exact soundAt_cond hΓ hc.le ht.le he.le (ihc rfl hΓ) hbool (iht rfl) (ihe rfl) heq
  | zero => exact soundAt_plain .zero fun _ hx => nomatch hx
  | succ _ heq ih =>
    subst hrigid
    exact soundAt_succ (ih rfl hΓ) heq
  | natRec hb hs hstep hn hnat ihb ihs ihn =>
    subst hrigid
    exact soundAt_natRec hΓ hb.le hs.le hn.le (ihb rfl hΓ) (ihs rfl) hstep (ihn rfl) hnat

end SystemT
