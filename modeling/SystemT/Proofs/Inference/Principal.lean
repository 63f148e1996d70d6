import SystemT.Proofs.Inference.Checker

/-!
# Inference is complete

A term that has any typing at all is given a type by inference, and a most general one: whatever
types `θ` assigns to the type variables of the context, and whatever type the term then has, comes
from the answer by one more substitution.

The proof runs the algorithm beside a typing that is given in advance. At each point there is a
substitution `ρ` that completes what inference has found so far to `θ` (`Context.Completes`), and
the types that inference has in hand become under `ρ` what the given typing asks for
(`Context.Stands`). Three things move the algorithm on, and each keeps both:

- issuing a variable, to which `ρ` then assigns the type that the typing has for it (`issue`);
- equating two types, which succeeds because `ρ` is a solution, and through whose most general
  solution `ρ` factors (`unify`);
- inferring the next subterm, with `ρ` in the place of `θ` (`trans`).

An error is therefore never the outcome for a term that has a typing (`inferTerm_succeeds`), and
what is found for one term is compared with what is found for another by a typing alone
(`moreGeneral_of_types`).
-/

namespace SystemT

/-! ## Runs without errors -/

namespace InferM

variable {α β : Type}

/-- No error stops the computation, and what it answers, if the variables last so long, has the
property `Q`. -/
def Succeeds (act : InferM α) (n : NameSupply) (Q : α → NameSupply → Prop) : Prop :=
  match act n with
  | .ok a m => Q a m
  | .error (.error _) _ => False
  | .error (.fault _) _ => True

theorem succeeds_pure {a : α} {n : NameSupply} {Q : α → NameSupply → Prop} (h : Q a n) :
    Succeeds (pure a) n Q := h

theorem Succeeds.bind {x : InferM α} {f : α → InferM β} {n : NameSupply}
    {Q : α → NameSupply → Prop} {R : β → NameSupply → Prop} (hx : Succeeds x n Q)
    (hf : ∀ a m, Q a m → Succeeds (f a) m R) : Succeeds (x >>= f) n R := by
  unfold Succeeds at hx ⊢
  rw [show (x >>= f) n = EStateM.bind x f n from rfl]
  unfold EStateM.bind
  cases hr : x n with
  | ok a m =>
    rw [hr] at hx
    exact hf a m hx
  | error e m =>
    rw [hr] at hx
    cases e with
    | error e => exact hx
    | fault f => trivial

/-- A new variable is issued, unless there is none left. -/
theorem Succeeds.issue {f : Ty → InferM α} {n : NameSupply} {Q : α → NameSupply → Prop}
    (h : Succeeds (f (.var (.fresh n.next))) ⟨n.next + 1⟩ Q) : Succeeds (freshVar >>= f) n Q := by
  refine Succeeds.bind (Q := fun A m => A = .var (.fresh n.next) ∧ m = ⟨n.next + 1⟩) ?_ ?_
  · unfold Succeeds
    by_cases hlimit : n.next + 1 < counterLimit
    · rw [freshVar_eq_ok.mpr ⟨hlimit, rfl, rfl⟩]
      exact ⟨rfl, rfl⟩
    · rw [freshVar_eq_error hlimit]
      trivial
  · rintro A m ⟨rfl, rfl⟩
    exact h

/-- Two types that some substitution equalises, leaving the rigid variables alone, are made equal
by one through which that substitution factors. -/
theorem succeeds_equate {rigid : IdentSet} {A B : Ty} {ρ : Subst} {n : NameSupply}
    {Q : Subst → NameSupply → Prop} (hρ : ρ.Fixes rigid) (hAB : ρ.apply A = ρ.apply B)
    (h : ∀ u, unify [(A, B)] rigid = .ok u → (∀ C, ρ.apply (u.apply C) = ρ.apply C) → Q u n) :
    Succeeds (equate rigid A B) n Q := by
  have hsolution : Solution [(A, B)] rigid ρ := by
    refine ⟨hρ, fun e he => ?_⟩
    obtain rfl := List.mem_singleton.mp he
    exact hAB
  have hspec := unify_spec [(A, B)] rigid
  unfold Succeeds equate
  cases hu : unify [(A, B)] rigid with
  | ok u =>
    rw [hu] at hspec
    have hfactors : ∀ C, ρ.apply (u.apply C) = ρ.apply C := by
      intro C
      rw [← Subst.apply_compose]
      refine Subst.apply_congr fun x _ => ?_
      rw [Subst.image_compose]
      exact hspec.1.factors ρ hsolution x
    exact h u hu hfactors
  | error e =>
    rw [hu] at hspec
    cases e with
    | error e => exact hspec ρ hsolution
    | fault f => trivial

end InferM

/-! ## Completing what was found -/

/-- A supply that stands at `n` does not hand out the identifier. -/
def Ident.Below (n : Nat) : Ident → Prop
  | named _ => True
  | fresh k => k < n

theorem Ident.Below.mono {x : Ident} {m n : Nat} (h : x.Below m) (hle : m ≤ n) : x.Below n := by
  cases x with
  | named name => trivial
  | fresh k => exact Nat.lt_of_lt_of_le h hle

/-- A variable that is not issued yet may be assigned any type. -/
theorem Subst.apply_insert_of_below {ρ : Subst} {n : Nat} {T A : Ty}
    (hA : ∀ x, A.occurs x = true → x.Below n) : (ρ.insert (.fresh n) T).apply A = ρ.apply A := by
  refine Subst.apply_congr fun x hx => ?_
  have hne : Ident.fresh n ≠ x := by
    rintro rfl
    exact Nat.lt_irrefl n (hA _ hx)
  rw [Subst.image, Subst.get?_insert, if_neg hne, Subst.image]

/-- A type of rigid variables is left alone. -/
theorem Subst.Fixes.apply_eq {θ : Subst} {rigid : IdentSet} {A : Ty} (hθ : θ.Fixes rigid)
    (hA : ∀ x, A.occurs x = true → x ∈ rigid) : θ.apply A = A := by
  have hempty : θ.apply A = (∅ : Subst).apply A := by
    refine Subst.apply_congr fun x hx => ?_
    rw [hθ x (hA x hx), Subst.image_empty]
  rw [hempty, Subst.apply_empty]

theorem Subst.image_insert_self (ρ : Subst) (x : Ident) (T : Ty) : (ρ.insert x T).image x = T :=
  Subst.image_of_get? (by rw [Subst.get?_insert, if_pos rfl])

namespace Context

variable {Γ : Context} {θ s s' ρ ρ' : Subst} {lo mid hi : Nat} {A B T U : Ty}

/-- `ρ` completes `s`, which inference has found with the variables numbered from `lo` on up to
`mid`, to `θ`. -/
structure Completes (Γ : Context) (θ : Subst) (lo mid : Nat) (s ρ : Subst) : Prop where
  fresh : Γ.FreshFrom lo
  le : lo ≤ mid
  solved : Γ.Solved lo mid s
  fixes : ρ.Fixes Γ.declaredVars
  agrees : ∀ x, x.Below lo → ρ.apply (s.image x) = θ.image x

/-- The type `A` is settled, and `ρ` makes it `T`. -/
structure Stands (Γ : Context) (lo hi : Nat) (s ρ : Subst) (A T : Ty) : Prop where
  settled : Γ.Settled lo hi s A
  apply_eq : ρ.apply A = T

theorem Scope.below (hΓ : Γ.FreshFrom lo) (hle : lo ≤ hi) {x : Ident} (h : Γ.Scope lo hi x) :
    x.Below hi := by
  rcases h with h | ⟨n, rfl, -, hn⟩
  · cases x with
    | named name => trivial
    | fresh k => exact Nat.lt_of_lt_of_le (hΓ k h) hle
  · exact hn

theorem FreshFrom.below (hΓ : Γ.FreshFrom lo) {x : Ident} (h : x ∈ Γ.vars) : x.Below lo :=
  Scope.below hΓ (Nat.le_refl lo) (.inl h)

theorem Settled.below (hΓ : Γ.FreshFrom lo) (hle : lo ≤ hi) (hA : Γ.Settled lo hi s A) {x : Ident}
    (hx : A.occurs x = true) : x.Below hi :=
  (hA x hx).2.below hΓ hle

/-- At the start nothing is found, and `θ` itself is what completes it. -/
theorem completes_start (hΓ : Γ.FreshFrom lo) (hθ : θ.Fixes Γ.declaredVars) :
    Γ.Completes θ lo lo ∅ θ where
  fresh := hΓ
  le := Nat.le_refl lo
  solved := solved_empty Γ lo lo
  fixes := hθ
  agrees := by
    intro x _
    rw [Subst.image_empty]
    rfl

namespace Completes

/-- What the variables in use become holds only variables in use. -/
theorem below_of_occurs_image (h : Γ.Completes θ lo mid s ρ) {x y : Ident} (hx : x.Below lo)
    (hy : (s.image x).occurs y = true) : y.Below mid := by
  rcases Subst.occurs_image_cases hy with ⟨rfl, -⟩ | hm
  · exact hx.mono h.le
  · exact (h.solved.scope y hm).below h.fresh h.le

/-- The context that inference has arrived at becomes the given one. -/
theorem apply_apply (h : Γ.Completes θ lo mid s ρ) : (Γ.apply s).apply ρ = Γ.apply θ := by
  have hslot : ∀ A ∈ Γ.bound, (s.compose ρ).apply A = θ.apply A := by
    intro A hA
    refine Subst.apply_congr fun x hx => ?_
    have hvar : x ∈ Γ.vars := (mem_vars Γ x).mpr (.inr ⟨A, hA, hx⟩)
    rw [Subst.image_compose]
    exact h.agrees x (h.fresh.below hvar)
  have hbound : Γ.bound.map (s.compose ρ).apply = Γ.bound.map θ.apply := List.map_congr_left hslot
  rw [← apply_compose, apply, hbound, apply]

theorem types (h : Γ.Completes θ lo mid s ρ) {t : Term} (ht : (Γ.apply θ).Types t T) :
    ((Γ.apply s).apply ρ).Types t T := by
  rw [h.apply_apply]
  exact ht

theorem freshFrom (h : Γ.Completes θ lo mid s ρ) : (Γ.apply s).FreshFrom mid :=
  h.fresh.apply h.solved h.le

/-- A variable is issued, and `T` is assigned to it. -/
theorem issue (h : Γ.Completes θ lo mid s ρ) (T : Ty) :
    Γ.Completes θ lo (mid + 1) s (ρ.insert (.fresh mid) T) where
  fresh := h.fresh
  le := Nat.le_succ_of_le h.le
  solved := h.solved.mono (Nat.le_succ mid)
  fixes := by
    intro x hx
    have hbelow : x.Below mid := (h.fresh.below ((mem_vars Γ x).mpr (.inl hx))).mono h.le
    have hkept : (ρ.insert (.fresh mid) T).apply (.var x) = ρ.apply (.var x) := by
      refine Subst.apply_insert_of_below fun y hy => ?_
      obtain rfl : x = y := (Ty.occurs_var x y).mp hy
      exact hbelow
    exact hkept.trans (h.fixes x hx)
  agrees := by
    intro x hx
    rw [Subst.apply_insert_of_below fun y hy => h.below_of_occurs_image hx hy]
    exact h.agrees x hx

/-- Two types that stand for the same are equated. -/
theorem unify (h : Γ.Completes θ lo mid s ρ) {u : Subst} (hA : Γ.Settled lo mid s A)
    (hB : Γ.Settled lo mid s B) (hu : SystemT.unify [(A, B)] Γ.declaredVars = .ok u)
    (hfactors : ∀ C, ρ.apply (u.apply C) = ρ.apply C) :
    Γ.Completes θ lo mid (s.compose u) ρ where
  fresh := h.fresh
  le := h.le
  solved := h.solved.compose (extends_of_unify hA hB hu)
  fixes := h.fixes
  agrees := by
    intro x hx
    rw [Subst.image_compose, hfactors]
    exact h.agrees x hx

/-- The next subterm is inferred, in the context that inference has arrived at. -/
theorem trans (h : Γ.Completes θ lo mid s ρ) (h' : (Γ.apply s).Completes ρ mid hi s' ρ') :
    Γ.Completes θ lo hi (s.compose s') ρ' where
  fresh := h.fresh
  le := Nat.le_trans h.le h'.le
  solved := (h.solved.mono h'.le).compose (h.solved.extends h.fresh h.le h'.le h'.solved)
  fixes := h'.fixes
  agrees := by
    intro x hx
    have hkept : ρ'.apply (s'.apply (s.image x)) = ρ.apply (s.image x) := by
      rw [← Subst.apply_compose]
      refine Subst.apply_congr fun y hy => ?_
      rw [Subst.image_compose]
      exact h'.agrees y (h.below_of_occurs_image hx hy)
    rw [Subst.image_compose, hkept]
    exact h.agrees x hx

/-- A variable is issued for a binder, and the type of the binder is assigned to it. -/
theorem apply_push (hΓ : Γ.FreshFrom lo) (θ : Subst) (A : Ty) :
    (Γ.push (.var (.fresh lo))).apply (θ.insert (.fresh lo) A) = (Γ.apply θ).push A := by
  have hslot : ∀ B ∈ Γ.bound, (θ.insert (.fresh lo) A).apply B = θ.apply B := by
    intro B hB
    refine Subst.apply_insert_of_below fun x hx => ?_
    exact hΓ.below ((mem_vars Γ x).mpr (.inr ⟨B, hB, hx⟩))
  have hparam : (θ.insert (.fresh lo) A).apply (.var (.fresh lo)) = A :=
    Subst.image_insert_self θ (.fresh lo) A
  have hbound : Γ.bound.map (θ.insert (.fresh lo) A).apply = Γ.bound.map θ.apply :=
    List.map_congr_left hslot
  show Context.mk ((θ.insert (.fresh lo) A).apply (.var (.fresh lo)) ::
    Γ.bound.map (θ.insert (.fresh lo) A).apply) Γ.free = ⟨A :: Γ.bound.map θ.apply, Γ.free⟩
  rw [hparam, hbound]

/-- What completes an answer below a binder completes it at the binder. -/
theorem of_push (hΓ : Γ.FreshFrom lo)
    (h : (Γ.push (.var (.fresh lo))).Completes (θ.insert (.fresh lo) A) (lo + 1) hi s ρ) :
    Γ.Completes θ lo hi s ρ where
  fresh := hΓ
  le := Nat.le_of_succ_le h.le
  solved := h.solved.of_push h.le
  fixes := h.fixes
  agrees := by
    intro x hx
    have hkept : (θ.insert (.fresh lo) A).apply (.var x) = θ.apply (.var x) := by
      refine Subst.apply_insert_of_below fun y hy => ?_
      obtain rfl : x = y := (Ty.occurs_var x y).mp hy
      exact hx
    have hagrees := h.agrees x (hx.mono (Nat.le_succ lo))
    exact hagrees.trans hkept

end Completes

namespace Stands

theorem arrow (hA : Γ.Stands lo mid s ρ A T) (hB : Γ.Stands lo mid s ρ B U) :
    Γ.Stands lo mid s ρ (.arrow A B) (.arrow T U) where
  settled := settled_arrow.mpr ⟨hA.settled, hB.settled⟩
  apply_eq := by rw [Subst.apply, hA.apply_eq, hB.apply_eq]

theorem prod (hA : Γ.Stands lo mid s ρ A T) (hB : Γ.Stands lo mid s ρ B U) :
    Γ.Stands lo mid s ρ (.prod A B) (.prod T U) where
  settled := settled_prod.mpr ⟨hA.settled, hB.settled⟩
  apply_eq := by rw [Subst.apply, hA.apply_eq, hB.apply_eq]

theorem nat : Γ.Stands lo mid s ρ .nat .nat := ⟨settled_nat, rfl⟩

theorem bool : Γ.Stands lo mid s ρ .bool .bool := ⟨settled_bool, rfl⟩

/-- Issuing a variable changes nothing for the types in hand. -/
theorem issue (hA : Γ.Stands lo mid s ρ A T) (h : Γ.Completes θ lo mid s ρ) (U : Ty) :
    Γ.Stands lo (mid + 1) s (ρ.insert (.fresh mid) U) A T where
  settled := hA.settled.mono (Nat.le_succ mid)
  apply_eq := by
    rw [Subst.apply_insert_of_below fun x hx => hA.settled.below h.fresh h.le hx]
    exact hA.apply_eq

/-- The issued variable stands for what is assigned to it. -/
theorem issued (h : Γ.Completes θ lo mid s ρ) (T : Ty) :
    Γ.Stands lo (mid + 1) s (ρ.insert (.fresh mid) T) (.var (.fresh mid)) T where
  settled := h.solved.settled_fresh h.fresh h.le (Nat.le_refl mid) (Nat.lt_succ_self mid)
  apply_eq := Subst.image_insert_self ρ (.fresh mid) T

theorem unify {u : Subst} {C : Ty} (hC : Γ.Stands lo mid s ρ C U) (hA : Γ.Settled lo mid s A)
    (hB : Γ.Settled lo mid s B) (hu : SystemT.unify [(A, B)] Γ.declaredVars = .ok u)
    (hfactors : ∀ C, ρ.apply (u.apply C) = ρ.apply C) :
    Γ.Stands lo mid (s.compose u) ρ (u.apply C) U where
  settled := hC.settled.compose (extends_of_unify hA hB hu)
  apply_eq := by
    rw [hfactors]
    exact hC.apply_eq

/-- Inferring the next subterm changes nothing for the types in hand. -/
theorem trans (hA : Γ.Stands lo mid s ρ A T) (h : Γ.Completes θ lo mid s ρ)
    (h' : (Γ.apply s).Completes ρ mid hi s' ρ') :
    Γ.Stands lo hi (s.compose s') ρ' (s'.apply A) T where
  settled :=
    (hA.settled.mono h'.le).compose (h.solved.extends h.fresh h.le h'.le h'.solved)
  apply_eq := by
    have hkept : ρ'.apply (s'.apply A) = ρ.apply A := by
      rw [← Subst.apply_compose]
      refine Subst.apply_congr fun x hx => ?_
      rw [Subst.image_compose]
      exact h'.agrees x (hA.settled.below h.fresh h.le hx)
    rw [hkept]
    exact hA.apply_eq

/-- The type inferred for the next subterm. -/
theorem next (h : Γ.Completes θ lo mid s ρ) (h' : (Γ.apply s).Completes ρ mid hi s' ρ')
    (hA : (Γ.apply s).Stands mid hi s' ρ' A T) : Γ.Stands lo hi (s.compose s') ρ' A T where
  settled := h.solved.settled_next h.fresh h.le h'.le hA.settled
  apply_eq := hA.apply_eq

end Stands

end Context

/-! ## The algorithm -/

open InferM in
/-- Making two types equal that stand for the same type succeeds. -/
theorem Context.Completes.equate {α : Type} {Γ : Context} {θ s ρ : Subst} {lo : Nat}
    {n : NameSupply} {A B T : Ty} (h : Γ.Completes θ lo n.next s ρ)
    (hA : Γ.Stands lo n.next s ρ A T) (hB : Γ.Stands lo n.next s ρ B T) {f : Subst → InferM α}
    {Q : α → NameSupply → Prop}
    (hf : ∀ u, Γ.Completes θ lo n.next (s.compose u) ρ →
      (∀ C U, Γ.Stands lo n.next s ρ C U → Γ.Stands lo n.next (s.compose u) ρ (u.apply C) U) →
      Succeeds (f u) n Q) :
    Succeeds (InferM.equate Γ.declaredVars A B >>= f) n Q := by
  have hAB : ρ.apply A = ρ.apply B := hA.apply_eq.trans hB.apply_eq.symm
  refine (succeeds_equate (Q := fun u m => Succeeds (f u) m Q) h.fixes hAB ?_).bind
    fun u m hu => hu
  intro u hu hfactors
  refine hf u (h.unify hA.settled hB.settled hu hfactors) ?_
  intro C U hC
  exact hC.unify hA.settled hB.settled hu hfactors

open InferM in
/-- Both projections of a type that stands for a product. -/
theorem Context.Completes.project {α : Type} {Γ : Context} {θ s ρ : Subst} {lo : Nat}
    {n : NameSupply} {P A B : Ty} (h : Γ.Completes θ lo n.next s ρ)
    (hP : Γ.Stands lo n.next s ρ P (.prod A B)) {f : Ty → Ty → Subst → InferM α}
    {Q : α → NameSupply → Prop}
    (hf : ∀ u ρ', Γ.Completes θ lo (n.next + 2) (s.compose u) ρ' →
      Γ.Stands lo (n.next + 2) (s.compose u) ρ' (u.apply (.var (.fresh n.next))) A →
      Γ.Stands lo (n.next + 2) (s.compose u) ρ' (u.apply (.var (.fresh (n.next + 1)))) B →
      Succeeds (f (.var (.fresh n.next)) (.var (.fresh (n.next + 1))) u) ⟨n.next + 2⟩ Q) :
    Succeeds (freshVar >>= fun left => freshVar >>= fun right =>
      InferM.equate Γ.declaredVars P (.prod left right) >>= f left right) n Q := by
  refine Succeeds.issue (Succeeds.issue ?_)
  have hleft := (Context.Stands.issued h A).issue (h.issue A) B
  have hright := Context.Stands.issued (h.issue A) B
  have hpair := (hP.issue h A).issue (h.issue A) B
  refine ((h.issue A).issue B).equate (n := ⟨n.next + 2⟩) hpair (hleft.prod hright) ?_
  intro u h' hstands
  exact hf u _ h' (hstands _ _ hleft) (hstands _ _ hright)

/-- The answer `r` is at least as general as a typing at `T` under `θ`. -/
def Principal (Γ : Context) (θ : Subst) (T : Ty) (n : NameSupply) (r : Inferred)
    (m : NameSupply) : Prop :=
  ∃ ρ, Γ.Completes θ n.next m.next r.subst ρ ∧ Γ.Stands n.next m.next r.subst ρ r.ty T

section

variable {Γ : Context} {θ : Subst} {T : Ty} {n : NameSupply}

theorem principal_plain {A : Ty} (hΓ : Γ.FreshFrom n.next) (hθ : θ.Fixes Γ.declaredVars)
    (hvars : ∀ x, A.occurs x = true → x ∈ Γ.vars) (hA : θ.apply A = T) :
    Principal Γ θ T n (.plain A) n :=
  ⟨θ, Context.completes_start hΓ hθ, Context.settled_of_mem_vars hvars, hA⟩

theorem principal_nat (hΓ : Γ.FreshFrom n.next) (hθ : θ.Fixes Γ.declaredVars) :
    Principal Γ θ .nat n (.plain .nat) n :=
  principal_plain hΓ hθ (fun _ hx => nomatch hx) rfl

theorem principal_bool (hΓ : Γ.FreshFrom n.next) (hθ : θ.Fixes Γ.declaredVars) :
    Principal Γ θ .bool n (.plain .bool) n :=
  principal_plain hΓ hθ (fun _ hx => nomatch hx) rfl

end

open InferM in
/-- **No error stops the inference of a term that has a typing,** and the answer is as general as
that typing. -/
theorem inferTerm_succeeds {t : Term} {Γ : Context} {θ : Subst} {T : Ty} {n : NameSupply}
    (hΓ : Γ.FreshFrom n.next) (hθ : θ.Fixes Γ.declaredVars) (ht : (Γ.apply θ).Types t T) :
    Succeeds (inferTerm Γ.declaredVars Γ t) n (Principal Γ θ T n) := by
  induction t generalizing Γ θ T n with
  | bvar i =>
    cases ht with
    | bvar hi =>
      rw [Context.bound_apply, List.getElem?_map, Option.map_eq_some_iff] at hi
      obtain ⟨A, hi, hA⟩ := hi
      have hget : Γ.get? i = some A := hi
      rw [inferTerm, hget]
      refine succeeds_pure (principal_plain hΓ hθ (fun x hx => ?_) hA)
      exact (Context.mem_vars Γ x).mpr (.inr ⟨A, List.mem_of_getElem? hi, hx⟩)
  | fvar c =>
    cases ht with
    | fvar hc =>
      have hlookup : Γ.lookup? c = some T := hc
      have hdeclared : ∀ x, T.occurs x = true → x ∈ Γ.declaredVars := by
        intro x hx
        exact (Context.mem_declaredVars Γ x).mpr ⟨c, T, hlookup, hx⟩
      -- the type of a constant holds rigid variables only
      have hT : θ.apply T = T := hθ.apply_eq hdeclared
      rw [inferTerm, hlookup]
      refine succeeds_pure (principal_plain hΓ hθ (fun x hx => ?_) hT)
      exact (Context.mem_vars Γ x).mpr (.inl (hdeclared x hx))
  | lam b ih =>
    cases ht with
    | @lam _ _ A B hb =>
      rw [inferTerm]
      refine Succeeds.issue ?_
      have hissue := (Context.completes_start hΓ hθ).issue A
      have hbody : ((Γ.push (.var (.fresh n.next))).apply (θ.insert (.fresh n.next) A)).Types
          b B := by
        rw [Context.Completes.apply_push hΓ]
        exact hb
      refine (ih (Γ := Γ.push (.var (.fresh n.next))) (n := ⟨n.next + 1⟩) hΓ.push hissue.fixes
        hbody).bind ?_
      rintro ⟨s, C⟩ m ⟨ρ, h, hC⟩
      have hparam : ρ.apply (s.apply (.var (.fresh n.next))) = A := by
        have hbelow : (Ident.fresh n.next).Below (n.next + 1) := Nat.lt_succ_self n.next
        exact (h.agrees _ hbelow).trans (Subst.image_insert_self θ (.fresh n.next) A)
      refine succeeds_pure ⟨ρ, h.of_push hΓ, ?_⟩
      have harg : Γ.Stands n.next m.next s ρ (s.apply (.var (.fresh n.next))) A :=
        ⟨(h.solved.of_push h.le).settled_param h.le, hparam⟩
      exact harg.arrow ⟨hC.settled.of_push h.le, hC.apply_eq⟩
  | app f a ihf iha =>
    cases ht with
    | @app _ _ _ A _ hf ha =>
      rw [inferTerm]
      refine (ihf hΓ hθ hf).bind ?_
      rintro ⟨s₁, F⟩ k ⟨ρ₁, h₁, hF⟩
      refine (iha h₁.freshFrom h₁.fixes (h₁.types ha)).bind ?_
      rintro ⟨s₂, C⟩ m ⟨ρ₂, h₂, hC⟩
      -- the result is a new variable, to which the type `T` of the application is assigned
      refine Succeeds.issue ?_
      have hs := h₁.trans h₂
      have hfun := (hF.trans h₁ h₂).issue hs T
      have harg := (hC.next h₁ h₂).issue hs T
      have hresult := Context.Stands.issued hs T
      refine (hs.issue T).equate (n := ⟨m.next + 1⟩) hfun (harg.arrow hresult) ?_
      intro u h₃ hstands
      exact succeeds_pure ⟨_, h₃, hstands _ _ hresult⟩
  | pair a b iha ihb =>
    cases ht with
    | pair ha hb =>
      rw [inferTerm]
      refine (iha hΓ hθ ha).bind ?_
      rintro ⟨s₁, A⟩ k ⟨ρ₁, h₁, hA⟩
      refine (ihb h₁.freshFrom h₁.fixes (h₁.types hb)).bind ?_
      rintro ⟨s₂, B⟩ m ⟨ρ₂, h₂, hB⟩
      exact succeeds_pure ⟨ρ₂, h₁.trans h₂, (hA.trans h₁ h₂).prod (hB.next h₁ h₂)⟩
  | fst p ih =>
    cases ht with
    | fst hp =>
      rw [inferTerm]
      refine (ih hΓ hθ hp).bind ?_
      rintro ⟨s₁, P⟩ m ⟨ρ₁, h₁, hP⟩
      refine h₁.project hP fun u ρ h hleft _ => ?_
      exact succeeds_pure ⟨ρ, h, hleft⟩
  | snd p ih =>
    cases ht with
    | snd hp =>
      rw [inferTerm]
      refine (ih hΓ hθ hp).bind ?_
      rintro ⟨s₁, P⟩ m ⟨ρ₁, h₁, hP⟩
      refine h₁.project hP fun u ρ h _ hright => ?_
      exact succeeds_pure ⟨ρ, h, hright⟩
  | tt | ff =>
    cases ht
    exact succeeds_pure (principal_bool hΓ hθ)
  | cond c t e ihc iht ihe =>
    cases ht with
    | cond hc ht he =>
      rw [inferTerm]
      -- the condition
      refine (ihc hΓ hθ hc).bind ?_
      rintro ⟨s₁, C⟩ k ⟨ρ₁, h₁, hC⟩
      refine h₁.equate hC .bool fun u₁ hu₁ _ => ?_
      -- the branches
      refine (iht hu₁.freshFrom hu₁.fixes (hu₁.types ht)).bind ?_
      rintro ⟨s₂, A⟩ l ⟨ρ₂, h₂, hA⟩
      have hs₂ := hu₁.trans h₂
      refine (ihe hs₂.freshFrom hs₂.fixes (hs₂.types he)).bind ?_
      rintro ⟨s₃, B⟩ m ⟨ρ₃, h₃, hB⟩
      have hthen := (hA.next hu₁ h₂).trans hs₂ h₃
      have helse := hB.next hs₂ h₃
      refine (hs₂.trans h₃).equate hthen helse fun u₄ hu₄ hstands => ?_
      exact succeeds_pure ⟨ρ₃, hu₄, hstands _ _ helse⟩
  | zero =>
    cases ht
    exact succeeds_pure (principal_nat hΓ hθ)
  | succ t ih =>
    cases ht with
    | succ ht =>
      by_cases hchain : ∃ u, t = .succ u
      · -- a chain of successors is inferred from its inner end
        obtain ⟨u, rfl⟩ := hchain
        rw [inferTerm]
        exact ih hΓ hθ ht
      · rw [inferTerm_succ hchain]
        refine (ih hΓ hθ ht).bind ?_
        rintro ⟨s₁, A⟩ m ⟨ρ₁, h₁, hA⟩
        refine h₁.equate hA .nat fun u hu _ => ?_
        exact succeeds_pure ⟨ρ₁, hu, .nat⟩
  | natRec b s n ihb ihs ihn =>
    cases ht with
    | natRec hb hs hn =>
      rw [inferTerm]
      -- the base and the step
      refine (ihb hΓ hθ hb).bind ?_
      rintro ⟨s₀, A⟩ k ⟨ρ₀, h₀, hA⟩
      refine (ihs h₀.freshFrom h₀.fixes (h₀.types hs)).bind ?_
      rintro ⟨s₁, S⟩ l ⟨ρ₁, h₁, hS⟩
      have hs₁ := h₀.trans h₁
      have hacc := hA.trans h₀ h₁
      have hwanted := Context.Stands.nat.arrow (hacc.arrow hacc)
      refine hs₁.equate (hS.next h₀ h₁) hwanted fun u₂ hu₂ hstands => ?_
      have hacc := hstands _ _ hacc
      -- the scrutinee
      refine (ihn hu₂.freshFrom hu₂.fixes (hu₂.types hn)).bind ?_
      rintro ⟨s₃, N⟩ m ⟨ρ₃, h₃, hN⟩
      have hacc := hacc.trans hu₂ h₃
      refine (hu₂.trans h₃).equate (hN.next hu₂ h₃) .nat fun u₄ hu₄ hstands => ?_
      exact succeeds_pure ⟨ρ₃, hu₄, hstands _ _ hacc⟩

/-! ## Checkers -/

namespace Checker

/-- What a checker answers for a term that has a typing: as much as the typing says, unless the
variables run out. -/
theorem infer_of_types {Γ : Context} {t : Term} {θ : Subst} {T : Ty} (c : Checker)
    (hθ : θ.Fixes Γ.declaredVars) (ht : (Γ.apply θ).Types t T) :
    (∃ r c', infer Γ t c = .ok r c' ∧ ∃ ρ : Subst, ρ.Fixes Γ.declaredVars ∧ ρ.apply r.ty = T ∧
        ∀ x ∈ Γ.vars, ρ.apply (r.subst.apply (.var x)) = θ.apply (.var x)) ∨
      ∃ c', infer Γ t c = .error (.fault .counterOverflow) c' ∧ c.Exhausts Γ t := by
  cases h : infer Γ t c with
  | ok r c' =>
    obtain ⟨start, stop, havoid, hinfer, rfl⟩ := infer_eq_ok.mp h
    have hΓ := freshFrom_of_avoid havoid
    have hsucceeds := inferTerm_succeeds hΓ hθ ht
    rw [InferM.Succeeds, hinfer] at hsucceeds
    obtain ⟨ρ, hρ, hT⟩ := hsucceeds
    refine .inl ⟨r, _, rfl, ρ, hρ.fixes, hT.apply_eq, fun x hx => ?_⟩
    exact hρ.agrees x (hΓ.below hx)
  | error e c' =>
    cases e with
    | fault f =>
      obtain ⟨rfl, hlimit⟩ := infer_fault h
      exact .inr ⟨c', rfl, hlimit⟩
    | error e =>
      obtain ⟨start, stop, havoid, hinfer⟩ := infer_eq_error h
      have hsucceeds := inferTerm_succeeds (freshFrom_of_avoid havoid) hθ ht
      rw [InferM.Succeeds, hinfer] at hsucceeds
      exact absurd hsucceeds id

/-- **Inference is complete, and the types it finds are principal**, whatever state earlier calls
have left. If the term has the type `T` once `θ`, which leaves the declarations alone, is applied to
the bound slots, then inference answers, as long as there are variables left; and one substitution
turns the inferred type into `T` and what became of each variable of the context into what `θ` makes
of it. So an error means that the term has no typing at all. -/
theorem infer_complete (c : Checker) (Γ : Context) (t : Term) :
    (∀ θ T, θ.Fixes Γ.declaredVars → (Γ.apply θ).Types t T → ¬ c.Exhausts Γ t →
      ∃ r c', infer Γ t c = .ok r c' ∧ ∃ ρ : Subst, ρ.apply r.ty = T ∧
        ∀ x ∈ Γ.vars, ρ.apply (r.subst.apply (.var x)) = θ.apply (.var x)) ∧
    ∀ e c', infer Γ t c = .error (.error e) c' →
      ¬ ∃ θ T, θ.Fixes Γ.declaredVars ∧ (Γ.apply θ).Types t T := by
  constructor
  · intro θ T hθ ht hroom
    rcases infer_of_types c hθ ht with ⟨r, c', hr, ρ, -, hT, hagrees⟩ | ⟨c', -, hlimit⟩
    · exact ⟨r, c', hr, ρ, hT, hagrees⟩
    · exact absurd hlimit hroom
  · rintro e c' h ⟨θ, T, hθ, ht⟩
    rcases infer_of_types c hθ ht with ⟨r, c'', hr, -⟩ | ⟨c'', hr, -⟩
    · rw [h] at hr
      cases hr
    · rw [h] at hr
      cases hr

/-- A function of unknown type takes a pair of which the first part is unknown too. The typing given
makes it a function from `nat × R` to `bool`, where `R` is the type of a constant; inference finds
that it may be any function from pairs with `R`. It is an error to apply it to an undeclared
constant. -/
theorem infer_complete_pair :
    ∃ Γ : Context, Γ = ⟨[.var (.fresh 7)],
        (∅ : IdentMap Ty).insert (.named "k") (.var (.named "R"))⟩ ∧
      ∃ t, t = Term.lam (.app (.bvar 1) (.pair (.bvar 0) (.fvar (.named "k")))) ∧
      ∃ θ, θ = Subst.singleton (.fresh 7) (.arrow (.prod .nat (.var (.named "R"))) .bool) ∧
      θ.Fixes Γ.declaredVars ∧ (Γ.apply θ).Types t (.arrow .nat .bool) ∧
      ¬ Exhausts ⟨⟨5⟩, ∅⟩ Γ t ∧
      (∃ r c', infer Γ t ⟨⟨5⟩, ∅⟩ = .ok r c' ∧ ∃ ρ : Subst, ρ.apply r.ty = .arrow .nat .bool ∧
        ∀ x ∈ Γ.vars, ρ.apply (r.subst.apply (.var x)) = θ.apply (.var x)) ∧
      (∃ c', infer Γ (.app (.bvar 0) (.fvar (.named "u"))) ⟨⟨5⟩, ∅⟩ =
        .error (.error (.undeclared (.named "u"))) c') ∧
      ¬ ∃ θ T, θ.Fixes Γ.declaredVars ∧
        (Γ.apply θ).Types (.app (.bvar 0) (.fvar (.named "u"))) T := by
  refine ⟨_, rfl, _, rfl, _, rfl, ?_⟩
  generalize hΓ : (⟨[.var (.fresh 7)],
    (∅ : IdentMap Ty).insert (.named "k") (.var (.named "R"))⟩ : Context) = Γ
  have hdeclared : Γ.declaredVars.toList = [.named "R"] := by
    subst hΓ
    cbv
  have hvars : Γ.vars.toList = [.named "R", .fresh 7] := by
    subst hΓ
    cbv
  have hfixes : (Subst.singleton (.fresh 7)
      (.arrow (.prod .nat (.var (.named "R"))) .bool)).Fixes Γ.declaredVars := by
    intro x hx
    have hx : x ∈ Γ.declaredVars.toList := Std.ExtTreeSet.mem_toList.mpr hx
    rw [hdeclared] at hx
    obtain rfl := List.mem_singleton.mp hx
    cbv
  have htyped : (Γ.apply (Subst.singleton (.fresh 7)
      (.arrow (.prod .nat (.var (.named "R"))) .bool))).Types
      (.lam (.app (.bvar 1) (.pair (.bvar 0) (.fvar (.named "k"))))) (.arrow .nat .bool) := by
    subst hΓ
    exact .lam (.app (.bvar (by cbv)) (.pair (.bvar rfl) (.fvar (by cbv))))
  have hroom : ¬ Exhausts ⟨⟨5⟩, ∅⟩ Γ
      (.lam (.app (.bvar 1) (.pair (.bvar 0) (.fvar (.named "k"))))) := by
    rintro (hlimit | ⟨n, hn, hlimit⟩)
    · exact absurd hlimit (by decide)
    · have hn : Ident.fresh n ∈ Γ.vars.toList := Std.ExtTreeSet.mem_toList.mpr hn
      rw [hvars] at hn
      obtain rfl : n = 7 := by simpa using hn
      exact absurd hlimit (by decide)
  have havoid : NameSupply.avoid Γ.vars.toList ⟨5⟩ = .ok () ⟨8⟩ := by
    subst hΓ
    cbv
  have hstop : inferTerm Γ.declaredVars Γ (.app (.bvar 0) (.fvar (.named "u"))) ⟨8⟩ =
      .error (.error (.undeclared (.named "u"))) ⟨8⟩ := by
    subst hΓ
    rfl
  have herror : infer Γ (.app (.bvar 0) (.fvar (.named "u"))) ⟨⟨5⟩, ∅⟩ =
      .error (.error (.undeclared (.named "u"))) ⟨⟨8⟩, Γ.declaredVars⟩ := by
    rw [infer_eq, havoid]
    dsimp only
    rw [hstop]
  refine ⟨hfixes, htyped, hroom, ?_, ⟨_, herror⟩, ?_⟩
  · exact (infer_complete ⟨⟨5⟩, ∅⟩ Γ _).1 _ _ hfixes htyped hroom
  · exact (infer_complete ⟨⟨5⟩, ∅⟩ Γ _).2 _ _ herror

end Checker

/-- A new checker answers for a term that has a typing, as every checker does. -/
theorem typeCheck_of_apply_types {Γ : Context} {t : Term} {θ : Subst} {T : Ty}
    (hθ : θ.Fixes Γ.declaredVars) (h : (Γ.apply θ).Types t T) :
    (∃ r, typeCheck t Γ = .ok r ∧ ∃ ρ : Subst, ρ.Fixes Γ.declaredVars ∧ ρ.apply r.ty = T ∧
        ∀ x ∈ Γ.vars, ρ.apply (r.subst.apply (.var x)) = θ.apply (.var x)) ∨
      (typeCheck t Γ = .error (.fault .counterOverflow) ∧ Γ.Exhausts t) := by
  rcases Checker.infer_of_types {} hθ h with ⟨r, c', hr, hprincipal⟩ | ⟨c', hr, -⟩
  · refine .inl ⟨r, ?_, hprincipal⟩
    rw [typeCheck, hr]
  · have hfault : typeCheck t Γ = .error (.fault .counterOverflow) := by rw [typeCheck, hr]
    exact .inr ⟨hfault, (typeCheck_fault hfault).2⟩

/-- A new checker answers for a term of type `T` with a type of which `T` is an instance, unless the
variables run out. -/
theorem typeCheck_of_types {Γ : Context} {t : Term} {T : Ty} (h : Γ.Types t T) :
    (∃ r, typeCheck t Γ = .ok r ∧ ∃ ρ : Subst, ρ.Fixes Γ.declaredVars ∧ ρ.apply r.ty = T) ∨
      (typeCheck t Γ = .error (.fault .counterOverflow) ∧ Γ.Exhausts t) := by
  have hfixes : (∅ : Subst).Fixes Γ.declaredVars := fun x _ => Subst.image_empty x
  have htyped : (Γ.apply ∅).Types t T := by
    rw [Context.apply_empty]
    exact h
  rcases typeCheck_of_apply_types hfixes htyped with ⟨r, hr, ρ, hρ, hT, -⟩ | hfault
  · exact .inl ⟨r, hr, ρ, hρ, hT⟩
  · exact .inr hfault

/-- The answer `r` is at least as general as `s`: one substitution turns the type of `r` into that
of `s`, and what `r` makes of the variables of `Γ` into what `s` makes of them. -/
def Inferred.MoreGeneral (Γ : Context) (r s : Inferred) : Prop :=
  ∃ ρ : Subst, ρ.apply r.ty = s.ty ∧
    ∀ x ∈ Γ.vars, ρ.apply (r.subst.apply (.var x)) = s.subst.apply (.var x)

/-- If a term has the typing that was found for another one, then what is found for it is at least
as general. -/
theorem moreGeneral_of_types {Γ : Context} {t u : Term} {r : Inferred}
    (ht : typeCheck t Γ = .ok r) (hu : (Γ.apply r.subst).Types u r.ty) :
    (∃ r', typeCheck u Γ = .ok r' ∧ r'.MoreGeneral Γ r) ∨
      (typeCheck u Γ = .error (.fault .counterOverflow) ∧ Γ.Exhausts u) := by
  obtain ⟨_, hsound⟩ := sound_of_typeCheck ht
  have hfixes : r.subst.Fixes Γ.declaredVars :=
    fun x hx => Subst.image_of_unbound (hsound.declared x hx)
  rcases typeCheck_of_apply_types hfixes hu with ⟨r', hr', ρ, -, hty, hagrees⟩ | hfault
  · exact .inl ⟨r', hr', ρ, hty, hagrees⟩
  · exact .inr hfault

end SystemT
