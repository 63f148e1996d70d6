import Mathlib.Data.List.InsertIdx
import SystemT.Proofs.Inference.Principal

/-!
# Inference and bound indices

A further binder around a term that does not use it changes nothing that inference does: the slot of
the binder goes through the run without being looked at (`inferTerm_shift`), and the supply does not
avoid it, unless generated variables occur in it. The answer is the same to the letter.

Contracting a redex is another matter. The argument is inferred once for each place where it is put,
or not at all, so that other variables are issued and the answers are not the same. What can be
compared is what they say: a typing of the redex is one of its contractum (`Typing.contract`), hence
what is answered for the contractum is at least as general (`Inferred.MoreGeneral`).
-/

namespace SystemT

/-! ## A further slot -/

namespace Context

/-- A further slot of type `U` inside of which `n` other slots lie. -/
def insertSlot (Γ : Context) (n : Nat) (U : Ty) : Context :=
  { Γ with bound := Γ.bound.insertIdx n U }

/-- `Γ'` is `Γ` with one further slot, of any type, inside of which `n` others lie. -/
def Inserted (Γ : Context) (n : Nat) (Γ' : Context) : Prop := ∃ U, Γ' = Γ.insertSlot n U

variable {Γ Γ' : Context} {n : Nat}

theorem Inserted.push (h : Γ.Inserted n Γ') (A : Ty) :
    (Γ.push A).Inserted (n + 1) (Γ'.push A) := by
  obtain ⟨U, rfl⟩ := h
  exact ⟨U, rfl⟩

theorem Inserted.apply (h : Γ.Inserted n Γ') (s : Subst) :
    (Γ.apply s).Inserted n (Γ'.apply s) := by
  obtain ⟨U, rfl⟩ := h
  refine ⟨s.apply U, ?_⟩
  rw [Context.apply, insertSlot, List.map_insertIdx]
  rfl

/-- Indices past the new slot move up by one. -/
theorem Inserted.get? (h : Γ.Inserted n Γ') {i : Nat} {A : Ty} (hi : Γ.get? i = some A) :
    Γ'.get? (if i < n then i else i + 1) = some A := by
  obtain ⟨U, rfl⟩ := h
  rw [Context.get?] at hi
  rw [Context.get?, insertSlot]
  by_cases hlt : i < n
  · rw [if_pos hlt, List.getElem?_insertIdx_of_lt hlt, hi]
  · rw [if_neg hlt, List.getElem?_insertIdx_of_gt (by omega), Nat.add_sub_cancel, hi]

theorem mem_vars_insertSlot (hn : n ≤ Γ.depth) {U : Ty} {x : Ident} :
    x ∈ (Γ.insertSlot n U).vars ↔ U.occurs x = true ∨ x ∈ Γ.vars := by
  have hbound : ∀ t, t ∈ (Γ.insertSlot n U).bound ↔ t = U ∨ t ∈ Γ.bound :=
    fun t => List.mem_insertIdx hn
  have hdeclared : (Γ.insertSlot n U).declaredVars = Γ.declaredVars := rfl
  simp only [mem_vars, hbound, hdeclared, or_and_right, exists_or, exists_eq_left]
  exact or_left_comm

end Context

/-! ## Runs with a further slot -/

namespace InferM

variable {α β : Type}

/-- Whatever `x` answers, `y` answers as well. -/
def Follows (x y : InferM α) : Prop := ∀ n a m, x n = .ok a m → y n = .ok a m

theorem follows_self (x : InferM α) : Follows x x := fun _ _ _ h => h

theorem Follows.bind {x y : InferM α} {f g : α → InferM β} (hx : Follows x y)
    (hf : ∀ a, Follows (f a) (g a)) : Follows (x >>= f) (y >>= g) := by
  intro n b m h
  obtain ⟨a, k, ha, hb⟩ := bind_eq_ok.mp h
  exact bind_eq_ok.mpr ⟨a, k, hx n a k ha, hf a k b m hb⟩

end InferM

theorem Term.shift_eq_succ {t u : Term} {n : Nat} (h : t.shift n = .succ u) :
    ∃ v, t = .succ v := by
  cases t with
  | succ v => exact ⟨v, rfl⟩
  | _ => cases h

open InferM in
/-- A run does not look at a slot that the term does not use. -/
theorem inferTerm_shift (rigid : IdentSet) {Γ Γ' : Context} {n : Nat} (h : Γ.Inserted n Γ')
    (t : Term) : Follows (inferTerm rigid Γ t) (inferTerm rigid Γ' (t.shift n)) := by
  unfold Term.shift
  induction t generalizing Γ Γ' n with
  | bvar i =>
    intro k r m hr
    rw [inferTerm] at hr
    cases hi : Γ.get? i with
    | none =>
      rw [hi] at hr
      exact absurd hr throw_ne_ok
    | some A =>
      rw [hi] at hr
      rw [Term.shiftBy_bvar, inferTerm, h.get? hi]
      exact hr
  | fvar x =>
    have hlookup : Γ'.lookup? x = Γ.lookup? x := by
      obtain ⟨U, rfl⟩ := h
      rfl
    rw [Term.shiftBy_fvar, inferTerm, inferTerm, hlookup]
    exact follows_self _
  | lam b ih => exact (follows_self _).bind fun A => (ih (h.push A)).bind fun r => follows_self _
  | app f a ihf iha =>
    exact (ihf h).bind fun r₁ => (iha (h.apply _)).bind fun r₂ => follows_self _
  | pair a b iha ihb =>
    exact (iha h).bind fun r₁ => (ihb (h.apply _)).bind fun r₂ => follows_self _
  | fst p ih | snd p ih => exact (ih h).bind fun r => follows_self _
  | tt | ff | zero => exact follows_self _
  | cond c t e ihc iht ihe =>
    exact (ihc h).bind fun r₁ => (follows_self _).bind fun s => (iht (h.apply _)).bind fun r₂ =>
      (ihe (h.apply _)).bind fun r₃ => follows_self _
  | succ t ih =>
    by_cases hchain : ∃ u, t = .succ u
    · -- a chain of successors is inferred from its inner end
      obtain ⟨u, rfl⟩ := hchain
      rw [Term.shiftBy_succ, Term.shiftBy_succ, inferTerm, inferTerm, ← Term.shiftBy_succ]
      exact ih h
    · have hshifted : ¬ ∃ u, t.shiftBy n 1 = .succ u := by
        rintro ⟨u, hu⟩
        exact hchain (Term.shift_eq_succ hu)
      rw [Term.shiftBy_succ, inferTerm_succ hchain, inferTerm_succ hshifted]
      exact (ih h).bind fun r => follows_self _
  | natRec b s n ihb ihs ihn =>
    exact (ihb h).bind fun r₁ => (ihs (h.apply _)).bind fun r₂ => (follows_self _).bind fun s =>
      (ihn (h.apply _)).bind fun r₃ => follows_self _

/-! ## Whole checks -/

/-- A slot that no generated variable occurs in does not move the supply either. -/
theorem typeCheck_shift {Γ : Context} {n : Nat} {U : Ty} {t : Term} {r : Inferred}
    (hn : n ≤ Γ.depth) (hU : ∀ m, U.occurs (.fresh m) = false) (h : typeCheck t Γ = .ok r) :
    typeCheck (t.shift n) (Γ.insertSlot n U) = .ok r := by
  obtain ⟨start, stop, havoid, hinfer⟩ := typeCheck_eq_ok.mp h
  refine typeCheck_eq_ok.mpr ⟨start, stop, ?_, ?_⟩
  · rw [← havoid]
    refine NameSupply.avoid_congr (fun m => ?_) {}
    rw [Context.mem_vars_insertSlot hn, hU m]
    exact or_iff_right Bool.false_ne_true
  · exact inferTerm_shift Γ.declaredVars ⟨U, rfl⟩ t start r stop hinfer

/-- **Inference respects shifting and contraction.** In a context with a further slot, of a type
without generated variables, a term that is shifted past it gets the same answer. What is answered
for a contracted redex is at least as general as what is answered for the redex, unless more
variables are needed than there are. -/
theorem typeCheck_shift_contract (Γ : Context) :
    (∀ (t : Term) (n : Nat) (U : Ty) (r : Inferred), n ≤ Γ.depth →
      (∀ m, U.occurs (.fresh m) = false) → typeCheck t Γ = .ok r →
        typeCheck (t.shift n) (Γ.insertSlot n U) = .ok r) ∧
    ∀ (b a : Term) (r : Inferred), typeCheck (.app (.lam b) a) Γ = .ok r →
      (∃ r', typeCheck (b.subst 0 a) Γ = .ok r' ∧ r'.MoreGeneral Γ r) ∨
        (typeCheck (b.subst 0 a) Γ = .error (.fault .counterOverflow) ∧
          Γ.Exhausts (b.subst 0 a)) := by
  constructor
  · intro t n U r hn hU h
    exact typeCheck_shift hn hU h
  · intro b a r h
    exact moreGeneral_of_types h (Typing.contract (typeCheck_sound h))

/-- The slot of unknown type is that of a function, which is applied in a term below a binder and,
to an identity that is used twice, in the body of a redex. There the two uses have the same type;
the contractum has an identity for each of them. -/
theorem typeCheck_shift_contract_twice :
    ∃ Γ : Context, Γ = ⟨[.nat, .var (.fresh 7)],
        (∅ : IdentMap Ty).insert (.named "k") (.var (.named "R"))⟩ ∧
      (∃ t U r, t = Term.lam (.app (.bvar 2) (.pair (.bvar 1) (.fvar (.named "k")))) ∧
        U = Ty.prod (.var (.named "R")) (.var (.named "Q")) ∧
        r = ⟨.ofList [(.fresh 7, .arrow (.prod .nat (.var (.named "R"))) (.var (.fresh 9)))],
          .arrow (.var (.fresh 8)) (.var (.fresh 9))⟩ ∧
        1 ≤ Γ.depth ∧ (∀ m, U.occurs (.fresh m) = false) ∧ typeCheck t Γ = .ok r ∧
        typeCheck (t.shift 1) (Γ.insertSlot 1 U) = .ok r) ∧
      ∃ b a r r', b = Term.pair (.bvar 0) (.app (.bvar 2) (.bvar 0)) ∧ a = Term.lam (.bvar 0) ∧
        typeCheck (.app (.lam b) a) Γ = .ok r ∧
        r.ty = .prod (.arrow (.var (.fresh 10)) (.var (.fresh 10))) (.var (.fresh 9)) ∧
        typeCheck (b.subst 0 a) Γ = .ok r' ∧ r'.MoreGeneral Γ r ∧
        r'.ty = .prod (.arrow (.var (.fresh 8)) (.var (.fresh 8))) (.var (.fresh 10)) := by
  obtain ⟨Γ, hΓ⟩ : ∃ Γ : Context, Γ = ⟨[.nat, .var (.fresh 7)],
    (∅ : IdentMap Ty).insert (.named "k") (.var (.named "R"))⟩ := ⟨_, rfl⟩
  refine ⟨Γ, hΓ, ⟨_, _, _, rfl, rfl, rfl, ?_⟩, ?_⟩
  · have hn : 1 ≤ Γ.depth := by
      subst hΓ
      decide
    have hU : ∀ m, (Ty.prod (.var (.named "R")) (.var (.named "Q"))).occurs (.fresh m) = false :=
      fun _ => rfl
    have h : typeCheck (.lam (.app (.bvar 2) (.pair (.bvar 1) (.fvar (.named "k"))))) Γ =
        .ok ⟨.ofList [(.fresh 7, .arrow (.prod .nat (.var (.named "R"))) (.var (.fresh 9)))],
          .arrow (.var (.fresh 8)) (.var (.fresh 9))⟩ := by
      subst hΓ
      rw [typeCheck_eq]
      cbv
    exact ⟨hn, hU, h, (typeCheck_shift_contract Γ).1 _ 1 _ _ hn hU h⟩
  · have h :
        typeCheck (.app (.lam (.pair (.bvar 0) (.app (.bvar 2) (.bvar 0)))) (.lam (.bvar 0))) Γ =
        .ok ⟨.ofList [
            (.fresh 7, .arrow (.arrow (.var (.fresh 10)) (.var (.fresh 10))) (.var (.fresh 9))),
            (.fresh 8, .arrow (.var (.fresh 10)) (.var (.fresh 10))),
            (.fresh 11, .prod (.arrow (.var (.fresh 10)) (.var (.fresh 10))) (.var (.fresh 9)))],
          .prod (.arrow (.var (.fresh 10)) (.var (.fresh 10))) (.var (.fresh 9))⟩ := by
      subst hΓ
      rw [typeCheck_eq]
      cbv
    have h' : typeCheck ((Term.pair (.bvar 0) (.app (.bvar 2) (.bvar 0))).subst 0 (.lam (.bvar 0)))
        Γ = .ok ⟨.ofList [
            (.fresh 7, .arrow (.arrow (.var (.fresh 9)) (.var (.fresh 9))) (.var (.fresh 10)))],
          .prod (.arrow (.var (.fresh 8)) (.var (.fresh 8))) (.var (.fresh 10))⟩ := by
      subst hΓ
      rw [typeCheck_eq]
      cbv
    refine ⟨_, _, _, _, rfl, rfl, h, rfl, h', ?_, rfl⟩
    rcases (typeCheck_shift_contract Γ).2 _ _ _ h with ⟨r', hr', hgeneral⟩ | ⟨hfault, -⟩
    · rw [h'] at hr'
      cases hr'
      exact hgeneral
    · rw [h'] at hfault
      cases hfault

end SystemT
