import SystemT.Proofs.Inference.Checker
import SystemT.Proofs.Unification.Renaming

/-!
# Inference with other names

Two runs of inference, one in a context and one in the same context with its written type variables
renamed, issue the same variables and end alike: with a type and its renamed one, or with an error
and the renamed one (`inferTerm_rename`, `typeCheck_rename`). Only the written variables are
renamed, so that issued ones are the same in both runs.
-/

namespace SystemT

open Function (Injective)

/-- Rename the type variables that an error is about. -/
def TypeError.rename (ρ : String → String) : TypeError → TypeError
  | occursCheck x t => occursCheck (x.rename ρ) (t.rename ρ)
  | mismatch t u => mismatch (t.rename ρ) (u.rename ρ)
  | undeclared x => undeclared x
  | outOfRange i depth => outOfRange i depth

/-- Renaming turns the answer `r` into `r'`. -/
structure Inferred.RenamedTo (ρ : String → String) (r r' : Inferred) : Prop where
  subst : r.subst.RenamedTo ρ r'.subst
  ty : r'.ty = r.ty.rename ρ

section

variable {ρ : String → String}

namespace InferM

variable {α α' β β' : Type} {R : α → α' → Prop} {Q : β → β' → Prop}

/-- Both computations issue the same variables, and either their results are as `R` says or they
fail with the same error up to renaming. -/
def Alike (ρ : String → String) (R : α → α' → Prop) (act : InferM α) (act' : InferM α') : Prop :=
  ∀ n, (∃ a a' m, act n = .ok a m ∧ act' n = .ok a' m ∧ R a a') ∨
    ∃ e m, act n = .error e m ∧ act' n = .error (e.map (TypeError.rename ρ)) m

theorem alike_pure {a : α} {a' : α'} (h : R a a') : Alike ρ R (pure a) (pure a') := fun n =>
  .inl ⟨a, a', n, rfl, rfl, h⟩

theorem alike_throw (e : Failure TypeError) :
    Alike ρ R (throw e) (throw (e.map (TypeError.rename ρ))) := fun n =>
  .inr ⟨e, n, rfl, rfl⟩

theorem Alike.bind {act : InferM α} {act' : InferM α'} {next : α → InferM β}
    {next' : α' → InferM β'} (h : Alike ρ R act act')
    (hnext : ∀ a a', R a a' → Alike ρ Q (next a) (next' a')) :
    Alike ρ Q (act >>= next) (act' >>= next') := by
  intro n
  show (∃ b b' m, EStateM.bind act next n = _ ∧ EStateM.bind act' next' n = _ ∧ _) ∨
    ∃ e m, EStateM.bind act next n = _ ∧ EStateM.bind act' next' n = _
  unfold EStateM.bind
  rcases h n with ⟨a, a', m, hact, hact', ha⟩ | ⟨e, m, hact, hact'⟩
  · rw [hact, hact']
    exact hnext a a' ha m
  · rw [hact, hact']
    exact .inr ⟨e, m, rfl, rfl⟩

/-- The same variable is issued. -/
theorem alike_freshVar : Alike ρ (fun A A' => A' = A.rename ρ) freshVar freshVar := by
  intro n
  by_cases h : n.next + 1 < counterLimit
  · have hok := freshVar_eq_ok.mpr ⟨h, rfl, rfl⟩
    exact .inl ⟨_, _, _, hok, hok, rfl⟩
  · have herror := freshVar_eq_error h
    exact .inr ⟨_, n, herror, herror⟩

variable {rigid rigid' : IdentSet}

theorem alike_equate (hρ : Injective ρ) (hrigid : ∀ x : Ident, x.rename ρ ∈ rigid' ↔ x ∈ rigid)
    (A B : Ty) : Alike ρ (Subst.RenamedTo ρ) (equate rigid A B)
      (equate rigid' (A.rename ρ) (B.rename ρ)) := by
  unfold equate
  have hproblem : [(A.rename ρ, B.rename ρ)] = [(A, B)].map (Equation.rename ρ) := rfl
  rw [hproblem]
  rcases unify_rename hρ hrigid [(A, B)] with ⟨s, s', h, h', hs⟩ | ⟨e, h, h'⟩
  · rw [h, h']
    exact alike_pure hs
  · rw [h, h']
    cases e with
    | occursCheck x t => exact alike_throw (.error (.occursCheck x t))
    | mismatch t u => exact alike_throw (.error (.mismatch t u))

end InferM

open InferM in
/-- In the renamed context a term is inferred to have the renamed type. -/
theorem inferTerm_rename (hρ : Injective ρ) {rigid rigid' : IdentSet}
    (hrigid : ∀ x : Ident, x.rename ρ ∈ rigid' ↔ x ∈ rigid) (Γ : Context) (t : Term) :
    Alike ρ (Inferred.RenamedTo ρ) (inferTerm rigid Γ t) (inferTerm rigid' (Γ.rename ρ) t) := by
  have hequate := alike_equate hρ hrigid
  have hplain : ∀ A : Ty, Alike ρ (Inferred.RenamedTo ρ) (pure (.plain A))
      (pure (.plain (A.rename ρ))) := fun A => alike_pure ⟨Subst.renamedTo_empty, rfl⟩
  induction t generalizing Γ with
  | fvar x =>
    rw [inferTerm, inferTerm, Context.lookup?_rename]
    cases Γ.lookup? x with
    | some A => exact hplain A
    | none => exact alike_throw _
  | bvar i =>
    rw [inferTerm, inferTerm, Context.get?_rename, Context.depth_rename]
    cases Γ.get? i with
    | some A => exact hplain A
    | none => exact alike_throw _
  | tt | ff | zero => exact hplain _
  | lam b ih =>
    refine alike_freshVar.bind ?_
    rintro param _ rfl
    refine (ih (Γ.push param)).bind ?_
    rintro ⟨s, B⟩ ⟨s', _⟩ ⟨hs, rfl⟩
    refine alike_pure ⟨hs, ?_⟩
    rw [hs.apply]
    rfl
  | app f a ihf iha =>
    refine (ihf Γ).bind ?_
    rintro ⟨s₁, F⟩ ⟨s₁', _⟩ ⟨hs₁, rfl⟩
    dsimp only
    rw [Context.apply_rename hs₁]
    refine (iha _).bind ?_
    rintro ⟨s₂, A⟩ ⟨s₂', _⟩ ⟨hs₂, rfl⟩
    refine alike_freshVar.bind ?_
    rintro result _ rfl
    dsimp only
    rw [hs₂.apply]
    refine (hequate (s₂.apply F) (.arrow A result)).bind fun s₃ s₃' hs₃ => ?_
    exact alike_pure ⟨(hs₁.compose hs₂).compose hs₃, hs₃.apply result⟩
  | pair a b iha ihb =>
    refine (iha Γ).bind ?_
    rintro ⟨s₁, A⟩ ⟨s₁', _⟩ ⟨hs₁, rfl⟩
    dsimp only
    rw [Context.apply_rename hs₁]
    refine (ihb _).bind ?_
    rintro ⟨s₂, B⟩ ⟨s₂', _⟩ ⟨hs₂, rfl⟩
    refine alike_pure ⟨hs₁.compose hs₂, ?_⟩
    rw [hs₂.apply]
    rfl
  | fst p ih | snd p ih =>
    refine (ih Γ).bind ?_
    rintro ⟨s₁, A⟩ ⟨s₁', _⟩ ⟨hs₁, rfl⟩
    refine alike_freshVar.bind ?_
    rintro left _ rfl
    refine alike_freshVar.bind ?_
    rintro right _ rfl
    refine (hequate A (.prod left right)).bind fun s₂ s₂' hs₂ => ?_
    exact alike_pure ⟨hs₁.compose hs₂, hs₂.apply _⟩
  | cond c t e ihc iht ihe =>
    refine (ihc Γ).bind ?_
    rintro ⟨s₁, C⟩ ⟨s₁', _⟩ ⟨hs₁, rfl⟩
    refine (hequate C .bool).bind fun u u' hu => ?_
    have hs : (s₁.compose u).RenamedTo ρ (s₁'.compose u') := hs₁.compose hu
    dsimp only
    rw [Context.apply_rename hs]
    refine (iht _).bind ?_
    rintro ⟨s₂, A⟩ ⟨s₂', _⟩ ⟨hs₂, rfl⟩
    dsimp only
    rw [Context.apply_rename (hs.compose hs₂)]
    refine (ihe _).bind ?_
    rintro ⟨s₃, B⟩ ⟨s₃', _⟩ ⟨hs₃, rfl⟩
    dsimp only
    rw [hs₃.apply]
    refine (hequate (s₃.apply A) B).bind fun s₄ s₄' hs₄ => ?_
    exact alike_pure ⟨((hs.compose hs₂).compose hs₃).compose hs₄, hs₄.apply B⟩
  | succ t ih =>
    by_cases hchain : ∃ u, t = .succ u
    · -- a chain of successors is inferred from its inner end
      obtain ⟨u, rfl⟩ := hchain
      exact ih Γ
    · rw [inferTerm_succ hchain, inferTerm_succ hchain]
      refine (ih Γ).bind ?_
      rintro ⟨s₁, A⟩ ⟨s₁', _⟩ ⟨hs₁, rfl⟩
      refine (hequate A .nat).bind fun s₂ s₂' hs₂ => ?_
      exact alike_pure ⟨hs₁.compose hs₂, rfl⟩
  | natRec b s n ihb ihs ihn =>
    refine (ihb Γ).bind ?_
    rintro ⟨s₀, A⟩ ⟨s₀', _⟩ ⟨hs₀, rfl⟩
    dsimp only
    rw [Context.apply_rename hs₀]
    refine (ihs _).bind ?_
    rintro ⟨s₁, S⟩ ⟨s₁', _⟩ ⟨hs₁, rfl⟩
    dsimp only
    rw [hs₁.apply]
    refine (hequate S (.arrow .nat (.arrow (s₁.apply A) (s₁.apply A)))).bind fun s₂ s₂' hs₂ => ?_
    have hs : ((s₀.compose s₁).compose s₂).RenamedTo ρ ((s₀'.compose s₁').compose s₂') :=
      (hs₀.compose hs₁).compose hs₂
    dsimp only
    rw [hs₂.apply, Context.apply_rename hs]
    refine (ihn _).bind ?_
    rintro ⟨s₃, N⟩ ⟨s₃', _⟩ ⟨hs₃, rfl⟩
    dsimp only
    rw [hs₃.apply]
    refine (hequate N .nat).bind fun s₄ s₄' hs₄ => ?_
    exact alike_pure ⟨(hs.compose hs₃).compose hs₄, hs₄.apply _⟩

/-! ## Whole checks -/

/-- In the renamed context a term has the renamed type, or the renamed error. -/
theorem typeCheck_rename (hρ : Injective ρ) (Γ : Context) (t : Term) :
    (∃ r r', typeCheck t Γ = .ok r ∧ typeCheck t (Γ.rename ρ) = .ok r' ∧ r.RenamedTo ρ r') ∨
      ∃ e, typeCheck t Γ = .error e ∧
        typeCheck t (Γ.rename ρ) = .error (e.map (TypeError.rename ρ)) := by
  have hrigid : ∀ x : Ident, x.rename ρ ∈ (Γ.rename ρ).declaredVars ↔ x ∈ Γ.declaredVars := by
    intro x
    rw [Context.mem_declaredVars_rename]
    constructor
    · rintro ⟨y, hy, h⟩
      rwa [← Ident.rename_injective hρ hy]
    · exact fun h => ⟨x, rfl, h⟩
  have havoid : NameSupply.avoid (Γ.rename ρ).vars.toList {} =
      NameSupply.avoid Γ.vars.toList {} := by
    refine NameSupply.avoid_congr (fun n => ?_) {}
    rw [Context.mem_vars_rename]
    simp only [Ident.rename_eq_fresh_iff, exists_eq_left]
  rw [typeCheck_eq, typeCheck_eq, havoid]
  cases NameSupply.avoid Γ.vars.toList {} with
  | error f start => exact .inr ⟨.fault f, rfl, rfl⟩
  | ok u start =>
    dsimp only
    rcases inferTerm_rename hρ hrigid Γ t start with ⟨r, r', stop, h, h', hr⟩ | ⟨e, stop, h, h'⟩
    · rw [h, h']
      exact .inl ⟨r, r', rfl, rfl, hr⟩
    · rw [h, h']
      exact .inr ⟨e, rfl, rfl⟩

end

end SystemT
