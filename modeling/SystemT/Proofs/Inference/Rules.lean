import SystemT.Inference
import SystemT.Proofs.Unification.MostGeneral

/-!
# The rules of type inference

An inference that succeeds is described by `Infers`: one rule for each constructor of terms, with
the numbers of the fresh variables made explicit and the equations between types that the unifier
had to solve as premises. `infers_of_inferTerm` reads such a derivation off a successful run, so
that properties of inference are proved by induction on derivations.

A successor needs no more than its own rule, although a chain of them is inferred in one go.
-/

namespace SystemT

open Inferred (plain)

/-- `Infers rigid Γ t n r m`: the term `t` gets the result `r` in `Γ`, where the variables in
`rigid` are not bound and fresh variables are numbered from `n` on up to `m`. -/
inductive Infers (rigid : IdentSet) : Context → Term → Nat → Inferred → Nat → Prop where
  | bvar {Γ : Context} {i : Nat} {A : Ty} {n : Nat} (h : Γ.get? i = some A) :
      Infers rigid Γ (.bvar i) n (plain A) n
  | fvar {Γ : Context} {x : Ident} {A : Ty} {n : Nat} (h : Γ.lookup? x = some A) :
      Infers rigid Γ (.fvar x) n (plain A) n
  | lam {Γ : Context} {b : Term} {n m : Nat} {s : Subst} {B : Ty} (hn : n + 1 < counterLimit)
      (hb : Infers rigid (Γ.push (.var (.fresh n))) b (n + 1) ⟨s, B⟩ m) :
      Infers rigid Γ (.lam b) n ⟨s, .arrow (s.apply (.var (.fresh n))) B⟩ m
  | app {Γ : Context} {f a : Term} {n k m : Nat} {s₁ s₂ s₃ : Subst} {A B : Ty}
      (hf : Infers rigid Γ f n ⟨s₁, A⟩ k) (ha : Infers rigid (Γ.apply s₁) a k ⟨s₂, B⟩ m)
      (hm : m + 1 < counterLimit)
      (heq : unify [(s₂.apply A, .arrow B (.var (.fresh m)))] rigid = .ok s₃) :
      Infers rigid Γ (.app f a) n
        ⟨(s₁.compose s₂).compose s₃, s₃.apply (.var (.fresh m))⟩ (m + 1)
  | pair {Γ : Context} {a b : Term} {n k m : Nat} {s₁ s₂ : Subst} {A B : Ty}
      (ha : Infers rigid Γ a n ⟨s₁, A⟩ k) (hb : Infers rigid (Γ.apply s₁) b k ⟨s₂, B⟩ m) :
      Infers rigid Γ (.pair a b) n ⟨s₁.compose s₂, .prod (s₂.apply A) B⟩ m
  | fst {Γ : Context} {p : Term} {n m : Nat} {s₁ s₂ : Subst} {A : Ty}
      (hp : Infers rigid Γ p n ⟨s₁, A⟩ m) (hm : m + 2 < counterLimit)
      (heq : unify [(A, .prod (.var (.fresh m)) (.var (.fresh (m + 1))))] rigid = .ok s₂) :
      Infers rigid Γ (.fst p) n ⟨s₁.compose s₂, s₂.apply (.var (.fresh m))⟩ (m + 2)
  | snd {Γ : Context} {p : Term} {n m : Nat} {s₁ s₂ : Subst} {A : Ty}
      (hp : Infers rigid Γ p n ⟨s₁, A⟩ m) (hm : m + 2 < counterLimit)
      (heq : unify [(A, .prod (.var (.fresh m)) (.var (.fresh (m + 1))))] rigid = .ok s₂) :
      Infers rigid Γ (.snd p) n ⟨s₁.compose s₂, s₂.apply (.var (.fresh (m + 1)))⟩ (m + 2)
  | tt {Γ : Context} {n : Nat} : Infers rigid Γ .tt n (plain .bool) n
  | ff {Γ : Context} {n : Nat} : Infers rigid Γ .ff n (plain .bool) n
  | cond {Γ : Context} {c t e : Term} {n k l m : Nat} {s₁ u₁ s₂ s₃ s₄ : Subst} {C A B : Ty}
      (hc : Infers rigid Γ c n ⟨s₁, C⟩ k) (hbool : unify [(C, .bool)] rigid = .ok u₁)
      (ht : Infers rigid (Γ.apply (s₁.compose u₁)) t k ⟨s₂, A⟩ l)
      (he : Infers rigid (Γ.apply ((s₁.compose u₁).compose s₂)) e l ⟨s₃, B⟩ m)
      (heq : unify [(s₃.apply A, B)] rigid = .ok s₄) :
      Infers rigid Γ (.cond c t e) n
        ⟨(((s₁.compose u₁).compose s₂).compose s₃).compose s₄, s₄.apply B⟩ m
  | zero {Γ : Context} {n : Nat} : Infers rigid Γ .zero n (plain .nat) n
  | succ {Γ : Context} {t : Term} {n m : Nat} {s₁ s₂ : Subst} {A : Ty}
      (ht : Infers rigid Γ t n ⟨s₁, A⟩ m) (heq : unify [(A, .nat)] rigid = .ok s₂) :
      Infers rigid Γ (.succ t) n ⟨s₁.compose s₂, .nat⟩ m
  | natRec {Γ : Context} {base step scrutinee : Term} {n k l m : Nat}
      {s s₁ s₂ s₃ s₄ : Subst} {A S N : Ty}
      (hb : Infers rigid Γ base n ⟨s, A⟩ k) (hs : Infers rigid (Γ.apply s) step k ⟨s₁, S⟩ l)
      (hstep : unify [(S, .arrow .nat (.arrow (s₁.apply A) (s₁.apply A)))] rigid = .ok s₂)
      (hn : Infers rigid (Γ.apply ((s.compose s₁).compose s₂)) scrutinee l ⟨s₃, N⟩ m)
      (hnat : unify [(N, .nat)] rigid = .ok s₄) :
      Infers rigid Γ (.natRec base step scrutinee) n
        ⟨(((s.compose s₁).compose s₂).compose s₃).compose s₄,
          s₄.apply (s₃.apply (s₂.apply (s₁.apply A)))⟩ m

/-! ## Successful runs -/

namespace InferM

variable {α β : Type}

theorem bind_eq_ok {x : InferM α} {f : α → InferM β} {n m : NameSupply} {b : β} :
    (x >>= f) n = .ok b m ↔ ∃ a k, x n = .ok a k ∧ f a k = .ok b m := by
  show EStateM.bind x f n = _ ↔ _
  unfold EStateM.bind
  cases x n with
  | ok a k =>
    constructor
    · intro h
      exact ⟨a, k, rfl, h⟩
    · rintro ⟨_, _, ⟨⟩, h⟩
      exact h
  | error e k => simp

theorem bind_eq_error {x : InferM α} {f : α → InferM β} {n m : NameSupply}
    {e : Failure TypeError} :
    (x >>= f) n = .error e m ↔ x n = .error e m ∨ ∃ a k, x n = .ok a k ∧ f a k = .error e m := by
  show EStateM.bind x f n = _ ↔ _
  unfold EStateM.bind
  cases x n with
  | ok a k =>
    constructor
    · intro h
      exact .inr ⟨a, k, rfl, h⟩
    · rintro (⟨⟨⟩⟩ | ⟨_, _, ⟨⟩, h⟩)
      exact h
  | error e' k => simp

theorem pure_eq_ok {a b : α} {n m : NameSupply} :
    (pure a : InferM α) n = .ok b m ↔ a = b ∧ n = m := by
  show EStateM.Result.ok a n = .ok b m ↔ _
  simp

theorem throw_ne_ok {e : Failure TypeError} {b : α} {n m : NameSupply} :
    (throw e : InferM α) n ≠ .ok b m := by
  rintro ⟨⟩

theorem freshVar_eq_error {n : NameSupply} (h : ¬ n.next + 1 < counterLimit) :
    freshVar n = .error (.fault .counterOverflow) n := by
  simp [freshVar, ofSupply, EStateM.adaptExcept, Functor.map, EStateM.map, NameSupply.fresh, h]

theorem freshVar_eq_ok {A : Ty} {n m : NameSupply} :
    freshVar n = .ok A m ↔
      n.next + 1 < counterLimit ∧ A = .var (.fresh n.next) ∧ m = ⟨n.next + 1⟩ := by
  by_cases h : n.next + 1 < counterLimit
  · have : freshVar n = .ok (.var (.fresh n.next)) ⟨n.next + 1⟩ := by
      simp [freshVar, ofSupply, EStateM.adaptExcept, Functor.map, EStateM.map, NameSupply.fresh, h]
    rw [this]
    simp [h, eq_comm]
  · rw [freshVar_eq_error h]
    simp [h]

theorem equate_eq_ok {rigid : IdentSet} {A B : Ty} {s : Subst} {n m : NameSupply} :
    equate rigid A B n = .ok s m ↔ unify [(A, B)] rigid = .ok s ∧ n = m := by
  unfold equate
  cases unify [(A, B)] rigid with
  | ok u => simp [pure_eq_ok]
  | error e => simp [throw_ne_ok]

end InferM

/-- Equal base types need no bindings. -/
theorem unify_nat_nat (rigid : IdentSet) : unify [(.nat, .nat)] rigid = .ok ∅ := by
  rw [unify, Unifier.run, Unifier.finish_cons rfl]
  dsimp only [Unifier.solve, Unifier.taking]
  rw [Unifier.finish_nil rfl]
  rfl

open InferM in
/-- A successor asks for a natural below it, unless it goes on with a chain. -/
theorem inferTerm_succ {rigid : IdentSet} {Γ : Context} {t : Term} (ht : ¬ ∃ u, t = .succ u) :
    inferTerm rigid Γ (.succ t) = (inferTerm rigid Γ t >>= fun r =>
      equate rigid r.ty .nat >>= fun s => pure ⟨r.subst.compose s, .nat⟩) := by
  rw [inferTerm]
  exact fun u hu => ht ⟨u, hu⟩

/-- A successful run follows the rules. -/
theorem infers_of_inferTerm {rigid : IdentSet} {Γ : Context} {t : Term} {n m : NameSupply}
    {r : Inferred} (h : inferTerm rigid Γ t n = .ok r m) : Infers rigid Γ t n.next r m.next := by
  induction t generalizing Γ n r m with
  | bvar i =>
    rw [inferTerm] at h
    cases hi : Γ.get? i with
    | none =>
      rw [hi] at h
      exact absurd h InferM.throw_ne_ok
    | some A =>
      rw [hi] at h
      obtain ⟨rfl, rfl⟩ := InferM.pure_eq_ok.mp h
      exact .bvar hi
  | fvar x =>
    rw [inferTerm] at h
    cases hx : Γ.lookup? x with
    | none =>
      rw [hx] at h
      exact absurd h InferM.throw_ne_ok
    | some A =>
      rw [hx] at h
      obtain ⟨rfl, rfl⟩ := InferM.pure_eq_ok.mp h
      exact .fvar hx
  | lam b ih =>
    rw [inferTerm] at h
    obtain ⟨param, k, hparam, h⟩ := InferM.bind_eq_ok.mp h
    obtain ⟨hn, rfl, rfl⟩ := InferM.freshVar_eq_ok.mp hparam
    obtain ⟨⟨s, B⟩, k, hb, h⟩ := InferM.bind_eq_ok.mp h
    obtain ⟨rfl, rfl⟩ := InferM.pure_eq_ok.mp h
    exact .lam hn (ih hb)
  | app f a ihf iha =>
    rw [inferTerm] at h
    obtain ⟨⟨s₁, A⟩, k, hf, h⟩ := InferM.bind_eq_ok.mp h
    obtain ⟨⟨s₂, B⟩, l, ha, h⟩ := InferM.bind_eq_ok.mp h
    obtain ⟨result, l', hresult, h⟩ := InferM.bind_eq_ok.mp h
    obtain ⟨hl, rfl, rfl⟩ := InferM.freshVar_eq_ok.mp hresult
    obtain ⟨s₃, l', hs₃, h⟩ := InferM.bind_eq_ok.mp h
    obtain ⟨heq, rfl⟩ := InferM.equate_eq_ok.mp hs₃
    obtain ⟨rfl, rfl⟩ := InferM.pure_eq_ok.mp h
    exact .app (ihf hf) (iha ha) hl heq
  | pair a b iha ihb =>
    rw [inferTerm] at h
    obtain ⟨⟨s₁, A⟩, k, ha, h⟩ := InferM.bind_eq_ok.mp h
    obtain ⟨⟨s₂, B⟩, l, hb, h⟩ := InferM.bind_eq_ok.mp h
    obtain ⟨rfl, rfl⟩ := InferM.pure_eq_ok.mp h
    exact .pair (iha ha) (ihb hb)
  | fst p ih | snd p ih =>
    rw [inferTerm] at h
    obtain ⟨⟨s₁, A⟩, k, hp, h⟩ := InferM.bind_eq_ok.mp h
    obtain ⟨left, k', hleft, h⟩ := InferM.bind_eq_ok.mp h
    obtain ⟨-, rfl, rfl⟩ := InferM.freshVar_eq_ok.mp hleft
    obtain ⟨right, k', hright, h⟩ := InferM.bind_eq_ok.mp h
    obtain ⟨hk, rfl, rfl⟩ := InferM.freshVar_eq_ok.mp hright
    obtain ⟨s₂, k', hs₂, h⟩ := InferM.bind_eq_ok.mp h
    obtain ⟨heq, rfl⟩ := InferM.equate_eq_ok.mp hs₂
    obtain ⟨rfl, rfl⟩ := InferM.pure_eq_ok.mp h
    first
    | exact .fst (ih hp) hk heq
    | exact .snd (ih hp) hk heq
  | tt =>
    obtain ⟨rfl, rfl⟩ := InferM.pure_eq_ok.mp h
    exact .tt
  | ff =>
    obtain ⟨rfl, rfl⟩ := InferM.pure_eq_ok.mp h
    exact .ff
  | cond c t e ihc iht ihe =>
    rw [inferTerm] at h
    obtain ⟨⟨s₁, C⟩, k, hc, h⟩ := InferM.bind_eq_ok.mp h
    obtain ⟨u₁, k', hu₁, h⟩ := InferM.bind_eq_ok.mp h
    obtain ⟨hbool, rfl⟩ := InferM.equate_eq_ok.mp hu₁
    obtain ⟨⟨s₂, A⟩, l, ht, h⟩ := InferM.bind_eq_ok.mp h
    obtain ⟨⟨s₃, B⟩, m', he, h⟩ := InferM.bind_eq_ok.mp h
    obtain ⟨s₄, m'', hs₄, h⟩ := InferM.bind_eq_ok.mp h
    obtain ⟨heq, rfl⟩ := InferM.equate_eq_ok.mp hs₄
    obtain ⟨rfl, rfl⟩ := InferM.pure_eq_ok.mp h
    exact .cond (ihc hc) hbool (iht ht) (ihe he) heq
  | zero =>
    obtain ⟨rfl, rfl⟩ := InferM.pure_eq_ok.mp h
    exact .zero
  | succ t ih =>
    by_cases hchain : ∃ u, t = .succ u
    · -- a chain is inferred from its inner end; the outer successor adds an equation that holds
      obtain ⟨u, rfl⟩ := hchain
      rw [inferTerm] at h
      have hu := ih h
      cases hu with
      | succ hu heq =>
        rw [← Subst.compose_empty (Subst.compose _ _)]
        exact .succ (.succ hu heq) (unify_nat_nat rigid)
    · rw [inferTerm_succ hchain] at h
      obtain ⟨⟨s₁, A⟩, k, ht, h⟩ := InferM.bind_eq_ok.mp h
      obtain ⟨s₂, k', hs₂, h⟩ := InferM.bind_eq_ok.mp h
      obtain ⟨heq, rfl⟩ := InferM.equate_eq_ok.mp hs₂
      obtain ⟨rfl, rfl⟩ := InferM.pure_eq_ok.mp h
      exact .succ (ih ht) heq
  | natRec base step scrutinee ihb ihs ihn =>
    rw [inferTerm] at h
    obtain ⟨⟨s, A⟩, k, hb, h⟩ := InferM.bind_eq_ok.mp h
    obtain ⟨⟨s₁, S⟩, l, hs, h⟩ := InferM.bind_eq_ok.mp h
    obtain ⟨s₂, l', hs₂, h⟩ := InferM.bind_eq_ok.mp h
    obtain ⟨hstep, rfl⟩ := InferM.equate_eq_ok.mp hs₂
    obtain ⟨⟨s₃, N⟩, m', hn, h⟩ := InferM.bind_eq_ok.mp h
    obtain ⟨s₄, m'', hs₄, h⟩ := InferM.bind_eq_ok.mp h
    obtain ⟨hnat, rfl⟩ := InferM.equate_eq_ok.mp hs₄
    obtain ⟨rfl, rfl⟩ := InferM.pure_eq_ok.mp h
    exact .natRec (ihb hb) (ihs hs) hstep (ihn hn) hnat

end SystemT
