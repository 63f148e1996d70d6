import SystemT.Proofs.Ty.Subst

/-!
# Steps of the unifier

All that a unifier can do with an equation is listed by `Unifier.Treats`, one constructor for each
rule, and `Unifier.treats_solve` says that the algorithm follows these rules. What a step does to
the solutions, to the solved form and to the measure is then shown rule by rule.

A rule that applies lowers the measure (`Unifier.Treats.measure_lt`), so the check that every step
makes of this never fails, and `Unifier.step_cons` describes a step without it.
-/

namespace SystemT

/-- `θ` leaves the variables in `rigid` alone. -/
def Subst.Fixes (θ : Subst) (rigid : IdentSet) : Prop :=
  ∀ x ∈ rigid, θ.image x = .var x

instance (θ : Subst) (rigid : IdentSet) : Decidable (θ.Fixes rigid) :=
  decidable_of_iff (∀ x ∈ rigid.toList, θ.image x = .var x) (by simp [Subst.Fixes])

/-! ## Rules -/

namespace Unifier

/-- The unifier after `x` was bound to `a` and substituted away. -/
def bind (u : Unifier) (x : Ident) (a : Ty) : Unifier :=
  { u with
    pending := u.pending.map fun (l, r) => (l.subst x a, r.subst x a)
    solution := u.solution.bindAfter x a }

/-- The unifier with two more equations in front. -/
def split (u : Unifier) (e₁ e₂ : Equation) : Unifier :=
  { u with pending := e₁ :: e₂ :: u.pending }

/-- A variable that was substituted away is gone; what is left was there before or came with its
image. -/
theorem mem_equationVars_bind {u : Unifier} {x y : Ident} {a : Ty} (ha : a.occurs x = false)
    (hy : y ∈ equationVars (u.bind x a).pending) :
    y ≠ x ∧ (y ∈ equationVars u.pending ∨ a.occurs y = true) := by
  obtain ⟨_, he, hy⟩ := (mem_equationVars _ y).mp hy
  obtain ⟨e, hmem, rfl⟩ := List.mem_map.mp he
  -- both sides of the equation are treated alike
  have hside : ∀ t : Ty, (t = e.1 ∨ t = e.2) → (t.subst x a).occurs y = true →
      y ≠ x ∧ (y ∈ equationVars u.pending ∨ a.occurs y = true) := by
    intro t ht h
    rcases (Ty.occurs_subst t x y a).mp h with ⟨hne, hty⟩ | ⟨-, hay⟩
    · refine ⟨hne, .inl ((mem_equationVars _ y).mpr ⟨e, hmem, ?_⟩)⟩
      rcases ht with rfl | rfl
      · exact .inl hty
      · exact .inr hty
    · refine ⟨?_, .inr hay⟩
      rintro rfl
      rw [ha] at hay
      cases hay
  rcases hy with hy | hy
  · exact hside e.1 (.inl rfl) hy
  · exact hside e.2 (.inr rfl) hy

/-- Splitting an equation brings no new variables. -/
theorem mem_equationVars_split {u : Unifier} {a b c d : Ty} {y : Ident}
    (hy : y ∈ equationVars (u.split (a, c) (b, d)).pending) :
    ((a.occurs y = true ∨ b.occurs y = true) ∨ c.occurs y = true ∨ d.occurs y = true) ∨
      y ∈ equationVars u.pending := by
  rw [split, mem_equationVars_cons, mem_equationVars_cons] at hy
  rcases hy with (hy | hy) | (hy | hy) | hy
  · exact .inl (.inl (.inl hy))
  · exact .inl (.inr (.inl hy))
  · exact .inl (.inl (.inr hy))
  · exact .inl (.inr (.inr hy))
  · exact .inr hy

/-- What becomes of the equation of two types. -/
inductive Treats (u : Unifier) : Ty → Ty → Except (Failure UnifyError) (Move × Unifier) → Prop where
  | discard (t : Ty) : Treats u t t (.ok (.discarded, u))
  | bindLeft {x : Ident} {a : Ty} (hx : x ∉ u.rigid) (ha : a.occurs x = false) :
      Treats u (.var x) a (.ok (.eliminated, u.bind x a))
  | bindRight {x : Ident} {a : Ty} (hx : x ∉ u.rigid) (ha : a.occurs x = false) :
      Treats u a (.var x) (.ok (.eliminated, u.bind x a))
  | arrow (a b c d : Ty) :
      Treats u (.arrow a b) (.arrow c d) (.ok (.decomposed, u.split (a, c) (b, d)))
  | prod (a b c d : Ty) :
      Treats u (.prod a b) (.prod c d) (.ok (.decomposed, u.split (a, c) (b, d)))
  /-- An equation is refused only if nothing solves it. -/
  | refuse {t v : Ty} {e : UnifyError}
      (h : ∀ θ : Subst, θ.Fixes u.rigid → θ.apply t ≠ θ.apply v) :
      Treats u t v (.error (.error e))

theorem flexible_iff (u : Unifier) (x : Ident) : u.flexible x = true ↔ x ∉ u.rigid := by
  rw [flexible, Bool.not_eq_true', ← Bool.not_eq_true, Std.ExtTreeSet.mem_iff_contains]

/-- Elimination binds the variable or fails the occurs check; the check made again by `bindAfter?`
passes. -/
theorem eliminate_eq (u : Unifier) (x : Ident) (a : Ty) :
    u.eliminate x a =
      if a.occurs x then .error (.error (.occursCheck x a)) else .ok (.eliminated, u.bind x a) := by
  unfold eliminate
  by_cases h : a.occurs x
  · rw [if_pos h, if_pos h]
  · rw [if_neg h, if_neg h, Subst.bindAfter?, if_neg h]
    rfl

theorem treats_eliminate_left {u : Unifier} {x : Ident} {a : Ty} (hx : x ∉ u.rigid)
    (hne : a ≠ .var x) : u.Treats (.var x) a (u.eliminate x a) := by
  rw [eliminate_eq]
  by_cases h : a.occurs x
  · rw [if_pos h]
    exact .refuse fun θ _ => Subst.image_ne_apply_of_occurs θ h hne
  · rw [if_neg h]
    exact .bindLeft hx (Bool.not_eq_true _ ▸ h)

theorem treats_eliminate_right {u : Unifier} {x : Ident} {a : Ty} (hx : x ∉ u.rigid)
    (hne : a ≠ .var x) : u.Treats a (.var x) (u.eliminate x a) := by
  rw [eliminate_eq]
  by_cases h : a.occurs x
  · rw [if_pos h]
    exact .refuse fun θ _ => (Subst.image_ne_apply_of_occurs θ h hne).symm
  · rw [if_neg h]
    exact .bindRight hx (Bool.not_eq_true _ ▸ h)

/-- A rigid variable equals nothing but itself under a substitution that leaves it alone. -/
theorem apply_ne_of_rigid {u : Unifier} {x : Ident} {a : Ty} {θ : Subst} (hx : x ∈ u.rigid)
    (hθ : θ.Fixes u.rigid) (ha : ∀ y, a = .var y → y ∈ u.rigid ∧ y ≠ x) :
    θ.apply (.var x) ≠ θ.apply a := by
  have hvar : θ.apply (.var x) = .var x := hθ x hx
  rw [hvar]
  cases a with
  | nat | bool | arrow b c | prod b c => rintro ⟨⟩
  | var y =>
    obtain ⟨hy, hne⟩ := ha y rfl
    have hy' : θ.apply (.var y) = .var y := hθ y hy
    rw [hy']
    intro heq
    cases heq
    exact hne rfl

/-- Types that are no variables and become equal have the same outermost constructor. -/
theorem like_of_apply_eq {θ : Subst} {t v : Ty} (ht : ∀ x, t ≠ .var x) (hv : ∀ y, v ≠ .var y)
    (h : θ.apply t = θ.apply v) :
    (t = .nat ∧ v = .nat) ∨ (t = .bool ∧ v = .bool) ∨
      (∃ a b c d, t = .arrow a b ∧ v = .arrow c d) ∨ ∃ a b c d, t = .prod a b ∧ v = .prod c d := by
  cases t with
  | var x => exact absurd rfl (ht x)
  | nat | bool | arrow a b | prod a b =>
    cases v with
    | var y => exact absurd rfl (hv y)
    | nat | bool | arrow c d | prod c d => simp_all [Subst.apply]

/-- The algorithm follows the rules. -/
theorem treats_solve (u : Unifier) (t v : Ty) : u.Treats t v (u.solve t v) := by
  have mem_rigid : ∀ {x : Ident}, ¬ u.flexible x = true → x ∈ u.rigid := fun h =>
    Classical.byContradiction fun hx => h ((u.flexible_iff _).mpr hx)
  unfold solve
  split
  case h_1 x y =>
    by_cases hxy : x = y
    · rw [if_pos hxy, hxy]
      exact .discard _
    rw [if_neg hxy]
    by_cases hx : u.flexible x
    · rw [if_pos hx]
      exact treats_eliminate_left ((u.flexible_iff x).mp hx) fun h => hxy (Ty.var.inj h).symm
    rw [if_neg hx]
    by_cases hy : u.flexible y
    · rw [if_pos hy]
      exact treats_eliminate_right ((u.flexible_iff y).mp hy) fun h => hxy (Ty.var.inj h)
    rw [if_neg hy]
    refine .refuse fun θ hθ => apply_ne_of_rigid (mem_rigid hx) hθ ?_
    rintro z ⟨⟩
    exact ⟨mem_rigid hy, Ne.symm hxy⟩
  case h_2 x hv =>
    by_cases hx : u.flexible x
    · rw [if_pos hx]
      exact treats_eliminate_left ((u.flexible_iff x).mp hx) (hv x)
    · rw [if_neg hx]
      exact .refuse fun θ hθ => apply_ne_of_rigid (mem_rigid hx) hθ fun y hy => absurd hy (hv y)
  case h_3 y ht =>
    by_cases hy : u.flexible y
    · rw [if_pos hy]
      exact treats_eliminate_right ((u.flexible_iff y).mp hy) (ht y)
    · rw [if_neg hy]
      exact .refuse fun θ hθ =>
        (apply_ne_of_rigid (mem_rigid hy) hθ fun z hz => absurd hz (ht z)).symm
  case h_4 | h_5 => exact .discard _
  case h_6 a b c d => exact .arrow a b c d
  case h_7 a b c d => exact .prod a b c d
  case h_8 ht hv _ hnat hbool harrow hprod =>
    -- unlike constructors stay unlike under every substitution
    refine .refuse fun θ _ heq => ?_
    rcases like_of_apply_eq ht hv heq with h | h | ⟨a, b, c, d, h⟩ | ⟨a, b, c, d, h⟩
    · exact hnat h.1 h.2
    · exact hbool h.1 h.2
    · exact harrow a b c d h.1 h.2
    · exact hprod a b c d h.1 h.2

/-! ## Measures -/

theorem measure_size_cons (t v : Ty) (rest : List Equation) :
    (SystemT.measure ((t, v) :: rest)).size = t.size + v.size + (SystemT.measure rest).size := by
  have hfold : ∀ (l : List Equation) (n : Nat),
      l.foldl (fun n (e : Equation) => n + (e.1.size + e.2.size)) n =
        n + l.foldl (fun n (e : Equation) => n + (e.1.size + e.2.size)) 0 := by
    intro l
    induction l with
    | nil => intro n; rfl
    | cons e l ih =>
      intro n
      rw [List.foldl_cons, List.foldl_cons, ih, ih (0 + _)]
      omega
  show (rest.foldl _ (0 + (t.size + v.size))) = _
  rw [Nat.zero_add]
  exact hfold rest _

/-- Fewer constructors and no new variable make a smaller measure. -/
theorem measure_lt_of_size_lt {p q : List Equation}
    (hvars : ∀ x, x ∈ equationVars p → x ∈ equationVars q)
    (hsize : (SystemT.measure p).size < (SystemT.measure q).size) :
    SystemT.measure p < SystemT.measure q := by
  have hle : (SystemT.measure p).vars ≤ (SystemT.measure q).vars :=
    IdentSet.size_le_of_subset hvars
  rcases Nat.lt_or_eq_of_le hle with hlt | heq
  · exact .inl hlt
  · exact .inr ⟨heq, hsize⟩

/-- Binding a variable of a problem lowers the measure if no variable from outside is brought in. -/
theorem measure_bind_lt {u : Unifier} {x : Ident} {a : Ty} {problem : List Equation}
    (ha : a.occurs x = false) (hx : x ∈ equationVars problem)
    (hvars : ∀ y, a.occurs y = true → y ∈ equationVars problem)
    (hpending : ∀ y, y ∈ equationVars u.pending → y ∈ equationVars problem) :
    (u.bind x a).measure < SystemT.measure problem := by
  have hsubset : ∀ y, y ∈ equationVars (u.bind x a).pending → y ∈ equationVars problem := by
    intro y hy
    rcases (mem_equationVars_bind ha hy).2 with hy | hy
    · exact hpending y hy
    · exact hvars y hy
  have hgone : x ∉ equationVars (u.bind x a).pending := fun h => (mem_equationVars_bind ha h).1 rfl
  exact .inl (IdentSet.size_lt_of_subset hsubset hx hgone)

/-- Every rule that applies lowers the measure. -/
theorem Treats.measure_lt {u : Unifier} {t v : Ty} {move : Move} {next : Unifier}
    (h : u.Treats t v (.ok (move, next))) :
    next.measure < SystemT.measure ((t, v) :: u.pending) := by
  have hvars : ∀ y, t.occurs y = true ∨ v.occurs y = true →
      y ∈ equationVars ((t, v) :: u.pending) :=
    fun y hy => (mem_equationVars_cons _ _ y).mpr (.inl hy)
  have hrest : ∀ y, y ∈ equationVars u.pending → y ∈ equationVars ((t, v) :: u.pending) :=
    fun y hy => (mem_equationVars_cons _ _ y).mpr (.inr hy)
  cases h with
  | discard =>
    -- the equation had a size of its own
    refine measure_lt_of_size_lt hrest ?_
    have hpos := t.size_pos
    rw [measure_size_cons]
    omega
  | bindLeft hx ha =>
    have hmem := hvars _ (.inl ((Ty.occurs_var _ _).mpr rfl))
    exact measure_bind_lt ha hmem (fun y hy => hvars y (.inr hy)) hrest
  | bindRight hx ha =>
    have hmem := hvars _ (.inr ((Ty.occurs_var _ _).mpr rfl))
    exact measure_bind_lt ha hmem (fun y hy => hvars y (.inl hy)) hrest
  | arrow a b c d | prod a b c d =>
    -- two constructors are gone
    refine measure_lt_of_size_lt (fun y hy => ?_) ?_
    · simp only [Ty.occurs, Bool.or_eq_true] at hvars
      rcases mem_equationVars_split hy with hy | hy
      · exact hvars y hy
      · exact hrest y hy
    · simp only [split, measure_size_cons, Ty.size]
      omega

/-! ## Steps -/

theorem step_nil {u : Unifier} (h : u.pending = []) : u.step = .ok none u := by
  unfold step
  rw [h]

/-- A step does what its equation's rule says; the check of the measure always passes. -/
theorem step_cons {u : Unifier} {t v : Ty} {rest : List Equation}
    (h : u.pending = (t, v) :: rest) :
    u.step =
      match (u.taking rest).solve t v with
      | .error e => .error e (u.taking rest)
      | .ok (move, next) => .ok (some move) next := by
  unfold step
  rw [h]
  cases hsolve : (u.taking rest).solve t v with
  | error e => simp [hsolve]
  | ok r =>
    obtain ⟨move, next⟩ := r
    have hlt : next.measure < u.measure := by
      have := (hsolve ▸ treats_solve (u.taking rest) t v : Treats _ t v (.ok (move, next)))
      rw [Unifier.measure.eq_def u, h]
      exact this.measure_lt
    simp [hsolve, hlt]

end Unifier

end SystemT
