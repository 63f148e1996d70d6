import SystemT.Proofs.Ty.Subst

/-!
# Composition of type substitutions

Substitutions that do the same to every type may still differ, since a variable can be bound to
itself or not be bound. The laws of this module hold binding by binding.

Composition is associative, and the empty substitution is its unit on both sides
(`Subst.compose_assoc`, `Subst.empty_compose`, `Subst.compose_empty`): substitutions are a monoid,
which acts on types (`Subst.apply_compose`).

A single binding that is put behind a substitution, or in front of it, is composed with it
(`Subst.bindAfter_eq_compose`, `Subst.bindBefore_eq_compose`). So the order decides what becomes of
a variable that is bound already. Behind `s`, the new binding reaches the images of `s` and nothing
else; in front of `s`, it takes the place of the one that `s` has.
-/

namespace SystemT

namespace Subst

/-! ## The monoid -/

@[simp] theorem empty_compose (s : Subst) : (∅ : Subst).compose s = s := by
  ext1 x
  rw [get?_compose, get?_empty]
  rfl

theorem compose_assoc (r s q : Subst) :
    (r.compose s).compose q = r.compose (s.compose q) := by
  ext1 x
  simp only [get?_compose]
  cases r.get? x with
  | none => rfl
  | some t =>
    show some (q.apply (s.apply t)) = some ((s.compose q).apply t)
    rw [apply_compose]

/-! ## Single bindings -/

@[simp] theorem get?_singleton (x y : Ident) (t : Ty) :
    (singleton x t).get? y = if x = y then some t else none := by
  rw [show singleton x t = (∅ : Subst).insert x t from rfl, get?_insert, get?_empty]

theorem apply_singleton (x : Ident) (a t : Ty) : (singleton x a).apply t = t.subst x a := by
  induction t with
  | nat | bool => rfl
  | var y =>
    rw [apply, image, get?_singleton, Ty.subst]
    by_cases h : y = x
    · rw [if_pos h, if_pos h.symm]
      rfl
    · rw [if_neg h, if_neg (Ne.symm h)]
      rfl
  | arrow b c ihb ihc | prod b c ihb ihc => rw [apply, Ty.subst, ihb, ihc]

theorem bindAfter_eq_compose (s : Subst) (x : Ident) (t : Ty) :
    s.bindAfter x t = s.compose (singleton x t) := by
  ext1 y
  have himages : (·.subst x t) = (singleton x t).apply :=
    funext fun u => (apply_singleton x t u).symm
  rw [get?_bindAfter, get?_compose, get?_singleton, himages]

theorem bindBefore_eq_compose (s : Subst) (x : Ident) (t : Ty) :
    s.bindBefore x t = (singleton x t).compose s := by
  ext1 y
  rw [get?_bindBefore, get?_compose, get?_singleton]
  by_cases h : x = y
  · rw [if_pos h, if_pos h]
    rfl
  · rw [if_neg h, if_neg h]
    rfl

/-! ## All laws -/

/-- **Type substitutions form a monoid that acts on types**, where equal means having the same
bindings. A binding that is not cyclic is put behind a substitution, or in front of it, by composing
the two, also if its variable is bound already. -/
theorem composition_laws (r s q : Subst) :
    (∀ t, (∅ : Subst).apply t = t ∧ (r.compose s).apply t = s.apply (r.apply t)) ∧
    (r.compose s).compose q = r.compose (s.compose q) ∧
    (∅ : Subst).compose s = s ∧ s.compose ∅ = s ∧
    (∀ x t, t.occurs x = false → s.bindAfter? x t = .ok (s.compose (singleton x t))) ∧
    ∀ x t, (s.apply t).occurs x = false →
      s.bindBefore? x t = .ok ((singleton x t).compose s) := by
  refine ⟨fun t => ⟨apply_empty t, apply_compose r s t⟩, compose_assoc r s q, empty_compose s,
    compose_empty s, fun x t h => ?_, fun x t h => ?_⟩
  · rw [bindAfter?, h, ← bindAfter_eq_compose]
    rfl
  · rw [bindBefore?, h, ← bindBefore_eq_compose]
    rfl

/-- Here `X` occurs in the image of `Z` and `Z` in that of `X`, which is bound again. Behind the
substitution `X := Z` changes the image of `Z` alone; in front of it `X := Y` replaces what `X` was
bound to. -/
theorem composition_laws_bound :
    ∃ s, s = ofList [(.named "X", .arrow (.var (.named "Y")) (.var (.named "Z"))),
        (.named "Z", .var (.named "X"))] ∧
      (Ty.var (.named "Z")).occurs (.named "X") = false ∧
      s.bindAfter? (.named "X") (.var (.named "Z")) =
        .ok (s.compose (singleton (.named "X") (.var (.named "Z")))) ∧
      s.compose (singleton (.named "X") (.var (.named "Z"))) =
        ofList [(.named "X", .arrow (.var (.named "Y")) (.var (.named "Z"))),
          (.named "Z", .var (.named "Z"))] ∧
      (s.apply (.var (.named "Y"))).occurs (.named "X") = false ∧
      s.bindBefore? (.named "X") (.var (.named "Y")) =
        .ok ((singleton (.named "X") (.var (.named "Y"))).compose s) ∧
      (singleton (.named "X") (.var (.named "Y"))).compose s =
        ofList [(.named "X", .var (.named "Y")), (.named "Z", .var (.named "X"))] := by
  refine ⟨_, rfl, ?_⟩
  generalize hs : ofList [(.named "X", .arrow (.var (.named "Y")) (.var (.named "Z"))),
    (.named "Z", .var (.named "X"))] = s
  have hafter : (Ty.var (.named "Z")).occurs (.named "X") = false := by decide
  have hbefore : (s.apply (.var (.named "Y"))).occurs (.named "X") = false := by
    subst hs
    decide
  obtain ⟨-, -, -, -, hbindAfter, hbindBefore⟩ := composition_laws ∅ s ∅
  refine ⟨hafter, hbindAfter _ _ hafter, ?_, hbefore, hbindBefore _ _ hbefore, ?_⟩
  · subst hs
    rfl
  · subst hs
    rfl

end Subst

end SystemT
