import Mathlib.Logic.Relation
import SystemT.Proofs.Ty.Composition

/-!
# Acyclic substitutions

A substitution is acyclic if no variable is reached from itself by following bindings. Substitutions
are applied to all variables at once and only once, so nothing forces them to be acyclic; those that
unification and inference compute are, being resolved (`Subst.Resolved.acyclic`).

Both ways to insert a binding `x := t` look at one image, which must not contain `x`. That does not
keep a substitution acyclic, as a cycle can also close through other bindings
(`Subst.not_acyclic_bind?`). What does is that following bindings never leads from `t` to `x`, and
it is the same condition for both ways (`Subst.acyclic_bindAfter_iff`,
`Subst.acyclic_bindBefore_iff`). They differ in what they write down: behind a substitution, `x` is
replaced in the images, which only shortens paths through `x`; in front of it, `t` is replaced by
what the substitution makes of it, which is one step further along its paths.
-/

namespace SystemT

open Relation (ReflTransGen TransGen)

namespace Subst

/-! ## Following bindings -/

/-- `x` is bound to a type with the variable `y`. -/
def Binds (s : Subst) (x y : Ident) : Prop := ∃ t, s.get? x = some t ∧ t.occurs y = true

/-- No variable is reached from itself by following bindings. -/
def Acyclic (s : Subst) : Prop := ∀ x, ¬ TransGen s.Binds x x

/-- Following bindings leads from some variable of `t` to `x`; it may be `x` itself. -/
def Leads (s : Subst) (t : Ty) (x : Ident) : Prop :=
  ∃ y, t.occurs y = true ∧ ReflTransGen s.Binds y x

variable {s : Subst} {x y z : Ident} {t : Ty}

theorem not_binds_of_unbound (hx : s.get? x = none) (y : Ident) : ¬ s.Binds x y := by
  rintro ⟨t, ht, -⟩
  rw [hx] at ht
  cases ht

/-- Images of a resolved substitution lead nowhere. -/
theorem Resolved.acyclic (hs : s.Resolved) : s.Acyclic := by
  intro x h
  obtain ⟨y, ⟨u, hu, hx⟩, -⟩ := TransGen.head'_iff.mp h
  obtain ⟨z, -, ⟨v, hv, hz⟩⟩ := TransGen.tail'_iff.mp h
  have hnone := hs z v x hv hz
  rw [hu] at hnone
  cases hnone

theorem resolved_singleton (h : t.occurs x = false) : (singleton x t).Resolved := by
  intro y u z hy hz
  rw [get?_singleton] at hy ⊢
  by_cases hxy : x = y
  · rw [if_pos hxy] at hy
    cases hy
    refine if_neg fun hxz => ?_
    rw [← hxz, h] at hz
    cases hz
  · rw [if_neg hxy] at hy
    cases hy

/-- A type whose variables are not bound leads to these alone. -/
theorem occurs_of_leads (ht : ∀ y, t.occurs y = true → s.get? y = none) (h : s.Leads t x) :
    t.occurs x = true := by
  obtain ⟨y, hy, hpath⟩ := h
  cases hpath.cases_head with
  | inl heq => exact heq ▸ hy
  | inr hstep =>
    obtain ⟨z, hyz, -⟩ := hstep
    exact absurd hyz (not_binds_of_unbound (ht y hy) z)

/-! ## A new binding -/

theorem binds_insert_iff (hx : s.get? x = none) :
    (s.insert x t).Binds y z ↔ s.Binds y z ∨ (y = x ∧ t.occurs z = true) := by
  simp only [Binds, get?_insert]
  by_cases hxy : x = y
  · subst hxy
    simp [hx]
  · simp [hxy, Ne.symm hxy]

/-- A path along a new binding `x := t` gets to `x` first, and goes on from `t` after the last time
that it uses that binding. -/
theorem transGen_insert (hx : s.get? x = none) (h : TransGen (s.insert x t).Binds y z) :
    TransGen s.Binds y z ∨ (ReflTransGen s.Binds y x ∧ s.Leads t z) := by
  induction h with
  | single h =>
    rcases (binds_insert_iff hx).mp h with hold | ⟨rfl, hz⟩
    · exact .inl (.single hold)
    · exact .inr ⟨.refl, _, hz, .refl⟩
  | tail _ h ih =>
    rcases (binds_insert_iff hx).mp h with hold | ⟨rfl, hz⟩
    · rcases ih with hpath | ⟨hto, y, hy, hfrom⟩
      · exact .inl (hpath.tail hold)
      · exact .inr ⟨hto, y, hy, hfrom.tail hold⟩
    · rcases ih with hpath | ⟨hto, -⟩
      · exact .inr ⟨hpath.to_reflTransGen, _, hz, .refl⟩
      · exact .inr ⟨hto, _, hz, .refl⟩

theorem acyclic_insert_iff (hs : s.Acyclic) (hx : s.get? x = none) :
    (s.insert x t).Acyclic ↔ ¬ s.Leads t x := by
  constructor
  · rintro hacyclic ⟨y, hy, hpath⟩
    have hfirst : (s.insert x t).Binds x y := (binds_insert_iff hx).mpr (.inr ⟨rfl, hy⟩)
    have hrest : ReflTransGen (s.insert x t).Binds y x :=
      ReflTransGen.mono (fun _ _ h => (binds_insert_iff hx).mpr (.inl h)) _ _ hpath
    exact hacyclic x (.head' hfirst hrest)
  · intro hleads z hcycle
    rcases transGen_insert hx hcycle with hold | ⟨hto, y, hy, hfrom⟩
    · exact hs z hold
    · exact hleads ⟨y, hy, hfrom.trans hto⟩

/-! ## In front of a substitution -/

theorem occurs_image_iff :
    (s.image y).occurs z = true ↔ s.Binds y z ∨ (s.get? y = none ∧ y = z) := by
  cases hy : s.get? y with
  | none => simp [image_of_unbound hy, Ty.occurs_var, not_binds_of_unbound hy]
  | some u => simp [image_of_get? hy, Binds, hy]

/-- What a substitution makes of a type leads to the same variables, apart from those that are
bound. -/
theorem leads_apply_iff (hx : s.get? x = none) : s.Leads (s.apply t) x ↔ s.Leads t x := by
  constructor
  · rintro ⟨y, hy, hpath⟩
    obtain ⟨z, hz, hzy⟩ := (occurs_apply s t y).mp hy
    rcases occurs_image_iff.mp hzy with hbinds | ⟨-, rfl⟩
    · exact ⟨z, hz, .head hbinds hpath⟩
    · exact ⟨z, hz, hpath⟩
  · rintro ⟨z, hz, hpath⟩
    have hoccurs : ∀ y, (s.image z).occurs y = true → (s.apply t).occurs y = true :=
      fun y hy => (occurs_apply s t y).mpr ⟨z, hz, hy⟩
    rcases hpath.cases_head with rfl | ⟨y, hzy, hrest⟩
    · exact ⟨z, hoccurs z (occurs_image_iff.mpr (.inr ⟨hx, rfl⟩)), .refl⟩
    · exact ⟨y, hoccurs y (occurs_image_iff.mpr (.inl hzy)), hrest⟩

/-- A resolved substitution shows at once where a type leads. -/
theorem Resolved.leads_iff (hs : s.Resolved) (hx : s.get? x = none) :
    s.Leads t x ↔ (s.apply t).occurs x = true := by
  rw [← leads_apply_iff hx]
  constructor
  · exact occurs_of_leads fun y hy => hs.unbound_of_occurs_apply hy
  · exact fun hocc => ⟨x, hocc, .refl⟩

theorem acyclic_bindBefore_iff (hs : s.Acyclic) (hx : s.get? x = none) :
    (s.bindBefore x t).Acyclic ↔ ¬ s.Leads t x := by
  rw [← leads_apply_iff hx]
  exact acyclic_insert_iff hs hx

/-! ## Behind a substitution -/

/-- Where `x` was in an image, `t` takes its place. -/
theorem binds_bindAfter_iff (hx : s.get? x = none) :
    (s.bindAfter x t).Binds y z ↔
      (s.Binds y z ∧ z ≠ x) ∨ ((y = x ∨ s.Binds y x) ∧ t.occurs z = true) := by
  simp only [Binds, get?_bindAfter]
  by_cases hxy : x = y
  · subst hxy
    simp [hx]
  · cases hy : s.get? y with
    | none => simp [hxy, Ne.symm hxy]
    | some u => simp [Ne.symm hxy, Ty.occurs_subst, and_comm]

/-- A path to a bound variable does not come through `x`, which is not bound. -/
theorem reflTransGen_bindAfter (hx : s.get? x = none) (h : ReflTransGen s.Binds y z)
    (hz : s.get? z ≠ none) : ReflTransGen (s.bindAfter x t).Binds y z := by
  induction h with
  | refl => exact .refl
  | @tail v z _ h ih =>
    have hv : s.get? v ≠ none := fun hv => not_binds_of_unbound hv z h
    have hzx : z ≠ x := fun heq => hz (heq ▸ hx)
    exact (ih hv).tail ((binds_bindAfter_iff hx).mpr (.inl ⟨h, hzx⟩))

theorem acyclic_bindAfter_iff (hs : s.Acyclic) (hx : s.get? x = none) :
    (s.bindAfter x t).Acyclic ↔ ¬ s.Leads t x := by
  constructor
  · rintro hacyclic ⟨y, hy, hpath⟩
    rcases hpath.cases_tail with rfl | ⟨w, hpath, hlast⟩
    · exact hacyclic x (.single ((binds_bindAfter_iff hx).mpr (.inr ⟨.inl rfl, hy⟩)))
    · -- the last step leads to `x`, and now to all variables of `t`
      have hw : s.get? w ≠ none := fun hw => not_binds_of_unbound hw x hlast
      have hstart := reflTransGen_bindAfter (t := t) hx hpath hw
      exact hacyclic y (.tail' hstart ((binds_bindAfter_iff hx).mpr (.inr ⟨.inr hlast, hy⟩)))
  · rw [← acyclic_insert_iff hs hx]
    intro hacyclic z hcycle
    -- `x` may be passed through again where `t` was put for it
    refine hacyclic z (TransGen.closed (fun y z h => ?_) _ _ hcycle)
    rcases (binds_bindAfter_iff hx).mp h with ⟨hold, -⟩ | ⟨hy | hy, hz⟩
    · exact .single ((binds_insert_iff hx).mpr (.inl hold))
    · exact .single ((binds_insert_iff hx).mpr (.inr ⟨hy, hz⟩))
    · exact .tail (.single ((binds_insert_iff hx).mpr (.inl hy)))
        ((binds_insert_iff hx).mpr (.inr ⟨rfl, hz⟩))

/-! ## Both ways -/

theorem not_occurs_of_not_leads (h : ¬ s.Leads t x) : t.occurs x = false :=
  Bool.eq_false_iff.mpr fun hx => h ⟨x, hx, .refl⟩

theorem bindAfter?_eq_ok {r : Subst} :
    s.bindAfter? x t = .ok r ↔ t.occurs x = false ∧ r = s.bindAfter x t := by
  cases h : t.occurs x <;> simp [bindAfter?, h, eq_comm]

theorem bindBefore?_eq_ok {r : Subst} :
    s.bindBefore? x t = .ok r ↔ (s.apply t).occurs x = false ∧ r = s.bindBefore x t := by
  cases h : (s.apply t).occurs x <;> simp [bindBefore?, h, eq_comm]

theorem acyclic_bindAfter?_iff (hs : s.Acyclic) (hx : s.get? x = none) :
    (∃ r, s.bindAfter? x t = .ok r ∧ r.Acyclic) ↔ ¬ s.Leads t x := by
  constructor
  · rintro ⟨r, hr, hacyclic⟩
    obtain ⟨-, rfl⟩ := bindAfter?_eq_ok.mp hr
    exact (acyclic_bindAfter_iff hs hx).mp hacyclic
  · intro hleads
    have hocc := not_occurs_of_not_leads hleads
    exact ⟨_, bindAfter?_eq_ok.mpr ⟨hocc, rfl⟩, (acyclic_bindAfter_iff hs hx).mpr hleads⟩

theorem acyclic_bindBefore?_iff (hs : s.Acyclic) (hx : s.get? x = none) :
    (∃ r, s.bindBefore? x t = .ok r ∧ r.Acyclic) ↔ ¬ s.Leads t x := by
  constructor
  · rintro ⟨r, hr, hacyclic⟩
    obtain ⟨-, rfl⟩ := bindBefore?_eq_ok.mp hr
    exact (acyclic_bindBefore_iff hs hx).mp hacyclic
  · intro hleads
    have hocc := not_occurs_of_not_leads (mt (leads_apply_iff hx).mp hleads)
    exact ⟨_, bindBefore?_eq_ok.mpr ⟨hocc, rfl⟩, (acyclic_bindBefore_iff hs hx).mpr hleads⟩

/-- **Insertion keeps a substitution acyclic exactly if the type does not lead to the variable.** In
front of the substitution or behind it, a binding `x := t` is then accepted, and what it gives is
acyclic; otherwise it is refused, or closes a cycle. What is accepted is never cyclic by itself: `x`
is not in its own image. -/
theorem acyclic_bind?_iff (hs : s.Acyclic) (hx : s.get? x = none) (t : Ty) :
    ((∃ r, s.bindAfter? x t = .ok r ∧ r.Acyclic) ↔ ¬ s.Leads t x) ∧
    ((∃ r, s.bindBefore? x t = .ok r ∧ r.Acyclic) ↔ ¬ s.Leads t x) ∧
    ∀ r, s.bindAfter? x t = .ok r ∨ s.bindBefore? x t = .ok r → (r.image x).occurs x = false := by
  refine ⟨acyclic_bindAfter?_iff hs hx, acyclic_bindBefore?_iff hs hx, ?_⟩
  rintro r (hr | hr)
  · obtain ⟨ht, rfl⟩ := bindAfter?_eq_ok.mp hr
    have himage : (s.bindAfter x t).image x = t :=
      image_of_get? (by rw [get?_bindAfter, hx, if_pos rfl]; rfl)
    rwa [himage]
  · obtain ⟨ht, rfl⟩ := bindBefore?_eq_ok.mp hr
    have himage : (s.bindBefore x t).image x = s.apply t :=
      image_of_get? (by rw [get?_bindBefore, if_pos rfl])
    rwa [himage]

/-- The variable that is inserted is in the image of `Y`, and the type that it is bound to has a
bound variable, which leads elsewhere. -/
theorem acyclic_bind?_iff_bound :
    ∃ s t, s = (singleton (.named "V") (.var (.named "W"))).insert (.named "Y")
        (.arrow (.var (.named "X")) (.var (.named "W"))) ∧
      t = .prod (.var (.named "V")) .nat ∧
      s.Acyclic ∧ s.get? (.named "X") = none ∧ ¬ s.Leads t (.named "X") ∧
      (∃ r, s.bindAfter? (.named "X") t = .ok r ∧ r.Acyclic) ∧
      (∃ r, s.bindBefore? (.named "X") t = .ok r ∧ r.Acyclic) ∧
      ∀ r, s.bindAfter? (.named "X") t = .ok r ∨ s.bindBefore? (.named "X") t = .ok r →
        (r.image (.named "X")).occurs (.named "X") = false := by
  refine ⟨_, _, rfl, rfl, ?_⟩
  generalize hs : (singleton (.named "V") (.var (.named "W"))).insert (.named "Y")
    (.arrow (.var (.named "X")) (.var (.named "W"))) = s
  have hresolved : s.Resolved := by
    subst hs
    intro y t x hy hx
    simp only [get?_insert, get?_singleton] at hy ⊢
    grind [Ty.occurs]
  have hx : s.get? (.named "X") = none := hs ▸ rfl
  have hleads : ¬ s.Leads (.prod (.var (.named "V")) .nat) (.named "X") := by
    rw [hresolved.leads_iff hx]
    subst hs
    decide
  obtain ⟨hafter, hbefore, himage⟩ :=
    acyclic_bind?_iff hresolved.acyclic hx (.prod (.var (.named "V")) .nat)
  exact ⟨hresolved.acyclic, hx, hleads, hafter.mpr hleads, hbefore.mpr hleads, himage⟩

/-- Behind `Y := X`, a binding of `X` to a type with `Y` is put into the image of `Y`. In front of
`Y := Z` and `Z := X` it becomes one of `X` to a type with `Z`. Both are accepted, and close a
cycle. -/
theorem not_acyclic_bind? :
    (∃ s t r, s = singleton (.named "Y") (.var (.named "X")) ∧
      t = .arrow (.var (.named "Y")) .nat ∧
      r = (singleton (.named "Y") (.arrow (.var (.named "Y")) .nat)).insert (.named "X")
        (.arrow (.var (.named "Y")) .nat) ∧
      s.Acyclic ∧ s.get? (.named "X") = none ∧
      s.bindAfter? (.named "X") t = .ok r ∧ ¬ r.Acyclic) ∧
    ∃ s t r, s = (singleton (.named "Z") (.var (.named "X"))).insert (.named "Y")
        (.var (.named "Z")) ∧
      t = .arrow (.var (.named "Y")) .nat ∧
      r = s.insert (.named "X") (.arrow (.var (.named "Z")) .nat) ∧
      s.Acyclic ∧ s.get? (.named "X") = none ∧
      s.bindBefore? (.named "X") t = .ok r ∧ ¬ r.Acyclic := by
  have hY := resolved_singleton (x := .named "Y") (t := .var (.named "X")) rfl
  have hZ := resolved_singleton (x := .named "Z") (t := .var (.named "X")) rfl
  constructor
  · refine ⟨_, _, _, rfl, rfl, rfl, hY.acyclic, rfl, rfl, fun hacyclic => ?_⟩
    have hleads := (acyclic_bindAfter_iff (x := .named "X")
      (t := .arrow (.var (.named "Y")) .nat) hY.acyclic rfl).mp hacyclic
    exact hleads ((hY.leads_iff rfl).mpr rfl)
  · generalize hs : (singleton (.named "Z") (.var (.named "X"))).insert (.named "Y")
      (.var (.named "Z")) = s
    have hacyclic : s.Acyclic := by
      rw [← hs, acyclic_insert_iff hZ.acyclic rfl, hZ.leads_iff rfl]
      decide
    have hx : s.get? (.named "X") = none := hs ▸ rfl
    have hr : s.bindBefore? (.named "X") (.arrow (.var (.named "Y")) .nat) =
        .ok (s.insert (.named "X") (.arrow (.var (.named "Z")) .nat)) := hs ▸ rfl
    -- `Y` leads to `Z`, and `Z` to `X`
    have hleads : s.Leads (.arrow (.var (.named "Y")) .nat) (.named "X") := by
      rw [← leads_apply_iff hx, ← leads_apply_iff hx]
      exact ⟨.named "X", hs ▸ rfl, .refl⟩
    refine ⟨s, _, _, rfl, rfl, rfl, hacyclic, hx, hr, ?_⟩
    rw [(bindBefore?_eq_ok.mp hr).2, acyclic_bindBefore_iff hacyclic hx, Classical.not_not]
    exact hleads

end Subst

end SystemT
