import SystemT.Proofs.Inference.Principal

/-!
# Instances of a context

An instance of a context has its slots refined by a substitution, and it may declare further
constants. The type variables of these are fixed as well. So an unknown type of the context may have
become a fixed one, or two of them the same, and inference goes another way in the instance. Not
even the variables that it issues are the same.

What carries over is typing (`Context.Types.of_isInstanceOf`): the declarations of the context are
among those of the instance, and a substitution that leaves their variables alone keeps what was
found. As inference is complete, it finds as much in the instance, or more
(`typeCheck_of_isInstanceOf`).
-/

namespace SystemT

namespace Context

theorem isInstanceOf_iff {H Γ : Context} {s : Subst} :
    H.isInstanceOf Γ s = true ↔ H.bound = Γ.bound.map s.apply ∧
      ∀ x A, Γ.lookup? x = some A → H.lookup? x = some A := by
  rw [isInstanceOf, Bool.and_eq_true, decide_eq_true_eq, List.all_eq_true]
  refine and_congr eq_comm ⟨fun h x A hx => ?_, ?_⟩
  · have hmem : (x, A) ∈ Γ.free.toList := Std.ExtTreeMap.mem_toList_iff_getElem?_eq_some.mpr hx
    simpa using h (x, A) hmem
  · rintro h ⟨x, A⟩ hmem
    have hx : Γ.lookup? x = some A := Std.ExtTreeMap.mem_toList_iff_getElem?_eq_some.mp hmem
    simpa using h x A hx

/-- A substitution that leaves the variables of declarations alone leaves the declared types
alone. -/
theorem apply_declared {Γ : Context} {s : Subst} (hs : s.Fixes Γ.declaredVars) {x : Ident} {A : Ty}
    (hx : Γ.lookup? x = some A) : s.apply A = A :=
  hs.apply_eq fun y hy => (mem_declaredVars Γ y).mpr ⟨x, A, hx, hy⟩

/-- A typing carries over to an instance. -/
theorem Types.of_isInstanceOf {Γ H : Context} {t : Term} {A : Ty} {s : Subst} (h : Γ.Types t A)
    (hs : s.Fixes Γ.declaredVars) (hH : H.isInstanceOf Γ s = true) : H.Types t (s.apply A) := by
  obtain ⟨hbound, hlookup⟩ := isInstanceOf_iff.mp hH
  rw [Types, hbound]
  refine Typing.apply h s fun x B hx => ?_
  rw [apply_declared hs hx]
  exact hlookup x B hx

end Context

/-- **Typability carries over to instances.** Let a term have been given a type in `Γ`, and let `H`
be an instance of the context that results, under a substitution that leaves the declarations of `Γ`
alone. Then the term is given a type in `H`, and a substitution that leaves the declarations of `H`
alone turns it into the instance of the first one, unless more variables are needed than there
are. -/
theorem typeCheck_of_isInstanceOf {Γ H : Context} {t : Term} {r : Inferred} {s : Subst}
    (h : typeCheck t Γ = .ok r) (hs : s.Fixes Γ.declaredVars)
    (hH : H.isInstanceOf (Γ.apply r.subst) s = true) :
    (∃ r', typeCheck t H = .ok r' ∧
      ∃ ρ : Subst, ρ.Fixes H.declaredVars ∧ ρ.apply r'.ty = s.apply r.ty) ∨
      (typeCheck t H = .error (.fault .counterOverflow) ∧ H.Exhausts t) :=
  typeCheck_of_types ((typeCheck_sound h).of_isInstanceOf hs hH)

/-- A function of unknown type `?7` is applied to a slot of unknown type `?3`, beside an identity.
In the instance it takes naturals to `Q`, which the further constant `d` makes a fixed type, and the
identity is meant for `Q` as well; there it is still found to be one at any type. -/
theorem typeCheck_of_isInstanceOf_fixed :
    ∃ Γ H : Context, Γ = ⟨[.var (.fresh 7), .var (.fresh 3)],
        (∅ : IdentMap Ty).insert (.named "k") (.var (.named "R"))⟩ ∧
      H = ⟨[.arrow .nat (.var (.named "Q")), .nat],
        ((∅ : IdentMap Ty).insert (.named "d") (.arrow (.var (.named "Q")) .bool)).insert
          (.named "k") (.var (.named "R"))⟩ ∧
      ∃ t s r r', t = Term.pair (.fvar (.named "k"))
          (.pair (.lam (.bvar 0)) (.app (.bvar 0) (.bvar 1))) ∧
        s = Subst.ofList [(.fresh 3, .nat), (.fresh 8, .var (.named "Q")),
          (.fresh 9, .var (.named "Q"))] ∧
        typeCheck t Γ = .ok r ∧
        r.ty = .prod (.var (.named "R"))
          (.prod (.arrow (.var (.fresh 8)) (.var (.fresh 8))) (.var (.fresh 9))) ∧
        s.Fixes Γ.declaredVars ∧ H.isInstanceOf (Γ.apply r.subst) s = true ∧
        typeCheck t H = .ok r' ∧
        r'.ty = .prod (.var (.named "R"))
          (.prod (.arrow (.var (.fresh 0)) (.var (.fresh 0))) (.var (.named "Q"))) ∧
        ∃ ρ : Subst, ρ.Fixes H.declaredVars ∧ ρ.apply r'.ty = s.apply r.ty := by
  obtain ⟨Γ, hΓ⟩ : ∃ Γ : Context, Γ = ⟨[.var (.fresh 7), .var (.fresh 3)],
    (∅ : IdentMap Ty).insert (.named "k") (.var (.named "R"))⟩ := ⟨_, rfl⟩
  obtain ⟨H, hH⟩ : ∃ H : Context, H = ⟨[.arrow .nat (.var (.named "Q")), .nat],
    ((∅ : IdentMap Ty).insert (.named "d") (.arrow (.var (.named "Q")) .bool)).insert
      (.named "k") (.var (.named "R"))⟩ := ⟨_, rfl⟩
  obtain ⟨s, hs⟩ : ∃ s : Subst, s = .ofList [(.fresh 3, .nat), (.fresh 8, .var (.named "Q")),
    (.fresh 9, .var (.named "Q"))] := ⟨_, rfl⟩
  have h : typeCheck (.pair (.fvar (.named "k"))
      (.pair (.lam (.bvar 0)) (.app (.bvar 0) (.bvar 1)))) Γ =
      .ok ⟨.ofList [(.fresh 7, .arrow (.var (.fresh 3)) (.var (.fresh 9)))],
        .prod (.var (.named "R"))
          (.prod (.arrow (.var (.fresh 8)) (.var (.fresh 8))) (.var (.fresh 9)))⟩ := by
    subst hΓ
    rw [typeCheck_eq]
    cbv
  have h' : typeCheck (.pair (.fvar (.named "k"))
      (.pair (.lam (.bvar 0)) (.app (.bvar 0) (.bvar 1)))) H =
      .ok ⟨.ofList [(.fresh 1, .var (.named "Q"))],
        .prod (.var (.named "R"))
          (.prod (.arrow (.var (.fresh 0)) (.var (.fresh 0))) (.var (.named "Q")))⟩ := by
    subst hH
    rw [typeCheck_eq]
    cbv
  have hfixes : s.Fixes Γ.declaredVars := by
    subst hs hΓ
    decide
  have hinstance : H.isInstanceOf
      (Γ.apply (.ofList [(.fresh 7, .arrow (.var (.fresh 3)) (.var (.fresh 9)))])) s = true := by
    subst hs hΓ hH
    decide
  refine ⟨Γ, H, hΓ, hH, _, s, _, _, rfl, hs, h, rfl, hfixes, hinstance, h', rfl, ?_⟩
  rcases typeCheck_of_isInstanceOf h hfixes hinstance with ⟨r', hr', hcarried⟩ | ⟨hfault, -⟩
  · rw [h'] at hr'
    cases hr'
    exact hcarried
  · rw [h'] at hfault
    cases hfault

end SystemT
