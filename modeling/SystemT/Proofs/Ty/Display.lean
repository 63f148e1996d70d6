import Mathlib.Data.List.Nodup
import Mathlib.Logic.Function.Basic
import SystemT.Proofs.Ty.Subst
import SystemT.Ty.DisplayName

/-!
# Display names

No two display names are the same (`displayName_injective`). A list of identifiers can therefore
take no more of them than it has members, so that there are as many unused names as are asked for
(`Ty.length_unusedNames`), and every generated variable of a type gets one. Giving them is a
substitution for generated variables (`Ty.withDisplayNames_eq_apply`).
-/

namespace SystemT

/-! ## Names -/

/-- A display name is a letter and the number of the round of letters, if it is not the first. -/
theorem toList_displayName_eq (i : Nat) :
    (displayName i).toList = Char.ofNat ('A'.toNat + i % 26) ::
      if i < 26 then [] else (Nat.repr (i / 26)).toList := by
  unfold displayName
  by_cases h : i < 26
  · simp [h]
  · simp [h, String.toList_append]

theorem displayName_injective : Function.Injective displayName := by
  have hletter : ∀ a < 26, ∀ b < 26,
      Char.ofNat ('A'.toNat + a) = Char.ofNat ('A'.toNat + b) → a = b := by decide
  have hround : ∀ k, Nat.ofDigitChars 10
      (if k < 26 then [] else (Nat.repr (k / 26)).toList) 0 = k / 26 := by
    intro k
    by_cases hk : k < 26
    · rw [if_pos hk, Nat.div_eq_of_lt hk]
      rfl
    · rw [if_neg hk, Nat.repr_eq_ofList_toDigits, String.toList_ofList,
        Nat.ofDigitChars_toDigits (by decide) (by decide)]
  intro i j h
  have hlist := congrArg String.toList h
  rw [toList_displayName_eq, toList_displayName_eq, List.cons.injEq] at hlist
  obtain ⟨hhead, htail⟩ := hlist
  have hmod := hletter _ (Nat.mod_lt i (by decide)) _ (Nat.mod_lt j (by decide)) hhead
  have hdiv : i / 26 = j / 26 := by rw [← hround i, htail, hround]
  omega

/-- A list of bindings binds only variables that it names. -/
theorem Subst.mem_of_get?_ofList {l : List (Ident × Ty)} {x : Ident} {t : Ty}
    (h : (ofList l).get? x = some t) : x ∈ l.map Prod.fst := by
  by_contra hx
  rw [get?, ofList, Std.ExtTreeMap.getElem?_ofList_of_contains_eq_false (by simpa using hx)] at h
  cases h

namespace Ty

/-- There are as many unused names as are asked for. -/
theorem length_unusedNames (taken : List Ident) (n : Nat) :
    (unusedNames taken n).length = n := by
  have hnodup : ((List.range (n + taken.length)).map
      fun i => Ident.named (displayName i)).Nodup := by
    refine List.Nodup.map (fun i j hij => ?_) List.nodup_range
    exact displayName_injective (Ident.named.inj hij)
  unfold unusedNames
  generalize hnames : (List.range (n + taken.length)).map
    (fun i => Ident.named (displayName i)) = names at hnodup
  -- the names passed over are members of `taken`, and different ones
  have htaken : (names.filter (taken.contains ·)).length ≤ taken.length := by
    refine (hnodup.filter _).length_le_of_subset fun x hx => ?_
    exact List.contains_iff_mem.mp (List.mem_filter.mp hx).2
  have hlength : names.length = n + taken.length := by
    rw [← hnames, List.length_map, List.length_range]
  have hsplit := List.length_eq_length_filter_add (l := names) (taken.contains ·)
  rw [List.length_take]
  omega

/-- Only generated variables are bound when names are given to these. -/
theorem fresh_of_get?_displaying {vars : List Ident} {names : List Ty} {x : Ident} {u : Ty}
    (h : (Subst.ofList ((vars.filter Ident.isFresh).zip names)).get? x = some u) :
    ∃ n, x = .fresh n := by
  obtain ⟨⟨y, v⟩, hb, rfl⟩ := List.mem_map.mp (Subst.mem_of_get?_ofList h)
  cases y with
  | named s => cases (List.mem_filter.mp (List.of_mem_zip hb).1).2
  | fresh n => exact ⟨n, rfl⟩

/-- Giving display names is a substitution for generated variables. -/
theorem withDisplayNames_eq_apply (t : Ty) :
    ∃ s : Subst, t.withDisplayNames = s.apply t ∧ ∀ x u, s.get? x = some u → ∃ n, x = .fresh n :=
  ⟨_, rfl, fun _ _ h => fresh_of_get?_displaying h⟩

/-- The variables of the type are written ones. -/
def Written (A : Ty) : Prop := ∀ n, A.occurs (.fresh n) = false

end Ty

end SystemT
