import Mathlib.Logic.Function.Basic
import SystemT.Context
import SystemT.Proofs.Ty.Subst

/-!
# Other names for type variables

`Ty.relabel` puts other variables for the variables of a type, and `Ty.rename` gives other names to
the written ones. A substitution is turned into another by a renaming if renaming before the one or
after the other is the same (`Subst.RenamedTo`), and the operations on substitutions keep this.
-/

namespace SystemT

open Function (Injective)

/-! ## Identifiers and types -/

/-- Give a written name another one; generated identifiers stay. -/
def Ident.rename (ρ : String → String) : Ident → Ident
  | named s => named (ρ s)
  | fresh n => fresh n

/-- Rename the written variables of a type. -/
def Ty.rename (ρ : String → String) : Ty → Ty
  | nat => nat
  | bool => bool
  | var x => var (x.rename ρ)
  | arrow a b => arrow (a.rename ρ) (b.rename ρ)
  | prod a b => prod (a.rename ρ) (b.rename ρ)

/-- Put the variable `f x` for each variable `x` of a type. -/
def Ty.relabel (f : Ident → Ident) : Ty → Ty
  | nat => nat
  | bool => bool
  | var x => var (f x)
  | arrow a b => arrow (a.relabel f) (b.relabel f)
  | prod a b => prod (a.relabel f) (b.relabel f)

namespace Ty

variable {f g : Ident → Ident} {t : Ty}

theorem relabel_relabel (f g : Ident → Ident) (t : Ty) :
    (t.relabel f).relabel g = t.relabel (g ∘ f) := by
  induction t with
  | nat | bool | var => rfl
  | arrow a b iha ihb | prod a b iha ihb => simp only [relabel, iha, ihb]

/-- A substitution puts variables for variables if it does so for those of the type. -/
theorem apply_eq_relabel {s : Subst} (h : ∀ x, t.occurs x = true → s.image x = var (f x)) :
    s.apply t = t.relabel f := by
  induction t with
  | nat | bool => rfl
  | var x => exact h x ((occurs_var x x).mpr rfl)
  | arrow a b iha ihb | prod a b iha ihb =>
    simp only [occurs, Bool.or_eq_true] at h
    rw [Subst.apply, relabel, iha fun x hx => h x (.inl hx), ihb fun x hx => h x (.inr hx)]

/-- Only the variables of a type matter. -/
theorem relabel_congr (h : ∀ x, t.occurs x = true → f x = g x) : t.relabel f = t.relabel g := by
  induction t with
  | nat | bool => rfl
  | var x => rw [relabel, relabel, h x ((occurs_var x x).mpr rfl)]
  | arrow a b iha ihb | prod a b iha ihb =>
    simp only [occurs, Bool.or_eq_true] at h
    rw [relabel, relabel, iha fun x hx => h x (.inl hx), ihb fun x hx => h x (.inr hx)]

theorem relabel_id (t : Ty) : t.relabel id = t := by
  induction t with
  | nat | bool | var => rfl
  | arrow a b iha ihb | prod a b iha ihb => rw [relabel, iha, ihb]

theorem occurs_relabel_iff (f : Ident → Ident) (t : Ty) (y : Ident) :
    (t.relabel f).occurs y = true ↔ ∃ x, f x = y ∧ t.occurs x = true := by
  induction t with
  | nat | bool => simp [relabel, occurs]
  | var x => simp [relabel, occurs]
  | arrow a b iha ihb | prod a b iha ihb =>
    simp only [relabel, occurs, Bool.or_eq_true, iha, ihb, and_or_left, exists_or]

theorem rename_eq_relabel (ρ : String → String) (t : Ty) :
    t.rename ρ = t.relabel (Ident.rename ρ) := by
  induction t with
  | nat | bool | var => rfl
  | arrow a b iha ihb | prod a b iha ihb => rw [rename, relabel, iha, ihb]

end Ty

section

variable {ρ : String → String}

theorem Ident.rename_injective (hρ : Injective ρ) : Injective (Ident.rename ρ) := by
  rintro (a | m) (b | n) h
  · exact congrArg named (hρ (named.inj h))
  · cases h
  · cases h
  · exact h

theorem Ident.rename_eq_fresh_iff {x : Ident} {n : Nat} : x.rename ρ = .fresh n ↔ x = .fresh n := by
  cases x with
  | named s => exact ⟨nofun, nofun⟩
  | fresh m => rfl

namespace Ty

theorem rename_injective (hρ : Injective ρ) : Injective (Ty.rename ρ) := by
  intro t u h
  induction t generalizing u with
  | nat | bool => cases u <;> first | rfl | cases h
  | var x =>
    cases u with
    | var y => exact congrArg var (Ident.rename_injective hρ (var.inj h))
    | _ => cases h
  | arrow a b iha ihb =>
    cases u with
    | arrow c d =>
      obtain ⟨ha, hb⟩ := arrow.inj h
      rw [iha ha, ihb hb]
    | _ => cases h
  | prod a b iha ihb =>
    cases u with
    | prod c d =>
      obtain ⟨ha, hb⟩ := prod.inj h
      rw [iha ha, ihb hb]
    | _ => cases h

/-- The variables of a renamed type are those of the type, renamed. -/
theorem occurs_rename_iff (t : Ty) (y : Ident) :
    (t.rename ρ).occurs y = true ↔ ∃ x, x.rename ρ = y ∧ t.occurs x = true := by
  rw [rename_eq_relabel]
  exact occurs_relabel_iff (Ident.rename ρ) t y

theorem occurs_rename (hρ : Injective ρ) (t : Ty) (x : Ident) :
    (t.rename ρ).occurs (x.rename ρ) = t.occurs x := by
  rw [Bool.eq_iff_iff, occurs_rename_iff]
  constructor
  · rintro ⟨y, hy, h⟩
    rwa [Ident.rename_injective hρ hy] at h
  · exact fun h => ⟨x, rfl, h⟩

theorem subst_rename (hρ : Injective ρ) (t : Ty) (x : Ident) (a : Ty) :
    (t.rename ρ).subst (x.rename ρ) (a.rename ρ) = (t.subst x a).rename ρ := by
  induction t with
  | nat | bool => rfl
  | var y =>
    by_cases hyx : y = x
    · rw [hyx, rename, subst, if_pos rfl, subst, if_pos rfl]
    · have hne : y.rename ρ ≠ x.rename ρ := fun h => hyx (Ident.rename_injective hρ h)
      rw [rename, subst, if_neg hne, subst, if_neg hyx, rename]
  | arrow b c ihb ihc | prod b c ihb ihc => rw [rename, subst, ihb, ihc, subst, rename]

end Ty

/-! ## Substitutions -/

/-- Renaming turns the substitution `s` into `s'`. -/
def Subst.RenamedTo (ρ : String → String) (s s' : Subst) : Prop :=
  ∀ x : Ident, s'.image (x.rename ρ) = (s.image x).rename ρ

namespace Subst

variable {r r' s s' : Subst}

theorem RenamedTo.apply (h : RenamedTo ρ s s') (t : Ty) :
    s'.apply (t.rename ρ) = (s.apply t).rename ρ := by
  induction t with
  | nat | bool => rfl
  | var x => exact h x
  | arrow a b iha ihb | prod a b iha ihb =>
    rw [Ty.rename, Subst.apply, iha, ihb, Subst.apply, Ty.rename]

theorem renamedTo_empty : RenamedTo ρ ∅ ∅ := by
  intro x
  rw [image_empty, image_empty, Ty.rename]

theorem RenamedTo.compose (hr : RenamedTo ρ r r') (hs : RenamedTo ρ s s') :
    RenamedTo ρ (r.compose s) (r'.compose s') := by
  intro x
  rw [image_compose, image_compose, hr x, hs.apply]

end Subst

/-! ## Contexts -/

/-- Rename the written type variables of a context. -/
def Context.rename (ρ : String → String) (Γ : Context) : Context := Γ.mapTypes (Ty.rename ρ)

namespace Context

theorem get?_rename (Γ : Context) (i : Nat) :
    (Γ.rename ρ).get? i = (Γ.get? i).map (Ty.rename ρ) :=
  List.getElem?_map

theorem lookup?_rename (Γ : Context) (x : Ident) :
    (Γ.rename ρ).lookup? x = (Γ.lookup? x).map (Ty.rename ρ) :=
  Std.ExtTreeMap.getElem?_map

theorem depth_rename (Γ : Context) : (Γ.rename ρ).depth = Γ.depth := List.length_map _

theorem declare_rename (Γ : Context) (x : Ident) (t : Ty) :
    (Γ.declare x t).rename ρ = (Γ.rename ρ).declare x (t.rename ρ) := by
  have hfree : ((Γ.declare x t).rename ρ).free = ((Γ.rename ρ).declare x (t.rename ρ)).free := by
    refine Std.ExtTreeMap.ext_getElem? fun y => ?_
    have h := lookup?_declare (Γ.rename ρ) x y (t.rename ρ)
    have h' := lookup?_rename (ρ := ρ) (Γ.declare x t) y
    rw [lookup?_declare] at h'
    rw [lookup?_rename] at h
    rw [lookup?] at h h'
    rw [h, h']
    split <;> rfl
  exact congrArg (Context.mk (Γ.bound.map (Ty.rename ρ))) hfree

theorem apply_rename {s s' : Subst} (h : s.RenamedTo ρ s') (Γ : Context) :
    (Γ.rename ρ).apply s' = (Γ.apply s).rename ρ := by
  have hbound : (Γ.bound.map (Ty.rename ρ)).map s'.apply =
      (Γ.bound.map s.apply).map (Ty.rename ρ) := by
    rw [List.map_map, List.map_map]
    exact List.map_congr_left fun t _ => h.apply t
  exact congrArg (Context.mk · (Γ.free.map fun _ => Ty.rename ρ)) hbound

theorem mem_declaredVars_rename (Γ : Context) (y : Ident) :
    y ∈ (Γ.rename ρ).declaredVars ↔ ∃ x, x.rename ρ = y ∧ x ∈ Γ.declaredVars := by
  simp only [mem_declaredVars, lookup?_rename, Option.map_eq_some_iff]
  constructor
  · rintro ⟨c, _, ⟨t, ht, rfl⟩, hy⟩
    obtain ⟨x, rfl, hx⟩ := (t.occurs_rename_iff y).mp hy
    exact ⟨x, rfl, c, t, ht, hx⟩
  · rintro ⟨x, rfl, c, t, ht, hx⟩
    exact ⟨c, _, ⟨t, ht, rfl⟩, (t.occurs_rename_iff _).mpr ⟨x, rfl, hx⟩⟩

theorem mem_vars_rename (Γ : Context) (y : Ident) :
    y ∈ (Γ.rename ρ).vars ↔ ∃ x, x.rename ρ = y ∧ x ∈ Γ.vars := by
  have hbound : (∃ t ∈ (Γ.rename ρ).bound, t.occurs y = true) ↔
      ∃ x, x.rename ρ = y ∧ ∃ t ∈ Γ.bound, t.occurs x = true := by
    constructor
    · rintro ⟨u, hu, hy⟩
      obtain ⟨t, ht, rfl⟩ := List.mem_map.mp hu
      obtain ⟨x, rfl, hx⟩ := (t.occurs_rename_iff y).mp hy
      exact ⟨x, rfl, t, ht, hx⟩
    · rintro ⟨x, rfl, t, ht, hx⟩
      exact ⟨_, List.mem_map.mpr ⟨t, ht, rfl⟩, (t.occurs_rename_iff _).mpr ⟨x, rfl, hx⟩⟩
  simp only [mem_vars, mem_declaredVars_rename, hbound, and_or_left, exists_or]

end Context

end

end SystemT
