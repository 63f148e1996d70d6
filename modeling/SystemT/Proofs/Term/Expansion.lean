import SystemT.Proofs.Term.Constants
import SystemT.Proofs.Term.Indices

/-!
# Expanding constants below binders

What is put for a constant may be open. Below a binder it is then shifted, and names are not, so
that expanding constants and renumbering indices commute only if the replacements are renumbered
with the term (`shiftBy_substConsts`). Of the other laws this is the step below a binder: a term
that was put for an index has its constants expanded (`substConsts_subst`), and so have the
replacements of a map that is followed by another (`substConsts_compose`). Each is checked at the
leaves alone, as the operations rebuild a term from these (`Descends.agree`).

The laws hold of the operations over all numbers; those over numbers of 64 bits give the same
wherever no addition leaves the bounds (`expansion_laws`). Closed replacements are not renumbered at
all (`substConsts_subst_of_closed`).
-/

namespace SystemT

namespace ConstSubst

/-! ## All replacements at once -/

/-- Apply `f` to every replacement. -/
def mapTerms (f : Term → Term) (s : ConstSubst) : ConstSubst := ⟨s.entries.map fun _ a => f a⟩

/-- As `mapTerms`, for an operation that may fault. -/
def mapTerms? (f : Term → Except Fault Term) (s : ConstSubst) : Except Fault ConstSubst := do
  let bindings ← s.entries.toList.mapM fun e => do
    let a ← f e.2
    return (e.1, a)
  return ofList bindings

/-- As `compose`, but a fault if an addition reaches `indexLimit`. -/
def compose? (r s : ConstSubst) : Except Fault ConstSubst := do
  let r' ← r.mapTerms? (·.substConsts? s)
  return ⟨s.entries ∪ r'.entries⟩

section

variable {f g : Term → Term}

theorem get?_mapTerms (f : Term → Term) (s : ConstSubst) (x : Ident) :
    (s.mapTerms f).get? x = (s.get? x).map f := by
  simp [get?, mapTerms]

theorem image_mapTerms (hf : ∀ x, f (.fvar x) = .fvar x) (s : ConstSubst) (x : Ident) :
    (s.mapTerms f).image x = f (s.image x) := by
  rw [image, get?_mapTerms, image]
  cases s.get? x with
  | none => exact (hf x).symm
  | some d => rfl

/-- An operation on replacements may be carried out below a binder as well. -/
theorem lift_mapTerms (h : ∀ t, (f t).shift 0 = g (t.shift 0)) (s : ConstSubst) :
    (s.mapTerms f).lift = s.lift.mapTerms g := by
  ext1 x
  rw [get?_lift, get?_mapTerms, get?_mapTerms, get?_lift, Option.map_map, Option.map_map]
  exact congrArg (Option.map · (s.get? x)) (funext h)

theorem Closed.mapTerms_eq {s : ConstSubst} (hs : s.Closed) (hf : ∀ t, t.closed = true → f t = t) :
    s.mapTerms f = s := by
  ext1 x
  rw [get?_mapTerms]
  cases hx : s.get? x with
  | none => rfl
  | some d => exact congrArg some (hf d (hs x d hx))

end

end ConstSubst

namespace Term

/-! ## Laws -/

theorem descends_substConsts : Descends (fun s t => t.substConsts s) ConstSubst.lift :=
  descends_run Traversal.replacingConsts (fun _ _ => rfl) fun _ _ => rfl

theorem substConsts_fvar_eq_image (s : ConstSubst) (x : Ident) :
    (fvar x).substConsts s = s.image x := rfl

/-- Replacements are shifted with the term that they are put into. -/
theorem shiftBy_substConsts (t : Term) (s : ConstSubst) (c d : Nat) :
    (t.substConsts s).shiftBy c d =
      (t.shiftBy c d).substConsts (s.mapTerms (·.shiftBy c d)) := by
  refine (descends_substConsts.comp (rebuilds_shiftBy d).toDescends).agree
    ((rebuilds_shiftBy d).toDescends.comp descends_substConsts)
    (R := fun e e' => e' = (e.2, e.1.mapTerms (·.shiftBy e.2 d))) ?_ ?_ ?_ (s, c)
    (c, s.mapTerms (·.shiftBy c d)) rfl t
  · rintro ⟨s, c⟩ _ rfl
    have hlift : (s.mapTerms (·.shiftBy c d)).lift = s.lift.mapTerms (·.shiftBy (c + 1) d) :=
      ConstSubst.lift_mapTerms (fun t => shiftBy_shiftBy (Nat.zero_le c) t 1 d) s
    exact congrArg (Prod.mk (c + 1)) hlift
  · rintro ⟨s, c⟩ _ rfl i
    simp only [substConsts_bvar, shiftBy_bvar]
  · rintro ⟨s, c⟩ _ rfl x
    exact (ConstSubst.image_mapTerms (fun x => shiftBy_fvar x c d) s x).symm

theorem shift_substConsts (t : Term) (s : ConstSubst) :
    (t.substConsts s).shift 0 = (t.shift 0).substConsts s.lift :=
  shiftBy_substConsts t s 0 1

/-- What is put for an index has its constants expanded on its own, and the replacements are shifted
past the binder that goes. -/
theorem substConsts_subst (t : Term) (k : Nat) (u : Term) (s : ConstSubst) :
    (t.subst k u).substConsts s =
      (t.substConsts (s.mapTerms (·.shift k))).subst k (u.substConsts s) := by
  refine (rebuilds_subst.toDescends.comp descends_substConsts).agree
    (descends_substConsts.comp rebuilds_subst.toDescends)
    (R := fun e e' => e' = (e.2.mapTerms (·.shift e.1.1), (e.1.1, e.1.2.substConsts e.2)))
    ?_ ?_ ?_ ((k, u), s) (s.mapTerms (·.shift k), (k, u.substConsts s)) rfl t
  · rintro ⟨⟨k, u⟩, s⟩ _ rfl
    have hlift : (s.mapTerms (·.shift k)).lift = s.lift.mapTerms (·.shift (k + 1)) :=
      ConstSubst.lift_mapTerms (fun t => shiftBy_shiftBy (Nat.zero_le k) t 1 1) s
    exact congr (congrArg (fun s' u' => (s', (k + 1, u'))) hlift) (shift_substConsts u s)
  · rintro ⟨⟨k, u⟩, s⟩ _ rfl i
    dsimp only
    rcases Nat.lt_trichotomy i k with hi | rfl | hi
    · rw [subst_bvar_of_lt hi, substConsts_bvar, substConsts_bvar, subst_bvar_of_lt hi]
    · rw [subst_bvar_self, substConsts_bvar, subst_bvar_self]
    · rw [subst_bvar_of_gt hi, substConsts_bvar, substConsts_bvar, subst_bvar_of_gt hi]
  · rintro ⟨⟨k, u⟩, s⟩ _ rfl x
    have himage : (s.mapTerms (·.shift k)).image x = (s.image x).shift k :=
      ConstSubst.image_mapTerms (fun x => shiftBy_fvar x k 1) s x
    dsimp only
    rw [subst_fvar, substConsts_fvar_eq_image, substConsts_fvar_eq_image, himage,
      shift_subst_cancel]

end Term

namespace ConstSubst

theorem image_compose (r s : ConstSubst) (x : Ident) :
    (r.compose s).image x = (r.image x).substConsts s := by
  rw [image, get?_compose, image]
  cases r.get? x with
  | none => rfl
  | some d => rfl

theorem lift_compose (r s : ConstSubst) : (r.compose s).lift = r.lift.compose s.lift := by
  ext1 x
  rw [get?_lift, get?_compose, get?_compose, get?_lift, get?_lift]
  cases r.get? x with
  | none => rfl
  | some d => exact congrArg some (Term.shift_substConsts d s)

end ConstSubst

namespace Term

/-- Two maps put in one after the other are one map. -/
theorem substConsts_compose (t : Term) (r s : ConstSubst) :
    t.substConsts (r.compose s) = (t.substConsts r).substConsts s := by
  refine descends_substConsts.agree (descends_substConsts.comp descends_substConsts)
    (R := fun e e' => e = e'.1.compose e'.2) ?_ (fun _ _ _ _ => rfl) ?_ (r.compose s) (r, s) rfl t
  · rintro _ ⟨r, s⟩ rfl
    exact ConstSubst.lift_compose r s
  · rintro _ ⟨r, s⟩ rfl x
    exact ConstSubst.image_compose r s x

/-- Closed replacements need no shifting: constants may be expanded before an index is replaced, or
after it. -/
theorem substConsts_subst_of_closed {s : ConstSubst} (hs : s.Closed) (t : Term) (k : Nat)
    (u : Term) : (t.subst k u).substConsts s = (t.substConsts s).subst k (u.substConsts s) := by
  rw [substConsts_subst, hs.mapTerms_eq fun t ht => shift_of_closed ht k]

end Term

/-! ## Bounds -/

theorem Term.checks_substConsts? (t : Term) (s : ConstSubst) :
    Term.Checks (t.substConsts? s) (t.substConsts s) :=
  Term.checks_run? _ s t

namespace ConstSubst

theorem ofList_toList (s : ConstSubst) : ofList s.entries.toList = s := by
  ext1 x
  rw [get?, get?, ofList]
  cases hx : s.entries[x]? with
  | none =>
    refine Std.ExtTreeMap.getElem?_ofList_of_contains_eq_false ?_
    simpa using hx
  | some d =>
    have hmem : (x, d) ∈ s.entries.toList := Std.ExtTreeMap.mem_toList_iff_getElem?_eq_some.mpr hx
    exact Std.ExtTreeMap.getElem?_ofList_of_mem Std.ReflOrd.compare_self
      Std.ExtTreeMap.distinct_keys_toList hmem

/-- The computation gives `s`, unless an addition reaches `indexLimit`. -/
def Checks (x : Except Fault ConstSubst) (s : ConstSubst) : Prop :=
  x = .ok s ∨ x = .error .indexOverflow

theorem Checks.bind {x : Except Fault ConstSubst} {f : ConstSubst → Except Fault Term}
    {s : ConstSubst} {t : Term} (hx : Checks x s) (hf : Term.Checks (f s) t) :
    Term.Checks (x >>= f) t := by
  rcases hx with rfl | rfl
  · exact hf
  · exact .inr rfl

section

variable {f : Term → Except Fault Term} {g : Term → Term} (h : ∀ t, Term.Checks (f t) (g t))

include h

theorem mapM_bindings_cases (l : List (Ident × Term)) :
    (l.mapM fun e => do let a ← f e.2; return (e.1, a)) = .ok (l.map fun e => (e.1, g e.2)) ∨
      (l.mapM fun e => do let a ← f e.2; return (e.1, a)) = .error .indexOverflow := by
  induction l with
  | nil => exact .inl rfl
  | cons e l ih =>
    rw [List.mapM_cons]
    rcases h e.2 with he | he
    · rcases ih with hl | hl
      · exact .inl (by rw [he, hl]; rfl)
      · exact .inr (by rw [he, hl]; rfl)
    · exact .inr (by rw [he]; rfl)

theorem checks_mapTerms? (s : ConstSubst) : Checks (s.mapTerms? f) (s.mapTerms g) := by
  have hmap : ofList (s.entries.toList.map fun e => (e.1, g e.2)) = s.mapTerms g := by
    rw [← ofList_toList (s.mapTerms g), mapTerms, Std.ExtTreeMap.toList_map]
  rcases mapM_bindings_cases h s.entries.toList with hl | hl
  · exact .inl (by rw [mapTerms?, hl, ← hmap]; rfl)
  · exact .inr (by rw [mapTerms?, hl]; rfl)

end

theorem checks_compose? (r s : ConstSubst) : Checks (r.compose? s) (r.compose s) := by
  rcases checks_mapTerms? (fun t => t.checks_substConsts? s) r with h | h
  · exact .inl (by rw [compose?, h]; rfl)
  · exact .inr (by rw [compose?, h]; rfl)

end ConstSubst

namespace Term

/-- **The laws of expansion**: under shifts, under substitution and one expansion after the other,
for replacements that may be open. Over numbers of 64 bits, both sides of each law give the same
term unless an addition leaves the bounds. -/
theorem expansion_laws :
    (∀ (t : Term) (s : ConstSubst) (c d : Nat),
      (t.substConsts s).shiftBy c d = (t.shiftBy c d).substConsts (s.mapTerms (·.shiftBy c d)) ∧
      Concur (do let u ← t.substConsts? s; u.shiftBy? c d)
        (do let u ← t.shiftBy? c d; let s' ← s.mapTerms? (·.shiftBy? c d); u.substConsts? s')
        ((t.substConsts s).shiftBy c d)) ∧
    (∀ (t u : Term) (s : ConstSubst) (k : Nat),
      (t.subst k u).substConsts s =
        (t.substConsts (s.mapTerms (·.shift k))).subst k (u.substConsts s) ∧
      Concur (do let v ← t.subst? k u; v.substConsts? s)
        (do
          let s' ← s.mapTerms? (·.shift? k)
          let v ← t.substConsts? s'
          let u' ← u.substConsts? s
          v.subst? k u')
        ((t.subst k u).substConsts s)) ∧
    ∀ (t : Term) (s r : ConstSubst),
      (∀ x, (s.compose r).get? x = ((s.get? x).map (·.substConsts r)).or (r.get? x)) ∧
      (t.substConsts s).substConsts r = t.substConsts (s.compose r) ∧
      Concur (do let u ← t.substConsts? s; u.substConsts? r)
        (do let q ← s.compose? r; t.substConsts? q)
        ((t.substConsts s).substConsts r) := by
  refine ⟨fun t s c d => ?_, fun t u s k => ?_, fun t s r => ⟨s.get?_compose r, ?_⟩⟩
  · have heq := shiftBy_substConsts t s c d
    refine ⟨heq, (checks_substConsts? t s).bind (checks_shiftBy? _ c d), ?_⟩
    rw [heq]
    have hs := ConstSubst.checks_mapTerms? (fun a => checks_shiftBy? a c d) s
    exact (checks_shiftBy? t c d).bind (hs.bind (checks_substConsts? _ _))
  · have heq := substConsts_subst t k u s
    refine ⟨heq, (checks_subst? t k u).bind (checks_substConsts? _ s), ?_⟩
    rw [heq]
    have hs := ConstSubst.checks_mapTerms? (fun a => checks_shiftBy? a k 1) s
    exact hs.bind ((checks_substConsts? t _).bind
      ((checks_substConsts? u s).bind (checks_subst? _ k _)))
  · have heq := substConsts_compose t s r
    refine ⟨heq.symm, (checks_substConsts? t s).bind (checks_substConsts? _ r), ?_⟩
    rw [← heq]
    exact (ConstSubst.checks_compose? s r).bind (checks_substConsts? t _)

end Term

end SystemT
