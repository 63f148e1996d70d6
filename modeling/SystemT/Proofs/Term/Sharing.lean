import SystemT.Proofs.Term.Constants

/-!
# Substitution that shares

`substSharing` takes two short cuts. The replacement is closed and is put in unshifted, also below
binders, and subterms that are known to be closed are kept without a visit, so that a chain of
successors is kept from its first shared node on. Which subterms these are is decided anew at every
place, so that nodes may be told apart that are equal as terms, and need not be decided by a test at
all (`Shares`). The result is that of substitution in any case (`Shares.eq_subst`,
`substSharing_eq_subst`).

The short cuts save additions, however. Whatever is counted with them is counted by `subst` as well
(`Shares.fits`), but a binder that is kept unvisited need not be counted. At the end of the range of
indices the one may therefore give a term where the other faults (`substClosed?_ne_subst?`); below
it, they do the same (`substClosed_concurs`).
-/

namespace SystemT

namespace Term

/-- Putting `s`, unshifted, for the index `k` in `t` gives `u` if some closed subterms are kept
without a visit, whichever these are and wherever they stand; `fits` tells whether all binders that
were passed on the way could be counted. -/
inductive Shares (s : Term) : Nat → Term → Term → Bool → Prop where
  | kept {k : Nat} {t : Term} (h : t.closed = true) : Shares s k t t true
  | bvar {k i : Nat} : Shares s k (bvar i) (Traversal.replaceIndex k s i) true
  | lam {k : Nat} {b b' : Term} {c : Bool} (hb : Shares s (k + 1) b b' c) :
      Shares s k (lam b) (lam b') (decide (k + 1 < indexLimit) && c)
  | app {k : Nat} {f f' a a' : Term} {c d : Bool} (hf : Shares s k f f' c)
      (ha : Shares s k a a' d) : Shares s k (app f a) (app f' a') (c && d)
  | pair {k : Nat} {a a' b b' : Term} {c d : Bool} (ha : Shares s k a a' c)
      (hb : Shares s k b b' d) : Shares s k (pair a b) (pair a' b') (c && d)
  | fst {k : Nat} {p p' : Term} {c : Bool} (hp : Shares s k p p' c) :
      Shares s k (fst p) (fst p') c
  | snd {k : Nat} {p p' : Term} {c : Bool} (hp : Shares s k p p' c) :
      Shares s k (snd p) (snd p') c
  | cond {k : Nat} {a a' b b' e e' : Term} {c d f : Bool} (ha : Shares s k a a' c)
      (hb : Shares s k b b' d) (he : Shares s k e e' f) :
      Shares s k (cond a b e) (cond a' b' e') (c && d && f)
  | succ {k : Nat} {t t' : Term} {c : Bool} (ht : Shares s k t t' c) :
      Shares s k (succ t) (succ t') c
  | natRec {k : Nat} {a a' b b' n n' : Term} {c d f : Bool} (ha : Shares s k a a' c)
      (hb : Shares s k b b' d) (hn : Shares s k n n' f) :
      Shares s k (natRec a b n) (natRec a' b' n') (c && d && f)

/-- `substSharing` keeps the subterms that are known to be closed. -/
theorem shares_substSharing {shared : Place → Term → Bool}
    (hshared : ∀ place u, shared place u = true → u.closed = true) (s t : Term) (k : Nat)
    (place : Place) :
    Shares s k t (t.substSharing k s shared place)
      ((Traversal.substitutingClosed s shared).fits (k, place) t) := by
  -- a child is kept or visited
  have hchild : ∀ {u : Term} {k : Nat} {place : Place},
      Shares s k u (u.substSharing k s shared place)
        ((Traversal.substitutingClosed s shared).fits (k, place) u) →
      Shares s k u ((Traversal.substitutingClosed s shared).child (k, place) u)
        (shared place u || (Traversal.substitutingClosed s shared).fits (k, place) u) := by
    intro u k place hu
    show Shares s k u (if shared place u = true then u else u.substSharing k s shared place) _
    by_cases hkept : shared place u = true
    · rw [if_pos hkept, hkept, Bool.true_or]
      exact .kept (hshared place u hkept)
    · rw [if_neg hkept, Bool.eq_false_iff.mpr hkept, Bool.false_or]
      exact hu
  unfold substSharing at hchild ⊢
  induction t generalizing k place with
  | fvar | tt | ff | zero => exact .kept rfl
  | bvar i => exact .bvar
  | lam b ih => exact .lam (hchild (ih (k + 1) (0 :: place)))
  | fst p ih => exact .fst (hchild (ih k (0 :: place)))
  | snd p ih => exact .snd (hchild (ih k (0 :: place)))
  | succ p ih =>
    rw [Traversal.run_succ]
    exact .succ (hchild (ih k (0 :: place)))
  | app f b ihf ihb => exact .app (hchild (ihf k (0 :: place))) (hchild (ihb k (1 :: place)))
  | pair b c ihb ihc => exact .pair (hchild (ihb k (0 :: place))) (hchild (ihc k (1 :: place)))
  | cond b c d ihb ihc ihd =>
    exact .cond (hchild (ihb k (0 :: place))) (hchild (ihc k (1 :: place)))
      (hchild (ihd k (2 :: place)))
  | natRec b c d ihb ihc ihd =>
    exact .natRec (hchild (ihb k (0 :: place))) (hchild (ihc k (1 :: place)))
      (hchild (ihd k (2 :: place)))

section

variable {s : Term} (hs : s.closed = true)

include hs

/-- Neither short cut changes the result. -/
theorem Shares.eq_subst {k : Nat} {t u : Term} {fits : Bool} (h : Shares s k t u fits) :
    u = t.subst k s := by
  induction h with
  | kept ht => exact (subst_of_closed ht _ s).symm
  | bvar => rfl
  | lam _ ih => rw [subst_lam, shift_of_closed hs, ← ih]
  | app _ _ ihf iha => rw [subst_app, ← ihf, ← iha]
  | pair _ _ iha ihb => rw [subst_pair, ← iha, ← ihb]
  | fst _ ih => rw [subst_fst, ← ih]
  | snd _ ih => rw [subst_snd, ← ih]
  | cond _ _ _ iha ihb ihe => rw [subst_cond, ← iha, ← ihb, ← ihe]
  | succ _ ih => rw [subst_succ, ← ih]
  | natRec _ _ _ iha ihb ihn => rw [subst_natRec, ← iha, ← ihb, ← ihn]

/-- Substitution that passes over closed subterms is substitution. -/
theorem substSharing_eq_subst {shared : Place → Term → Bool}
    (hshared : ∀ place u, shared place u = true → u.closed = true) (t : Term) (k : Nat)
    (place : Place) : t.substSharing k s shared place = t.subst k s :=
  (shares_substSharing hshared s t k place).eq_subst hs

/-- Whatever is counted when subterms are shared is counted when all are visited. -/
theorem Shares.fits {k : Nat} {t u : Term} {fits : Bool} (h : Shares s k t u fits)
    (hfits : Traversal.substituting.fits (k, s) t = true) : fits = true := by
  induction h with
  | kept | bvar => rfl
  | @lam k b _ c _ ih =>
    simp only [Traversal.fits, Traversal.substituting, Bool.and_eq_true, Bool.false_or] at hfits
    have hb : Traversal.substituting.fits (k + 1, s.shift 0) b = true := hfits.2
    rw [shift_of_closed hs] at hb
    rw [ih hb, Bool.and_true]
    exact hfits.1.1
  | app _ _ ihf iha | pair _ _ ihf iha =>
    rw [Traversal.fits, Bool.and_eq_true] at hfits
    rw [ihf hfits.1, iha hfits.2, Bool.and_true]
  | fst _ ih | snd _ ih | succ _ ih => exact ih hfits
  | cond _ _ _ iha ihb ihe | natRec _ _ _ iha ihb ihe =>
    rw [Traversal.fits, Bool.and_eq_true, Bool.and_eq_true] at hfits
    rw [iha hfits.1.1, ihb hfits.1.2, ihe hfits.2, Bool.and_true, Bool.and_true]

/-- Substitution of a closed term only counts binders: those above a place in `t`, and those of the
replacement, each time it is shifted. -/
theorem fits_substituting_of_nesting (hsmall : s.nesting < indexLimit) {t : Term} {k : Nat}
    (hk : k + t.nesting < indexLimit) : Traversal.substituting.fits (k, s) t = true := by
  induction t generalizing k with
  | fvar | bvar | tt | ff | zero => rfl
  | lam b ih =>
    rw [nesting] at hk
    have hlift : s.liftFits = true := shiftByFits_of_closedAt 1 hs (by rwa [Nat.zero_add])
    have hb : Traversal.substituting.fits (k + 1, s.shift 0) b = true := by
      rw [shift_of_closed hs]
      exact ih (by omega)
    simp only [Traversal.fits, Bool.and_eq_true, Bool.or_eq_true]
    refine ⟨?_, .inr hb⟩
    simp only [Traversal.substituting, hlift, Bool.and_true, decide_eq_true_eq]
    omega
  | fst p ih | snd p ih | succ p ih => exact ih hk
  | app a b iha ihb | pair a b iha ihb =>
    rw [nesting] at hk
    simp only [Traversal.fits, Bool.and_eq_true, Bool.or_eq_true]
    exact ⟨.inr (@iha k (by omega)), .inr (@ihb k (by omega))⟩
  | cond a b c iha ihb ihc | natRec a b c iha ihb ihc =>
    rw [nesting] at hk
    simp only [Traversal.fits, Bool.and_eq_true, Bool.or_eq_true]
    exact ⟨⟨.inr (@iha k (by omega)), .inr (@ihb k (by omega))⟩, .inr (@ihc k (by omega))⟩

/-- Where the bounds are kept, sharing makes no difference to the computation either. -/
theorem Shares.concurs {k : Nat} {t u : Term} {fits : Bool} (h : Shares s k t u fits) :
    (if fits then .ok u else .error .indexOverflow) = t.subst? k s ∨
      (t.subst? k s = .error .indexOverflow ∧
        (indexLimit ≤ k + t.nesting ∨ indexLimit ≤ s.nesting)) := by
  by_cases hvisits : Traversal.substituting.fits (k, s) t = true
  · left
    have hsubst : t.subst? k s = .ok (t.subst k s) := if_pos hvisits
    rw [hsubst, h.fits hs hvisits, h.eq_subst hs, if_pos rfl]
  · right
    refine ⟨if_neg hvisits, Classical.byContradiction fun hsmall => hvisits ?_⟩
    rw [not_or, Nat.not_le, Nat.not_le] at hsmall
    exact fits_substituting_of_nesting hs hsmall.2 hsmall.1

end

/-- **Sharing is substitution.** For a closed replacement, and whatever closed subterms are kept, be
they the same everywhere or not, the terms are equal. Over numbers of 64 bits the computations are
equal as well, unless that which visits all subterms counts a binder too many: there are as many
above some place in `t`, counted from `k`, or in the replacement. -/
theorem substClosed_concurs (t : Term) (k : Nat) {s : Term} (hs : s.closed = true) :
    (∀ shared : Term → Bool, (∀ u, shared u = true → u.closed = true) →
      t.substClosed k s shared = t.subst k s ∧
      (t.substClosed? k s shared = t.subst? k s ∨
        (t.subst? k s = .error .indexOverflow ∧
          (indexLimit ≤ k + t.nesting ∨ indexLimit ≤ s.nesting)))) ∧
    ∀ u fits, Shares s k t u fits →
      u = t.subst k s ∧
      ((if fits then .ok u else .error .indexOverflow) = t.subst? k s ∨
        (t.subst? k s = .error .indexOverflow ∧
          (indexLimit ≤ k + t.nesting ∨ indexLimit ≤ s.nesting))) := by
  constructor
  · intro shared hshared
    have h := shares_substSharing (fun _ => hshared) s t k []
    exact ⟨h.eq_subst hs, h.concurs hs⟩
  · intro u fits h
    exact ⟨h.eq_subst hs, h.concurs hs⟩

/-- Of a chain of successors over a shared node, which hides a binder, nothing is visited; next to
it, a closed function is put in below a binder. In a pair of equal terms one may be kept and the
other visited. -/
theorem substClosed_concurs_chain :
    (lam (bvar 0)).closed = true ∧
      (∀ u, decide (u = succ (lam zero)) = true → u.closed = true) ∧
      (pair (succ (succ (lam zero))) (lam (app (bvar 4) (bvar 5)))).substClosed 3 (lam (bvar 0))
          (fun u => decide (u = succ (lam zero))) =
        pair (succ (succ (lam zero))) (lam (app (lam (bvar 0)) (bvar 4))) ∧
      (pair (succ (succ (lam zero))) (lam (app (bvar 4) (bvar 5)))).substClosed? 3 (lam (bvar 0))
          (fun u => decide (u = succ (lam zero))) =
        (pair (succ (succ (lam zero))) (lam (app (bvar 4) (bvar 5)))).subst? 3 (lam (bvar 0)) ∧
      Shares (lam (bvar 0)) 3 (pair (lam zero) (lam zero)) (pair (lam zero) (lam zero)) true ∧
      (pair (lam zero) (lam zero)).subst? 3 (lam (bvar 0)) = .ok (pair (lam zero) (lam zero)) := by
  have hs : (lam (bvar 0)).closed = true := rfl
  have hshared : ∀ u, decide (u = succ (lam zero)) = true → u.closed = true := by
    intro u hu
    rw [of_decide_eq_true hu]
    rfl
  have hpair : Shares (lam (bvar 0)) 3 (pair (lam zero) (lam zero)) (pair (lam zero) (lam zero))
      true := .pair (.kept rfl) (.lam (.kept rfl))
  have h := (substClosed_concurs (pair (succ (succ (lam zero))) (lam (app (bvar 4) (bvar 5)))) 3
    hs).1 _ hshared
  have h' := (substClosed_concurs (pair (lam zero) (lam zero)) 3 hs).2 _ _ hpair
  refine ⟨hs, hshared, h.1, h.2.resolve_right ?_, hpair, (h'.2.resolve_right ?_).symm⟩
  · rintro ⟨-, hlimit | hlimit⟩
    · exact absurd hlimit (by decide)
    · exact absurd hlimit (by decide)
  · rintro ⟨-, hlimit | hlimit⟩
    · exact absurd hlimit (by decide)
    · exact absurd hlimit (by decide)

/-- The largest index has none after it, so that no binder can be passed with it. The binder of
`lam zero` is passed by the substitution that visits it only. -/
theorem substClosed?_ne_subst? :
    zero.closed = true ∧ (∀ u, decide (u = lam zero) = true → u.closed = true) ∧
      (pair (lam zero) zero).substClosed? (indexLimit - 1) zero (fun u => decide (u = lam zero)) =
        .ok (pair (lam zero) zero) ∧
      (pair (lam zero) zero).subst? (indexLimit - 1) zero = .error .indexOverflow ∧
      (pair (lam zero) zero).substClosed? (indexLimit - 1) zero (fun u => decide (u = lam zero)) ≠
        (pair (lam zero) zero).subst? (indexLimit - 1) zero := by
  have hshare : (pair (lam zero) zero).substClosed? (indexLimit - 1) zero
      (fun u => decide (u = lam zero)) = .ok (pair (lam zero) zero) := by
    rw [substClosed?, substSharing?, Traversal.run?, if_pos (by decide)]
    rfl
  have hsubst : (pair (lam zero) zero).subst? (indexLimit - 1) zero = .error .indexOverflow := by
    rw [subst?, Traversal.run?, if_neg (by decide)]
  refine ⟨rfl, fun u hu => ?_, hshare, hsubst, ?_⟩
  · rw [of_decide_eq_true hu]
    rfl
  · rw [hshare, hsubst]
    exact nofun

end Term

end SystemT
