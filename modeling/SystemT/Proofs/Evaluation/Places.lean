import SystemT.Proofs.Evaluation.Agreement

/-!
# Where evaluation asks

Evaluation asks its recogniser about the place where it is and about places within that one, and
nowhere else (`eval_congr`). So the answers that are given in one part of a computation have no
bearing on another part: whatever is recognised in each of the parts, there is one recogniser that
does all of that (`exists_recogniser_of_parts`). In this way the places tell apart whatever a test
of the identity of nodes tells apart.
-/

namespace SystemT

/-- Two functions of places are the same at a place and at all places within it. -/
def Place.AgreeWithin {α : Type} (place : Place) (f g : Place → α) : Prop :=
  ∀ p, place <:+ p → f p = g p

namespace Place.AgreeWithin

variable {α : Type} {place : Place} {f g : Place → α}

theorem here (h : place.AgreeWithin f g) : f place = g place := h place List.suffix_rfl

theorem within (h : place.AgreeWithin f g) {p : Place} (hp : place <:+ p) : p.AgreeWithin f g :=
  fun q hq => h q (hp.trans hq)

theorem part (h : place.AgreeWithin f g) (i : Nat) : Place.AgreeWithin (i :: place) f g :=
  h.within (List.suffix_cons i place)

end Place.AgreeWithin

/-- Substitution asks within its place only which subterms are kept. -/
theorem Term.substSharing_congr {shared shared' : Place → Term → Bool} {place : Place}
    (h : place.AgreeWithin shared shared') (t : Term) (k : Nat) (s : Term) :
    t.substSharing k s shared place = t.substSharing k s shared' place := by
  -- a child is kept by both or visited by both
  have hchild : ∀ {place : Place}, place.AgreeWithin shared shared' → ∀ (i : Nat) (u : Term) k,
      u.substSharing k s shared (i :: place) = u.substSharing k s shared' (i :: place) →
      (Traversal.substitutingClosed s shared).child
          ((Traversal.substitutingClosed s shared).part i (k, place)) u =
        (Traversal.substitutingClosed s shared').child
          ((Traversal.substitutingClosed s shared').part i (k, place)) u := by
    intro place h i u k hu
    show (if shared (i :: place) u = true then u else u.substSharing k s shared (i :: place)) =
      if shared' (i :: place) u = true then u else u.substSharing k s shared' (i :: place)
    rw [(h.part i).here, hu]
  unfold substSharing at hchild ⊢
  induction t generalizing k place with
  | fvar | bvar | tt | ff | zero => rfl
  | lam b ih => exact congrArg lam (hchild h 0 b (k + 1) (ih (h.part 0) (k + 1)))
  | fst p ih => exact congrArg fst (hchild h 0 p k (ih (h.part 0) k))
  | snd p ih => exact congrArg snd (hchild h 0 p k (ih (h.part 0) k))
  | succ p ih =>
    rw [Traversal.run_succ, Traversal.run_succ, hchild h 0 p k (ih (h.part 0) k)]
  | app a b iha ihb =>
    rw [Traversal.run_app, Traversal.run_app, hchild h 0 a k (iha (h.part 0) k),
      hchild h 1 b k (ihb (h.part 1) k)]
  | pair a b iha ihb =>
    rw [Traversal.run_pair, Traversal.run_pair, hchild h 0 a k (iha (h.part 0) k),
      hchild h 1 b k (ihb (h.part 1) k)]
  | cond a b c iha ihb ihc =>
    rw [Traversal.run_cond, Traversal.run_cond, hchild h 0 a k (iha (h.part 0) k),
      hchild h 1 b k (ihb (h.part 1) k), hchild h 2 c k (ihc (h.part 2) k)]
  | natRec a b c iha ihb ihc =>
    rw [Traversal.run_natRec, Traversal.run_natRec, hchild h 0 a k (iha (h.part 0) k),
      hchild h 1 b k (ihb (h.part 1) k), hchild h 2 c k (ihc (h.part 2) k)]

namespace Evaluation

variable {known known' : Recogniser} {place : Place}

theorem openChain?_congr (h : place.AgreeWithin known known') (values : List Term) (n : Nat)
    (t : Term) :
    openChain? (fun p => known p values) place n t =
      openChain? (fun p => known' p values) place n t := by
  induction t generalizing place n with
  | succ t ih => rw [openChain?, openChain?, (h.part 0).here, ih (h.part 0) (n + 1)]
  | fvar | bvar | lam | app | pair | fst | snd | tt | ff | cond | zero | natRec => rfl

/-- The open part of a chain of successors stands within the chain. -/
theorem suffix_of_openChain? {known : Place → Term → Bool} {n m : Nat} {t base : Term}
    {below : Place} (h : openChain? known place n t = some (m, below, base)) : place <:+ below := by
  induction t generalizing place n with
  | succ t ih =>
    rw [openChain?] at h
    split at h
    · cases h
    · exact (List.suffix_cons 0 place).trans (ih h)
  | zero => cases h
  | fvar | bvar | lam | app | pair | fst | snd | tt | ff | cond | natRec =>
    cases h
    exact List.suffix_rfl

theorem applyWith_congr {ev ev' : Place → List Term → Term → Result}
    (h : place.AgreeWithin known known') (hev : ev (1 :: place) = ev' (1 :: place))
    (values : List Term) (f a : Term) :
    applyWith known ev place values f a = applyWith known' ev' place values f a := by
  cases f with
  | lam b =>
    have hb : b.substSharing 0 a (fun p => known p values) (0 :: place) =
        b.substSharing 0 a (fun p => known' p values) (0 :: place) :=
      Term.substSharing_congr (fun p hp => congrFun (h.part 0 p hp) values) b 0 a
    rw [applyWith, applyWith, (h.part 0).here, hev, hb]
  | fvar | bvar | app | pair | fst | snd | tt | ff | cond | zero | succ | natRec => rfl

theorem climb_congr {ap ap' : Place → List Term → Term → Term → Result}
    (h : place.AgreeWithin ap ap') (values : List Term) (step : Term) (n : Nat) (pred acc : Term) :
    climb ap place values step n pred acc = climb ap' place values step n pred acc := by
  induction n generalizing place pred acc with
  | zero => rfl
  | succ n ih =>
    rw [climb, climb, (h.part 0).here, (h.part 1).here]
    simp only [ih (h.part 2)]

/-- Evaluation depends on what is recognised at its place and within it, and on nothing else. -/
theorem eval_congr (h : place.AgreeWithin known known') (fuel : Nat) (values : List Term)
    (t : Term) : eval known fuel place values t = eval known' fuel place values t := by
  induction fuel generalizing place values t with
  | zero => rw [eval, eval]
  | succ fuel ih =>
    have hap : place.AgreeWithin (applyWith known (eval known fuel))
        (applyWith known' (eval known' fuel)) := by
      intro p hp
      have hev : eval known fuel (1 :: p) = eval known' fuel (1 :: p) :=
        funext fun values => funext (ih ((h.within hp).part 1) values)
      funext values f a
      exact applyWith_congr (h.within hp) hev values f a
    by_cases hknown : known place values t = true
    · rw [eval_known hknown, eval_known (h.here ▸ hknown)]
    · have hknown' : ¬ known' place values t = true := h.here ▸ hknown
      cases t with
      | fvar | bvar | lam | tt | ff | zero => rw [eval, eval, if_neg hknown, if_neg hknown']
      | app f a =>
        rw [eval_app hknown, eval_app hknown', ih (h.part 0), ih (h.part 1), (hap.part 2).here]
      | pair a b => rw [eval_pair hknown, eval_pair hknown', ih (h.part 0), ih (h.part 1)]
      | fst p => rw [eval_fst hknown, eval_fst hknown', ih (h.part 0)]
      | snd p => rw [eval_snd hknown, eval_snd hknown', ih (h.part 0)]
      | cond c t e =>
        rw [eval_cond hknown, eval_cond hknown', ih (h.part 0), ih (h.part 1), ih (h.part 2)]
      | succ t =>
        rw [eval_succ_eq hknown, eval_succ_eq hknown', openChain?_congr h]
        cases hchain : openChain? (fun p => known' p values) place 0 (.succ t) with
        | none => rfl
        | some chain =>
          obtain ⟨n, below, base⟩ := chain
          dsimp only
          rw [ih (h.within (suffix_of_openChain? hchain))]
      | natRec b s n =>
        rw [eval_natRec hknown, eval_natRec hknown', ih (h.part 0), ih (h.part 1), ih (h.part 2)]
        simp only [climb_congr (hap.part 3)]

/-- Recognise in each part of what is done at a place what `parts` says for that part. -/
def Recogniser.ofParts (place : Place) (parts : Nat → Recogniser) : Recogniser :=
  fun p => parts ((p.take (p.length - place.length)).getLastD 0) p

theorem Recogniser.ofParts_agreeWithin (place : Place) (parts : Nat → Recogniser) (i : Nat) :
    Place.AgreeWithin (i :: place) (ofParts place parts) (parts i) := by
  rintro p ⟨turns, rfl⟩
  have hplace : turns ++ i :: place = turns ++ [i] ++ place := List.append_cons ..
  have hlength : (turns ++ [i] ++ place).length - place.length = (turns ++ [i]).length := by
    rw [List.length_append, Nat.add_sub_cancel]
  rw [ofParts, hplace, hlength, List.take_left, List.getLastD_concat]

/-- **What is recognised in one part has no bearing on another.** Whatever each part of a
computation is to recognise, one recogniser does so in all of them. -/
theorem exists_recogniser_of_parts (place : Place) (parts : Nat → Recogniser)
    (hparts : ∀ i, Recogniser.Sound (parts i)) :
    ∃ known, Recogniser.Sound known ∧ ∀ i fuel values,
      (∀ t, eval known fuel (i :: place) values t = eval (parts i) fuel (i :: place) values t) ∧
        ∀ f a, applyWith known (eval known fuel) (i :: place) values f a =
          applyWith (parts i) (eval (parts i) fuel) (i :: place) values f a := by
  refine ⟨.ofParts place parts, fun p values t h => hparts _ p values t h, ?_⟩
  intro i fuel values
  have hagree := Recogniser.ofParts_agreeWithin place parts i
  refine ⟨eval_congr hagree fuel values, applyWith_congr hagree ?_ values⟩
  exact funext fun values => funext (eval_congr (hagree.part 1) fuel values)

end Evaluation

end SystemT
