import SystemT.Proofs.Evaluation.Rules
import SystemT.Proofs.Term.Sharing

/-!
# The evaluator follows the rules

Evaluation by fuel, with values recognised and substitution passing over them, agrees with the rules
of call by value. Which values are recognised, and at which places, does not matter, as long as
these are entries of the table or closed values (`Recogniser.Sound`), and the table holds closed
values only. For every closed term

- any amount of fuel either runs out or leads to what the rules yield (`agrees_eval`);
- what the rules yield is found by all large amounts of fuel (`Yields.settles`).

So the rules yield at most one result (`Yields.unique`), and once they yield a result no amount of
fuel leads to another one (`Yields.eval_eq`). `tryEvaluate_follows` puts both directions together:
values and errors are found exactly where the rules yield them.
-/

namespace SystemT

namespace Evaluation

variable {known : Recogniser} {place : Place} {values : List Term} {fuel : Nat}

/-! ## Equations of the evaluator -/

theorem eval_known {t : Term} (h : known place values t = true) :
    eval known (fuel + 1) place values t = .ok t := by
  rw [eval.eq_def]
  exact if_pos h

section

variable {f a b t c e p s n : Term}

theorem eval_app (h : ¬ known place values (.app f a) = true) :
    eval known (fuel + 1) place values (.app f a) =
      (eval known fuel (0 :: place) values f >>= fun f =>
        eval known fuel (1 :: place) values a >>= fun a =>
          applyWith known (eval known fuel) (2 :: place) values f a) := by
  rw [eval, if_neg h]

theorem eval_pair (h : ¬ known place values (.pair a b) = true) :
    eval known (fuel + 1) place values (.pair a b) =
      (eval known fuel (0 :: place) values a >>= fun a =>
        eval known fuel (1 :: place) values b >>= fun b => .ok (.pair a b)) := by
  rw [eval, if_neg h]

theorem eval_fst (h : ¬ known place values (.fst p) = true) :
    eval known (fuel + 1) place values (.fst p) =
      (eval known fuel (0 :: place) values p >>= fun
        | .pair a _ => .ok a
        | other => fail (.notPair other)) := by
  rw [eval]
  exact if_neg h

theorem eval_snd (h : ¬ known place values (.snd p) = true) :
    eval known (fuel + 1) place values (.snd p) =
      (eval known fuel (0 :: place) values p >>= fun
        | .pair _ b => .ok b
        | other => fail (.notPair other)) := by
  rw [eval]
  exact if_neg h

theorem eval_cond (h : ¬ known place values (.cond c t e) = true) :
    eval known (fuel + 1) place values (.cond c t e) =
      (eval known fuel (0 :: place) values c >>= fun
        | .tt => eval known fuel (1 :: place) values t
        | .ff => eval known fuel (2 :: place) values e
        | other => fail (.notBool other)) := by
  rw [eval]
  exact if_neg h

theorem eval_natRec (h : ¬ known place values (.natRec b s n) = true) :
    eval known (fuel + 1) place values (.natRec b s n) =
      (eval known fuel (2 :: place) values n >>= fun n =>
        match n.asNumeral? with
        | none => fail (.notNat n)
        | some count =>
          eval known fuel (1 :: place) values s >>= fun s =>
            eval known fuel (0 :: place) values b >>= fun b =>
              climb (applyWith known (eval known fuel)) (3 :: place) values s count .zero b) := by
  rw [eval]
  exact if_neg h

/-! ## Chains of successors -/

theorem openChain?_succ (known : Place → Term → Bool) (place : Place) (n : Nat) (t : Term) :
    openChain? known place (n + 1) t =
      (openChain? known place n t).map fun (m, base) => (m + 1, base) := by
  induction t generalizing place n with
  | succ t ih =>
    rw [openChain?, openChain?]
    by_cases h : known (0 :: place) t = true
    · rw [if_pos h, if_pos h]
      rfl
    · rw [if_neg h, if_neg h]
      exact ih (0 :: place) (n + 1)
  | fvar | bvar | lam | app | pair | fst | snd | tt | ff | cond | zero | natRec => rfl

/-- What a chain of successors evaluates to, as far as it is open. -/
theorem eval_succ_eq (h : ¬ known place values (.succ t) = true) :
    eval known (fuel + 1) place values (.succ t) =
      match openChain? (fun p => known p values) place 0 (.succ t) with
      | none => .ok (.succ t)
      | some (n, below, base) =>
        eval known fuel below values base >>= fun v => .ok (.succs n v) := by
  rw [eval]
  exact if_neg h

/-- A successor evaluates to the successor of what its operand evaluates to. A chain of successors
is evaluated in one go; the operand itself takes the same fuel if it goes on with the chain, and one
less if it ends it. -/
theorem eval_succ (h : ¬ known place values (.succ t) = true) :
    (∀ k, eval known (k + 1) place values (.succ t) =
        (eval known k (0 :: place) values t >>= fun v => .ok (.succ v))) ∨
      ∀ k, eval known (k + 1) place values (.succ t) =
        (eval known (k + 1) (0 :: place) values t >>= fun v => .ok (.succ v)) := by
  simp only [eval_succ_eq h, openChain?]
  by_cases ht : known (0 :: place) values t = true
  · refine .inr fun fuel => ?_
    rw [if_pos ht, eval_known ht]
    rfl
  · rw [if_neg ht]
    cases t with
    | succ t =>
      refine .inr fun fuel => ?_
      rw [eval_succ_eq ht, openChain?_succ]
      cases openChain? (fun p => known p values) (0 :: place) 0 (.succ t) with
      | none => rfl
      | some chain =>
        obtain ⟨n, below, base⟩ := chain
        dsimp only [Option.map_some]
        cases eval known fuel below values base with
        | error e => rfl
        | ok v => exact congrArg Except.ok (Term.succs_succ n v)
    | zero =>
      refine .inr fun fuel => ?_
      rw [eval, if_neg ht]
      rfl
    | fvar | bvar | lam | app | pair | fst | snd | tt | ff | cond | natRec =>
      -- the operand ends the chain
      exact .inl fun fuel => rfl

end

/-! ## Recursion -/

/-- The place of the round that comes `n` rounds after the one at `place`. -/
def round (place : Place) : Nat → Place
  | 0 => place
  | n + 1 => round (2 :: place) n

/-- A recursion goes up from zero; its last step is the one at the number before. -/
theorem climb_succ (apply : Place → List Term → Term → Term → Result) (step : Term) (n : Nat)
    (place : Place) (pred acc : Term) :
    climb apply place values step (n + 1) pred acc =
      (climb apply place values step n pred acc >>= fun v =>
        apply (0 :: round place n) (.succs n pred :: values) step (.succs n pred) >>= fun f =>
          apply (1 :: round place n) (.succs n pred :: values) f v) := by
  induction n generalizing place pred acc with
  | zero =>
    show climb apply place values step 1 pred acc =
      (apply (0 :: place) (pred :: values) step pred >>= fun f =>
        apply (1 :: place) (pred :: values) f acc)
    rw [climb]
    cases apply (0 :: place) (pred :: values) step pred with
    | error e => rfl
    | ok f =>
      show _ = apply (1 :: place) (pred :: values) f acc
      dsimp only
      cases apply (1 :: place) (pred :: values) f acc with
      | error e => rfl
      | ok next => rfl
  | succ n ih =>
    rw [climb]
    conv => rhs; rw [climb]
    cases apply (0 :: place) (pred :: values) step pred with
    | error e => rfl
    | ok f =>
      dsimp only
      cases apply (1 :: place) (pred :: values) f acc with
      | error e => rfl
      | ok next => exact ih (2 :: place) (.succ pred) next

/-! ## Sharing -/

/-- A recogniser is true of nothing but entries of the table and closed values. -/
def Recogniser.Sound (known : Recogniser) : Prop :=
  ∀ place values t, known place values t = true → t ∈ values ∨ t.isClosedValue = true

theorem closedValue_sound : Recogniser.Sound closedValue := fun _ _ _ h => .inr h

/-- The terms of a table are closed values. -/
def ClosedValues (values : List Term) : Prop := ∀ v ∈ values, v.isClosedValue = true

theorem closedValues_nil : ClosedValues [] := fun _ hv => nomatch hv

theorem ClosedValues.cons {v : Term} (hv : v.isClosedValue = true) (h : ClosedValues values) :
    ClosedValues (v :: values) := by
  intro u hu
  rcases List.mem_cons.mp hu with rfl | hu
  · exact hv
  · exact h u hu

theorem Recogniser.Sound.isClosedValue (hk : Recogniser.Sound known) (hvalues : ClosedValues values)
    {t : Term} (h : known place values t = true) : t.isClosedValue = true := by
  rcases hk place values t h with ht | ht
  · exact hvalues t ht
  · exact ht

/-- Applying a function evaluates its body with the argument put in, whatever is passed over. -/
theorem applyWith_lam (hk : Recogniser.Sound known) (hvalues : ClosedValues values)
    (ev : Place → List Term → Term → Result) (place : Place) (b : Term) {a : Term}
    (ha : a.isClosedValue = true) :
    applyWith known ev place values (.lam b) a = ev (1 :: place) (a :: values) (b.subst 0 a) := by
  have hclosed : ∀ p u, known p values u = true → u.closed = true := fun p u hu =>
    Term.closed_of_isClosedValue (hk.isClosedValue hvalues hu)
  rw [applyWith]
  by_cases hb : known (0 :: place) values b = true
  · -- a body that is passed over does not use its argument
    rw [if_pos hb, Term.subst_of_closed (hclosed _ b hb)]
  · rw [if_neg hb,
      Term.substSharing_eq_subst (Term.closed_of_isClosedValue ha) hclosed]

/-! ## Running a job -/

/-- Do a job that comes up at a place, with a table of values at hand. -/
def Job.run (known : Recogniser) (fuel : Nat) (place : Place) (values : List Term) : Job → Result
  | term t => eval known fuel place values t
  | apply f a => applyWith known (eval known fuel) place values f a
  | iterate b s n => climb (applyWith known (eval known fuel)) place values s n .zero b

/-- Evaluation came to an end. -/
def finished (r : Except EvalError Term) : Result := r.mapError .error

/-- Evaluation ran out of fuel or came to an end that the job yields. -/
inductive Agrees (job : Job) : Result → Prop where
  | outOfFuel : Agrees job (.error (.fault .outOfFuel))
  | finished {r : Except EvalError Term} (h : Yields job r) : Agrees job (finished r)

theorem Agrees.ok {job : Job} {v : Term} (h : Yields job (.ok v)) : Agrees job (.ok v) :=
  .finished h

theorem Agrees.fail {job : Job} {e : EvalError} (h : Yields job (.error e)) :
    Agrees job (fail e) :=
  .finished h

theorem Agrees.imp {job job' : Job} {res : Result} (h : Agrees job res)
    (himp : ∀ r, Yields job r → Yields job' r) : Agrees job' res := by
  cases h with
  | outOfFuel => exact .outOfFuel
  | finished h => exact .finished (himp _ h)

/-- A job whose first part is another job: that part's errors are errors of the whole, and its value
is gone on with. -/
theorem Agrees.bind {job job' : Job} {res : Result} {g : Term → Result} (h : Agrees job res)
    (herror : ∀ e, Yields job (.error e) → Yields job' (.error e))
    (hok : ∀ v, Yields job (.ok v) → Agrees job' (g v)) : Agrees job' (res >>= g) := by
  cases h with
  | outOfFuel => exact .outOfFuel
  | @finished r h =>
    cases r with
    | error e => exact .finished (herror e h)
    | ok v => exact hok v h

/-- Applications agree with the rules if evaluation does. -/
theorem agrees_apply (hk : Recogniser.Sound known)
    (hterm : ∀ t place values, t.closed = true → ClosedValues values →
      Agrees (.term t) (eval known fuel place values t))
    {f a : Term} (hjob : (Job.apply f a).Closed) (hvalues : ClosedValues values) :
    Agrees (.apply f a) (applyWith known (eval known fuel) place values f a) := by
  have hother : (∀ b, f ≠ .lam b) → Agrees (.apply f a) (fail (.notFunction f)) :=
    fun hf => .fail (.notFunction hf)
  cases f with
  | lam b =>
    rw [applyWith_lam hk hvalues _ _ b hjob.2]
    exact (hterm _ _ _ hjob.beta (hvalues.cons hjob.2)).imp fun r hr => .beta hr
  | fvar | bvar | app | pair | fst | snd | tt | ff | cond | zero | succ | natRec =>
    exact hother fun b hb => nomatch hb

/-- Recursions agree with the rules if applications do. -/
theorem agrees_iterate {ap : Place → List Term → Term → Term → Result}
    (hap : ∀ f a place values, (Job.apply f a).Closed → ClosedValues values →
      Agrees (.apply f a) (ap place values f a))
    {b s : Term} (hjob : (Job.iterate b s 0).Closed) (n : Nat) (hvalues : ClosedValues values) :
    Agrees (.iterate b s n) (climb ap place values s n .zero b) := by
  induction n with
  | zero => exact .ok .iterateZero
  | succ n ih =>
    rw [climb_succ]
    have hn : (Term.numeral n).isClosedValue = true := Term.isClosedValue_numeral n
    have htable : ClosedValues (.numeral n :: values) := hvalues.cons hn
    refine ih.bind (fun e he => .iterateBelow he) fun v hv => ?_
    have hvclosed : v.isClosedValue = true := hv.isClosedValue hjob
    refine (hap s _ _ _ ⟨hjob.2, hn⟩ htable).bind (fun e he => .iteratePred hv he) fun f hf => ?_
    have hfclosed : f.isClosedValue = true := hf.isClosedValue ⟨hjob.2, hn⟩
    exact (hap f v _ _ ⟨hfclosed, hvclosed⟩ htable).imp fun r hr => .iterateSucc hv hf hr

/-- A recognised term yields itself, so that only the others need be looked at. -/
theorem agrees_of_unknown (hk : Recogniser.Sound known) (hvalues : ClosedValues values) {t : Term}
    (h : ¬ known place values t = true → Agrees (.term t) (eval known (fuel + 1) place values t)) :
    Agrees (.term t) (eval known (fuel + 1) place values t) := by
  by_cases ht : known place values t = true
  · rw [eval_known ht]
    have hvalue := (Term.isClosedValue_iff t).mp (hk.isClosedValue hvalues ht)
    exact .ok (yields_of_isValue hvalue.1)
  · exact h ht

/-- Evaluation either runs out of fuel or follows the rules. -/
theorem agrees_eval (hk : Recogniser.Sound known) (fuel : Nat) (t : Term) (place : Place)
    (values : List Term) (ht : t.closed = true) (hvalues : ClosedValues values) :
    Agrees (.term t) (eval known fuel place values t) := by
  induction fuel generalizing t place values with
  | zero =>
    rw [eval]
    exact .outOfFuel
  | succ fuel ih =>
    have hap : ∀ f a place values, (Job.apply f a).Closed → ClosedValues values →
        Agrees (.apply f a) (applyWith known (eval known fuel) place values f a) :=
      fun f a place values hjob hvalues => agrees_apply hk ih hjob hvalues
    -- a successor may take the same fuel as its operand, hence the induction on the term
    induction t generalizing place with
    | fvar x =>
      refine agrees_of_unknown hk hvalues fun hknown => ?_
      rw [eval, if_neg hknown]
      exact .fail .fvar
    | bvar i => cases ht
    | lam b =>
      refine agrees_of_unknown hk hvalues fun hknown => ?_
      rw [eval, if_neg hknown]
      exact .ok .lam
    | tt =>
      refine agrees_of_unknown hk hvalues fun hknown => ?_
      rw [eval, if_neg hknown]
      exact .ok .tt
    | ff =>
      refine agrees_of_unknown hk hvalues fun hknown => ?_
      rw [eval, if_neg hknown]
      exact .ok .ff
    | zero =>
      refine agrees_of_unknown hk hvalues fun hknown => ?_
      rw [eval, if_neg hknown]
      exact .ok .zero
    | app f a =>
      refine agrees_of_unknown hk hvalues fun hknown => ?_
      obtain ⟨hf, ha⟩ := Term.closed_app.mp ht
      rw [eval_app hknown]
      refine (ih f _ values hf hvalues).bind (fun e he => .appFn he) fun f' hf' => ?_
      refine (ih a _ values ha hvalues).bind (fun e he => .appArg hf' he) fun a' ha' => ?_
      have hclosed : (Job.apply f' a').Closed := ⟨hf'.isClosedValue hf, ha'.isClosedValue ha⟩
      exact (hap f' a' _ values hclosed hvalues).imp fun r hr => .app hf' ha' hr
    | pair a b =>
      refine agrees_of_unknown hk hvalues fun hknown => ?_
      obtain ⟨ha, hb⟩ := Term.closed_pair.mp ht
      rw [eval_pair hknown]
      refine (ih a _ values ha hvalues).bind (fun e he => .pairFst he) fun a' ha' => ?_
      refine (ih b _ values hb hvalues).bind (fun e he => .pairSnd ha' he) fun b' hb' => ?_
      exact .ok (.pair ha' hb')
    | fst p =>
      refine agrees_of_unknown hk hvalues fun hknown => ?_
      rw [eval_fst hknown]
      refine (ih p _ values ht hvalues).bind (fun e he => .fstOf he) fun v hv => ?_
      cases v with
      | pair a b => exact .ok (.fst hv)
      | fvar | bvar | lam | app | fst | snd | tt | ff | cond | zero | succ | natRec =>
        exact .fail (.fstNotPair hv fun a b h => nomatch h)
    | snd p =>
      refine agrees_of_unknown hk hvalues fun hknown => ?_
      rw [eval_snd hknown]
      refine (ih p _ values ht hvalues).bind (fun e he => .sndOf he) fun v hv => ?_
      cases v with
      | pair a b => exact .ok (.snd hv)
      | fvar | bvar | lam | app | fst | snd | tt | ff | cond | zero | succ | natRec =>
        exact .fail (.sndNotPair hv fun a b h => nomatch h)
    | cond c t e =>
      refine agrees_of_unknown hk hvalues fun hknown => ?_
      obtain ⟨hc, ht, he⟩ := Term.closed_cond.mp ht
      rw [eval_cond hknown]
      refine (ih c _ values hc hvalues).bind (fun e he => .condOf he) fun v hv => ?_
      cases v with
      | tt => exact (ih t _ values ht hvalues).imp fun r hr => .condTrue hv hr
      | ff => exact (ih e _ values he hvalues).imp fun r hr => .condFalse hv hr
      | fvar | bvar | lam | app | pair | fst | snd | cond | zero | succ | natRec =>
        exact .fail (.condNotBool hv nofun nofun)
    | succ t iht =>
      refine agrees_of_unknown hk hvalues fun hknown => ?_
      rcases eval_succ hknown with h | h
      · rw [h fuel]
        exact (ih t _ values ht hvalues).bind (fun e he => .succOf he) fun v hv => .ok (.succ hv)
      · rw [h fuel]
        exact (iht _ ht).bind (fun e he => .succOf he) fun v hv => .ok (.succ hv)
    | natRec b s n =>
      refine agrees_of_unknown hk hvalues fun hknown => ?_
      obtain ⟨hb, hs, hn⟩ := Term.closed_natRec.mp ht
      rw [eval_natRec hknown]
      refine (ih n _ values hn hvalues).bind (fun e he => .recScrutinee he) fun n' hn' => ?_
      cases hnum : n'.asNumeral? with
      | none =>
        refine .fail (.recNotNat hn' fun k hk => ?_)
        rw [(Term.asNumeral?_eq_some_iff n' k).mpr hk] at hnum
        cases hnum
      | some k =>
        obtain rfl := (Term.asNumeral?_eq_some_iff n' k).mp hnum
        refine (ih s _ values hs hvalues).bind (fun e he => .recStep hn' he) fun s' hs' => ?_
        refine (ih b _ values hb hvalues).bind (fun e he => .recBase hn' hs' he) fun b' hb' => ?_
        have hclosed : (Job.iterate b' s' 0).Closed := ⟨hb'.isClosedValue hb, hs'.isClosedValue hs⟩
        exact (agrees_iterate hap hclosed k hvalues).imp fun r hr => .natRec hn' hs' hb' hr

/-! ## Enough fuel -/

/-- A value yields nothing but itself. -/
theorem Yields.eq_of_isValue {v : Term} {r : Except EvalError Term} (h : Yields (.term v) r)
    (hv : v.isValue = true) : r = .ok v := by
  induction v generalizing r with
  | lam | tt | ff | zero =>
    cases h
    rfl
  | succ v ih =>
    cases h with
    | succOf h => cases ih h hv
    | succ h =>
      cases ih h hv
      rfl
  | pair a b iha ihb =>
    simp only [Term.isValue, Bool.and_eq_true] at hv
    cases h with
    | pairFst h => cases iha h hv.1
    | pairSnd _ h => cases ihb h hv.2
    | pair ha hb =>
      cases iha ha hv.1
      cases ihb hb hv.2
      rfl
  | fvar | bvar | app | fst | snd | cond | natRec => cases hv

/-- All large amounts of fuel lead to `r`. -/
def Settles (run : Nat → Result) (r : Except EvalError Term) : Prop :=
  ∃ enough, ∀ fuel, enough ≤ fuel → run fuel = finished r

section

variable {run run' : Nat → Result} {go : Nat → Term → Result} {r : Except EvalError Term} {v : Term}

theorem settles_const (r : Except EvalError Term) : Settles (fun _ => finished r) r :=
  ⟨0, fun _ _ => rfl⟩

/-- One more call, or now and then one more, does not matter. -/
theorem Settles.of_succ (h : Settles run' r)
    (heq : ∀ fuel, run (fuel + 1) = run' fuel ∨ run (fuel + 1) = run' (fuel + 1)) :
    Settles run r := by
  obtain ⟨enough, h⟩ := h
  refine ⟨enough + 1, fun fuel hfuel => ?_⟩
  obtain ⟨fuel, rfl⟩ : ∃ n, fuel = n + 1 := ⟨fuel - 1, by omega⟩
  rcases heq fuel with heq | heq
  · rw [heq, h fuel (by omega)]
  · rw [heq, h (fuel + 1) (by omega)]

theorem Settles.bind_error {e : EvalError} (h : Settles run (.error e)) :
    Settles (fun fuel => run fuel >>= go fuel) (.error e) := by
  obtain ⟨enough, h⟩ := h
  refine ⟨enough, fun fuel hfuel => ?_⟩
  dsimp only
  rw [h fuel hfuel]
  rfl

theorem Settles.bind (h : Settles run (.ok v)) (hgo : Settles (fun fuel => go fuel v) r) :
    Settles (fun fuel => run fuel >>= go fuel) r := by
  obtain ⟨enough, h⟩ := h
  obtain ⟨enough', hgo⟩ := hgo
  refine ⟨max enough enough', fun fuel hfuel => ?_⟩
  dsimp only
  rw [h fuel (by omega), ← hgo fuel (by omega)]
  rfl

end

/-- Evaluation of a term that yields `r` settles if it does so where the term is not recognised. -/
theorem settles_of_unknown (hk : Recogniser.Sound known) (hvalues : ClosedValues values) {t : Term}
    {r : Except EvalError Term} (hr : Yields (.term t) r)
    (h : ¬ known place values t = true → Settles (fun fuel => eval known fuel place values t) r) :
    Settles (fun fuel => eval known fuel place values t) r := by
  by_cases ht : known place values t = true
  · have hvalue := (Term.isClosedValue_iff t).mp (hk.isClosedValue hvalues ht)
    rw [hr.eq_of_isValue hvalue.1]
    exact (settles_const (.ok t)).of_succ fun fuel => .inl (eval_known ht)
  · exact h ht

/-- With enough fuel, a closed job is done as the rules say. -/
theorem Yields.settles (hk : Recogniser.Sound known) {job : Job} {r : Except EvalError Term}
    (h : Yields job r) (hjob : job.Closed) (hvalues : ClosedValues values) :
    Settles (fun fuel => job.run known fuel place values) r := by
  -- the table grows on the way down, hence for all tables at once, and for all places
  induction h generalizing place values with
  | @fvar x =>
    refine settles_of_unknown hk hvalues .fvar fun hknown => ?_
    refine (settles_const (.error (.unresolved x))).of_succ fun fuel => .inl ?_
    rw [eval, if_neg hknown]
    rfl
  | bvar => cases hjob
  | lam | tt | ff | zero =>
    refine settles_of_unknown hk hvalues (yields_of_isValue rfl) fun hknown => ?_
    refine (settles_const (.ok _)).of_succ fun fuel => .inl ?_
    rw [eval, if_neg hknown]
    rfl
  | @appFn f a e hf ih =>
    refine settles_of_unknown hk hvalues (.appFn hf) fun hknown => ?_
    obtain ⟨hfc, hac⟩ := Term.closed_app.mp hjob
    exact (ih hfc hvalues).bind_error.of_succ fun fuel => .inl (eval_app hknown)
  | @appArg f a f' e hf ha ihf iha =>
    refine settles_of_unknown hk hvalues (.appArg hf ha) fun hknown => ?_
    obtain ⟨hfc, hac⟩ := Term.closed_app.mp hjob
    exact ((ihf hfc hvalues).bind (iha hac hvalues).bind_error).of_succ fun fuel =>
      .inl (eval_app hknown)
  | @app f a f' a' r hf ha hr ihf iha ihr =>
    refine settles_of_unknown hk hvalues (.app hf ha hr) fun hknown => ?_
    obtain ⟨hfc, hac⟩ := Term.closed_app.mp hjob
    -- the operands yield closed values, so that their application is a closed job
    have happly : (Job.apply f' a').Closed := ⟨hf.isClosedValue hfc, ha.isClosedValue hac⟩
    exact ((ihf hfc hvalues).bind ((iha hac hvalues).bind (ihr happly hvalues))).of_succ
      fun fuel => .inl (eval_app hknown)
  | @beta b a r hr ih =>
    obtain ⟨enough, h⟩ := ih hjob.beta (hvalues.cons hjob.2)
    refine ⟨enough, fun fuel hfuel => ?_⟩
    show applyWith known (eval known fuel) place values (.lam b) a = finished r
    rw [applyWith_lam hk hvalues _ _ b hjob.2]
    exact h fuel hfuel
  | @notFunction f a hf =>
    refine ⟨0, fun fuel _ => ?_⟩
    show applyWith known (eval known fuel) place values f a = fail (.notFunction f)
    cases f with
    | lam b => exact absurd rfl (hf b)
    | fvar | bvar | app | pair | fst | snd | tt | ff | cond | zero | succ | natRec => rfl
  | @pairFst a b e ha ih =>
    refine settles_of_unknown hk hvalues (.pairFst ha) fun hknown => ?_
    obtain ⟨hac, hbc⟩ := Term.closed_pair.mp hjob
    exact (ih hac hvalues).bind_error.of_succ fun fuel => .inl (eval_pair hknown)
  | @pairSnd a b a' e ha hb iha ihb =>
    refine settles_of_unknown hk hvalues (.pairSnd ha hb) fun hknown => ?_
    obtain ⟨hac, hbc⟩ := Term.closed_pair.mp hjob
    exact ((iha hac hvalues).bind (ihb hbc hvalues).bind_error).of_succ fun fuel =>
      .inl (eval_pair hknown)
  | @pair a b a' b' ha hb iha ihb =>
    refine settles_of_unknown hk hvalues (.pair ha hb) fun hknown => ?_
    obtain ⟨hac, hbc⟩ := Term.closed_pair.mp hjob
    have hpair := settles_const (.ok (.pair a' b'))
    exact ((iha hac hvalues).bind ((ihb hbc hvalues).bind hpair)).of_succ fun fuel =>
      .inl (eval_pair hknown)
  | @fstOf p e hp ih =>
    refine settles_of_unknown hk hvalues (.fstOf hp) fun hknown => ?_
    exact (ih hjob hvalues).bind_error.of_succ fun fuel => .inl (eval_fst hknown)
  | @fst p a b hp ih =>
    refine settles_of_unknown hk hvalues (.fst hp) fun hknown => ?_
    exact ((ih hjob hvalues).bind (settles_const (.ok a))).of_succ fun fuel =>
      .inl (eval_fst hknown)
  | @fstNotPair p v hp hv ih =>
    refine settles_of_unknown hk hvalues (.fstNotPair hp hv) fun hknown => ?_
    refine ((ih hjob hvalues).bind ?_).of_succ fun fuel => .inl (eval_fst hknown)
    cases v with
    | pair a b => exact absurd rfl (hv a b)
    | fvar | bvar | lam | app | fst | snd | tt | ff | cond | zero | succ | natRec =>
      exact settles_const (.error (.notPair _))
  | @sndOf p e hp ih =>
    refine settles_of_unknown hk hvalues (.sndOf hp) fun hknown => ?_
    exact (ih hjob hvalues).bind_error.of_succ fun fuel => .inl (eval_snd hknown)
  | @snd p a b hp ih =>
    refine settles_of_unknown hk hvalues (.snd hp) fun hknown => ?_
    exact ((ih hjob hvalues).bind (settles_const (.ok b))).of_succ fun fuel =>
      .inl (eval_snd hknown)
  | @sndNotPair p v hp hv ih =>
    refine settles_of_unknown hk hvalues (.sndNotPair hp hv) fun hknown => ?_
    refine ((ih hjob hvalues).bind ?_).of_succ fun fuel => .inl (eval_snd hknown)
    cases v with
    | pair a b => exact absurd rfl (hv a b)
    | fvar | bvar | lam | app | fst | snd | tt | ff | cond | zero | succ | natRec =>
      exact settles_const (.error (.notPair _))
  | @condOf c t e err hc ih =>
    refine settles_of_unknown hk hvalues (.condOf hc) fun hknown => ?_
    obtain ⟨hcc, -, -⟩ := Term.closed_cond.mp hjob
    exact (ih hcc hvalues).bind_error.of_succ fun fuel => .inl (eval_cond hknown)
  | @condTrue c t e r hc ht ihc iht =>
    refine settles_of_unknown hk hvalues (.condTrue hc ht) fun hknown => ?_
    obtain ⟨hcc, htc, -⟩ := Term.closed_cond.mp hjob
    exact ((ihc hcc hvalues).bind (iht htc hvalues)).of_succ fun fuel => .inl (eval_cond hknown)
  | @condFalse c t e r hc he ihc ihe =>
    refine settles_of_unknown hk hvalues (.condFalse hc he) fun hknown => ?_
    obtain ⟨hcc, -, hec⟩ := Term.closed_cond.mp hjob
    exact ((ihc hcc hvalues).bind (ihe hec hvalues)).of_succ fun fuel => .inl (eval_cond hknown)
  | @condNotBool c t e v hc htt hff ih =>
    refine settles_of_unknown hk hvalues (.condNotBool hc htt hff) fun hknown => ?_
    obtain ⟨hcc, -, -⟩ := Term.closed_cond.mp hjob
    refine ((ih hcc hvalues).bind ?_).of_succ fun fuel => .inl (eval_cond hknown)
    cases v with
    | tt => exact absurd rfl htt
    | ff => exact absurd rfl hff
    | fvar | bvar | lam | app | pair | fst | snd | cond | zero | succ | natRec =>
      exact settles_const (.error (.notBool _))
  | @succOf t e ht ih =>
    refine settles_of_unknown hk hvalues (.succOf ht) fun hknown => ?_
    exact (ih hjob hvalues).bind_error.of_succ fun fuel => (eval_succ hknown).imp (· fuel) (· fuel)
  | @succ t v ht ih =>
    refine settles_of_unknown hk hvalues (.succ ht) fun hknown => ?_
    exact ((ih hjob hvalues).bind (settles_const (.ok (.succ v)))).of_succ fun fuel =>
      (eval_succ hknown).imp (· fuel) (· fuel)
  | @recScrutinee b s n e hn ih =>
    refine settles_of_unknown hk hvalues (.recScrutinee hn) fun hknown => ?_
    obtain ⟨-, -, hnc⟩ := Term.closed_natRec.mp hjob
    exact (ih hnc hvalues).bind_error.of_succ fun fuel => .inl (eval_natRec hknown)
  | @recNotNat b s n v hn hv ih =>
    refine settles_of_unknown hk hvalues (.recNotNat hn hv) fun hknown => ?_
    obtain ⟨-, -, hnc⟩ := Term.closed_natRec.mp hjob
    have hnum : v.asNumeral? = none := by
      cases h : v.asNumeral? with
      | none => rfl
      | some k => exact absurd ((Term.asNumeral?_eq_some_iff v k).mp h) (hv k)
    refine ((ih hnc hvalues).bind ?_).of_succ fun fuel => .inl (eval_natRec hknown)
    rw [hnum]
    exact settles_const (.error (.notNat v))
  | @recStep b s n k e hn hs ihn ihs =>
    refine settles_of_unknown hk hvalues (.recStep hn hs) fun hknown => ?_
    obtain ⟨hbc, hsc, hnc⟩ := Term.closed_natRec.mp hjob
    refine ((ihn hnc hvalues).bind ?_).of_succ fun fuel => .inl (eval_natRec hknown)
    rw [(Term.asNumeral?_eq_some_iff _ k).mpr rfl]
    exact (ihs hsc hvalues).bind_error
  | @recBase b s n s' k e hn hs hb ihn ihs ihb =>
    refine settles_of_unknown hk hvalues (.recBase hn hs hb) fun hknown => ?_
    obtain ⟨hbc, hsc, hnc⟩ := Term.closed_natRec.mp hjob
    refine ((ihn hnc hvalues).bind ?_).of_succ fun fuel => .inl (eval_natRec hknown)
    rw [(Term.asNumeral?_eq_some_iff _ k).mpr rfl]
    exact (ihs hsc hvalues).bind (ihb hbc hvalues).bind_error
  | @natRec b s n b' s' k r hn hs hb hr ihn ihs ihb ihr =>
    refine settles_of_unknown hk hvalues (.natRec hn hs hb hr) fun hknown => ?_
    obtain ⟨hbc, hsc, hnc⟩ := Term.closed_natRec.mp hjob
    have hclimb : (Job.iterate b' s' k).Closed := ⟨hb.isClosedValue hbc, hs.isClosedValue hsc⟩
    refine ((ihn hnc hvalues).bind ?_).of_succ fun fuel => .inl (eval_natRec hknown)
    rw [(Term.asNumeral?_eq_some_iff _ k).mpr rfl]
    exact (ihs hsc hvalues).bind ((ihb hbc hvalues).bind (ihr hclimb hvalues))
  | @iterateZero b s => exact settles_const (.ok b)
  | @iterateBelow b s k e _ ih =>
    show Settles
      (fun fuel => climb (applyWith known (eval known fuel)) place values s (k + 1) .zero b) _
    simp only [climb_succ]
    exact (ih hjob hvalues).bind_error
  | @iteratePred b s v k e _ _ ihv ihf =>
    show Settles
      (fun fuel => climb (applyWith known (eval known fuel)) place values s (k + 1) .zero b) _
    simp only [climb_succ]
    have hk' : (Term.numeral k).isClosedValue = true := Term.isClosedValue_numeral k
    exact (ihv hjob hvalues).bind (ihf ⟨hjob.2, hk'⟩ (hvalues.cons hk')).bind_error
  | @iterateSucc b s v f k r hv hf _ ihv ihf ihr =>
    show Settles
      (fun fuel => climb (applyWith known (eval known fuel)) place values s (k + 1) .zero b) _
    simp only [climb_succ]
    have hk' : (Term.numeral k).isClosedValue = true := Term.isClosedValue_numeral k
    have htable := hvalues.cons hk'
    have happly : (Job.apply f v).Closed :=
      ⟨hf.isClosedValue ⟨hjob.2, hk'⟩, hv.isClosedValue hjob⟩
    exact (ihv hjob hvalues).bind ((ihf ⟨hjob.2, hk'⟩ htable).bind (ihr happly htable))

/-! ## Results -/

theorem finished_injective {r r' : Except EvalError Term} (h : finished r = finished r') :
    r = r' := by
  cases r with
  | error e =>
    cases r' with
    | error e' =>
      cases h
      rfl
    | ok v' => cases h
  | ok v =>
    cases r' with
    | error e' => cases h
    | ok v' =>
      cases h
      rfl

theorem finished_ne_fault (r : Except EvalError Term) (f : Fault) :
    finished r ≠ .error (.fault f) := by
  intro h
  cases r with
  | error e => cases h
  | ok v => cases h

/-- What evaluation comes to is what the rules yield. -/
theorem Agrees.yields {job : Job} {res : Result} {r : Except EvalError Term} (h : Agrees job res)
    (hr : res = Evaluation.finished r) : Yields job r := by
  cases h with
  | outOfFuel => exact absurd hr.symm (finished_ne_fault r .outOfFuel)
  | finished h =>
    rw [← finished_injective hr]
    exact h

/-- A closed term is evaluated with nothing in the table yet. -/
theorem tryEvaluateWith_of_closed (known : Recogniser) {t : Term} (ht : t.closed = true) :
    t.tryEvaluateWith known = fun fuel => eval known fuel [] [] t := by
  funext fuel
  rw [Term.tryEvaluateWith, (Term.firstEscaping?_eq_none_iff t 0).mpr ht]

theorem tryEvaluate_of_closed {t : Term} (ht : t.closed = true) :
    t.tryEvaluate = fun fuel => eval closedValue fuel [] [] t :=
  tryEvaluateWith_of_closed closedValue ht

/-- The rules yield at most one result for a closed term. -/
theorem Yields.unique {t : Term} {r r' : Except EvalError Term} (h : Yields (.term t) r)
    (h' : Yields (.term t) r') (ht : t.closed = true) : r = r' := by
  have hsettles : ∀ r, Yields (.term t) r → Settles (fun fuel => eval closedValue fuel [] [] t) r :=
    fun _ hr => hr.settles closedValue_sound ht closedValues_nil
  obtain ⟨enough, hr⟩ := hsettles r h
  obtain ⟨enough', hr'⟩ := hsettles r' h'
  -- some amount of fuel is enough for both
  refine finished_injective ?_
  rw [← hr (max enough enough') (by omega), ← hr' (max enough enough') (by omega)]

/-- Where the rules yield a result, evaluation leads to that result or runs out of fuel. -/
theorem Yields.eval_eq (hk : Recogniser.Sound known) {t : Term} {r : Except EvalError Term}
    (h : Yields (.term t) r) (ht : t.closed = true) (hvalues : ClosedValues values) (fuel : Nat) :
    eval known fuel place values t = finished r ∨
      eval known fuel place values t = .error (.fault .outOfFuel) := by
  have hagrees := agrees_eval hk fuel t place values ht hvalues
  generalize eval known fuel place values t = res at hagrees
  cases hagrees with
  | outOfFuel => exact .inr rfl
  | @finished r' h' =>
    rw [h.unique h' ht]
    exact .inl rfl

/-! ## Refinement -/

/-- A computation by fuel follows the rules for a job. It finds a value exactly if the rules yield
that value, and fails with an error exactly if this is the first one by the rules. What the rules
yield is found by all large amounts of fuel, and there is no fault but that the fuel runs out. -/
structure Follows (run : Nat → Result) (job : Job) : Prop where
  value : ∀ v, (∃ fuel, run fuel = .ok v) ↔ Yields job (.ok v)
  error : ∀ e, (∃ fuel, run fuel = .error (.error e)) ↔ Yields job (.error e)
  settles : ∀ r, Yields job r → Settles run r
  fault : ∀ fuel f, run fuel = .error (.fault f) → f = .outOfFuel

/-- It is enough that all amounts of fuel agree with the rules and that large ones settle. -/
theorem Follows.of_agrees {run : Nat → Result} {job : Job}
    (hagrees : ∀ fuel, Agrees job (run fuel)) (hsettles : ∀ r, Yields job r → Settles run r) :
    Follows run job := by
  have hresult : ∀ r, (∃ fuel, run fuel = finished r) ↔ Yields job r := by
    intro r
    constructor
    · rintro ⟨fuel, hr⟩
      exact (hagrees fuel).yields hr
    · intro h
      obtain ⟨enough, hr⟩ := hsettles r h
      exact ⟨enough, hr enough (Nat.le_refl enough)⟩
  refine ⟨fun v => hresult (.ok v), fun e => hresult (.error e), hsettles, ?_⟩
  intro fuel f hf
  have h := hagrees fuel
  generalize run fuel = res at hf h
  cases h with
  | outOfFuel =>
    cases hf
    rfl
  | @finished r _ => exact absurd hf (finished_ne_fault r f)

/-- Evaluation of a closed term follows the rules, whatever is recognised. -/
theorem eval_follows (hk : Recogniser.Sound known) {t : Term} (ht : t.closed = true)
    (hvalues : ClosedValues values) :
    Follows (fun fuel => eval known fuel place values t) (.term t) :=
  .of_agrees (fun fuel => agrees_eval hk fuel t place values ht hvalues)
    fun _ hr => hr.settles hk ht hvalues

/-- **Evaluation is call by value.** Be a closed term well typed or not, the value that is found for
it is the one that the rules yield, and the error that is reported is the one that the rules come to
first; neither is found where the rules yield nothing. This does not depend on which entries of the
table of values, or closed values in general, are recognised, and at which places: of two that are
equal one may be recognised and the other not. Nor does it depend on the place and the table that
the evaluation begins with. -/
theorem tryEvaluate_follows {t : Term} (ht : t.closed = true) :
    Follows t.tryEvaluate (.term t) ∧
      ∀ known, Recogniser.Sound known →
        Follows (t.tryEvaluateWith known) (.term t) ∧
          ∀ place values, ClosedValues values →
            Follows (fun fuel => eval known fuel place values t) (.term t) := by
  constructor
  · rw [tryEvaluate_of_closed ht]
    exact eval_follows closedValue_sound ht closedValues_nil
  · intro known hk
    constructor
    · rw [tryEvaluateWith_of_closed known ht]
      exact eval_follows hk ht closedValues_nil
    · intro place values hvalues
      exact eval_follows hk ht hvalues

/-- A test that tells two nodes apart that are equal. A function makes a pair of its argument zero
and a zero of its own. The argument is recognised where it stands in this pair, the other zero is
not. In a recursion whose step applies the number that it is given, the numeral zero is no
function. -/
theorem tryEvaluate_follows_occurrences :
    ∃ known : Recogniser,
      known = (fun place values u => decide (place = [0, 1, 2]) && decide (u ∈ values)) ∧
      Recogniser.Sound known ∧
      known [0, 1, 2] [.zero] .zero = true ∧ known [1, 1, 2] [.zero] .zero = false ∧
      (∃ t, t = Term.app (.lam (.pair (.bvar 0) .zero)) .zero ∧ t.closed = true ∧
        t.tryEvaluateWith known 9 = .ok (.pair .zero .zero) ∧
        Yields (.term t) (.ok (.pair .zero .zero)) ∧
        Follows t.tryEvaluate (.term t) ∧
          ∀ known, Recogniser.Sound known →
            Follows (t.tryEvaluateWith known) (.term t) ∧
              ∀ place values, ClosedValues values →
                Follows (fun fuel => eval known fuel place values t) (.term t)) ∧
      ∃ t, t = Term.natRec .zero (.lam (.lam (.app (.bvar 1) (.bvar 0)))) (.numeral 1) ∧
        t.closed = true ∧ t.tryEvaluateWith known 9 = fail (.notFunction .zero) ∧
        Yields (.term t) (.error (.notFunction .zero)) := by
  have hk : Recogniser.Sound fun place values u =>
      decide (place = [0, 1, 2]) && decide (u ∈ values) := by
    intro place values u hu
    rw [Bool.and_eq_true] at hu
    exact .inl (of_decide_eq_true hu.2)
  have hpair := tryEvaluate_follows (t := .app (.lam (.pair (.bvar 0) .zero)) .zero) rfl
  have hrec := tryEvaluate_follows
    (t := .natRec .zero (.lam (.lam (.app (.bvar 1) (.bvar 0)))) (.numeral 1)) rfl
  refine ⟨_, rfl, hk, rfl, rfl, ⟨_, rfl, rfl, by rfl, ?_, hpair⟩, _, rfl, rfl, by rfl, ?_⟩
  · exact ((hpair.2 _ hk).1.value _).mp ⟨9, rfl⟩
  · exact ((hrec.2 _ hk).1.error _).mp ⟨9, rfl⟩

end Evaluation

end SystemT
