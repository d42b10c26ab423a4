import ProgramTrees.Proofs.ExpressionRefinement

namespace ProgramTrees

def ended : Option Fault → Machine → EStateM.Result Stop Machine Unit
  | none, s => .ok () s
  | some fault, s => .error (.fault fault) s

theorem finished_iff {result : EStateM.Result Stop Machine Unit} :
    Finished result ↔ ∃ outcome s, result = ended outcome s := by
  constructor
  · intro h
    match result, h with
    | .ok _ s, _ => exact ⟨none, s, rfl⟩
    | .error (.fault fault) s, _ => exact ⟨some fault, s, rfl⟩
    | .error .outOfRounds _, h => exact absurd rfl h
  · rintro ⟨_ | fault, s, rfl⟩
    · trivial
    · simp [ended, Finished]

theorem finished_ended (outcome : Option Fault) (s : Machine) : Finished (ended outcome s) :=
  finished_iff.mpr ⟨outcome, s, rfl⟩

variable {types : TypeMap} {budget number : Nat}

/-- Some budget takes a statement from a state to an outcome in an environment. -/
def Settles (types : TypeMap) (n : Node Nat) (m : Machine) (outcome : Option Fault)
    (env : Environment) : Prop :=
  ∃ budget s, (n.eval types budget).run m = ended outcome s ∧ s.environment = env

/-- No budget takes a statement to its end or to a fault. -/
def Endless (types : TypeMap) (n : Node Nat) (m : Machine) : Prop :=
  ∀ budget, ¬ Finished ((n.eval types budget).run m)

theorem Settles.of_finished {n : Node Nat} {m : Machine} {outcome : Option Fault}
    {env : Environment} (h : Settles types n m outcome env)
    (hn : Finished ((n.eval types budget).run m)) :
    ∃ s, (n.eval types budget).run m = ended outcome s ∧ s.environment = env := by
  obtain ⟨b, s, hs, rfl⟩ := h
  exact ⟨s, (eval_finished_eq hn (hs ▸ finished_ended outcome s)).trans hs, rfl⟩

theorem Settles.eventually {n : Node Nat} {m : Machine} {outcome : Option Fault}
    {env : Environment} (h : Settles types n m outcome env) :
    ∃ least s, s.environment = env ∧
      ∀ budget, least ≤ budget → (n.eval types budget).run m = ended outcome s := by
  obtain ⟨least, s, hs, henv⟩ := h
  refine ⟨least, s, henv, fun budget hle => ?_⟩
  rw [eval_agrees hle n m (hs ▸ finished_ended outcome s), hs]

theorem settles_or_endless (types : TypeMap) (n : Node Nat) (m : Machine) :
    (∃ outcome env, Settles types n m outcome env) ∨ Endless types n m := by
  by_cases h : Endless types n m
  · exact .inr h
  · obtain ⟨budget, hb⟩ := Classical.not_forall.mp h
    obtain ⟨outcome, s, hs⟩ := finished_iff.mp (Classical.not_not.mp hb)
    exact .inl ⟨outcome, s.environment, budget, s, hs, rfl⟩

section Sequences

variable {s : Node Nat} {ss : List (Node Nat)} {m : Machine}

theorem eval_sequence :
    (Node.sequence number ss).eval types budget = Node.evalAll types budget ss := by
  rw [Node.eval]

theorem run_sequence_of_ok {t : Machine} (h : (s.eval types budget).run m = .ok () t) :
    ((Node.sequence number (s :: ss)).eval types budget).run m =
      ((Node.sequence number ss).eval types budget).run t := by
  rw [eval_sequence, eval_sequence, Node.evalAll, EStateM.run_bind, h]

theorem run_sequence_of_error {stop : Stop} {t : Machine}
    (h : (s.eval types budget).run m = .error stop t) :
    ((Node.sequence number (s :: ss)).eval types budget).run m = .error stop t := by
  rw [eval_sequence, Node.evalAll, EStateM.run_bind, h]

theorem Settles.next {mid env : Environment} {outcome : Option Fault}
    (h : Settles types s m none mid)
    (hrest : ∀ t : Machine, t.environment = mid →
      Settles types (.sequence number ss) t outcome env) :
    Settles types (.sequence number (s :: ss)) m outcome env := by
  obtain ⟨b, t, henv, ht⟩ := h.eventually
  obtain ⟨b', t', henv', ht'⟩ := (hrest t henv).eventually
  exact ⟨max b b', t', (run_sequence_of_ok (ht _ (by omega))).trans (ht' _ (by omega)), henv'⟩

theorem Settles.fault_first {env : Environment} {fault : Fault}
    (h : Settles types s m (some fault) env) :
    Settles types (.sequence number (s :: ss)) m (some fault) env := by
  obtain ⟨b, t, ht, henv⟩ := h
  exact ⟨b, t, run_sequence_of_error ht, henv⟩

theorem finished_first
    (h : Finished (((Node.sequence number (s :: ss)).eval types budget).run m)) :
    Finished ((s.eval types budget).run m) := by
  cases hs : (s.eval types budget).run m with
  | ok _ t => trivial
  | error stop t => rwa [run_sequence_of_error hs] at h

theorem Endless.next {mid : Environment} (h : Settles types s m none mid)
    (hrest : ∀ t : Machine, t.environment = mid → Endless types (.sequence number ss) t) :
    Endless types (.sequence number (s :: ss)) m := by
  intro budget hfinished
  obtain ⟨t, ht, henv⟩ := h.of_finished (finished_first hfinished)
  rw [run_sequence_of_ok ht] at hfinished
  exact hrest t henv budget hfinished

end Sequences

section Loops

variable {condition body : Node Nat} {m : Machine} {v : Option Value} {mid env : Environment}

theorem loopTest_agrees {budget budget' : Nat} (hle : budget ≤ budget') (condition : Node Nat) :
    Agrees (loopTest types budget condition) (loopTest types budget' condition) := by
  rw [loopTest, loopTest]
  exact (eval_agrees hle condition).bind fun _ => .refl _

theorem loopTest_of_yields (h : Yields types condition m.environment (.ok v) mid) :
    ∃ s, s.environment = mid ∧
      ∀ budget, (loopTest types budget condition).run m = .ok (Value.keepsLooping v) s := by
  obtain ⟨_, s, hs, rfl, henv⟩ := reading_eq_ok.mp (eval_of_yields 0 condition h)
  have htest := loopTest_ok.mpr ⟨hs, rfl⟩
  refine ⟨s, henv, fun budget => ?_⟩
  rw [loopTest_agrees (Nat.zero_le budget) condition m (by simp [htest, Finished]), htest]

theorem loopTest_of_fault {fault : Fault}
    (h : Yields types condition m.environment (.error fault) env) (budget : Nat) :
    ∃ s, (loopTest types budget condition).run m = .error (.fault fault) s ∧
      s.environment = env := by
  obtain ⟨s, hs, henv⟩ := reading_eq_error.mp (eval_of_yields budget condition h)
  exact ⟨s, loopTest_error.mpr hs, henv⟩

section Rounds

variable {test : Eval Bool} {round : Eval Unit} {left done : Nat} {s t : Machine}

theorem repeatWhile_of_stop (h : test.run m = .ok false s) :
    (repeatWhile test round done left).run m = .ok () (s.endLoop done) := by
  cases left <;> simp [repeatWhile, EStateM.run_bind, h]

theorem repeatWhile_of_test_error {stop : Stop} (h : test.run m = .error stop s) :
    (repeatWhile test round done left).run m = .error stop s := by
  cases left <;> simp [repeatWhile, EStateM.run_bind, h]

theorem repeatWhile_of_none_left (h : test.run m = .ok true s) :
    (repeatWhile test round done 0).run m = .error .outOfRounds s := by
  simp [repeatWhile, EStateM.run_bind, h]

theorem repeatWhile_of_body_error {stop : Stop} (h : test.run m = .ok true s)
    (hbody : round.run s = .error stop t) :
    (repeatWhile test round done (left + 1)).run m = .error stop t := by
  simp [repeatWhile, EStateM.run_bind, h, hbody]

theorem repeatWhile_of_round (h : test.run m = .ok true s) (hbody : round.run s = .ok () t) :
    (repeatWhile test round done (left + 1)).run m =
      (repeatWhile test round (done + 1) left).run t := by
  simp [repeatWhile, EStateM.run_bind, h, hbody]

theorem endLoop_ended {outcome : Option Fault} (h : .ok () (t.endLoop done) = ended outcome s)
    (done' : Nat) :
    ∃ s', .ok () (t.endLoop done') = ended outcome s' ∧ s'.environment = s.environment := by
  cases outcome with
  | none =>
    obtain rfl : t.endLoop done = s := by simpa [ended] using h
    exact ⟨t.endLoop done', rfl, rfl⟩
  | some fault => simp [ended] at h

theorem repeatWhile_done {outcome : Option Fault}
    (h : (repeatWhile test round done left).run m = ended outcome s) (done' : Nat) :
    ∃ s', (repeatWhile test round done' left).run m = ended outcome s' ∧
      s'.environment = s.environment := by
  induction left generalizing m done done' with
  | zero =>
    rcases hx : test.run m with ⟨_ | _, t⟩ | ⟨stop, t⟩
    · rw [repeatWhile_of_stop hx] at h ⊢
      exact endLoop_ended h done'
    · rw [repeatWhile_of_none_left hx] at h ⊢
      exact ⟨s, h, rfl⟩
    · rw [repeatWhile_of_test_error hx] at h ⊢
      exact ⟨s, h, rfl⟩
  | succ left ih =>
    rcases hx : test.run m with ⟨_ | _, t⟩ | ⟨stop, t⟩
    · rw [repeatWhile_of_stop hx] at h ⊢
      exact endLoop_ended h done'
    · cases hb : round.run t with
      | ok _ u =>
        rw [repeatWhile_of_round hx hb] at h ⊢
        exact ih h _
      | error stop u =>
        rw [repeatWhile_of_body_error hx hb] at h ⊢
        exact ⟨s, h, rfl⟩
    · rw [repeatWhile_of_test_error hx] at h ⊢
      exact ⟨s, h, rfl⟩

end Rounds

abbrev loopRounds (types : TypeMap) (condition body : Node Nat) (budget done left : Nat) :
    Eval Unit :=
  repeatWhile (loopTest types budget condition) (body.eval types budget) done left

theorem rounds_agrees {budget budget' left left' : Nat} (hle : budget ≤ budget')
    (hleft : left ≤ left') (done : Nat) :
    Agrees (loopRounds types condition body budget done left)
      (loopRounds types condition body budget' done left') :=
  repeatWhile_agrees (loopTest_agrees hle condition) (eval_agrees hle body) hleft done

theorem Settles.rounds {outcome : Option Fault}
    (h : Settles types (.loop number condition body) m outcome env) :
    ∃ least, ∀ budget left done, least ≤ budget → least ≤ left →
      ∃ s, (loopRounds types condition body budget done left).run m = ended outcome s ∧
        s.environment = env := by
  obtain ⟨b, s, hs, rfl⟩ := h
  refine ⟨b, fun budget left done hb hl => ?_⟩
  rw [eval_loop] at hs
  have hrun : (loopRounds types condition body budget 0 left).run m =
      ended outcome s :=
    (rounds_agrees hb hl 0 m (hs ▸ finished_ended outcome s)).trans hs
  exact repeatWhile_done hrun done

theorem Endless.rounds (h : Endless types (.loop number condition body) m)
    (budget done left : Nat) :
    ¬ Finished ((loopRounds types condition body budget done left).run m) := by
  intro hfinished
  obtain ⟨outcome, s, hs⟩ := finished_iff.mp hfinished
  obtain ⟨s', hs', -⟩ := repeatWhile_done hs 0
  apply h (max budget left)
  rw [eval_loop]
  have hagrees : (loopRounds types condition body (max budget left) 0
      (max budget left)).run m = ended outcome s' :=
    (rounds_agrees (by omega) (by omega) 0 m (hs' ▸ finished_ended outcome s')).trans hs'
  exact hagrees ▸ finished_ended outcome s'

theorem Settles.loop_end (h : Yields types condition m.environment (.ok v) mid)
    (hv : Value.keepsLooping v = false) :
    Settles types (.loop number condition body) m none mid := by
  obtain ⟨s, rfl, hs⟩ := loopTest_of_yields h
  rw [hv] at hs
  exact ⟨0, s.endLoop 0, by rw [eval_loop, repeatWhile_of_stop (hs 0)]; rfl, rfl⟩

theorem Settles.condition_fault {fault : Fault}
    (h : Yields types condition m.environment (.error fault) env) :
    Settles types (.loop number condition body) m (some fault) env := by
  obtain ⟨s, hs, rfl⟩ := loopTest_of_fault h 0
  exact ⟨0, s, by rw [eval_loop, repeatWhile_of_test_error hs]; rfl, rfl⟩

theorem Settles.body_fault {fault : Fault}
    (h : Yields types condition m.environment (.ok v) mid) (hv : Value.keepsLooping v = true)
    (hbody : ∀ s : Machine, s.environment = mid → Settles types body s (some fault) env) :
    Settles types (.loop number condition body) m (some fault) env := by
  obtain ⟨s, hmid, hs⟩ := loopTest_of_yields h
  obtain ⟨b, t, rfl, ht⟩ := (hbody s hmid).eventually
  rw [hv] at hs
  exact ⟨b + 1, t,
    by rw [eval_loop, repeatWhile_of_body_error (hs _) (ht _ (by omega))]; rfl, rfl⟩

theorem Settles.loop_round {outcome : Option Fault} {env' : Environment}
    (h : Yields types condition m.environment (.ok v) mid) (hv : Value.keepsLooping v = true)
    (hbody : ∀ s : Machine, s.environment = mid → Settles types body s none env')
    (hrest : ∀ t : Machine, t.environment = env' →
      Settles types (.loop number condition body) t outcome env) :
    Settles types (.loop number condition body) m outcome env := by
  obtain ⟨s, hmid, hs⟩ := loopTest_of_yields h
  obtain ⟨b, t, henv', ht⟩ := (hbody s hmid).eventually
  obtain ⟨b', hrounds⟩ := (hrest t henv').rounds
  obtain ⟨u, hu, henv⟩ := hrounds (max b b' + 1) (max b b') 1 (by omega) (by omega)
  rw [hv] at hs
  exact ⟨max b b' + 1, u,
    by rw [eval_loop, repeatWhile_of_round (hs _) (ht _ (by omega)), hu], henv⟩

theorem finished_round {s : Machine} {done left : Nat}
    (hs : (loopTest types budget condition).run m = .ok true s)
    (h : Finished ((loopRounds types condition body budget done left).run m)) :
    ∃ before, left = before + 1 ∧ Finished ((body.eval types budget).run s) ∧
      ∀ t, (body.eval types budget).run s = .ok () t →
        Finished ((loopRounds types condition body budget (done + 1) before).run t) := by
  cases left with
  | zero =>
    rw [loopRounds, repeatWhile_of_none_left hs] at h
    exact absurd rfl h
  | succ left =>
    refine ⟨left, rfl, ?_⟩
    cases hb : (body.eval types budget).run s with
    | ok _ t =>
      rw [loopRounds, repeatWhile_of_round hs hb] at h
      exact ⟨trivial, by rintro _ ⟨⟩; exact h⟩
    | error stop t =>
      rw [loopRounds, repeatWhile_of_body_error hs hb] at h
      exact ⟨h, nofun⟩

theorem Endless.loop_body (h : Yields types condition m.environment (.ok v) mid)
    (hv : Value.keepsLooping v = true)
    (hbody : ∀ s : Machine, s.environment = mid → Endless types body s) :
    Endless types (.loop number condition body) m := by
  intro budget hfinished
  obtain ⟨s, hmid, hs⟩ := loopTest_of_yields h
  rw [hv] at hs
  rw [eval_loop] at hfinished
  obtain ⟨_, _, hb, _⟩ := finished_round (hs budget) hfinished
  exact hbody s hmid budget hb

theorem Endless.loop_round {env' : Environment}
    (h : Yields types condition m.environment (.ok v) mid) (hv : Value.keepsLooping v = true)
    (hbody : ∀ s : Machine, s.environment = mid → Settles types body s none env')
    (hrest : ∀ t : Machine, t.environment = env' →
      Endless types (.loop number condition body) t) :
    Endless types (.loop number condition body) m := by
  intro budget hfinished
  obtain ⟨s, hmid, hs⟩ := loopTest_of_yields h
  rw [hv] at hs
  rw [eval_loop] at hfinished
  obtain ⟨before, _, hb, hafter⟩ := finished_round (hs budget) hfinished
  obtain ⟨t, ht, henv'⟩ := (hbody s hmid).of_finished hb
  exact (hrest t henv').rounds budget _ before (hafter t ht)

end Loops

end ProgramTrees
