import ProgramTrees.Proofs.OutputGrowth

namespace ProgramTrees

variable {types : TypeMap} {budget number place : Nat} {m s t : Machine} {n : Node Nat}

/-- Some budget takes a node from a state to its end in another one. -/
def Ends (types : TypeMap) (n : Node Nat) (m s : Machine) : Prop :=
  ∃ budget, (n.eval types budget).run m = .ok () s

section Ends

theorem Ends.eventually (h : Ends types n m s) :
    ∃ least, ∀ budget, least ≤ budget → (n.eval types budget).run m = .ok () s := by
  obtain ⟨least, hs⟩ := h
  refine ⟨least, fun budget hle => ?_⟩
  rw [eval_agrees hle n m (by simp [hs, Finished]), hs]

theorem Ends.unique (h : Ends types n m s) (h' : Ends types n m t) : s = t := by
  obtain ⟨b, hb⟩ := h.eventually
  obtain ⟨b', hb'⟩ := h'.eventually
  have hs := hb (max b b') (by omega)
  rw [hb' (max b b') (by omega)] at hs
  injection hs with _ hs
  exact hs.symm

theorem ends_var {name : String} : Ends types (.var number name) m s ↔ s = m := by
  constructor
  · rintro ⟨budget, h⟩
    rw [Node.eval] at h
    injection h with _ h
    exact h.symm
  · rintro rfl
    exact ⟨0, by rw [Node.eval]; rfl⟩

theorem ends_pair {first next : Node Nat} : Ends types (.sequence number [first, next]) m t ↔
    ∃ s, Ends types first m s ∧ Ends types next s t := by
  constructor
  · rintro ⟨budget, h⟩
    rw [eval_sequence] at h
    obtain ⟨s, hfirst, h⟩ := evalAll_cons_ok.mp h
    obtain ⟨t', hnext, h⟩ := evalAll_cons_ok.mp h
    rw [Node.evalAll] at h
    injection h with _ h
    exact ⟨s, ⟨budget, hfirst⟩, ⟨budget, h ▸ hnext⟩⟩
  · rintro ⟨s, hfirst, hnext⟩
    obtain ⟨b, hb⟩ := hfirst.eventually
    obtain ⟨b', hb'⟩ := hnext.eventually
    refine ⟨max b b', ?_⟩
    rw [run_sequence_of_ok (hb _ (by omega)), run_sequence_of_ok (hb' _ (by omega)), eval_sequence,
      Node.evalAll]
    rfl

end Ends

section Output

/-- The lines that were printed between two states. -/
def Machine.printedUntil (m s : Machine) : List String :=
  s.output.toList.drop m.output.size

theorem Ends.output (h : Ends types n m s) :
    s.output.toList = m.output.toList ++ m.printedUntil s := by
  obtain ⟨budget, h⟩ := h
  have hgrows := eval_grows types budget n m
  rw [h] at hgrows
  obtain ⟨lines, hlines⟩ : m.output.toList <+: s.output.toList := hgrows
  rw [Machine.printedUntil, ← hlines, ← Array.length_toList, List.drop_left]

end Output

section Rounds

variable {condition first next : Node Nat} {runs : List (Machine × Machine)}

/-- The condition of a loop is evaluated and asks for a round. -/
def AsksFor (types : TypeMap) (condition : Node Nat) (again : Bool) (m s : Machine) : Prop :=
  Ends types condition m s ∧ Value.keepsLooping (s.value condition.slot) = again

/-- The rounds of a loop whose body consists of two statements, from a state on to the one in which
its condition fails: the evaluations of the first statement, each with the states at its start and
at its end. -/
inductive Rounds (types : TypeMap) (condition first next : Node Nat) :
    Machine → List (Machine × Machine) → Machine → Prop where
  | stop {m s : Machine} : AsksFor types condition false m s →
      Rounds types condition first next m [] s
  | round {m s t u v : Machine} {runs : List (Machine × Machine)} :
      AsksFor types condition true m s → Ends types first s t → Ends types next t u →
      Rounds types condition first next u runs v →
      Rounds types condition first next m ((s, t) :: runs) v

/-- The states in which the loop evaluates its first statement, whether or not it ends. -/
inductive ReachesRound (types : TypeMap) (condition first next : Node Nat) (m : Machine) :
    Machine → Prop where
  | start {s : Machine} : AsksFor types condition true m s →
      ReachesRound types condition first next m s
  | round {s t u v : Machine} : ReachesRound types condition first next m s → Ends types first s t →
      Ends types next t u → AsksFor types condition true u v →
      ReachesRound types condition first next m v

theorem AsksFor.unique {again again' : Bool} (h : AsksFor types condition again m s)
    (h' : AsksFor types condition again' m t) : again = again' ∧ s = t := by
  obtain rfl := h.1.unique h'.1
  exact ⟨h.2.symm.trans h'.2, rfl⟩

theorem Rounds.unique {runs' : List (Machine × Machine)}
    (h : Rounds types condition first next m runs s)
    (h' : Rounds types condition first next m runs' t) : runs = runs' ∧ s = t := by
  induction h generalizing runs' with
  | stop htest =>
    cases h' with
    | stop htest' => exact ⟨rfl, (htest.unique htest').2⟩
    | round htest' => exact nomatch (htest.unique htest').1
  | round htest hfirst hnext _ ih =>
    cases h' with
    | stop htest' => exact nomatch (htest.unique htest').1
    | round htest' hfirst' hnext' hrest' =>
      obtain ⟨-, rfl⟩ := htest.unique htest'
      obtain rfl := hfirst.unique hfirst'
      obtain rfl := hnext.unique hnext'
      obtain ⟨rfl, rfl⟩ := ih hrest'
      exact ⟨rfl, rfl⟩

theorem AsksFor.eventually {again : Bool} (h : AsksFor types condition again m s) :
    ∃ least, ∀ budget, least ≤ budget →
      (loopTest types budget condition).run m = .ok again s := by
  obtain ⟨least, hleast⟩ := h.1.eventually
  exact ⟨least, fun budget hle => loopTest_ok.mpr ⟨hleast budget hle, h.2.symm⟩⟩

theorem asksFor_of_loopTest {again : Bool}
    (h : (loopTest types budget condition).run m = .ok again s) :
    AsksFor types condition again m s := by
  obtain ⟨hcondition, hagain⟩ := loopTest_ok.mp h
  exact ⟨⟨budget, hcondition⟩, hagain.symm⟩

theorem Rounds.eventually (place : Nat) (h : Rounds types condition first next m runs s) :
    ∃ least, ∀ budget left done, least ≤ budget → runs.length ≤ left →
      (loopRounds types condition (.sequence place [first, next]) budget done left).run m =
        .ok () (s.endLoop (done + runs.length)) := by
  induction h with
  | stop htest =>
    obtain ⟨least, hleast⟩ := htest.eventually
    exact ⟨least, fun budget left done hle _ => repeatWhile_of_stop (hleast budget hle)⟩
  | @round m s t u v runs htest hfirst hnext _ ih =>
    obtain ⟨b, hb⟩ := htest.eventually
    obtain ⟨b', hb'⟩ := (ends_pair.mpr ⟨t, hfirst, hnext⟩ :
      Ends types (.sequence place [first, next]) s u).eventually
    obtain ⟨b'', hb''⟩ := ih
    refine ⟨max b (max b' b''), fun budget left done hle hlength => ?_⟩
    rw [List.length_cons] at hlength ⊢
    obtain ⟨left, rfl⟩ : ∃ k, left = k + 1 := ⟨left - 1, by omega⟩
    rw [loopRounds, repeatWhile_of_round (hb budget (by omega)) (hb' budget (by omega)),
      hb'' budget left (done + 1) (by omega) (by omega),
      show done + 1 + runs.length = done + (runs.length + 1) by omega]

theorem rounds_of_loopRounds {left done : Nat}
    (h : (loopRounds types condition (.sequence place [first, next]) budget done left).run m =
      .ok () t) :
    ∃ runs s, Rounds types condition first next m runs s ∧ t = s.endLoop (done + runs.length) := by
  induction left generalizing m done with
  | zero =>
    rcases repeatWhile_ok.mp h with ⟨s, htest, rfl⟩ | ⟨_, _, _, hzero, -⟩
    · exact ⟨[], s, .stop (asksFor_of_loopTest htest), rfl⟩
    · omega
  | succ left ih =>
    rcases repeatWhile_ok.mp h with ⟨s, htest, rfl⟩ | ⟨s, u, rest, hrest, htest, hround, hrun⟩
    · exact ⟨[], s, .stop (asksFor_of_loopTest htest), rfl⟩
    · obtain rfl : rest = left := by omega
      obtain ⟨mid, hfirst, hnext⟩ := ends_pair.mp ⟨budget, hround⟩
      obtain ⟨runs, v, hrounds, rfl⟩ := ih hrun
      refine ⟨(s, mid) :: runs, v, .round (asksFor_of_loopTest htest) hfirst hnext hrounds, ?_⟩
      rw [List.length_cons, show done + 1 + runs.length = done + (runs.length + 1) by omega]

/-- A loop ends exactly if its rounds come to an end, and it notes down their number. -/
theorem ends_loop_iff : Ends types (.loop number condition (.sequence place [first, next])) m t ↔
    ∃ runs s, Rounds types condition first next m runs s ∧ t = s.endLoop runs.length := by
  constructor
  · rintro ⟨budget, h⟩
    rw [eval_loop] at h
    obtain ⟨runs, s, hrounds, ht⟩ := rounds_of_loopRounds h
    rw [Nat.zero_add] at ht
    exact ⟨runs, s, hrounds, ht⟩
  · rintro ⟨runs, s, hrounds, rfl⟩
    obtain ⟨least, hleast⟩ := hrounds.eventually place
    refine ⟨max least runs.length, ?_⟩
    have hrun := hleast (max least runs.length) (max least runs.length) 0 (by omega) (by omega)
    rw [eval_loop, hrun, Nat.zero_add]

/-- If the second statement prints nothing, the output is what the evaluations of the first one
print. -/
theorem Rounds.output (hcondition : ∀ {m s}, Ends types condition m s → s.output = m.output)
    (hnext : ∀ {m s}, Ends types next m s → s.output = m.output)
    (h : Rounds types condition first next m runs s) :
    s.output.toList = m.output.toList ++ runs.flatMap fun run => run.1.printedUntil run.2 := by
  induction h with
  | stop htest => simp [hcondition htest.1]
  | @round m s t u v runs htest hfirst hend _ ih =>
    rw [ih, hnext hend, hfirst.output, hcondition htest.1, List.flatMap_cons, List.append_assoc]

end Rounds

end ProgramTrees
