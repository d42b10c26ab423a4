import ProgramTrees.Proofs.Settling

namespace ProgramTrees

def stateAfter {α : Type} : EStateM.Result Stop Machine α → Machine
  | .ok _ s | .error _ s => s

theorem machine_runFrom (x : Eval Unit) (m : Machine) :
    (x.runFrom m).machine = stateAfter (x.run m) := by
  unfold Eval.runFrom
  cases x.run m <;> rfl

/-- An evaluation adds lines to the output and takes none away, also where it stops. -/
def Grows {α : Type} (x : Eval α) : Prop :=
  ∀ m : Machine, m.output.toList <+: (stateAfter (x.run m)).output.toList

section Grows

variable {α β : Type} {x : Eval α} {f : α → Eval β} {m s : Machine}

theorem Grows.bind (h : Grows x) (hf : ∀ a, Grows (f a)) : Grows (x >>= f) := by
  intro m
  have hm := h m
  rw [EStateM.run_bind]
  cases hx : x.run m with
  | ok a s =>
    rw [hx] at hm
    exact hm.trans (hf a s)
  | error stop s =>
    rw [hx] at hm
    exact hm

theorem grows_pure (a : α) : Grows (pure a : Eval α) := fun _ => List.prefix_rfl

theorem grows_fault (fault : Fault) : Grows (Eval.fault fault : Eval α) := fun _ => List.prefix_rfl

theorem grows_load (slot : Slot) : Grows (Eval.load slot) := fun _ => List.prefix_rfl

theorem grows_store (slot : Slot) (value : Option Value) : Grows (Eval.store slot value) :=
  fun _ => List.prefix_rfl

theorem grows_print (line : String) : Grows (modify (·.print line) : Eval Unit) := by
  intro m
  simp [stateAfter, Machine.print]

end Grows

variable {types : TypeMap} {budget : Nat}

theorem evalOperands_grows {operands : List (Node Nat)}
    (ih : ∀ e ∈ operands, Grows (e.eval types budget)) :
    Grows (Node.evalOperands types budget operands) := by
  induction operands with
  | nil => exact grows_pure []
  | cons e operands ih' =>
    rw [Node.evalOperands]
    refine (ih e (by simp)).bind fun _ => (grows_load _).bind fun value => ?_
    cases value with
    | none => exact grows_fault _
    | some value => exact (ih' fun e he => ih e (by simp [he])).bind fun _ => grows_pure _

theorem evalAll_grows {statements : List (Node Nat)}
    (ih : ∀ n ∈ statements, Grows (n.eval types budget)) :
    Grows (Node.evalAll types budget statements) := by
  induction statements with
  | nil => exact grows_pure ()
  | cons n statements ih' =>
    rw [Node.evalAll]
    exact (ih n (by simp)).bind fun _ => ih' fun n hn => ih n (by simp [hn])

theorem repeatWhile_grows {test : Eval Bool} {round : Eval Unit} (htest : Grows test)
    (hround : Grows round) (done left : Nat) : Grows (repeatWhile test round done left) := by
  induction left generalizing done with
  | zero =>
    rw [repeatWhile]
    refine htest.bind fun again => ?_
    cases again <;> exact fun _ => List.prefix_rfl
  | succ left ih =>
    rw [repeatWhile]
    refine htest.bind fun again => ?_
    cases again with
    | false => exact fun _ => List.prefix_rfl
    | true => exact hround.bind fun _ => ih (done + 1)

theorem eval_grows (types : TypeMap) (budget : Nat) (n : Node Nat) :
    Grows (n.eval types budget) := by
  induction n using Node.induction with
  | int | float =>
    rw [Node.eval]
    exact grows_store _ _
  | var =>
    rw [Node.eval]
    exact grows_pure ()
  | apply number op operands ih =>
    rw [Node.eval]
    split
    next => exact grows_fault _
    next function _ =>
      refine (evalOperands_grows ih).bind fun values => ?_
      split
      next => exact grows_store _ _
      next => exact grows_fault _
  | assign number name value ih =>
    rw [Node.eval]
    exact ih.bind fun _ => (grows_load _).bind fun _ => (grows_store _ _).bind fun _ =>
      grows_store _ _
  | sequence number statements ih =>
    rw [eval_sequence]
    exact evalAll_grows ih
  | declare number ty name value ih =>
    cases value with
    | none =>
      rw [Node.eval]
      exact grows_pure ()
    | some value =>
      rw [Node.eval]
      exact (ih value rfl).bind fun _ => (grows_load _).bind fun _ => grows_store _ _
  | print number text value ih =>
    cases value with
    | none =>
      rw [Node.eval]
      exact grows_print text
    | some value =>
      rw [Node.eval]
      exact (ih value rfl).bind fun _ => (grows_load _).bind fun _ => grows_print _
  | loop number condition body hcondition hbody =>
    rw [eval_loop]
    exact repeatWhile_grows (hcondition.bind fun _ => (grows_load _).bind fun _ => grows_pure _)
      hbody 0 budget

section Loops

variable {condition body : Node Nat} {m s : Machine}

theorem loopRounds_grows (budget done left : Nat) :
    Grows (loopRounds types condition body budget done left) :=
  repeatWhile_grows ((eval_grows types budget condition).bind fun _ => (grows_load _).bind fun _ =>
    grows_pure _) (eval_grows types budget body) done left

/-- What a round prints is there after all rounds. -/
theorem round_printed (h : (loopTest types budget condition).run m = .ok true s) (done left : Nat) :
    (stateAfter ((body.eval types budget).run s)).output.toList <+: (stateAfter
      ((loopRounds types condition body budget done (left + 1)).run m)).output.toList := by
  cases hround : (body.eval types budget).run s with
  | error stop t =>
    simp [loopRounds, repeatWhile_of_body_error h hround, stateAfter]
  | ok _ t =>
    rw [loopRounds, repeatWhile_of_round h hround]
    exact loopRounds_grows budget (done + 1) left t

theorem test_printed (h : (loopTest types budget condition).run m = .ok true s) (done left : Nat) :
    s.output.toList <+:
      (stateAfter ((loopRounds types condition body budget done left).run m)).output.toList := by
  cases left with
  | zero =>
    simp [loopRounds, repeatWhile_of_none_left h, stateAfter]
  | succ left => exact (eval_grows types budget body s).trans (round_printed h done left)

end Loops

theorem first_printed {n : Node Nat} {ns : List (Node Nat)} (number : Nat) (m : Machine) :
    (stateAfter ((n.eval types budget).run m)).output.toList <+:
      (stateAfter (((Node.sequence number (n :: ns)).eval types budget).run m)).output.toList := by
  cases h : (n.eval types budget).run m with
  | error stop s => simp [run_sequence_of_error h]
  | ok _ s =>
    rw [run_sequence_of_ok h]
    exact eval_grows types budget (.sequence number ns) s

end ProgramTrees
