import ProgramTrees.Proofs.Outcome

namespace ProgramTrees

def Finished {α : Type} : EStateM.Result Stop Machine α → Prop
  | .ok _ _ => True
  | .error stop _ => stop ≠ .outOfRounds

/-- The second evaluation does what the first does, where that is finished. -/
def Agrees {α : Type} (x y : Eval α) : Prop :=
  ∀ m, Finished (x.run m) → y.run m = x.run m

theorem Agrees.refl {α : Type} (x : Eval α) : Agrees x x := fun _ _ => rfl

theorem Agrees.bind {α β : Type} {x y : Eval α} {f g : α → Eval β} (h : Agrees x y)
    (hf : ∀ a, Agrees (f a) (g a)) : Agrees (x >>= f) (y >>= g) := by
  intro m hm
  rw [EStateM.run_bind] at hm ⊢
  rw [EStateM.run_bind]
  cases hx : x.run m with
  | ok a s =>
    rw [hx] at hm
    rw [h m (by simp [hx, Finished]), hx]
    exact hf a s hm
  | error stop s =>
    rw [hx] at hm
    rw [h m (by simpa [hx, Finished] using hm), hx]

theorem repeatWhile_agrees {test test' : Eval Bool} {body body' : Eval Unit}
    (ht : Agrees test test') (hb : Agrees body body') {left left' : Nat} (hle : left ≤ left')
    (done : Nat) :
    Agrees (repeatWhile test body done left) (repeatWhile test' body' done left') := by
  induction left generalizing left' done with
  | zero =>
    intro m hm
    rcases hx : test.run m with ⟨_ | _, s⟩ | ⟨stop, s⟩
    · cases left' <;> simp [repeatWhile, EStateM.run_bind, ht m (by simp [hx, Finished]), hx]
    · simp [repeatWhile, EStateM.run_bind, hx, Finished] at hm
    · have hstop : Finished (test.run m) := by
        simpa [repeatWhile, EStateM.run_bind, hx, Finished] using hm
      cases left' <;> simp [repeatWhile, EStateM.run_bind, ht m hstop, hx]
  | succ left ih =>
    obtain ⟨left', rfl⟩ : ∃ k, left' = k + 1 := ⟨left' - 1, by omega⟩
    rw [repeatWhile, repeatWhile]
    refine ht.bind fun again => ?_
    split
    next => exact hb.bind fun _ => ih (by omega) (done + 1)
    next => exact .refl _

theorem evalOperands_agrees {types : TypeMap} {budget budget' : Nat} {es : List (Node Nat)}
    (ih : ∀ e ∈ es, Agrees (e.eval types budget) (e.eval types budget')) :
    Agrees (Node.evalOperands types budget es) (Node.evalOperands types budget' es) := by
  induction es with
  | nil => exact .refl _
  | cons e es ih' =>
    rw [Node.evalOperands, Node.evalOperands]
    refine (ih e (by simp)).bind fun _ => (Agrees.refl _).bind fun value => ?_
    cases value with
    | none => exact .refl _
    | some value => exact (ih' fun e' he' => ih e' (by simp [he'])).bind fun _ => .refl _

theorem evalAll_agrees {types : TypeMap} {budget budget' : Nat} {ns : List (Node Nat)}
    (ih : ∀ n ∈ ns, Agrees (n.eval types budget) (n.eval types budget')) :
    Agrees (Node.evalAll types budget ns) (Node.evalAll types budget' ns) := by
  induction ns with
  | nil => exact .refl _
  | cons n ns ih' =>
    rw [Node.evalAll, Node.evalAll]
    exact (ih n (by simp)).bind fun _ => ih' fun n' hn' => ih n' (by simp [hn'])

theorem eval_agrees {types : TypeMap} {budget budget' : Nat} (hle : budget ≤ budget')
    (n : Node Nat) : Agrees (n.eval types budget) (n.eval types budget') := by
  induction n using Node.induction with
  | int | float | var => exact .refl _
  | apply number op operands ih =>
    rw [Node.eval, Node.eval]
    cases op.function? (types (.node number)) with
    | none => exact .refl _
    | some function => exact (evalOperands_agrees ih).bind fun _ => .refl _
  | assign number name value ih =>
    rw [Node.eval, Node.eval]
    exact ih.bind fun _ => .refl _
  | sequence number statements ih =>
    rw [Node.eval, Node.eval]
    exact evalAll_agrees ih
  | declare number ty name value ih =>
    cases value with
    | none => exact .refl _
    | some value =>
      rw [Node.eval, Node.eval]
      exact (ih value rfl).bind fun _ => .refl _
  | print number text value ih =>
    cases value with
    | none => exact .refl _
    | some value =>
      rw [Node.eval, Node.eval]
      exact (ih value rfl).bind fun _ => .refl _
  | loop number condition body hcondition hbody =>
    rw [eval_loop, eval_loop]
    exact repeatWhile_agrees (hcondition.bind fun _ => .refl _) hbody hle 0

theorem eval_finished_eq {types : TypeMap} {b₁ b₂ : Nat} {n : Node Nat} {m : Machine}
    (h₁ : Finished ((n.eval types b₁).run m)) (h₂ : Finished ((n.eval types b₂).run m)) :
    (n.eval types b₁).run m = (n.eval types b₂).run m := by
  rcases Nat.le_total b₁ b₂ with hle | hle
  · exact (eval_agrees hle n m h₁).symm
  · exact eval_agrees hle n m h₂

end ProgramTrees
