import ProgramTrees.Proofs.LoopRounds

namespace ProgramTrees

/-- The numbers of the nodes of a countdown, from its head to its last literal. -/
structure CountdownNumbers where
  loop : Nat
  condition : Nat
  body : Nat
  assignment : Nat
  difference : Nat
  counter : Nat
  step : Nat

/-- Taking one from a variable. -/
def decrement (numbers : CountdownNumbers) (name : String) : Node Nat :=
  .assign numbers.assignment name
    (.apply numbers.difference .minus2 [.var numbers.counter name, .int numbers.step 1])

/-- A loop on a variable that evaluates a statement and takes one from the variable. -/
def countdown (numbers : CountdownNumbers) (name : String) (statement : Node Nat) : Node Nat :=
  .loop numbers.loop (.var numbers.condition name)
    (.sequence numbers.body [statement, decrement numbers name])

variable {types : TypeMap} {numbers : CountdownNumbers} {name : String} {statement : Node Nat}
variable {m s : Machine} {n : Int32}

section Decrement

theorem onInts_minus2 (a b : Int) :
    Operator.minus2.onInts [.int a, .int b] = .ok (.int (Int32.ofInt (a - b))) := by
  rw [← wrapInt32_eq]
  rfl

theorem eval_decrement (hty : types (.node numbers.difference) = some .int)
    (hi : m.value (.name name) = some (.int n)) (budget : Nat) :
    ((decrement numbers name).eval types budget).run m = .ok ()
      ((((m.store (.node numbers.step) (some (.int 1))).store (.node numbers.difference)
        (some (.int (Int32.ofInt (n.toInt - 1))))).store (.node numbers.assignment)
          (some (.int (Int32.ofInt (n.toInt - 1))))).store (.name name)
            (some (.int (Int32.ofInt (n.toInt - 1))))) := by
  have hvariable : ((Node.var numbers.counter name).eval types budget).run m = .ok () m := by
    rw [Node.eval]
    rfl
  have hone : ((Node.int numbers.step 1).eval types budget).run m =
      .ok () (m.store (.node numbers.step) (some (.int 1))) := by
    rw [Node.eval]
    rfl
  have hoperands : (Node.evalOperands types budget
      [.var numbers.counter name, .int numbers.step 1]).run m =
        .ok [.int n, .int 1] (m.store (.node numbers.step) (some (.int 1))) := by
    refine evalOperands_cons_ok.mpr ⟨m, .int n, [.int 1], hvariable, hi, ?_, rfl⟩
    exact evalOperands_cons_ok.mpr ⟨_, .int 1, [], hone, Machine.value_store_self _ _ _, rfl, rfl⟩
  have hdifference := eval_apply_ok.mpr ⟨Operator.minus2.onInts, [.int n, .int 1], _,
    .int (Int32.ofInt (n.toInt - 1)), by rw [hty]; rfl, hoperands, onInts_minus2 n.toInt 1, rfl⟩
  have hslot : (Node.apply numbers.difference .minus2
      [.var numbers.counter name, .int numbers.step 1]).slot = .node numbers.difference := rfl
  exact eval_assign_ok.mpr ⟨_, hdifference, by rw [hslot, Machine.value_store_self]⟩

theorem ends_decrement (hty : types (.node numbers.difference) = some .int)
    (hi : m.value (.name name) = some (.int n)) :
    ∃ s, Ends types (decrement numbers name) m s ∧
      s.value (.name name) = some (.int (Int32.ofInt (n.toInt - 1))) :=
  ⟨_, ⟨0, eval_decrement hty hi 0⟩, Machine.value_store_self _ _ _⟩

theorem decrement_output (h : Ends types (decrement numbers name) m s) : s.output = m.output := by
  obtain ⟨budget, h⟩ := h
  obtain ⟨t, hvalue, rfl⟩ := eval_assign_ok.mp h
  obtain ⟨function, values, u, result, -, hoperands, -, rfl⟩ := eval_apply_ok.mp hvalue
  obtain ⟨v, first, rest, hvariable, -, hrest, -⟩ := evalOperands_cons_ok.mp hoperands
  obtain ⟨w, second, none, hone, -, hnone, -⟩ := evalOperands_cons_ok.mp hrest
  obtain rfl := ends_var.mp ⟨budget, hvariable⟩
  rw [Node.eval] at hone
  rw [Node.evalOperands] at hnone
  injection hone with _ hone
  injection hnone with _ hnone
  rw [← hnone, ← hone]
  rfl

end Decrement

section Rounds

theorem keepsLooping_int (n : Int32) : Value.keepsLooping (some (.int n)) = decide (0 ≤ n.toInt) :=
  rfl

theorem asksFor_counter (types : TypeMap) (number : Nat)
    (hi : m.value (.name name) = some (.int n)) :
    AsksFor types (.var number name) (decide (0 ≤ n.toInt)) m m := by
  refine ⟨ends_var.mpr rfl, ?_⟩
  rw [Node.slot, hi, keepsLooping_int]

/-- The states in which a countdown evaluates its statement. -/
abbrev CountdownReaches (types : TypeMap) (numbers : CountdownNumbers) (name : String)
    (statement : Node Nat) : Machine → Machine → Prop :=
  ReachesRound types (.var numbers.condition name) statement (decrement numbers name)

abbrev CountdownRounds (types : TypeMap) (numbers : CountdownNumbers) (name : String)
    (statement : Node Nat) : Machine → List (Machine × Machine) → Machine → Prop :=
  Rounds types (.var numbers.condition name) statement (decrement numbers name)

/-- Wherever the countdown evaluates its statement, the statement ends and leaves the variable. -/
def KeepsCounter (types : TypeMap) (numbers : CountdownNumbers) (name : String)
    (statement : Node Nat) (m : Machine) : Prop :=
  ∀ s, CountdownReaches types numbers name statement m s →
    ∃ t, Ends types statement s t ∧ t.value (.name name) = s.value (.name name)

theorem countdown_round {t : Machine} (hty : types (.node numbers.difference) = some .int)
    (hnonneg : 0 ≤ n.toInt) (ht : t.value (.name name) = some (.int n)) :
    ∃ u n', Ends types (decrement numbers name) t u ∧ u.value (.name name) = some (.int n') ∧
      n'.toInt = n.toInt - 1 := by
  obtain ⟨u, hends, hvalue⟩ := ends_decrement hty ht
  have hlt := n.toInt_lt
  exact ⟨u, _, hends, hvalue, Int32.toInt_ofInt_of_le (by omega) (by omega)⟩

/-- From a value on a countdown has one round for each value down to zero. -/
theorem countdown_rounds {start : Machine}
    (hty : types (.node numbers.difference) = some .int)
    (hkeeps : KeepsCounter types numbers name statement start) (k : Nat)
    (hn : n.toInt = (k : Int) - 1) (hi : m.value (.name name) = some (.int n))
    (hreach : 0 ≤ n.toInt → CountdownReaches types numbers name statement start m) :
    ∃ runs s, CountdownRounds types numbers name statement m runs s ∧
      s.value (.name name) = some (.int (-1)) ∧
      runs.map (fun run => run.1.value (.name name)) =
        (List.range k).reverse.map fun i => some (.int (Int32.ofInt i)) := by
  have htest : AsksFor types (.var numbers.condition name) (decide (0 ≤ n.toInt)) m m :=
    asksFor_counter types numbers.condition hi
  induction k generalizing m n with
  | zero =>
    have hlast : n = -1 := by
      rw [← Int32.ofInt_toInt n, hn]
      rfl
    have hstops : decide (0 ≤ n.toInt) = false := decide_eq_false (by omega)
    rw [hstops] at htest
    rw [hlast] at hi
    exact ⟨[], m, .stop htest, hi, rfl⟩
  | succ k ih =>
    have hvalue : n = Int32.ofInt k := by
      rw [← Int32.ofInt_toInt n, hn]
      congr 1
      omega
    have hnonneg : 0 ≤ n.toInt := by omega
    rw [decide_eq_true hnonneg] at htest
    obtain ⟨t, hstatement, ht⟩ := hkeeps m (hreach hnonneg)
    obtain ⟨u, n', hdecrement, hu, hn'⟩ := countdown_round hty hnonneg (ht.trans hi)
    have hnext : AsksFor types (.var numbers.condition name) (decide (0 ≤ n'.toInt)) u u :=
      asksFor_counter types numbers.condition hu
    obtain ⟨runs, s, hrounds, hlast, hstarts⟩ := ih (by omega) hu (fun hpos =>
      .round (hreach hnonneg) hstatement hdecrement (decide_eq_true hpos ▸ hnext)) hnext
    refine ⟨(m, t) :: runs, s, .round htest hstatement hdecrement hrounds, hlast, ?_⟩
    rw [List.map_cons, hstarts, hi, hvalue, List.range_succ, List.reverse_append]
    rfl

theorem countdown_skips (types : TypeMap) (numbers : CountdownNumbers) (statement : Node Nat)
    (hi : m.value (.name name) = some (.int n)) (hn : n.toInt < 0) :
    CountdownRounds types numbers name statement m [] m ∧
      ∀ s, ¬ CountdownReaches types numbers name statement m s := by
  have htest : AsksFor types (.var numbers.condition name) false m m := by
    have hasks := asksFor_counter types numbers.condition hi
    rwa [decide_eq_false (by omega)] at hasks
  refine ⟨.stop htest, ?_⟩
  intro s h
  induction h with
  | start htest' => exact nomatch (htest'.unique htest).1
  | round _ _ _ _ ih => exact ih

/-- A countdown from a value on evaluates its statement once for each value down to zero and ends
with the value below; it prints what these evaluations print. Below zero it does nothing. -/
theorem countdown_counts (hty : types (.node numbers.difference) = some .int)
    (hi : m.value (.name name) = some (.int n)) :
    (-1 ≤ n.toInt → KeepsCounter types numbers name statement m →
      ∃ runs s, CountdownRounds types numbers name statement m runs s ∧
        Ends types (countdown numbers name statement) m (s.endLoop runs.length) ∧
        (runs.length : Int) = n.toInt + 1 ∧
        runs.map (fun run => run.1.value (.name name)) =
          (List.range runs.length).reverse.map (fun i => some (.int (Int32.ofInt i))) ∧
        (s.endLoop runs.length).value (.name name) = some (.int (-1)) ∧
        (s.endLoop runs.length).output.toList =
          m.output.toList ++ runs.flatMap fun run => run.1.printedUntil run.2) ∧
      (n.toInt < 0 → (∀ s, ¬ CountdownReaches types numbers name statement m s) ∧
        Ends types (countdown numbers name statement) m (m.endLoop 0) ∧
        (m.endLoop 0).value (.name name) = some (.int n)) := by
  constructor
  · intro hn hkeeps
    have hreach (hnonneg : 0 ≤ n.toInt) : CountdownReaches types numbers name statement m m := by
      have hasks := asksFor_counter types numbers.condition hi
      exact .start (decide_eq_true hnonneg ▸ hasks)
    obtain ⟨runs, s, hrounds, hlast, hstarts⟩ :=
      countdown_rounds hty hkeeps (n.toInt + 1).toNat (by omega) hi hreach
    have hlength : runs.length = (n.toInt + 1).toNat := by
      have hlengths := congrArg List.length hstarts
      simpa using hlengths
    have houtput : s.output.toList =
        m.output.toList ++ runs.flatMap fun run => run.1.printedUntil run.2 :=
      hrounds.output (fun h => by rw [ends_var.mp h]) decrement_output
    refine ⟨runs, s, hrounds, ends_loop_iff.mpr ⟨runs, s, hrounds, rfl⟩, by omega, ?_, hlast,
      houtput⟩
    rw [hstarts, hlength]
  · intro hn
    obtain ⟨hrounds, hnever⟩ := countdown_skips types numbers statement hi hn
    exact ⟨hnever, ends_loop_iff.mpr ⟨[], m, hrounds, rfl⟩, hi⟩

end Rounds

/-- A countdown that prints a line in every round. -/
def ticking : CountdownNumbers := ⟨0, 1, 2, 3, 4, 5, 6⟩

def tick : Node Nat := .print 7 "tick" none

def atOne : Machine := Machine.store {} (.name "i") (some (.int 1))

theorem ticking_counts :
    (fun _ => some .int : TypeMap) (.node ticking.difference) = some .int ∧
      atOne.value (.name "i") = some (.int 1) ∧ -1 ≤ (1 : Int32).toInt ∧
      KeepsCounter (fun _ => some .int) ticking "i" tick atOne ∧
      ∃ runs s, CountdownRounds (fun _ => some .int) ticking "i" tick atOne runs s ∧
        Ends (fun _ => some .int) (countdown ticking "i" tick) atOne (s.endLoop 2) ∧
        runs.map (fun run => run.1.value (.name "i")) = [some (.int 1), some (.int 0)] ∧
        (s.endLoop 2).value (.name "i") = some (.int (-1)) := by
  have hty : (fun _ => some .int : TypeMap) (.node ticking.difference) = some .int := rfl
  have hi : atOne.value (.name "i") = some (.int 1) := Machine.value_store_self _ _ _
  have hkeeps : KeepsCounter (fun _ => some .int) ticking "i" tick atOne := by
    intro s _
    refine ⟨s.print "tick", ⟨0, ?_⟩, rfl⟩
    rw [tick, Node.eval]
    rfl
  obtain ⟨runs, s, hrounds, hends, hlength, hstarts, hlast, -⟩ :=
    (countdown_counts hty hi).1 (by decide) hkeeps
  have htwo : runs.length = 2 := by
    rw [show (1 : Int32).toInt = 1 from rfl] at hlength
    omega
  rw [htwo] at hends hstarts hlast
  exact ⟨hty, hi, by decide, hkeeps, runs, s, hrounds, hends, hstarts, hlast⟩

end ProgramTrees
