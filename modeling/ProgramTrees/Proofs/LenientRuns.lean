import ProgramTrees.Pipeline
import ProgramTrees.Proofs.OperandConversions
import ProgramTrees.Proofs.ProgramRefinement
import ProgramTrees.Proofs.TreeObjects
import ProgramTrees.Proofs.Visits

namespace ProgramTrees

section Propagation

variable {types : TypeMap} {budget budget' number : Nat} {m m' s t : Machine} {p n e : Node Nat}
  {fault : Fault} {env : Environment}

theorem evalOperands_error_at {before after : List (Node Nat)} {values : List Value} {stop : Stop}
    (hbefore : (Node.evalOperands types budget before).run m = .ok values m')
    (he : (e.eval types budget).run m' = .error stop t) :
    (Node.evalOperands types budget (before ++ e :: after)).run m = .error stop t := by
  induction before generalizing m values with
  | nil =>
    obtain ⟨-, rfl⟩ : [] = values ∧ m = m' := by simpa [Node.evalOperands] using hbefore
    exact evalOperands_cons_error.mpr (.inl he)
  | cons first before ih =>
    obtain ⟨s, value, rest, hfirst, hvalue, hrest, rfl⟩ := evalOperands_cons_ok.mp hbefore
    exact evalOperands_cons_error.mpr (.inr ⟨s, hfirst, .inr ⟨by simp [hvalue], ih hrest⟩⟩)

theorem evalAll_error_at {before after : List (Node Nat)} {stop : Stop}
    (hbefore : (Node.evalAll types budget before).run m = .ok () m')
    (hn : (n.eval types budget).run m' = .error stop t) :
    (Node.evalAll types budget (before ++ n :: after)).run m = .error stop t := by
  induction before generalizing m with
  | nil =>
    obtain rfl : m = m' := by simpa [Node.evalAll] using hbefore
    exact evalAll_cons_error.mpr (.inl hn)
  | cons first before ih =>
    obtain ⟨s, hfirst, hrest⟩ := evalAll_cons_ok.mp hbefore
    exact evalAll_cons_error.mpr (.inr ⟨s, hfirst, ih hrest⟩)

theorem Agrees.run_ok {α : Type} {x y : Eval α} {a : α} (hxy : Agrees x y)
    (h : x.run m = .ok a m') : y.run m = .ok a m' := by
  rw [hxy m (by simp [h, Finished]), h]

theorem run_of_le (hle : budget ≤ budget') (h : (n.eval types budget).run m = .ok () m') :
    (n.eval types budget').run m = .ok () m' :=
  (eval_agrees hle n).run_ok h

theorem Visits.settles (h : Visits types p m n s) (hn : Settles types n s (some fault) env) :
    Settles types p m (some fault) env := by
  induction h with
  | start => exact hn
  | @operand number op before after e n b values m m' s hf hbefore _ ih =>
    obtain ⟨least, t, rfl, ht⟩ := (ih hn).eventually
    obtain ⟨function, hf⟩ := Option.ne_none_iff_exists'.mp hf
    have hfirst : (Node.evalOperands types (max b least) before).run m = .ok values m' :=
      (evalOperands_agrees fun e _ => eval_agrees (by omega) e).run_ok hbefore
    have hoperands : (Node.evalOperands types (max b least) (before ++ e :: after)).run m =
        .error (.fault fault) t := evalOperands_error_at hfirst (ht _ (by omega))
    exact ⟨max b least, t, eval_apply_error.mpr (.inr ⟨function, hf, .inl hoperands⟩), rfl⟩
  | assigned _ ih =>
    obtain ⟨b, t, ht, rfl⟩ := ih hn
    exact ⟨b, t, eval_assign_error.mpr ht, rfl⟩
  | @statement number before after statement n b m m' s hbefore _ ih =>
    obtain ⟨least, t, rfl, ht⟩ := (ih hn).eventually
    have hfirst : (Node.evalAll types (max b least) before).run m = .ok () m' :=
      (evalAll_agrees fun n _ => eval_agrees (by omega) n).run_ok hbefore
    refine ⟨max b least, t, ?_, rfl⟩
    rw [eval_sequence]
    exact evalAll_error_at hfirst (ht _ (by omega))
  | initializer _ ih =>
    obtain ⟨b, t, ht, rfl⟩ := ih hn
    exact ⟨b, t, eval_declare_error.mpr ht, rfl⟩
  | printed _ ih =>
    obtain ⟨b, t, ht, rfl⟩ := ih hn
    exact ⟨b, t, eval_print_error.mpr ht, rfl⟩
  | condition _ ih =>
    obtain ⟨b, t, ht, rfl⟩ := ih hn
    refine ⟨b, t, ?_, rfl⟩
    rw [eval_loop, repeatWhile_of_test_error (loopTest_error.mpr ht)]
    rfl
  | @body number condition body n b m m' s hcondition hagain _ ih =>
    obtain ⟨least, t, rfl, ht⟩ := (ih hn).eventually
    refine ⟨max b least + 1, t, ?_, rfl⟩
    have htest : (loopTest types (max b least + 1) condition).run m = .ok true m' :=
      loopTest_ok.mpr ⟨run_of_le (by omega) hcondition, hagain.symm⟩
    rw [eval_loop, repeatWhile_of_body_error htest (ht _ (by omega))]
    rfl
  | @round number condition body n b m m' m'' s hcondition hagain hbody _ ih =>
    obtain ⟨least, hrounds⟩ := (ih hn).rounds
    obtain ⟨t, ht, rfl⟩ := hrounds (max b least + 1) (max b least) 1 (by omega) (by omega)
    refine ⟨max b least + 1, t, ?_, rfl⟩
    have htest : (loopTest types (max b least + 1) condition).run m = .ok true m' :=
      loopTest_ok.mpr ⟨run_of_le (by omega) hcondition, hagain.symm⟩
    have hround : (body.eval types (max b least + 1)).run m' = .ok () m'' :=
      run_of_le (by omega) hbody
    rw [eval_loop, repeatWhile_of_round htest hround, ht]

end Propagation

/-- The operation is typed as one on integers and is visited with as many operands as it takes; the
first of their values that no integer stands for is not converted, for the reason given. -/
def Unconverted (types : TypeMap) (p : Node Nat) (number : Nat) (why : ConversionFault) : Prop :=
  ∃ op operands budget values s m, Visits types p {} (.apply number op operands) s ∧
    types (.node number) = some .int ∧
    (Node.evalOperands types budget operands).run s = .ok values m ∧
    values.length = op.arity ∧ FirstUnconvertible values why

section Faults

variable {types : TypeMap} {p : Node Nat} {number : Nat} {why : ConversionFault}

/-- The fault of a conversion that no one expected. -/
def conversionFault (number : Nat) (why : ConversionFault) : Fault :=
  .operands (.conversion why) ⟨number, .operatorExpression⟩

theorem Unconverted.settles (h : Unconverted types p number why) :
    ∃ env, Settles types p {} (some (conversionFault number why)) env := by
  obtain ⟨op, operands, budget, values, s, m, hvisit, hty, hoperands, hlength, hfirst⟩ := h
  have hfails := Operator.onInts_conversion_iff.mpr ⟨hlength, hfirst⟩
  have hfault : ((Node.apply number op operands).eval types budget).run s =
      .error (.fault (conversionFault number why)) m :=
    eval_apply_error.mpr (.inr ⟨op.onInts, by rw [hty]; rfl,
      .inr ⟨values, _, hoperands, hfails, rfl⟩⟩)
  exact ⟨m.environment, hvisit.settles ⟨budget, m, hfault, rfl⟩⟩

theorem unconverted_of_fault {budget : Nat} {fault : Fault} {m : Machine}
    (h : (p.eval types budget).run {} = .error (.fault fault) m)
    (hchannel : fault.channel = .conversion why) :
    ∃ number, fault = conversionFault number why ∧ Unconverted types p number why := by
  obtain ⟨number, op, operands, s, hvisit, horigin⟩ := fault_origin p h
  cases horigin with
  | noFunction | missing => cases hchannel
  | @failed function budget values why' s m hf hoperands hfails =>
    obtain rfl : why' = .conversion why := by
      cases why' <;> cases hchannel
      rfl
    obtain ⟨hty, hlength, hfirst⟩ := (Operator.function_conversion_iff hf).mp hfails
    exact ⟨number, rfl, op, operands, budget, values, _, _, hvisit, hty, hoperands, hlength, hfirst⟩

theorem channel_cases (fault : Fault) : fault.channel = .arithmetic ∨ fault.channel = .evaluation ∨
    ∃ why, fault.channel = .conversion why := by
  rcases fault with _ | _ | ⟨_ | _ | _ | why, _⟩
  · exact .inr (.inl rfl)
  · exact .inr (.inl rfl)
  · exact .inr (.inl rfl)
  · exact .inl rfl
  · exact .inl rfl
  · exact .inr (.inr ⟨why, rfl⟩)

end Faults

section Numbering

theorem forall_mem_allNumberedFrom {ns : List Program} {P : Node Nat → Prop}
    (h : ∀ n ∈ ns, ∀ next, P (n.numberedFrom next).1) (next : Nat) :
    ∀ n ∈ (Node.allNumberedFrom next ns).1, P n := by
  induction ns generalizing next with
  | nil => exact nofun
  | cons n ns ih =>
    have hrest := ih (fun n hn => h n (List.mem_cons_of_mem _ hn)) (n.numberedFrom next).2
    exact List.forall_mem_cons.mpr ⟨h n List.mem_cons_self next, hrest⟩

theorem isExpr_numberedFrom {e : Program} (he : IsExpr e) (next : Nat) :
    IsExpr (e.numberedFrom next).1 := by
  induction he generalizing next with
  | int tag n => exact .int ..
  | float tag x => exact .float ..
  | var tag name => exact .var ..
  | apply tag op _ ih => exact .apply _ op (forall_mem_allNumberedFrom ih _)
  | assign tag name _ ih => exact .assign _ name (ih _)

theorem isStmt_numberedFrom {s : Program} (hs : IsStmt s) (next : Nat) :
    IsStmt (s.numberedFrom next).1 := by
  induction hs generalizing next with
  | assign tag name hvalue => exact .assign _ name (isExpr_numberedFrom hvalue _)
  | sequence tag _ ih => exact .sequence _ (forall_mem_allNumberedFrom ih _)
  | @declare tag ty name value hvalue =>
    cases value with
    | none => exact .declare _ ty name nofun
    | some e =>
      have he := isExpr_numberedFrom (hvalue e rfl) (next + 1)
      exact .declare _ ty name fun _ h => Option.mem_some.mp h ▸ he
  | @print tag text value hvalue =>
    cases value with
    | none => exact .print _ text nofun
    | some e =>
      have he := isExpr_numberedFrom (hvalue e rfl) (next + 1)
      exact .print _ text fun _ h => Option.mem_some.mp h ▸ he
  | loop tag hcondition _ ih => exact .loop _ (isExpr_numberedFrom hcondition _) (ih _)

theorem isStmt_of_decoded {json : Json} {program : Program}
    (h : Program.ofJson json = .ok program) : IsStmt program.numbered := by
  have hdescribes : Describes .statement json program := describes_of_read h
  exact isStmt_numberedFrom hdescribes.inPlace 0

end Numbering

/-- Whatever its types, a program comes to its end or to a fault or goes on forever. Its faults are
those that evaluation knows, unless an operation on integers is given a float that no integer stands
for: then the conversion is what stops it. -/
theorem lenient_run_faults {p : Node Nat} (hp : IsStmt p) :
    ((∃ outcome : Option Fault, ∃ least s, ∀ budget, least ≤ budget →
        (p.eval p.findings.typeOf budget).runFrom {} = ⟨s, outcome.map .fault⟩) ∨
      Diverges p.findings.typeOf p (Machine.environment {})) ∧
    ((∀ budget fault, ((p.eval p.findings.typeOf budget).runFrom {}).stop = some (.fault fault) →
        fault.channel = .arithmetic ∨ fault.channel = .evaluation) ↔
      ∀ number why, ¬ Unconverted p.findings.typeOf p number why) ∧
    ∀ number why, Unconverted p.findings.typeOf p number why →
      ∃ least s, ∀ budget, least ≤ budget →
        (p.eval p.findings.typeOf budget).runFrom {} =
          ⟨s, some (.fault (conversionFault number why))⟩ := by
  have hstops : ∀ number why, Unconverted p.findings.typeOf p number why →
      ∃ least s, ∀ budget, least ≤ budget →
        (p.eval p.findings.typeOf budget).runFrom {} =
          ⟨s, some (.fault (conversionFault number why))⟩ := by
    intro number why hunconverted
    obtain ⟨env, hsettles⟩ := hunconverted.settles
    obtain ⟨least, s, -, hs⟩ := hsettles.eventually
    exact ⟨least, s, fun budget hle => runFrom_iff.mpr (hs budget hle)⟩
  refine ⟨?_, ⟨?_, ?_⟩, hstops⟩
  · rcases settles_or_endless p.findings.typeOf p {} with ⟨outcome, env, hsettles⟩ | hendless
    · obtain ⟨least, s, -, hs⟩ := hsettles.eventually
      exact .inl ⟨outcome, least, s, fun budget hle => runFrom_iff.mpr (hs budget hle)⟩
    · exact .inr (diverges_of_not_executes hp ((endless_iff hp).mp hendless))
  · intro hknown number why hunconverted
    obtain ⟨least, s, hs⟩ := hstops number why hunconverted
    have hstop := congrArg Run.stop (hs least (Nat.le_refl least))
    rcases hknown least _ hstop with h | h <;> cases h
  · intro hnone budget fault hstop
    rcases channel_cases fault with h | h | ⟨why, hchannel⟩
    · exact .inl h
    · exact .inr h
    · unfold Eval.runFrom at hstop
      split at hstop
      next => cases hstop
      next hrun =>
        cases hstop
        obtain ⟨number, -, hunconverted⟩ := unconverted_of_fault hrun hchannel
        exact absurd hunconverted (hnone number why)

/-- `int i; i = 1.0f / 0.0f; System.out.println("" + + i);` -/
def infiniteCount : Program :=
  .sequence () [
    .declare () .int "i" none,
    .assign () "i" (.apply () .div [
      .float () (Format.double.ofInt 1), .float () (Format.double.ofInt 0)]),
    .print () "" (some (.apply () .plus1 [.var () "i"]))]

theorem infiniteCount_decoded : Program.ofJson infiniteCount.toJson = .ok infiniteCount := by
  have hplaces : IsStmt infiniteCount := by
    refine .sequence () ?_
    simp only [List.mem_cons, List.not_mem_nil, or_false, forall_eq_or_imp, forall_eq]
    refine ⟨.declare () .int "i" nofun, .assign () "i" (.pair () .div (.float ..) (.float ..)), ?_⟩
    refine .print () "" ?_
    simpa using IsExpr.single () .plus1 (.var () "i")
  exact readStmt_toJson hplaces (by decide) []

theorem infiniteCount_unconverted :
    IsStmt infiniteCount.numbered ∧
      ∃ number why, Unconverted infiniteCount.numbered.findings.typeOf infiniteCount.numbered
        number why := by
  have hplaces : IsStmt infiniteCount.numbered := isStmt_of_decoded infiniteCount_decoded
  refine ⟨hplaces, ?_⟩
  by_contra hnone
  have hknown := (lenient_run_faults hplaces).2.1.mpr fun number why h => hnone ⟨number, why, h⟩
  rcases hknown 0 _ rfl with h | h <;> cases h

theorem infiniteCount_escapes :
    Program.ofJson infiniteCount.toJson = .ok infiniteCount ∧
      ∃ run fault, (infiniteCount.numbered.checkAndRun false).run = some run ∧
        run.stop = some (.fault fault) ∧ fault.channel = .conversion .infiniteToInt ∧
        fault.message = "cannot convert float infinity to integer" :=
  ⟨infiniteCount_decoded, _, _, rfl, rfl, rfl, rfl⟩

end ProgramTrees
