import Mathlib.Data.List.Nodup
import ProgramTrees.Proofs.NumberCharacters
import ProgramTrees.Proofs.ProgramRefinement
import ProgramTrees.Proofs.TypeSoundness

namespace ProgramTrees

variable {τ : Type}

namespace Node

mutual

/-- The names that surely have a value after a node when those of `A` have one before it. What only
the body of a loop sets does not count after the loop, which may do no round. -/
def assigned (A : List String) : Node τ → List String
  | .int .. | .float .. | .var .. => A
  | .apply _ _ operands => allAssigned A operands
  | .assign _ name value => name :: value.assigned A
  | .sequence _ statements => allAssigned A statements
  | .declare _ _ _ none => A
  | .declare _ _ name (some value) => name :: value.assigned A
  | .print _ _ none => A
  | .print _ _ (some value) => value.assigned A
  | .loop _ condition _ => condition.assigned A

def allAssigned (A : List String) : List (Node τ) → List String
  | [] => A
  | n :: ns => allAssigned (n.assigned A) ns

end

mutual

/-- Every variable is read where it surely has a value, those of `A` having one at the beginning. -/
def readsAssigned (A : List String) : Node τ → Bool
  | .int .. | .float .. => true
  | .var _ name => name ∈ A
  | .apply _ _ operands => allReadAssigned A operands
  | .assign _ _ value => value.readsAssigned A
  | .sequence _ statements => allReadAssigned A statements
  | .declare _ _ _ none => true
  | .declare _ _ _ (some value) => value.readsAssigned A
  | .print _ _ none => true
  | .print _ _ (some value) => value.readsAssigned A
  | .loop _ condition body =>
    condition.readsAssigned A && body.readsAssigned (condition.assigned A)

def allReadAssigned (A : List String) : List (Node τ) → Bool
  | [] => true
  | n :: ns => n.readsAssigned A && allReadAssigned (n.assigned A) ns

end

theorem subset_allAssigned {ns : List (Node τ)} (ih : ∀ n ∈ ns, ∀ A, A ⊆ n.assigned A)
    (A : List String) : A ⊆ allAssigned A ns := by
  induction ns generalizing A with
  | nil => exact List.Subset.refl A
  | cons n ns ih' =>
    exact List.Subset.trans (ih n (by simp) A) (ih' (fun n' hn' => ih n' (by simp [hn'])) _)

theorem subset_assigned (n : Node τ) (A : List String) : A ⊆ n.assigned A := by
  induction n using Node.induction generalizing A with
  | int | float | var => exact List.Subset.refl A
  | apply _ _ _ ih | sequence _ _ ih => exact subset_allAssigned ih A
  | assign _ name _ ih => exact List.Subset.trans (ih A) (List.subset_cons_self name _)
  | declare _ _ name value ih =>
    cases value with
    | none => exact List.Subset.refl A
    | some value => exact List.Subset.trans (ih value rfl A) (List.subset_cons_self name _)
  | print _ _ value ih =>
    cases value with
    | none => exact List.Subset.refl A
    | some value => exact ih value rfl A
  | loop _ _ _ hcondition _ => exact hcondition A

theorem allReadAssigned_append {A : List String} {before after : List (Node τ)} {n : Node τ}
    (h : allReadAssigned A (before ++ n :: after) = true) :
    allReadAssigned A before = true ∧ n.readsAssigned (allAssigned A before) = true := by
  induction before generalizing A with
  | nil => exact ⟨rfl, (Bool.and_eq_true_iff.mp h).1⟩
  | cons n' before ih =>
    obtain ⟨hfirst, hrest⟩ := Bool.and_eq_true_iff.mp h
    obtain ⟨hbefore, hn⟩ := ih hrest
    exact ⟨Bool.and_eq_true_iff.mpr ⟨hfirst, hbefore⟩, hn⟩

theorem Coherent.of_nodup {n : Node τ} (h : (n.subterms.map Node.tag).Nodup) : n.Coherent :=
  fun _ ha _ hb heq => List.inj_on_of_nodup_map h ha hb heq

end Node

/-- The names have values. -/
def Machine.Sets (A : List String) (m : Machine) : Prop :=
  ∀ name ∈ A, m.value (.name name) ≠ none

variable {types : TypeMap} {budget : Nat} {A : List String} {m m' s : Machine} {n p : Node Nat}

theorem Machine.Sets.empty (m : Machine) : m.Sets [] := nofun

theorem Machine.Sets.mono {B : List String} (h : m.Sets B) (hsubset : A ⊆ B) : m.Sets A :=
  fun name hname => h name (hsubset hname)

theorem Machine.Sets.store (h : m.Sets A) (slot : Slot) {value : Option Value}
    (hvalue : value ≠ none) : (m.store slot value).Sets A := by
  intro name hname
  rw [Machine.value_store]
  split
  next => exact hvalue
  next => exact h name hname

theorem Machine.Sets.endLoop (h : m.Sets A) (rounds : Nat) : (m.endLoop rounds).Sets A := h

theorem Machine.Sets.store_name (h : m.Sets A) (name : String) {value : Option Value}
    (hvalue : value ≠ none) : (m.store (.name name) value).Sets (name :: A) := by
  intro other hother
  rcases List.mem_cons.mp hother with rfl | hother
  · rwa [Machine.value_store_self]
  · exact h.store (.name name) hvalue other hother

/-- Evaluating an expression that reads names with values sets the names that it assigns, and gives
it a value. -/
def SetsValue (types : TypeMap) (budget : Nat) (e : Node Nat) : Prop :=
  ∀ {A : List String} {m m' : Machine}, e.readsAssigned A = true → m.Sets A →
    (e.eval types budget).run m = .ok () m' →
      m'.Sets (e.assigned A) ∧ m'.value e.slot ≠ none

theorem evalOperands_sets {es : List (Node Nat)} (ih : ∀ e ∈ es, SetsValue types budget e)
    (hreads : Node.allReadAssigned A es = true) (hm : m.Sets A) {values : List Value}
    (h : (Node.evalOperands types budget es).run m = .ok values m') :
    m'.Sets (Node.allAssigned A es) := by
  induction es generalizing A m values with
  | nil =>
    cases h
    exact hm
  | cons e es ih' =>
    obtain ⟨hfirst, hrest⟩ := Bool.and_eq_true_iff.mp hreads
    obtain ⟨s, v, rest, he, -, hes, -⟩ := evalOperands_cons_ok.mp h
    obtain ⟨hs, -⟩ := ih e (by simp) hfirst hm he
    exact ih' (fun e' he' => ih e' (by simp [he'])) hrest hs hes

theorem eval_sets_expr {e : Node Nat} (he : IsExpr e) : SetsValue types budget e := by
  induction he with
  | int number k =>
    intro A m m' _ hm h
    cases h
    exact ⟨hm.store _ (by simp), by simp [Node.slot, Node.tag]⟩
  | float number x =>
    intro A m m' _ hm h
    cases h
    exact ⟨hm.store _ (by simp), by simp [Node.slot, Node.tag]⟩
  | var number name =>
    intro A m m' hreads hm h
    cases h
    exact ⟨hm, hm name (of_decide_eq_true hreads)⟩
  | @apply number op operands _ ih =>
    intro A m m' hreads hm h
    obtain ⟨function, values, s, result, -, hvalues, -, rfl⟩ := eval_apply_ok.mp h
    have hs := evalOperands_sets ih hreads hm hvalues
    exact ⟨hs.store _ (by simp), by simp [Node.slot, Node.tag]⟩
  | @assign number name value _ ih =>
    intro A m m' hreads hm h
    obtain ⟨s, hvalue, rfl⟩ := eval_assign_ok.mp h
    obtain ⟨hs, hne⟩ := ih hreads hm hvalue
    refine ⟨(hs.store (.node number) hne).store_name name hne, ?_⟩
    simpa [Node.slot, Node.tag, Machine.value_store] using hne

theorem evalAll_sets {ns : List (Node Nat)}
    (ih : ∀ n ∈ ns, ∀ {A : List String} {m m' : Machine}, n.readsAssigned A = true → m.Sets A →
      (n.eval types budget).run m = .ok () m' → m'.Sets (n.assigned A))
    (hreads : Node.allReadAssigned A ns = true) (hm : m.Sets A)
    (h : (Node.evalAll types budget ns).run m = .ok () m') : m'.Sets (Node.allAssigned A ns) := by
  induction ns generalizing A m with
  | nil =>
    cases h
    exact hm
  | cons n ns ih' =>
    obtain ⟨hfirst, hrest⟩ := Bool.and_eq_true_iff.mp hreads
    obtain ⟨s, hn, hns⟩ := evalAll_cons_ok.mp h
    exact ih' (fun n' hn' => ih n' (by simp [hn'])) hrest (ih n (by simp) hfirst hm hn) hns

theorem repeatWhile_sets {condition body : Node Nat} (hcondition : IsExpr condition)
    (hreads : condition.readsAssigned A = true)
    (hbody : ∀ {m m' : Machine}, m.Sets (condition.assigned A) →
      (body.eval types budget).run m = .ok () m' → m'.Sets A)
    {done left : Nat} (hm : m.Sets A)
    (h : (repeatWhile (loopTest types budget condition) (body.eval types budget) done left).run m =
      .ok () m') : m'.Sets (condition.assigned A) := by
  have htest {again : Bool} {m s : Machine} (hm : m.Sets A)
      (h : (loopTest types budget condition).run m = .ok again s) : s.Sets (condition.assigned A) :=
    (eval_sets_expr hcondition hreads hm (loopTest_ok.mp h).1).1
  induction left generalizing done m with
  | zero =>
    rcases repeatWhile_ok.mp h with ⟨s, hs, rfl⟩ | ⟨_, _, _, heq, _⟩
    · exact (htest hm hs).endLoop done
    · cases heq
  | succ left ih =>
    rcases repeatWhile_ok.mp h with ⟨s, hs, rfl⟩ | ⟨s, t, rest, heq, hs, ht, h⟩
    · exact (htest hm hs).endLoop done
    · cases heq
      exact ih (hbody (htest hm hs) ht) h

theorem eval_sets_stmt (hn : IsStmt n) (hreads : n.readsAssigned A = true) (hm : m.Sets A)
    (h : (n.eval types budget).run m = .ok () m') : m'.Sets (n.assigned A) := by
  induction hn generalizing A m m' with
  | assign number name hvalue =>
    exact (eval_sets_expr (.assign number name hvalue) hreads hm h).1
  | sequence number _ ih =>
    rw [eval_sequence] at h
    exact evalAll_sets ih hreads hm h
  | @declare number ty name value hvalue =>
    cases value with
    | none =>
      cases h
      exact hm
    | some value =>
      obtain ⟨s, hs, rfl⟩ := eval_declare_ok.mp h
      obtain ⟨hset, hne⟩ := eval_sets_expr (hvalue value rfl) hreads hm hs
      exact hset.store_name name hne
  | @print number text value hvalue =>
    cases value with
    | none =>
      cases h
      exact hm
    | some value =>
      obtain ⟨s, hs, rfl⟩ := eval_print_ok.mp h
      exact (eval_sets_expr (hvalue value rfl) hreads hm hs).1
  | @loop number condition body hcondition _ ih =>
    obtain ⟨hfirst, hbody⟩ := Bool.and_eq_true_iff.mp hreads
    rw [eval_loop] at h
    have hround {s t : Machine} (hs : s.Sets (condition.assigned A))
        (ht : (body.eval types budget).run s = .ok () t) : t.Sets A :=
      ((ih hbody hs ht).mono (body.subset_assigned _)).mono (condition.subset_assigned A)
    have hset : m'.Sets (condition.assigned A) := repeatWhile_sets hcondition hfirst hround hm h
    exact hset

/-- Wherever a node is visited, it reads only names that have values. -/
theorem Visits.sets (h : Visits types p m n s) (hp : p.InPlace) (hreads : p.readsAssigned A = true)
    (hm : m.Sets A) : n.InPlace ∧ ∃ B, n.readsAssigned B = true ∧ s.Sets B := by
  induction h generalizing A with
  | start => exact ⟨hp, A, hreads, hm⟩
  | @operand number op before after e n budget values m m' s _ hbefore _ ih =>
    have hoperands := hp.operand
    obtain ⟨hfirst, he⟩ := Node.allReadAssigned_append hreads
    have hm' := evalOperands_sets (fun c hc => eval_sets_expr (hoperands c (by simp [hc]))) hfirst
      hm hbefore
    exact ih (.inl (hoperands e (by simp))) he hm'
  | assigned _ ih => exact ih (.inl hp.assigned) hreads hm
  | @statement number before after statement n budget m m' s hbefore _ ih =>
    have hstatements := hp.statement
    obtain ⟨hfirst, hstatement⟩ := Node.allReadAssigned_append hreads
    have hm' := evalAll_sets (fun c hc _ _ _ => eval_sets_stmt (hstatements c (by simp [hc])))
      hfirst hm hbefore
    exact ih (.inr (hstatements statement (by simp))) hstatement hm'
  | initializer _ ih => exact ih (.inl hp.initializer) hreads hm
  | printed _ ih => exact ih (.inl hp.printed) hreads hm
  | condition _ ih => exact ih (.inl hp.loop.1) (Bool.and_eq_true_iff.mp hreads).1 hm
  | body hcondition _ _ ih =>
    obtain ⟨hfirst, hbody⟩ := Bool.and_eq_true_iff.mp hreads
    exact ih (.inr hp.loop.2) hbody (eval_sets_expr hp.loop.1 hfirst hm hcondition).1
  | @round number condition body n budget m m' m'' s hcondition _ hbody _ ih =>
    obtain ⟨hfirst, hreadsBody⟩ := Bool.and_eq_true_iff.mp hreads
    have hm' := (eval_sets_expr hp.loop.1 hfirst hm hcondition).1
    have hm'' := eval_sets_stmt hp.loop.2 hreadsBody hm' hbody
    exact ih hp hreads ((hm''.mono (body.subset_assigned _)).mono (condition.subset_assigned A))

/-- What stops a visited operation, in a program that has types and reads only names with values:
the divisor is zero, or there are operands too many or too few. -/
theorem OperationFault.arithmetic {number : Nat} {op : Operator} {operands : List (Node Nat)}
    {fault : Fault} (h : OperationFault types number op operands m fault m')
    (hp : ∀ a ∈ (Node.apply number op operands).subterms, a.Accepted types) (hm : m.Typed types)
    (hoperands : ∀ e ∈ operands, IsExpr e) (hreads : Node.allReadAssigned A operands = true)
    (hset : m.Sets A) (harity : operands.length = op.arity) : fault.channel = .arithmetic := by
  have hresidual := h.residual hp hm
  cases h with
  | @missing before after e budget values m s m' heq hf hbefore he hv =>
    subst heq
    obtain ⟨hfirst, hread⟩ := Node.allReadAssigned_append hreads
    have hs := evalOperands_sets (fun c hc => eval_sets_expr (hoperands c (by simp [hc]))) hfirst
      hset hbefore
    exact absurd hv (eval_sets_expr (hoperands e (by simp)) hread hs he).2
  | noFunction => cases hresidual
  | failed =>
    cases hresidual with
    | division | remainder => rfl
    | arity hne => exact absurd harity hne

/-- Divisions by zero are the only faults of a program that has types and reads only names with
values. -/
theorem channel_eq_arithmetic {p : Node Nat} (hp : IsStmt p)
    (haccepted : ∀ a ∈ p.subterms, a.Accepted types)
    (arity : ∀ number op operands, .apply number op operands ∈ p.subterms →
      operands.length = op.arity)
    (assigned : p.readsAssigned [] = true) {budget : Nat} {fault : Fault} {m : Machine}
    (h : (p.eval types budget).run {} = .error (.fault fault) m) : fault.channel = .arithmetic := by
  obtain ⟨number, op, operands, s, hvisit, horigin⟩ := fault_origin p h
  obtain ⟨hplace, B, hreads, hset⟩ := hvisit.sets (.inr hp) assigned (Machine.Sets.empty _)
  exact horigin.arithmetic (fun a ha => haccepted a (Node.subterms_trans ha hvisit.mem_subterms))
    (hvisit.typed haccepted Machine.Typed.empty) hplace.operand hreads hset
    (arity number op operands hvisit.mem_subterms)

theorem exists_printed_value {p value : Node Nat} (hp : IsStmt p)
    (assigned : p.readsAssigned [] = true) {number : Nat} {text : String} {budget : Nat}
    {s m : Machine} (hvisit : Visits types p {} (.print number text (some value)) s)
    (h : ((Node.print number text (some value)).eval types budget).run s = .ok () m) :
    ∃ t v, (value.eval types budget).run s = .ok () t ∧ t.value value.slot = some v ∧
      m = t.print (text ++ Value.text (some v)) := by
  obtain ⟨hplace, B, hreads, hset⟩ := hvisit.sets (.inr hp) assigned (Machine.Sets.empty _)
  obtain ⟨t, ht, rfl⟩ := eval_print_ok.mp h
  obtain ⟨v, hv⟩ := Option.ne_none_iff_exists'.mp
    (eval_sets_expr hplace.printed hreads hset ht).2
  exact ⟨t, v, ht, hv, by rw [hv]⟩

/-- A checked program that reads only names with values comes to its end, to a division by zero, or
goes on forever, whatever the rounds it gets; and where it prints an expression there is a value. -/
theorem assigned_program_progresses {p : Node Nat} (hp : IsStmt p) (coherent : p.Coherent)
    (ok : p.findings.ok = true)
    (arity : ∀ number op operands, .apply number op operands ∈ p.subterms →
      operands.length = op.arity)
    (assigned : p.readsAssigned [] = true) :
    ((∃ outcome : Option Fault, (∀ fault ∈ outcome, fault.channel = .arithmetic) ∧
        ∃ least s, ∀ budget, least ≤ budget →
          (p.eval p.findings.typeOf budget).runFrom {} = ⟨s, outcome.map .fault⟩) ∨
      Diverges p.findings.typeOf p (Machine.environment {})) ∧
    (∀ budget fault, ((p.eval p.findings.typeOf budget).runFrom {}).stop = some (.fault fault) →
      fault.channel = .arithmetic) ∧
    ∀ number text value budget s m,
      Visits p.findings.typeOf p {} (.print number text (some value)) s →
      ((Node.print number text (some value)).eval p.findings.typeOf budget).run s = .ok () m →
      ∃ t v, (value.eval p.findings.typeOf budget).run s = .ok () t ∧
        t.value value.slot = some v ∧ m = t.print (text ++ Value.text (some v)) ∧
        Value.text (some v) ≠ "null" := by
  have haccepted := accepted_of_ok coherent ok
  refine ⟨?_, ?_, ?_⟩
  · rcases settles_or_endless p.findings.typeOf p {} with ⟨outcome, env, hsettles⟩ | hendless
    · obtain ⟨least, s, -, hs⟩ := hsettles.eventually
      refine .inl ⟨outcome, ?_, least, s, fun budget hle => runFrom_iff.mpr (hs budget hle)⟩
      rintro fault rfl
      exact channel_eq_arithmetic hp haccepted arity assigned (hs least (Nat.le_refl least))
    · exact .inr (diverges_of_not_executes hp ((endless_iff hp).mp hendless))
  · intro budget fault h
    unfold Eval.runFrom at h
    split at h
    next => cases h
    next hrun =>
      cases h
      exact channel_eq_arithmetic hp haccepted arity assigned hrun
  · intro number text value budget s m hvisit hrun
    obtain ⟨t, v, ht, hv, hm⟩ := exists_printed_value hp assigned hvisit hrun
    exact ⟨t, v, ht, hv, hm, Value.text_some_ne_none v⟩

/-- Prints `6 / i` for `i` from two on downwards. -/
def quotientsDown : Node Nat :=
  .sequence 0 [.declare 1 .int "i" (some (.int 2 2)),
    .loop 3 (.var 4 "i") (.sequence 5 [
      .print 6 "q: " (some (.apply 7 .div [.int 8 6, .var 9 "i"])),
      .assign 10 "i" (.apply 11 .minus2 [.var 12 "i", .int 13 1])])]

theorem quotientsDown_isStmt : IsStmt quotientsDown := by
  have hi (number : Nat) : IsExpr (.var number "i") := .var number "i"
  refine .sequence 0 ?_
  simp only [List.mem_cons, List.not_mem_nil, or_false, forall_eq_or_imp, forall_eq]
  refine ⟨.declare 1 .int "i" ?_, .loop 3 (hi 4) (.sequence 5 ?_)⟩
  · simpa using .int 2 2
  · simp only [List.mem_cons, List.not_mem_nil, or_false, forall_eq_or_imp, forall_eq]
    refine ⟨.print 6 "q: " ?_, .assign 10 "i" (.pair 11 .minus2 (hi 12) (.int 13 1))⟩
    simpa using .pair 7 .div (.int 8 6) (hi 9)

theorem quotientsDown_progresses :
    IsStmt quotientsDown ∧ quotientsDown.Coherent ∧ quotientsDown.findings.ok = true ∧
      quotientsDown.readsAssigned [] = true ∧
      ∃ fault, ((quotientsDown.eval quotientsDown.findings.typeOf 3).runFrom {}).stop =
          some (.fault fault) ∧
        ((quotientsDown.eval quotientsDown.findings.typeOf 3).runFrom {}).machine.output =
          #["q: 3", "q: 6"] ∧ fault.channel = .arithmetic := by
  have coherent : quotientsDown.Coherent := .of_nodup (by decide)
  have ok : quotientsDown.findings.ok = true := by decide
  have assigned : quotientsDown.readsAssigned [] = true := by decide
  have arity : ∀ number op operands, .apply number op operands ∈ quotientsDown.subterms →
      operands.length = op.arity := by
    intro number op operands h
    simp only [quotientsDown, Node.subterms, Node.allSubterms, List.cons_append,
      List.nil_append, List.append_nil, List.mem_cons, List.not_mem_nil, or_false] at h
    rcases h with h | h | h | h | h | h | h | h | h | h | h | h | h | h <;> cases h <;> rfl
  obtain ⟨-, harithmetic, -⟩ :=
    assigned_program_progresses quotientsDown_isStmt coherent ok arity assigned
  obtain ⟨fault, hfault, houtput⟩ : ∃ fault,
      ((quotientsDown.eval quotientsDown.findings.typeOf 3).runFrom {}).stop =
          some (.fault fault) ∧
        ((quotientsDown.eval quotientsDown.findings.typeOf 3).runFrom {}).machine.output =
          #["q: 3", "q: 6"] := ⟨_, rfl, by decide⟩
  exact ⟨quotientsDown_isStmt, coherent, ok, assigned, fault, hfault, houtput,
    harithmetic 3 fault hfault⟩

end ProgramTrees
