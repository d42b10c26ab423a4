import ProgramTrees.Evaluation

namespace ProgramTrees

/-- The variables, of which those that were never set have no value, and the printed lines. -/
structure Environment where
  value : String → Option Value
  output : Array String

def Environment.assign (env : Environment) (name : String) (value : Option Value) : Environment :=
  { env with value := fun other => if other = name then value else env.value other }

def Environment.print (env : Environment) (line : String) : Environment :=
  { env with output := env.output.push line }

mutual

/-- An expression in an environment has a value, or a fault, and leaves another environment. -/
inductive Yields (types : TypeMap) :
    Node Nat → Environment → Except Fault (Option Value) → Environment → Prop where
  | int {env : Environment} (number : Nat) (n : Int32) :
      Yields types (.int number n) env (.ok (some (.int n))) env
  | float {env : Environment} (number : Nat) (x : Double) :
      Yields types (.float number x) env (.ok (some (.float (x.convert .single)))) env
  | var {env : Environment} (number : Nat) (name : String) :
      Yields types (.var number name) env (.ok (env.value name)) env
  | noFunction {number : Nat} {op : Operator} {operands : List (Node Nat)} {env : Environment} :
      op.function? (types (.node number)) = none →
      Yields types (.apply number op operands) env
        (.error (.noFunction op (types (.node number)) ⟨number, .operatorExpression⟩)) env
  | operandFault {number : Nat} {op : Operator} {operands : List (Node Nat)} {fault : Fault}
      {env env' : Environment} : op.function? (types (.node number)) ≠ none →
      YieldsAll types operands env (.error fault) env' →
      Yields types (.apply number op operands) env (.error fault) env'
  | applied {number : Nat} {op : Operator} {operands : List (Node Nat)}
      {function : List Number → Except OperandFault Value} {values : List Value} {result : Value}
      {env env' : Environment} : op.function? (types (.node number)) = some function →
      YieldsAll types operands env (.ok values) env' →
      function (values.map Value.toNumber) = .ok result →
      Yields types (.apply number op operands) env (.ok (some result)) env'
  | failed {number : Nat} {op : Operator} {operands : List (Node Nat)}
      {function : List Number → Except OperandFault Value} {values : List Value}
      {fault : OperandFault} {env env' : Environment} :
      op.function? (types (.node number)) = some function →
      YieldsAll types operands env (.ok values) env' →
      function (values.map Value.toNumber) = .error fault →
      Yields types (.apply number op operands) env
        (.error (.operands fault ⟨number, .operatorExpression⟩)) env'
  | assign {number : Nat} {name : String} {value : Node Nat} {v : Option Value}
      {env env' : Environment} : Yields types value env (.ok v) env' →
      Yields types (.assign number name value) env (.ok v) (env'.assign name v)
  | assignFault {number : Nat} {name : String} {value : Node Nat} {fault : Fault}
      {env env' : Environment} : Yields types value env (.error fault) env' →
      Yields types (.assign number name value) env (.error fault) env'

/-- Operands from left to right, each with its value before the next; all must have one. -/
inductive YieldsAll (types : TypeMap) :
    List (Node Nat) → Environment → Except Fault (List Value) → Environment → Prop where
  | nil {env : Environment} : YieldsAll types [] env (.ok []) env
  | cons {e : Node Nat} {es : List (Node Nat)} {v : Value} {vs : List Value}
      {env env' env'' : Environment} : Yields types e env (.ok (some v)) env' →
      YieldsAll types es env' (.ok vs) env'' → YieldsAll types (e :: es) env (.ok (v :: vs)) env''
  | later {e : Node Nat} {es : List (Node Nat)} {v : Value} {fault : Fault}
      {env env' env'' : Environment} : Yields types e env (.ok (some v)) env' →
      YieldsAll types es env' (.error fault) env'' →
      YieldsAll types (e :: es) env (.error fault) env''
  | missing {e : Node Nat} {es : List (Node Nat)} {env env' : Environment} :
      Yields types e env (.ok none) env' →
      YieldsAll types (e :: es) env (.error (.missingOperand e.site)) env'
  | fault {e : Node Nat} {es : List (Node Nat)} {fault : Fault} {env env' : Environment} :
      Yields types e env (.error fault) env' →
      YieldsAll types (e :: es) env (.error fault) env'

end

/-- A statement in an environment comes to its end, or to a fault, in another environment. -/
inductive Executes (types : TypeMap) :
    Node Nat → Environment → Option Fault → Environment → Prop where
  | assign {number : Nat} {name : String} {value : Node Nat} {v : Option Value}
      {env env' : Environment} : Yields types (.assign number name value) env (.ok v) env' →
      Executes types (.assign number name value) env none env'
  | assignFault {number : Nat} {name : String} {value : Node Nat} {fault : Fault}
      {env env' : Environment} :
      Yields types (.assign number name value) env (.error fault) env' →
      Executes types (.assign number name value) env (some fault) env'
  | nothing {env : Environment} (number : Nat) : Executes types (.sequence number []) env none env
  | next {number : Nat} {s : Node Nat} {ss : List (Node Nat)} {outcome : Option Fault}
      {env env' env'' : Environment} : Executes types s env none env' →
      Executes types (.sequence number ss) env' outcome env'' →
      Executes types (.sequence number (s :: ss)) env outcome env''
  | sequenceFault {number : Nat} {s : Node Nat} {ss : List (Node Nat)} {fault : Fault}
      {env env' : Environment} : Executes types s env (some fault) env' →
      Executes types (.sequence number (s :: ss)) env (some fault) env'
  | declare {env : Environment} (number : Nat) (ty : Ty) (name : String) :
      Executes types (.declare number ty name none) env none env
  | declareValue {number : Nat} {ty : Ty} {name : String} {value : Node Nat} {v : Option Value}
      {env env' : Environment} : Yields types value env (.ok v) env' →
      Executes types (.declare number ty name (some value)) env none (env'.assign name v)
  | declareFault {number : Nat} {ty : Ty} {name : String} {value : Node Nat} {fault : Fault}
      {env env' : Environment} : Yields types value env (.error fault) env' →
      Executes types (.declare number ty name (some value)) env (some fault) env'
  | print {env : Environment} (number : Nat) (text : String) :
      Executes types (.print number text none) env none (env.print text)
  | printValue {number : Nat} {text : String} {value : Node Nat} {v : Option Value}
      {env env' : Environment} : Yields types value env (.ok v) env' →
      Executes types (.print number text (some value)) env none
        (env'.print (text ++ Value.text v))
  | printFault {number : Nat} {text : String} {value : Node Nat} {fault : Fault}
      {env env' : Environment} : Yields types value env (.error fault) env' →
      Executes types (.print number text (some value)) env (some fault) env'
  | loopEnd {number : Nat} {condition body : Node Nat} {v : Option Value}
      {env env' : Environment} : Yields types condition env (.ok v) env' →
      Value.keepsLooping v = false → Executes types (.loop number condition body) env none env'
  | conditionFault {number : Nat} {condition body : Node Nat} {fault : Fault}
      {env env' : Environment} : Yields types condition env (.error fault) env' →
      Executes types (.loop number condition body) env (some fault) env'
  | round {number : Nat} {condition body : Node Nat} {v : Option Value}
      {outcome : Option Fault} {env mid env' env'' : Environment} :
      Yields types condition env (.ok v) mid → Value.keepsLooping v = true →
      Executes types body mid none env' →
      Executes types (.loop number condition body) env' outcome env'' →
      Executes types (.loop number condition body) env outcome env''
  | bodyFault {number : Nat} {condition body : Node Nat} {v : Option Value} {fault : Fault}
      {env mid env' : Environment} : Yields types condition env (.ok v) mid →
      Value.keepsLooping v = true → Executes types body mid (some fault) env' →
      Executes types (.loop number condition body) env (some fault) env'

/-- A round of a loop that comes to its end. -/
def Round (types : TypeMap) (condition body : Node Nat) (env env' : Environment) : Prop :=
  ∃ v mid, Yields types condition env (.ok v) mid ∧ Value.keepsLooping v = true ∧
    Executes types body mid none env'

/-- A statement goes on forever: a loop in it does one round after the other, without end. -/
inductive Diverges (types : TypeMap) : Node Nat → Environment → Prop where
  | first {number : Nat} {s : Node Nat} {ss : List (Node Nat)} {env : Environment} :
      Diverges types s env → Diverges types (.sequence number (s :: ss)) env
  | next {number : Nat} {s : Node Nat} {ss : List (Node Nat)} {env env' : Environment} :
      Executes types s env none env' → Diverges types (.sequence number ss) env' →
      Diverges types (.sequence number (s :: ss)) env
  | body {number : Nat} {condition body : Node Nat} {v : Option Value} {env mid : Environment} :
      Yields types condition env (.ok v) mid → Value.keepsLooping v = true →
      Diverges types body mid → Diverges types (.loop number condition body) env
  | round {number : Nat} {condition body : Node Nat} {env env' : Environment} :
      Round types condition body env env' → Diverges types (.loop number condition body) env' →
      Diverges types (.loop number condition body) env
  | forever {number : Nat} {condition body : Node Nat} (envs : Nat → Environment) :
      (∀ i, Round types condition body (envs i) (envs (i + 1))) →
      Diverges types (.loop number condition body) (envs 0)

/-- A statement gets from an environment to one in which a loop in it is about to do a round. -/
inductive Underway (types : TypeMap) : Node Nat → Environment → Environment → Prop where
  | first {number : Nat} {s : Node Nat} {ss : List (Node Nat)} {env env' : Environment} :
      Underway types s env env' → Underway types (.sequence number (s :: ss)) env env'
  | next {number : Nat} {s : Node Nat} {ss : List (Node Nat)} {env mid env' : Environment} :
      Executes types s env none mid → Underway types (.sequence number ss) mid env' →
      Underway types (.sequence number (s :: ss)) env env'
  | again {number : Nat} {condition body : Node Nat} {v : Option Value} {env mid : Environment} :
      Yields types condition env (.ok v) mid → Value.keepsLooping v = true →
      Underway types (.loop number condition body) env mid
  | body {number : Nat} {condition body : Node Nat} {v : Option Value}
      {env mid env' : Environment} : Yields types condition env (.ok v) mid →
      Value.keepsLooping v = true → Underway types body mid env' →
      Underway types (.loop number condition body) env env'
  | round {number : Nat} {condition body : Node Nat} {env mid env' : Environment} :
      Round types condition body env mid → Underway types (.loop number condition body) mid env' →
      Underway types (.loop number condition body) env env'

end ProgramTrees
