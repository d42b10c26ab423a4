import ProgramTrees.Binary
import ProgramTrees.Operator

namespace ProgramTrees

inductive NodeKind where
  | sequence
  | declaration
  | printStatement
  | whileLoop
  | assignment
  | intLiteral
  | floatLiteral
  | var
  | operatorExpression
deriving DecidableEq

def NodeKind.name : NodeKind → String
  | .sequence => "Sequence"
  | .declaration => "Declaration"
  | .printStatement => "PrintStatement"
  | .whileLoop => "WhileLoop"
  | .assignment => "Assignment"
  | .intLiteral => "IntLiteral"
  | .floatLiteral => "FloatLiteral"
  | .var => "Var"
  | .operatorExpression => "OperatorExpression"

/-- The kinds of nodes that have a type and a value. -/
def NodeKind.isExpression : NodeKind → Bool
  | .intLiteral | .floatLiteral | .var | .operatorExpression | .assignment => true
  | _ => false

/-- The nodes of program trees. Every node carries a tag; a plain tree has trivial tags, and the
passes that keep facts about nodes use numbers as tags. A literal with a fraction keeps its double.
An assignment is a statement as well as an expression. Any node may stand anywhere; `IsExpr` and
`IsStmt` say which trees have every node in its place. -/
inductive Node (τ : Type) where
  | int (tag : τ) (value : Int32)
  | float (tag : τ) (value : Double)
  | var (tag : τ) (name : String)
  | apply (tag : τ) (op : Operator) (operands : List (Node τ))
  | assign (tag : τ) (name : String) (value : Node τ)
  | sequence (tag : τ) (statements : List (Node τ))
  | declare (tag : τ) (ty : Ty) (name : String) (value : Option (Node τ))
  | print (tag : τ) (text : String) (value : Option (Node τ))
  | loop (tag : τ) (condition body : Node τ)

variable {τ : Type}

/-- Expressions with nothing but expressions below. -/
inductive IsExpr : Node τ → Prop where
  | int (tag : τ) (n : Int32) : IsExpr (.int tag n)
  | float (tag : τ) (x : Double) : IsExpr (.float tag x)
  | var (tag : τ) (name : String) : IsExpr (.var tag name)
  | apply (tag : τ) (op : Operator) {operands : List (Node τ)} :
      (∀ e ∈ operands, IsExpr e) → IsExpr (.apply tag op operands)
  | assign (tag : τ) (name : String) {value : Node τ} :
      IsExpr value → IsExpr (.assign tag name value)

/-- Statements in which every node is in its place. -/
inductive IsStmt : Node τ → Prop where
  | assign (tag : τ) (name : String) {value : Node τ} :
      IsExpr value → IsStmt (.assign tag name value)
  | sequence (tag : τ) {statements : List (Node τ)} :
      (∀ s ∈ statements, IsStmt s) → IsStmt (.sequence tag statements)
  | declare (tag : τ) (ty : Ty) (name : String) {value : Option (Node τ)} :
      (∀ e ∈ value, IsExpr e) → IsStmt (.declare tag ty name value)
  | print (tag : τ) (text : String) {value : Option (Node τ)} :
      (∀ e ∈ value, IsExpr e) → IsStmt (.print tag text value)
  | loop (tag : τ) {condition body : Node τ} :
      IsExpr condition → IsStmt body → IsStmt (.loop tag condition body)

/-- What holds of a node if it holds of all nodes directly below it holds of every node. -/
@[elab_as_elim]
theorem Node.induction {motive : Node τ → Prop}
    (int : ∀ tag n, motive (.int tag n)) (float : ∀ tag x, motive (.float tag x))
    (var : ∀ tag name, motive (.var tag name))
    (apply : ∀ tag op operands, (∀ e ∈ operands, motive e) → motive (.apply tag op operands))
    (assign : ∀ tag name value, motive value → motive (.assign tag name value))
    (sequence : ∀ tag statements, (∀ s ∈ statements, motive s) → motive (.sequence tag statements))
    (declare : ∀ tag ty name value, (∀ e ∈ value, motive e) → motive (.declare tag ty name value))
    (print : ∀ tag text value, (∀ e ∈ value, motive e) → motive (.print tag text value))
    (loop : ∀ tag condition body, motive condition → motive body →
      motive (.loop tag condition body)) (n : Node τ) : motive n :=
  Node.rec (fun tag n => int tag n) (fun tag x => float tag x) (fun tag name => var tag name)
    (fun tag op _ => apply tag op _) (fun tag name _ => assign tag name _)
    (fun tag _ => sequence tag _) (fun tag ty name _ => declare tag ty name _)
    (fun tag text _ => print tag text _) (fun tag _ _ => loop tag _ _)
    (List.forall_mem_nil motive) (fun _ _ hn hns => List.forall_mem_cons.mpr ⟨hn, hns⟩)
    (fun _ he => nomatch he) (fun _ he _ h => Option.mem_some.mp h ▸ he) n

namespace Node

def tag : Node τ → τ
  | .int tag _ | .float tag _ | .var tag _ | .apply tag _ _ | .assign tag _ _
  | .sequence tag _ | .declare tag _ _ _ | .print tag _ _ | .loop tag _ _ => tag

def kind : Node τ → NodeKind
  | .int .. => .intLiteral
  | .float .. => .floatLiteral
  | .var .. => .var
  | .apply .. => .operatorExpression
  | .assign .. => .assignment
  | .sequence .. => .sequence
  | .declare .. => .declaration
  | .print .. => .printStatement
  | .loop .. => .whileLoop

mutual

/-- The node and all below it, each before those below it. -/
def subterms : Node τ → List (Node τ)
  | .int tag n => [.int tag n]
  | .float tag x => [.float tag x]
  | .var tag name => [.var tag name]
  | .apply tag op operands => .apply tag op operands :: allSubterms operands
  | .assign tag name value => .assign tag name value :: value.subterms
  | .sequence tag statements => .sequence tag statements :: allSubterms statements
  | .declare tag ty name none => [.declare tag ty name none]
  | .declare tag ty name (some value) => .declare tag ty name (some value) :: value.subterms
  | .print tag text none => [.print tag text none]
  | .print tag text (some value) => .print tag text (some value) :: value.subterms
  | .loop tag condition body =>
    .loop tag condition body :: (condition.subterms ++ body.subterms)

def allSubterms : List (Node τ) → List (Node τ)
  | [] => []
  | n :: ns => n.subterms ++ allSubterms ns

end

/-- The expressions of a tree, each before its operands; an assignment counts as one. -/
def exprs (n : Node τ) : List (Node τ) :=
  n.subterms.filter (·.kind.isExpression)

def name? : Node τ → Option String
  | .var _ name | .assign _ name _ | .declare _ _ name _ => some name
  | _ => none

def names (n : Node τ) : List String :=
  n.subterms.filterMap name?

mutual

/-- The same tree with its nodes numbered from `next` on, each before those below it, and the
number after the last. -/
def numberedFrom (next : Nat) : Node τ → Node Nat × Nat
  | .int _ n => (.int next n, next + 1)
  | .float _ x => (.float next x, next + 1)
  | .var _ name => (.var next name, next + 1)
  | .apply _ op operands =>
    let (operands, after) := allNumberedFrom (next + 1) operands
    (.apply next op operands, after)
  | .assign _ name value =>
    let (value, after) := value.numberedFrom (next + 1)
    (.assign next name value, after)
  | .sequence _ statements =>
    let (statements, after) := allNumberedFrom (next + 1) statements
    (.sequence next statements, after)
  | .declare _ ty name none => (.declare next ty name none, next + 1)
  | .declare _ ty name (some value) =>
    let (value, after) := value.numberedFrom (next + 1)
    (.declare next ty name (some value), after)
  | .print _ text none => (.print next text none, next + 1)
  | .print _ text (some value) =>
    let (value, after) := value.numberedFrom (next + 1)
    (.print next text (some value), after)
  | .loop _ condition body =>
    let (condition, after) := condition.numberedFrom (next + 1)
    let (body, after) := body.numberedFrom after
    (.loop next condition body, after)

def allNumberedFrom (next : Nat) : List (Node τ) → List (Node Nat) × Nat
  | [] => ([], next)
  | n :: ns =>
    let (n, after) := n.numberedFrom next
    let (ns, after) := allNumberedFrom after ns
    (n :: ns, after)

end

def numbered (n : Node τ) : Node Nat :=
  (n.numberedFrom 0).1

end Node

abbrev Program := Node Unit

/-- Names in the order of their code points, each once. -/
def sortNames (names : List String) : List String :=
  (names.mergeSort fun a b => !decide (b < a)).eraseReps

/-- Where a pass keeps a fact about a node: all occurrences of a variable share the place of its
name, and any other node has its own. -/
inductive Slot where
  | name (name : String)
  | node (number : Nat)
deriving DecidableEq

def Node.slot : Node Nat → Slot
  | .var _ name => .name name
  | n => .node n.tag

structure Site where
  number : Nat
  kind : NodeKind
deriving DecidableEq

def Node.site (n : Node Nat) : Site :=
  ⟨n.tag, n.kind⟩

end ProgramTrees
