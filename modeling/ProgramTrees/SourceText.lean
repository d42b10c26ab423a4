import ProgramTrees.NumberText
import ProgramTrees.Tree

namespace ProgramTrees

/-- The strings that the layout of source text is free to choose. -/
structure SourceStyle where
  indent : String := "  "
  terminator : String := ";"
  lineEnd : String := "\n"

/-- The two sides of an operator; the operand of a sign stands on the right. -/
inductive Side where
  | left
  | right
deriving DecidableEq

/-- An operation in an operand of another keeps its grouping only in parentheses: it binds looser,
or as tight on the side away from which the operators group. -/
def needsParentheses (outer inner : Operator) (side : Side) : Bool :=
  if inner.precedence > outer.precedence then false
  else if inner.precedence = outer.precedence then
    match outer.associativity, side with
    | .leftToRight, .left => false
    | .rightToLeft, .right => false
    | _, _ => true
  else true

variable {τ : Type}

/-- An operation in an operand of another needs parentheses by its operator, an assignment always
does. -/
def Node.needsParentheses (outer : Operator) (side : Side) : Node τ → Bool
  | .apply _ inner _ => ProgramTrees.needsParentheses outer inner side
  | .assign .. => true
  | _ => false

def parenthesize (text : String) : String :=
  "( " ++ text ++ " )"

def Node.asOperand (outer : Operator) (side : Side) (n : Node τ) (text : String) : String :=
  if n.needsParentheses outer side then parenthesize text else text

/-- How a character stands in a text literal: quotes, backslashes and line feeds are escaped. -/
def literalChar (c : Char) : List Char :=
  if c = '\\' then ['\\', '\\']
  else if c = '"' then ['\\', '"']
  else if c = '\n' then ['\\', 'n']
  else [c]

def textLiteral (text : String) : String :=
  String.ofList ('"' :: text.toList.flatMap literalChar ++ ['"'])

def SourceStyle.indentation (style : SourceStyle) (depth : Nat) : String :=
  String.join (List.replicate depth style.indent)

/-- A node as a line of a block. A loop ends with its brace and has no terminator. -/
def SourceStyle.line (style : SourceStyle) (depth : Nat) (kind : NodeKind) (text : String) :
    String :=
  style.indentation depth ++ text ++ (if kind = .whileLoop then "" else style.terminator) ++
    style.lineEnd

/-- The body of a loop: a sequence consists of lines, and any other node is one line. -/
def SourceStyle.block (style : SourceStyle) (depth : Nat) (kind : NodeKind) (text : String) :
    String :=
  if kind = .sequence then text else style.line depth kind text

def SourceStyle.loop (style : SourceStyle) (depth : Nat) (condition block : String) : String :=
  String.join ["while ( ", condition, " >= 0 ) \x7b", style.lineEnd, block,
    style.indentation depth, "\x7d"]

def printCall (argument : String) : String :=
  String.join ["System.out.println(", argument, ")"]

/-- An operation on operands that come with their texts. On a number of operands that no operator
takes it is written like a call. -/
def Operator.source (op : Operator) : List (Node τ × String) → String
  | [] => op.symbol ++ "()"
  | [(e, text)] => op.symbol ++ " " ++ e.asOperand op .right text
  | [(l, left), (r, right)] =>
    l.asOperand op .left left ++ " " ++ op.symbol ++ " " ++ r.asOperand op .right right
  | operands => op.symbol ++ "(" ++ ", ".intercalate (operands.map (·.2)) ++ ")"

mutual

/-- The source text of a node inside `depth` loops. An expression has the fewest parentheses that
keep its grouping. The statements of a sequence stand one a line. -/
def Node.source (style : SourceStyle) (depth : Nat) : Node τ → String
  | .int _ n => toString n.toInt
  | .float _ x => x.literalText ++ "f"
  | .var _ name => name
  | .apply _ op operands => op.source (Node.withSources style depth operands)
  | .assign _ name value => name ++ " = " ++ value.source style depth
  | .sequence _ statements => Node.lines style depth statements
  | .declare _ ty name none => ty.name ++ " " ++ name
  | .declare _ ty name (some value) =>
    ty.name ++ " " ++ name ++ " = " ++ value.source style depth
  | .print _ text none => printCall (textLiteral text)
  | .print _ text (some value) => printCall (textLiteral text ++ " + " ++ value.source style depth)
  | .loop _ condition body =>
    style.loop depth (condition.source style depth)
      (style.block (depth + 1) body.kind (body.source style (depth + 1)))

def Node.withSources (style : SourceStyle) (depth : Nat) : List (Node τ) → List (Node τ × String)
  | [] => []
  | n :: ns => (n, n.source style depth) :: Node.withSources style depth ns

def Node.lines (style : SourceStyle) (depth : Nat) : List (Node τ) → String
  | [] => ""
  | n :: ns => style.line depth n.kind (n.source style depth) ++ Node.lines style depth ns

end

end ProgramTrees
