import ProgramTrees.JsonReader
import ProgramTrees.SourceText

namespace ProgramTrees

/-- The lexemes of expressions. A sign in front of digits belongs to the literal. Marks are the
symbols of the operators, the sign of assignment and parentheses. -/
inductive Lexeme where
  | int (n : Int32)
  | float (x : Double)
  | name (word : String)
  | mark (symbol : Char)
deriving DecidableEq

def isBlank (c : Char) : Bool :=
  c = ' ' || c = '\t' || c = '\n' || c = '\x0c' || c = '\r'

def marks : List Char :=
  ['+', '-', '*', '/', '%', '=', '(', ')']

/-- The characters of names: letters and digits of ASCII, two of its marks, the controls that a
name may hold, and everything beyond ASCII. All parts of identifiers are among them. -/
def isNameChar (c : Char) : Bool :=
  c.isAlphanum || c = '_' || c = '$' || c.toNat ≤ 8 || (14 ≤ c.toNat && c.toNat ≤ 27) ||
    127 ≤ c.toNat

def isName (name : String) : Bool :=
  name.toList.all isNameChar && name.toList.head?.any (!·.isDigit)

/-- A numeral is a literal with a fraction if `f` follows it, and else an integer in its range. -/
def literal? (numeral : Numeral) : List Char → Option (Lexeme × List Char)
  | 'f' :: rest => some (.float (numeral.decimal.round .double numeral.negative), rest)
  | rest =>
    let value := signed numeral.negative (digitsValue numeral.whole)
    if numeral.fraction.isEmpty ∧ numeral.exponent = none ∧ (Int32.ofInt value).toInt = value then
      some (.int (Int32.ofInt value), rest)
    else none

/-- The lexeme that a text begins with, as long as it can be, and the rest of the text. -/
def lexeme? : List Char → Option (Lexeme × List Char)
  | [] => none
  | c :: rest =>
    if c.isDigit then
      (readUnsigned? false (c :: rest)).bind fun (numeral, rest) => literal? numeral rest
    else if (c = '-' ∨ c = '+') ∧ rest.head?.any Char.isDigit then
      (readUnsigned? (c = '-') rest).bind fun (numeral, rest) => literal? numeral rest
    else if c ∈ marks then some (.mark c, rest)
    else if isNameChar c then
      some (.name (String.ofList (c :: rest.takeWhile isNameChar)), rest.dropWhile isNameChar)
    else none

/-- The lexemes of a text; the budget bounds their number. -/
def lexemesWithin? : Nat → List Char → Option (List Lexeme)
  | 0, _ => none
  | budget + 1, text =>
    match text.dropWhile isBlank with
    | [] => some []
    | text => (lexeme? text).bind fun (lexeme, rest) =>
      (lexemesWithin? budget rest).map (lexeme :: ·)

def lexemes? (text : String) : Option (List Lexeme) :=
  lexemesWithin? (text.toList.length + 1) text.toList

/-- The level of literals, names and parentheses, above the precedence of all operators. -/
def tightest : Nat := 4

/-- How tight an operand must bind: as its operator on the side to which the operators group, and
tighter on the other. -/
def Operator.operandLevel (op : Operator) (side : Side) : Nat :=
  match op.associativity, side with
  | .leftToRight, .left | .rightToLeft, .right => op.precedence
  | _, _ => op.precedence + 1

def Operator.mark (op : Operator) : Char :=
  op.symbol.front

/-- Lexemes make an expression that binds as tight as a level, of which zero is that of assignments,
which group to the right. -/
inductive Derives : Nat → List Lexeme → Program → Prop where
  | int (n : Int32) : Derives tightest [.int n] (.int () n)
  | float (x : Double) : Derives tightest [.float x] (.float () x)
  | name (name : String) : Derives tightest [.name name] (.var () name)
  | parentheses {lexemes : List Lexeme} {e : Program} : Derives 0 lexemes e →
      Derives tightest (.mark '(' :: lexemes ++ [.mark ')']) e
  | sign {op : Operator} {lexemes : List Lexeme} {e : Program} : op.arity = 1 →
      Derives (op.operandLevel .right) lexemes e →
      Derives op.precedence (.mark op.mark :: lexemes) (.apply () op [e])
  | binary {op : Operator} {left right : List Lexeme} {l r : Program} : op.arity = 2 →
      Derives (op.operandLevel .left) left l → Derives (op.operandLevel .right) right r →
      Derives op.precedence (left ++ .mark op.mark :: right) (.apply () op [l, r])
  | assign {name : String} {lexemes : List Lexeme} {e : Program} : Derives 0 lexemes e →
      Derives 0 (.name name :: .mark '=' :: lexemes) (.assign () name e)
  | tighter {level : Nat} {lexemes : List Lexeme} {e : Program} : Derives (level + 1) lexemes e →
      Derives level lexemes e

end ProgramTrees
