import ProgramTrees.SourceText

namespace ProgramTrees

/-- The character that an escape stands for. -/
def escaped? (c : Char) : Option Char :=
  if c = 'n' then some '\n' else if c = '\\' ∨ c = '"' then some c else none

/-- The text of a literal up to its closing quote, and what follows. -/
def literalInside? : List Char → Option (List Char × List Char)
  | [] => none
  | c :: rest =>
    if c = '"' then some ([], rest)
    else if c = '\\' then
      match rest with
      | [] => none
      | e :: rest => (escaped? e).bind fun c => (literalInside? rest).map (Prod.map (c :: ·) id)
    else (literalInside? rest).map (Prod.map (c :: ·) id)

def textLiteral? : List Char → Option (String × List Char)
  | '"' :: rest => (literalInside? rest).map (Prod.map String.ofList id)
  | _ => none

theorem literalInside?_literalChar (c : Char) (rest : List Char) :
    literalInside? (literalChar c ++ rest) = (literalInside? rest).map (Prod.map (c :: ·) id) := by
  have hescape (e : Char) (h : escaped? e = some c) :
      literalInside? ('\\' :: e :: rest) = (literalInside? rest).map (Prod.map (c :: ·) id) := by
    rw [literalInside?, if_neg (by decide), if_pos rfl, h]
    rfl
  unfold literalChar
  split
  next h => exact hescape '\\' (by rw [h]; rfl)
  next hbackslash =>
    split
    next h => exact hescape '"' (by rw [h]; rfl)
    next hquote =>
      split
      next h => exact hescape 'n' (by rw [h]; rfl)
      next =>
        rw [List.singleton_append, literalInside?.eq_def]
        simp [hbackslash, hquote]

theorem literalInside?_flatMap (cs rest : List Char) :
    literalInside? (cs.flatMap literalChar ++ '"' :: rest) = some (cs, rest) := by
  induction cs with
  | nil =>
    rw [List.flatMap_nil, List.nil_append, literalInside?.eq_def]
    rfl
  | cons c cs ih =>
    rw [List.flatMap_cons, List.append_assoc, literalInside?_literalChar, ih]
    rfl

theorem textLiteral?_append (text : String) (rest : List Char) :
    textLiteral? ((textLiteral text).toList ++ rest) = some (text, rest) := by
  have hliteral : (textLiteral text).toList ++ rest =
      '"' :: (text.toList.flatMap literalChar ++ '"' :: rest) := by
    simp [textLiteral]
  rw [hliteral, textLiteral?, literalInside?_flatMap]
  simp

end ProgramTrees
