namespace ProgramTrees

/-- The loop over the second text, `j` characters of which are done: each entry of the current row
comes from the one before it and from two of the previous row. -/
def fillRow (c : Char) (previous : Array Nat) : List Char → Nat → Array Nat → Array Nat
  | [], _, current => current
  | d :: t, j, current =>
    let insertions := previous.getD (j + 1) 0 + 1
    let deletions := current.getD j 0 + 1
    let substitutions := previous.getD j 0 + if c ≠ d then 1 else 0
    fillRow c previous t (j + 1)
      (current.push (min (min insertions deletions) substitutions))

/-- The loop over the first text, `i` characters of which are done. -/
def fillTable (t : List Char) : List Char → Nat → Array Nat → Array Nat
  | [], _, previous => previous
  | c :: s, i, previous => fillTable t s (i + 1) (fillRow c previous t 0 #[i + 1])

/-- The distance of a text to one that is not longer: the last entry of the last row. -/
def distanceToShorter (s t : List Char) : Nat :=
  if t.length = 0 then s.length
  else (fillTable t s 0 (Array.range (t.length + 1))).back?.getD 0

/-- The least number of insertions, deletions and replacements of one character that turn one text
into another. -/
def editDistance (s t : List Char) : Nat :=
  if s.length < t.length then distanceToShorter t s else distanceToShorter s t

end ProgramTrees
