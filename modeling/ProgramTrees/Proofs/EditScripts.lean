import Mathlib.Order.MinMax
import ProgramTrees.EditDistance

namespace ProgramTrees

/-- A change of one character. -/
inductive Change where
  | insert (c : Char)
  | delete
  | replace (c : Char)
deriving DecidableEq

/-- A change at the beginning of a text: an insertion before the first character, or a deletion or
replacement of it. -/
def Change.atFirst? : Change → List Char → Option (List Char)
  | .insert c, s => some (c :: s)
  | .delete, _ :: s => some s
  | .replace c, _ :: s => some (c :: s)
  | _, [] => none

/-- A change after the first `place` characters of a text, if it has that many. -/
def Change.after? (change : Change) : Nat → List Char → Option (List Char)
  | 0, s => change.atFirst? s
  | place + 1, c :: s => (change.after? place s).map (c :: ·)
  | _ + 1, [] => none

/-- Changes with their places, one after the other. -/
abbrev EditScript := List (Nat × Change)

/-- The text that a script turns a text into, unless one of its changes has no place. -/
def EditScript.run? : EditScript → List Char → Option (List Char)
  | [], s => some s
  | (place, change) :: script, s => (change.after? place s).bind (EditScript.run? script)

/-- The least number of changes that turn one text into another, by their first characters. -/
def leastEdits : List Char → List Char → Nat
  | [], t => t.length
  | c :: s, [] => (c :: s).length
  | c :: s, d :: t =>
    min (min (leastEdits (c :: s) t + 1) (leastEdits s (d :: t) + 1))
      (leastEdits s t + if c = d then 0 else 1)
termination_by s t => s.length + t.length

section Ends

variable (c d : Char) (s t : List Char)

@[simp] theorem leastEdits_nil_left : leastEdits [] t = t.length := by
  rw [leastEdits]

@[simp] theorem leastEdits_nil_right : leastEdits s [] = s.length := by
  cases s <;> rw [leastEdits]

theorem leastEdits_cons_cons : leastEdits (c :: s) (d :: t) =
    min (min (leastEdits (c :: s) t + 1) (leastEdits s (d :: t) + 1))
      (leastEdits s t + if c = d then 0 else 1) := by
  rw [leastEdits]

/-- The last characters of the texts may be compared in place of the first. -/
theorem leastEdits_concat : leastEdits (s ++ [c]) (t ++ [d]) =
    min (min (leastEdits (s ++ [c]) t + 1) (leastEdits s (t ++ [d]) + 1))
      (leastEdits s t + if c = d then 0 else 1) := by
  induction s generalizing t with
  | nil =>
    induction t with
    | nil => simp [leastEdits_cons_cons]
    | cons y t iht =>
      simp only [List.nil_append, List.cons_append, leastEdits_cons_cons, leastEdits_nil_left,
        List.length_append, List.length_cons, List.length_nil] at iht ⊢
      omega
  | cons x s ihs =>
    induction t with
    | nil =>
      have hlast := ihs []
      simp only [List.nil_append, List.cons_append, leastEdits_cons_cons, leastEdits_nil_right,
        List.length_append, List.length_cons, List.length_nil] at hlast ⊢
      omega
    | cons y t iht =>
      have hfirst := ihs (y :: t)
      have hboth := ihs t
      simp only [List.cons_append] at iht hfirst
      simp only [List.cons_append, leastEdits_cons_cons x y, iht, hfirst, hboth,
        ← Nat.add_min_add_right]
      ac_rfl

end Ends

section Bounds

variable {c d : Char} {s s' : List Char}

theorem leastEdits_insert_le (c : Char) (s t : List Char) :
    leastEdits s (c :: t) ≤ leastEdits s t + 1 := by
  cases s with
  | nil => simp
  | cons d s =>
    rw [leastEdits_cons_cons]
    omega

theorem leastEdits_delete_le (c : Char) (s t : List Char) :
    leastEdits (c :: s) t ≤ leastEdits s t + 1 := by
  cases t with
  | nil => simp
  | cons d t =>
    rw [leastEdits_cons_cons]
    omega

theorem leastEdits_replace_le (c d : Char) (s t : List Char) :
    leastEdits (c :: s) (d :: t) ≤ leastEdits s t + 1 := by
  rw [leastEdits_cons_cons]
  split <;> omega

theorem leastEdits_keep_le (c : Char) (s t : List Char) :
    leastEdits (c :: s) (c :: t) ≤ leastEdits s t := by
  rw [leastEdits_cons_cons, if_pos rfl]
  omega

theorem leastEdits_self (s : List Char) : leastEdits s s = 0 := by
  induction s with
  | nil => simp
  | cons c s ih =>
    have hkeep := leastEdits_keep_le c s s
    omega

theorem leastEdits_comm (s t : List Char) : leastEdits s t = leastEdits t s := by
  induction s generalizing t with
  | nil => simp
  | cons c s ihs =>
    induction t with
    | nil => simp
    | cons d t iht =>
      have hsame : (if c = d then 0 else 1) = if d = c then 0 else 1 := by simp only [eq_comm]
      rw [leastEdits_cons_cons, leastEdits_cons_cons, iht, ihs (d :: t), ihs t, hsame]
      omega

/-- No text is more than one step farther from the first text than from the second. -/
def WithinOne (s s' : List Char) : Prop :=
  ∀ t, leastEdits s t ≤ leastEdits s' t + 1

theorem withinOne_insert (c : Char) (s : List Char) : WithinOne s (c :: s) := by
  intro t
  induction t with
  | nil =>
    simp only [leastEdits_nil_right, List.length_cons]
    omega
  | cons d t ih =>
    have hinsert := leastEdits_insert_le d s t
    rw [leastEdits_cons_cons]
    omega

theorem withinOne_replace (c d : Char) (s : List Char) : WithinOne (c :: s) (d :: s) := by
  intro t
  induction t with
  | nil => simp
  | cons x t ih =>
    have hinsert := leastEdits_insert_le x (c :: s) t
    have hdelete := leastEdits_delete_le c s (x :: t)
    have hreplace := leastEdits_replace_le c x s t
    rw [leastEdits_cons_cons d]
    omega

theorem WithinOne.cons (h : WithinOne s s') (c : Char) : WithinOne (c :: s) (c :: s') := by
  intro t
  induction t with
  | nil => simpa using h []
  | cons d t ih =>
    have hnear := h t
    have hnext := h (d :: t)
    rw [leastEdits_cons_cons, leastEdits_cons_cons]
    omega

theorem Change.withinOne_atFirst {change : Change} (h : change.atFirst? s = some s') :
    WithinOne s s' := by
  cases change with
  | insert c =>
    cases h
    exact withinOne_insert c s
  | delete =>
    cases s with
    | nil => cases h
    | cons c s =>
      cases h
      exact leastEdits_delete_le c _
  | replace d =>
    cases s with
    | nil => cases h
    | cons c s =>
      cases h
      exact withinOne_replace c d s

theorem Change.withinOne {change : Change} {place : Nat} (h : change.after? place s = some s') :
    WithinOne s s' := by
  induction place generalizing s s' with
  | zero => exact withinOne_atFirst h
  | succ place ih =>
    cases s with
    | nil => cases h
    | cons c s =>
      obtain ⟨rest, hrest, rfl⟩ := Option.map_eq_some_iff.mp h
      exact (ih hrest).cons c

end Bounds

namespace EditScript

variable {script : EditScript} {s t u : List Char}

theorem distance_le_length (h : script.run? s = some t) : leastEdits s t ≤ script.length := by
  induction script generalizing s with
  | nil =>
    cases h
    rw [leastEdits_self]
    exact Nat.zero_le _
  | cons edit script ih =>
    obtain ⟨place, change⟩ := edit
    obtain ⟨s', hchange, hrest⟩ := Option.bind_eq_some_iff.mp h
    have hnear := Change.withinOne hchange t
    have hlength := ih hrest
    rw [List.length_cons]
    omega

theorem run?_append {other : EditScript} (h : script.run? s = some t)
    (hother : other.run? t = some u) : run? (script ++ other) s = some u := by
  induction script generalizing s with
  | nil =>
    cases h
    exact hother
  | cons edit script ih =>
    obtain ⟨s', hchange, hrest⟩ := Option.bind_eq_some_iff.mp h
    exact Option.bind_eq_some_iff.mpr ⟨s', hchange, ih hrest⟩

/-- The script that makes the same changes behind one more character. -/
def shift (script : EditScript) : EditScript :=
  script.map fun (place, change) => (place + 1, change)

theorem run?_shift (c : Char) (h : script.run? s = some t) :
    script.shift.run? (c :: s) = some (c :: t) := by
  induction script generalizing s with
  | nil =>
    cases h
    rfl
  | cons edit script ih =>
    obtain ⟨s', hchange, hrest⟩ := Option.bind_eq_some_iff.mp h
    exact Option.bind_eq_some_iff.mpr ⟨c :: s', by rw [Change.after?, hchange]; rfl, ih hrest⟩

end EditScript

/-- A script of so many changes turns one text into the other. -/
def TurnsIn (n : Nat) (s t : List Char) : Prop :=
  ∃ script : EditScript, script.length = n ∧ script.run? s = some t

namespace TurnsIn

variable {n : Nat} {s t : List Char}

theorem keep (h : TurnsIn n s t) (c : Char) : TurnsIn n (c :: s) (c :: t) := by
  obtain ⟨script, rfl, hscript⟩ := h
  exact ⟨script.shift, List.length_map _, EditScript.run?_shift c hscript⟩

theorem insert (h : TurnsIn n s t) (c : Char) : TurnsIn (n + 1) s (c :: t) := by
  obtain ⟨script, rfl, hscript⟩ := h.keep c
  exact ⟨(0, .insert c) :: script, rfl, hscript⟩

theorem delete (h : TurnsIn n s t) (c : Char) : TurnsIn (n + 1) (c :: s) t := by
  obtain ⟨script, rfl, hscript⟩ := h
  exact ⟨(0, .delete) :: script, rfl, hscript⟩

theorem replace (h : TurnsIn n s t) (c d : Char) :
    TurnsIn (n + 1) (c :: s) (d :: t) := by
  obtain ⟨script, rfl, hscript⟩ := h.keep d
  exact ⟨(0, .replace d) :: script, rfl, hscript⟩

end TurnsIn

/-- The script follows the choice that the distance makes at each pair of characters. -/
theorem turnsIn_leastEdits (s t : List Char) : TurnsIn (leastEdits s t) s t := by
  induction s generalizing t with
  | nil =>
    rw [leastEdits_nil_left]
    induction t with
    | nil => exact ⟨[], rfl, rfl⟩
    | cons d t ih => exact ih.insert d
  | cons c s ihs =>
    induction t with
    | nil =>
      have h := (ihs []).delete c
      simpa using h
    | cons d t iht =>
      have hinsert := iht.insert d
      have hdelete := (ihs (d :: t)).delete c
      have hreplace : TurnsIn (leastEdits s t + if c = d then 0 else 1) (c :: s) (d :: t) := by
        split
        next h => exact h ▸ (ihs t).keep c
        next => exact (ihs t).replace c d
      rw [leastEdits_cons_cons]
      rcases min_choice (min (leastEdits (c :: s) t + 1) (leastEdits s (d :: t) + 1))
        (leastEdits s t + if c = d then 0 else 1) with h | h
      · rw [h]
        rcases min_choice (leastEdits (c :: s) t + 1) (leastEdits s (d :: t) + 1) with h | h
        · rwa [h]
        · rwa [h]
      · rwa [h]

theorem leastEdits_triangle (s t u : List Char) :
    leastEdits s u ≤ leastEdits s t + leastEdits t u := by
  obtain ⟨first, hfirst, hs⟩ := turnsIn_leastEdits s t
  obtain ⟨second, hsecond, ht⟩ := turnsIn_leastEdits t u
  have h := EditScript.distance_le_length (EditScript.run?_append hs ht)
  rwa [List.length_append, hfirst, hsecond] at h

theorem leastEdits_eq_zero_iff {s t : List Char} : leastEdits s t = 0 ↔ s = t := by
  constructor
  · intro h
    obtain ⟨script, hlength, hscript⟩ := turnsIn_leastEdits s t
    rw [h] at hlength
    cases List.length_eq_zero_iff.mp hlength
    exact Option.some.inj hscript
  · rintro rfl
    exact leastEdits_self s

theorem lengthGap_le_leastEdits (s t : List Char) :
    ((s.length : Int) - t.length).natAbs ≤ leastEdits s t := by
  have hleft := leastEdits_triangle s t []
  have hright := leastEdits_triangle t s []
  rw [leastEdits_comm t s] at hright
  simp only [leastEdits_nil_right] at hleft hright
  omega

section Rows

/-- The row holds the distances of a text to the first characters of another, up to a number. -/
structure HoldsDistances (s t : List Char) (count : Nat) (row : Array Nat) : Prop where
  size : row.size = count
  entry : ∀ j < count, row.getD j 0 = leastEdits s (t.take j)

variable {s t done : List Char} {previous current : Array Nat}

theorem HoldsDistances.first (t : List Char) :
    HoldsDistances [] t (t.length + 1) (Array.range (t.length + 1)) := by
  refine ⟨Array.size_range, ?_⟩
  intro j hj
  have hlength : (t.take j).length = j := List.length_take_of_le (by omega)
  rw [leastEdits_nil_left, hlength, Array.getD_eq_getD_getElem?, Array.getElem?_range, if_pos hj]
  rfl

theorem HoldsDistances.single (s t : List Char) : HoldsDistances s t 1 #[s.length] := by
  refine ⟨rfl, ?_⟩
  intro j hj
  obtain rfl : j = 0 := by omega
  rw [List.take_zero, leastEdits_nil_right]
  rfl

theorem HoldsDistances.push {count : Nat} (h : HoldsDistances s t count current) {distance : Nat}
    (hdistance : distance = leastEdits s (t.take count)) :
    HoldsDistances s t (count + 1) (current.push distance) := by
  refine ⟨by rw [Array.size_push, h.size], ?_⟩
  intro j hj
  have hsize := h.size
  by_cases hlast : j = count
  · subst hlast
    simp [← hsize, hdistance]
  · have hbefore := h.entry j (by omega)
    rw [← hbefore]
    simp [Array.getElem?_push, hsize, hlast]

/-- The loop over the second text keeps the current row right as far as it goes. -/
theorem holdsDistances_fillRow (c : Char) (hprevious : HoldsDistances s t (t.length + 1) previous)
    {rest : List Char} (hsplit : done ++ rest = t)
    (hcurrent : HoldsDistances (s ++ [c]) t (done.length + 1) current) :
    HoldsDistances (s ++ [c]) t (t.length + 1) (fillRow c previous rest done.length current) := by
  induction rest generalizing done current with
  | nil =>
    rw [List.append_nil] at hsplit
    rw [fillRow, ← hsplit]
    rwa [hsplit] at hcurrent ⊢
  | cons d rest ih =>
    have hlength : t.length = done.length + (rest.length + 1) := by simp [← hsplit]
    have hbefore : t.take done.length = done := by simp [← hsplit]
    have hafter : t.take (done.length + 1) = done ++ [d] := by
      rw [← hsplit, List.take_length_add_append, List.take_succ_cons, List.take_zero]
    have habove := hprevious.entry (done.length + 1) (by omega)
    have hleft := hcurrent.entry done.length (by omega)
    have hcorner := hprevious.entry done.length (by omega)
    rw [hafter] at habove
    rw [hbefore] at hleft hcorner
    have hentry : min (min (previous.getD (done.length + 1) 0 + 1) (current.getD done.length 0 + 1))
        (previous.getD done.length 0 + if c ≠ d then 1 else 0) =
          leastEdits (s ++ [c]) (t.take (done.length + 1)) := by
      rw [hafter, leastEdits_concat, habove, hleft, hcorner, ite_not, Nat.min_comm (_ + 1) (_ + 1)]
    have hnext : (done ++ [d]) ++ rest = t := by
      rw [List.append_assoc, List.singleton_append, hsplit]
    have hrest := ih hnext
      (by rw [List.length_append, List.length_singleton]; exact hcurrent.push hentry)
    rw [List.length_append, List.length_singleton] at hrest
    exact hrest

/-- The loop over the first text comes from the row of what is done to the row of all of it. -/
theorem holdsDistances_fillTable {rest : List Char} (hsplit : done ++ rest = s)
    (h : HoldsDistances done t (t.length + 1) previous) :
    HoldsDistances s t (t.length + 1) (fillTable t rest done.length previous) := by
  induction rest generalizing done previous with
  | nil =>
    rw [List.append_nil] at hsplit
    rw [fillTable, ← hsplit]
    exact h
  | cons c rest ih =>
    have hfirst : HoldsDistances (done ++ [c]) t 1 #[done.length + 1] := by
      have hsingle := HoldsDistances.single (done ++ [c]) t
      rwa [List.length_append, List.length_singleton] at hsingle
    have hrow := holdsDistances_fillRow c h (List.nil_append t) hfirst
    have hnext : (done ++ [c]) ++ rest = s := by
      rw [List.append_assoc, List.singleton_append, hsplit]
    have hrest := ih hnext hrow
    rw [List.length_append, List.length_singleton] at hrest
    exact hrest

theorem distanceToShorter_eq (s t : List Char) : distanceToShorter s t = leastEdits s t := by
  unfold distanceToShorter
  split
  next hempty =>
    rw [List.length_eq_zero_iff.mp hempty, leastEdits_nil_right]
  next =>
    have hrow : HoldsDistances s t (t.length + 1)
        (fillTable t s 0 (Array.range (t.length + 1))) :=
      holdsDistances_fillTable (List.nil_append s) (HoldsDistances.first t)
    have hlast := hrow.entry t.length (by omega)
    rw [List.take_length] at hlast
    rw [← hlast, Array.back?_eq_getElem?, hrow.size, Array.getD_eq_getD_getElem?]
    rfl

/-- The texts may be exchanged, and the table is right for both. -/
theorem editDistance_eq (s t : List Char) : editDistance s t = leastEdits s t := by
  unfold editDistance
  split
  next => rw [distanceToShorter_eq, leastEdits_comm]
  next => exact distanceToShorter_eq s t

end Rows

theorem lengthGap_le_editDistance (s t : List Char) :
    ((s.length : Int) - t.length).natAbs ≤ editDistance s t := by
  rw [editDistance_eq]
  exact lengthGap_le_leastEdits s t

/-- The edit distance is the length of a shortest script that turns one text into the other. It is
symmetric, zero on equal texts only, satisfies the triangle inequality, and is at least the
difference of the lengths. -/
theorem editDistance_shortest_script (s t : List Char) :
    (∃ script : EditScript, script.length = editDistance s t ∧ script.run? s = some t) ∧
      (∀ script : EditScript, script.run? s = some t → editDistance s t ≤ script.length) ∧
      editDistance s t = editDistance t s ∧ (editDistance s t = 0 ↔ s = t) ∧
      (∀ u, editDistance s u ≤ editDistance s t + editDistance t u) ∧
      ((s.length : Int) - t.length).natAbs ≤ editDistance s t := by
  simp only [editDistance_eq]
  exact ⟨turnsIn_leastEdits s t, fun _ h => EditScript.distance_le_length h, leastEdits_comm s t,
    leastEdits_eq_zero_iff, leastEdits_triangle s t, lengthGap_le_leastEdits s t⟩

example : editDistance "kitten".toList "sitting".toList = 3 := by decide

end ProgramTrees
