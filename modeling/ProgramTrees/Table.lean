namespace ProgramTrees

/-- A finite map as its entries in the order in which their keys came. -/
abbrev Table (κ α : Type) := List (κ × α)

variable {κ α : Type} [DecidableEq κ]

def Table.get? (table : Table κ α) (key : κ) : Option α :=
  match table with
  | [] => none
  | (k, v) :: rest => if key = k then some v else Table.get? rest key

/-- Sets an entry: a key that is there keeps its place, a new one comes last. -/
def Table.set (table : Table κ α) (key : κ) (value : α) : Table κ α :=
  match table with
  | [] => [(key, value)]
  | (k, v) :: rest => if k = key then (k, value) :: rest else (k, v) :: Table.set rest key value

@[simp] theorem Table.get?_nil (key : κ) : Table.get? ([] : Table κ α) key = none := rfl

theorem Table.get?_cons (entry : κ × α) (rest : Table κ α) (key : κ) :
    Table.get? (entry :: rest) key =
      if key = entry.1 then some entry.2 else Table.get? rest key := rfl

theorem Table.get?_set (table : Table κ α) (key other : κ) (value : α) :
    (table.set key value).get? other = if other = key then some value else table.get? other := by
  induction table with
  | nil => simp [Table.set, Table.get?_cons]
  | cons entry rest ih =>
    obtain ⟨k, v⟩ := entry
    by_cases hk : k = key
    · subst hk
      by_cases ho : other = k <;> simp [Table.set, Table.get?_cons, ho]
    · by_cases ho : other = k
      · subst ho
        simp [Table.set, Table.get?_cons, hk]
      · simp [Table.set, Table.get?_cons, hk, ho, ih]

@[simp] theorem Table.get?_set_self (table : Table κ α) (key : κ) (value : α) :
    (table.set key value).get? key = some value := by
  simp [Table.get?_set]

/-- Setting an entry to what it is changes nothing. -/
theorem Table.set_eq_self {table : Table κ α} {key : κ} {value : α}
    (h : table.get? key = some value) : table.set key value = table := by
  induction table with
  | nil => simp at h
  | cons entry rest ih =>
    obtain ⟨k, v⟩ := entry
    rw [Table.get?_cons] at h
    split at h
    next heq =>
      cases h
      simp [Table.set, heq]
    next hne => simp [Table.set, Ne.symm hne, ih h]

theorem Table.get?_append (table other : Table κ α) (key : κ) :
    Table.get? (table ++ other) key = (table.get? key).or (other.get? key) := by
  induction table with
  | nil => rfl
  | cons entry rest ih =>
    rw [List.cons_append, Table.get?_cons, Table.get?_cons]
    split
    next => rfl
    next => exact ih

theorem Table.get?_eq_none {table : Table κ α} {key : κ} :
    table.get? key = none ↔ key ∉ table.map Prod.fst := by
  induction table with
  | nil => simp
  | cons entry rest ih =>
    rw [Table.get?_cons]
    split
    next h => simp [h]
    next h => simp [h, ih]

end ProgramTrees
