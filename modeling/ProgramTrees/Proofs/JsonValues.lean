import Mathlib.Data.List.TakeWhile
import ProgramTrees.Proofs.JsonNumbers
import ProgramTrees.Proofs.JsonStrings

namespace ProgramTrees

/-- No object in the value has a key twice, and no integer has too many digits. -/
inductive Json.IsReadable : Json → Prop where
  | null : IsReadable .null
  | bool (value : Bool) : IsReadable (.bool value)
  | int {value : Int} : value.natAbs < Nat.pow 10 maxIntegerDigits → IsReadable (.int value)
  | float (value : Double) : IsReadable (.float value)
  | str (value : String) : IsReadable (.str value)
  | arr {items : List Json} : (∀ item ∈ items, IsReadable item) → IsReadable (.arr items)
  | obj {fields : List (String × Json)} : (fields.map Prod.fst).Nodup →
      (∀ field ∈ fields, IsReadable field.2) → IsReadable (.obj fields)

/-- A layout that puts nothing but blanks between the items. -/
structure JsonLayout.IsBlank (layout : JsonLayout) : Prop where
  gap : ∀ level, ∀ c ∈ layout.gap level, isJsonBlank c = true
  afterComma : ∀ level, ∀ c ∈ layout.afterComma level, isJsonBlank c = true

mutual

/-- A budget that reading a value does not use up. -/
def Json.cost : Json → Nat
  | .arr items => Json.itemsCost items + 1
  | .obj fields => Json.fieldsCost fields + 1
  | _ => 1

def Json.itemsCost : List Json → Nat
  | [] => 0
  | item :: items => item.cost + Json.itemsCost items + 1

def Json.fieldsCost : List (String × Json) → Nat
  | [] => 0
  | (_, value) :: fields => value.cost + Json.fieldsCost fields + 1

end

/-- What may follow a value: the end of the text, or a character that ends every value. -/
def EndsValue (rest : List Char) : Prop :=
  ∀ c ∈ rest.head?, isJsonBlank c = true ∨ c ∈ [',', ']', '\x7d']

section Delimiters

variable {blanks cs rest : List Char}

theorem EndsValue.endsNumeral (h : EndsValue rest) : EndsNumeral rest := by
  have hne (c : Char) (hblank : isJsonBlank c = false) (hmem : c ∉ [',', ']', '\x7d'])
      (t : List Char) : rest ≠ c :: t := by
    rintro rfl
    rcases h c rfl with hc | hc
    · rw [hblank] at hc
      exact nomatch hc
    · exact hmem hc
  refine ⟨?_, hne '.' (by decide) (by decide), hne 'e' (by decide) (by decide),
    hne 'E' (by decide) (by decide)⟩
  intro c hc
  rcases h c hc with hblank | hmem
  · simp only [isJsonBlank, Bool.or_eq_true, beq_iff_eq] at hblank
    rcases hblank with ((rfl | rfl) | rfl) | rfl <;> decide
  · have hall : [',', ']', '\x7d'].all (fun c => !c.isDigit) = true := by decide
    simpa using List.all_eq_true.mp hall c hmem

theorem endsValue_blanks {c : Char} (hblanks : ∀ c ∈ blanks, isJsonBlank c = true)
    (hc : c ∈ [',', ']', '\x7d']) (rest : List Char) : EndsValue (blanks ++ c :: rest) := by
  intro d hd
  cases blanks with
  | nil =>
    obtain rfl : c = d := by simpa using hd
    exact .inr hc
  | cons b blanks =>
    obtain rfl : b = d := by simpa using hd
    exact .inl (hblanks b (by simp))

theorem skipBlanks_append (hblanks : ∀ c ∈ blanks, isJsonBlank c = true) (cs : List Char) :
    skipBlanks (blanks ++ cs) = skipBlanks cs :=
  List.dropWhile_append_of_pos hblanks

theorem skipBlanks_cons {c : Char} (hc : isJsonBlank c = false) (cs : List Char) :
    skipBlanks (c :: cs) = c :: cs := by
  rw [skipBlanks, List.dropWhile_cons_of_neg (by simp [hc])]

end Delimiters

/-- A text at whose beginning a value stands: it begins with no blank, no bracket that closes an
array and no byte order mark. -/
structure BeginsValue (cs : List Char) : Prop where
  blanks : skipBlanks cs = cs
  bracket : ∀ rest, cs ≠ ']' :: rest
  mark : ∀ rest, cs ≠ '\ufeff' :: rest

theorem beginsValue_of_readValue {budget : Nat} {cs : List Char} {result : Json × List Char}
    (h : readValue budget cs = .ok result) : BeginsValue cs := by
  have hne (c : Char) (hscalar : ∀ t, readScalar (c :: t) = .error (.before .noValue (c :: t)))
      (hquote : c ≠ '"') (hbracket : c ≠ '[') (hbrace : c ≠ '\x7b') (t : List Char) :
      cs ≠ c :: t := by
    rintro rfl
    cases budget with
    | zero => exact nomatch h
    | succ budget =>
      rw [readValue.eq_def] at h
      simp [hquote, hbracket, hbrace, hscalar] at h
  refine ⟨?_, ?_, ?_⟩
  · cases hcs : cs with
    | nil => rfl
    | cons c t =>
      refine skipBlanks_cons (Bool.not_eq_true _ ▸ fun hblank => ?_) t
      simp only [isJsonBlank, Bool.or_eq_true, beq_iff_eq] at hblank
      rcases hblank with ((rfl | rfl) | rfl) | rfl <;>
        exact hne _ (fun _ => rfl) (by decide) (by decide) (by decide) t hcs
  · exact hne ']' (fun _ => rfl) (by decide) (by decide) (by decide)
  · exact hne '\ufeff' (fun _ => rfl) (by decide) (by decide) (by decide)

section Values

variable {layout : JsonLayout} {budget level : Nat} {rest : List Char}

/-- The value is read back from its text in the layout, whatever follows that ends a value. -/
def ReadsBack (layout : JsonLayout) (value : Json) : Prop :=
  ∀ level budget rest, value.cost ≤ budget → EndsValue rest →
    readValue budget (value.chars layout level ++ rest) = .ok (value, rest)

theorem ReadsBack.begins {value : Json} (h : ReadsBack layout value) (level : Nat)
    (hrest : EndsValue rest) : BeginsValue (value.chars layout level ++ rest) :=
  beginsValue_of_readValue (h level value.cost rest (Nat.le_refl _) hrest)

theorem readValue_scalar {cs : List Char} {result : Json × List Char}
    (h : readScalar cs = .ok result) : readValue (budget + 1) cs = .ok result := by
  rw [readValue.eq_def]
  dsimp only
  split
  next => exact nomatch h
  next => exact nomatch h
  next => exact nomatch h
  next => exact h

theorem readValue_string (s : String) (rest : List Char) :
    readValue (budget + 1) (jsonString s ++ rest) = .ok (.str s, rest) := by
  have htext : jsonString s ++ rest =
      '"' :: (s.toList.flatMap escapeChar ++ '"' :: rest) := by
    simp [jsonString]
  rw [htext, readValue, readString_flatMap]
  simp [Except.map]

section Arrays

variable {cs more left blanks : List Char} {item : Json} {items : List Json}

theorem readItems_last (hread : readValue budget cs = .ok (item, more))
    (hmore : skipBlanks more = ']' :: left) :
    readItems (budget + 1) cs = .ok ([item], left) := by
  simp [readItems, hread, hmore, bind, Except.bind]

theorem readItems_next (hread : readValue budget cs = .ok (item, more))
    (hmore : skipBlanks more = ',' :: rest)
    (hrest : readItems budget (skipBlanks rest) = .ok (items, left)) :
    readItems (budget + 1) cs = .ok (item :: items, left) := by
  simp [readItems, hread, hmore, hrest, bind, Except.bind, Except.map]

theorem endsValue_items (layout : JsonLayout) (level : Nat) (items : List Json)
    (hends : EndsValue rest) : EndsValue (Json.itemsChars layout level items ++ rest) := by
  cases items with
  | nil => exact hends
  | cons item items =>
    intro c hc
    obtain rfl : ',' = c := by simpa [Json.itemsChars] using hc
    exact .inr (by decide)

theorem readItems_chars (hlayout : layout.IsBlank)
    (ih : ∀ value ∈ item :: items, ReadsBack layout value)
    (hblanks : ∀ c ∈ blanks, isJsonBlank c = true)
    (hbudget : Json.itemsCost (item :: items) ≤ budget) :
    readItems budget (item.chars layout level ++ (Json.itemsChars layout level items ++
      (blanks ++ ']' :: rest))) = .ok (item :: items, rest) := by
  have hclose : EndsValue (blanks ++ ']' :: rest) := endsValue_blanks hblanks (by decide) rest
  rw [Json.itemsCost] at hbudget
  induction items generalizing item budget with
  | nil =>
    obtain ⟨budget, rfl⟩ : ∃ b, budget = b + 1 := ⟨budget - 1, by omega⟩
    have hread := ih item (by simp) level budget _ (by omega) hclose
    refine readItems_last hread ?_
    rw [skipBlanks_append hblanks, skipBlanks_cons (by decide)]
  | cons next items ih' =>
    rw [Json.itemsCost] at hbudget
    obtain ⟨budget, rfl⟩ : ∃ b, budget = b + 1 := ⟨budget - 1, by omega⟩
    have hnext : ∀ value ∈ next :: items, ReadsBack layout value :=
      fun value hvalue => ih value (List.mem_cons_of_mem item hvalue)
    have hread := ih item (by simp) level budget _ (by omega)
      (endsValue_items layout level (next :: items) hclose)
    have hbegins := (hnext next (by simp)).begins level (endsValue_items layout level items hclose)
    have hcomma : skipBlanks (Json.itemsChars layout level (next :: items) ++
        (blanks ++ ']' :: rest)) = ',' :: (layout.afterComma level ++ (next.chars layout level ++
          (Json.itemsChars layout level items ++ (blanks ++ ']' :: rest)))) := by
      simp only [Json.itemsChars, List.cons_append, List.append_assoc]
      exact skipBlanks_cons (by decide) _
    refine readItems_next hread hcomma ?_
    rw [skipBlanks_append (hlayout.afterComma level), hbegins.blanks]
    exact ih' hnext (by omega)

end Arrays

section Objects

variable {cs more left blanks : List Char} {key : String} {value : Json}
variable {before fields : List (String × Json)}

theorem Table.set_of_new {table : List (String × Json)} (h : key ∉ table.map Prod.fst) :
    Table.set table key value = table ++ [(key, value)] := by
  induction table with
  | nil => rfl
  | cons entry table ih =>
    rw [List.map_cons, List.mem_cons, not_or] at h
    rw [Table.set, if_neg (Ne.symm h.1), ih h.2]
    rfl

theorem field_chars (key : String) (cs : List Char) :
    jsonString key ++ ([':', ' '] ++ cs) =
      '"' :: (key.toList.flatMap escapeChar ++ '"' :: ':' :: ' ' :: cs) := by
  simp [jsonString]

theorem readFields_last (hbegins : BeginsValue cs) (hread : readValue budget cs = .ok (value, more))
    (hmore : skipBlanks more = '\x7d' :: left) :
    readFields (budget + 1) before (jsonString key ++ ([':', ' '] ++ cs)) =
      .ok (Table.set before key value, left) := by
  have hblank : skipBlanks (' ' :: cs) = cs := hbegins.blanks
  have hcolon : skipBlanks (':' :: ' ' :: cs) = ':' :: ' ' :: cs := rfl
  rw [field_chars, readFields, readString_flatMap]
  simp [hcolon, hblank, hread, hmore, bind, Except.bind]

theorem readFields_next (hbegins : BeginsValue cs) (hread : readValue budget cs = .ok (value, more))
    (hmore : skipBlanks more = ',' :: rest)
    (hrest :
      readFields budget (Table.set before key value) (skipBlanks rest) = .ok (fields, left)) :
    readFields (budget + 1) before (jsonString key ++ ([':', ' '] ++ cs)) = .ok (fields, left) := by
  have hblank : skipBlanks (' ' :: cs) = cs := hbegins.blanks
  have hcolon : skipBlanks (':' :: ' ' :: cs) = ':' :: ' ' :: cs := rfl
  rw [field_chars, readFields, readString_flatMap]
  simp [hcolon, hblank, hread, hmore, hrest, bind, Except.bind]

theorem endsValue_fields (layout : JsonLayout) (level : Nat) (fields : List (String × Json))
    (hends : EndsValue rest) : EndsValue (Json.fieldsChars layout level fields ++ rest) := by
  cases fields with
  | nil => exact hends
  | cons field fields =>
    intro c hc
    obtain rfl : ',' = c := by simpa [Json.fieldsChars] using hc
    exact .inr (by decide)

theorem skipBlanks_jsonString (key : String) (cs : List Char) :
    skipBlanks (jsonString key ++ cs) = jsonString key ++ cs :=
  skipBlanks_cons (by decide) _

theorem not_mem_of_nodup_keys (hkeys : ((before ++ (key, value) :: fields).map Prod.fst).Nodup) :
    key ∉ before.map Prod.fst := by
  intro hmem
  rw [List.map_append, List.nodup_append] at hkeys
  exact hkeys.2.2 key hmem key (by simp) rfl

theorem readFields_chars (hlayout : layout.IsBlank)
    (ih : ∀ field ∈ (key, value) :: fields, ReadsBack layout field.2)
    (hkeys : ((before ++ (key, value) :: fields).map Prod.fst).Nodup)
    (hblanks : ∀ c ∈ blanks, isJsonBlank c = true)
    (hbudget : Json.fieldsCost ((key, value) :: fields) ≤ budget) :
    readFields budget before (jsonString key ++ ([':', ' '] ++ (value.chars layout level ++
      (Json.fieldsChars layout level fields ++ (blanks ++ '\x7d' :: rest))))) =
        .ok (before ++ (key, value) :: fields, rest) := by
  have hclose : EndsValue (blanks ++ '\x7d' :: rest) := endsValue_blanks hblanks (by decide) rest
  rw [Json.fieldsCost] at hbudget
  induction fields generalizing key value before budget with
  | nil =>
    obtain ⟨budget, rfl⟩ : ∃ b, budget = b + 1 := ⟨budget - 1, by omega⟩
    have hvalue : ReadsBack layout value := ih (key, value) (by simp)
    have hnew := not_mem_of_nodup_keys hkeys
    have hread := hvalue level budget _ (by omega) hclose
    rw [← Table.set_of_new hnew]
    refine readFields_last (hvalue.begins level hclose) hread ?_
    rw [skipBlanks_append hblanks, skipBlanks_cons (by decide)]
  | cons next fields ih' =>
    obtain ⟨nextKey, nextValue⟩ := next
    rw [Json.fieldsCost] at hbudget
    obtain ⟨budget, rfl⟩ : ∃ b, budget = b + 1 := ⟨budget - 1, by omega⟩
    have hnext : ∀ field ∈ (nextKey, nextValue) :: fields, ReadsBack layout field.2 :=
      fun field hfield => ih field (List.mem_cons_of_mem _ hfield)
    have hends := endsValue_fields layout level ((nextKey, nextValue) :: fields) hclose
    have hvalue : ReadsBack layout value := ih (key, value) (by simp)
    have hnew := not_mem_of_nodup_keys hkeys
    have hread := hvalue level budget _ (by omega) hends
    have happend : before ++ (key, value) :: (nextKey, nextValue) :: fields =
        (before ++ [(key, value)]) ++ (nextKey, nextValue) :: fields := by simp
    rw [happend] at hkeys ⊢
    have hcomma : skipBlanks (Json.fieldsChars layout level ((nextKey, nextValue) :: fields) ++
        (blanks ++ '\x7d' :: rest)) = ',' :: (layout.afterComma level ++ (jsonString nextKey ++
          ([':', ' '] ++ (nextValue.chars layout level ++
            (Json.fieldsChars layout level fields ++ (blanks ++ '\x7d' :: rest)))))) := by
      simp only [Json.fieldsChars, List.cons_append, List.append_assoc]
      exact skipBlanks_cons (by decide) _
    refine readFields_next (hvalue.begins level hends) hread hcomma ?_
    rw [Table.set_of_new hnew, skipBlanks_append (hlayout.afterComma level), skipBlanks_jsonString]
    exact ih' hnext hkeys (by omega)

end Objects

theorem readsBack_scalar {value : Json}
    (h : ∀ level rest, EndsValue rest →
      readScalar (value.chars layout level ++ rest) = .ok (value, rest))
    (hcost : 0 < value.cost) : ReadsBack layout value := by
  intro level budget rest hbudget hrest
  obtain ⟨budget, rfl⟩ : ∃ b, budget = b + 1 := ⟨budget - 1, by omega⟩
  exact readValue_scalar (h level rest hrest)

theorem readsBack_arr (hlayout : layout.IsBlank) {items : List Json}
    (ih : ∀ item ∈ items, ReadsBack layout item) : ReadsBack layout (.arr items) := by
  intro level budget rest hbudget hrest
  rw [Json.cost] at hbudget
  obtain ⟨budget, rfl⟩ : ∃ b, budget = b + 1 := ⟨budget - 1, by omega⟩
  cases items with
  | nil => rfl
  | cons item items =>
    have hclose : EndsValue (layout.gap level ++ ']' :: rest) :=
      endsValue_blanks (hlayout.gap level) (by decide) rest
    have hbegins := (ih item (by simp)).begins (level + 1)
      (endsValue_items layout (level + 1) items hclose)
    have hread : readItems budget (item.chars layout (level + 1) ++ (Json.itemsChars layout
        (level + 1) items ++ (layout.gap level ++ ']' :: rest))) = .ok (item :: items, rest) :=
      readItems_chars hlayout ih (hlayout.gap level) (by omega)
    simp only [Json.chars, List.cons_append, List.append_assoc, List.nil_append]
    rw [readValue, skipBlanks_append (hlayout.gap (level + 1)), hbegins.blanks]
    split
    next heq => exact absurd heq (hbegins.bracket _)
    next => rw [hread]; rfl

theorem readsBack_obj (hlayout : layout.IsBlank) {fields : List (String × Json)}
    (hkeys : (fields.map Prod.fst).Nodup)
    (ih : ∀ field ∈ fields, ReadsBack layout field.2) : ReadsBack layout (.obj fields) := by
  intro level budget rest hbudget hrest
  rw [Json.cost] at hbudget
  obtain ⟨budget, rfl⟩ : ∃ b, budget = b + 1 := ⟨budget - 1, by omega⟩
  cases fields with
  | nil => rfl
  | cons field fields =>
    obtain ⟨key, value⟩ := field
    have hread : readFields budget [] (jsonString key ++ ([':', ' '] ++
        (value.chars layout (level + 1) ++ (Json.fieldsChars layout (level + 1) fields ++
          (layout.gap level ++ '\x7d' :: rest))))) = .ok ((key, value) :: fields, rest) :=
      readFields_chars hlayout ih hkeys (hlayout.gap level) (by omega)
    simp only [Json.chars, List.cons_append, List.append_assoc, List.nil_append] at hread ⊢
    rw [readValue, skipBlanks_append (hlayout.gap (level + 1)), skipBlanks_jsonString]
    split
    next heq => exact nomatch heq
    next => rw [hread]; rfl

/-- Every value is read back whose objects have each key once and whose integers are not too long. -/
theorem Json.IsReadable.readsBack {value : Json} (h : value.IsReadable)
    (hlayout : layout.IsBlank) : ReadsBack layout value := by
  induction h with
  | null => exact readsBack_scalar (fun _ _ _ => rfl) (by decide)
  | bool value =>
    cases value with
    | false => exact readsBack_scalar (fun _ _ _ => rfl) (by decide)
    | true => exact readsBack_scalar (fun _ _ _ => rfl) (by decide)
  | int hvalue =>
    refine readsBack_scalar (fun level rest hrest => ?_) Nat.one_pos
    rw [Json.chars]
    exact readScalar_int hvalue hrest.endsNumeral
  | float value =>
    refine readsBack_scalar (fun level rest hrest => ?_) Nat.one_pos
    rw [Json.chars]
    exact readScalar_float value hrest.endsNumeral
  | str value =>
    intro level budget rest hbudget hrest
    have hpos : 0 < budget := hbudget
    obtain ⟨budget, rfl⟩ : ∃ b, budget = b + 1 := ⟨budget - 1, by omega⟩
    rw [Json.chars]
    exact readValue_string value rest
  | arr _ ih => exact readsBack_arr hlayout ih
  | obj hkeys _ ih => exact readsBack_obj hlayout hkeys ih

end Values

section Texts

variable {layout : JsonLayout}

theorem itemsCost_le {items : List Json}
    (ih : ∀ item ∈ items, ∀ level, item.cost ≤ 2 * (item.chars layout level).length + 1)
    (level : Nat) :
    Json.itemsCost items ≤ 2 * (Json.itemsChars layout level items).length := by
  induction items with
  | nil => exact Nat.zero_le _
  | cons item items ih' =>
    have hitem := ih item (by simp) level
    have hitems := ih' fun item' hitem' => ih item' (List.mem_cons_of_mem item hitem')
    simp only [Json.itemsCost, Json.itemsChars, List.cons_append, List.length_cons,
      List.length_append]
    omega

theorem fieldsCost_le {fields : List (String × Json)}
    (ih : ∀ field ∈ fields, ∀ level,
      field.2.cost ≤ 2 * (field.2.chars layout level).length + 1) (level : Nat) :
    Json.fieldsCost fields ≤ 2 * (Json.fieldsChars layout level fields).length := by
  induction fields with
  | nil => exact Nat.zero_le _
  | cons field fields ih' =>
    obtain ⟨key, value⟩ := field
    have hvalue := ih (key, value) (by simp) level
    have hfields := ih' fun field' hfield' => ih field' (List.mem_cons_of_mem _ hfield')
    simp only [Json.fieldsCost, Json.fieldsChars, List.cons_append, List.length_cons,
      List.length_append]
    dsimp only at hvalue
    omega

theorem Json.IsReadable.cost_le {value : Json} (h : value.IsReadable) (layout : JsonLayout)
    (level : Nat) : value.cost ≤ 2 * (value.chars layout level).length + 1 := by
  induction h generalizing level with
  | null | bool | int | float | str =>
    exact Nat.succ_le_succ (Nat.zero_le _)
  | @arr items _ ih =>
    cases items with
    | nil => exact Nat.succ_le_succ (Nat.zero_le _)
    | cons item items =>
      have hitem := ih item (by simp) (level + 1)
      have hitems : Json.itemsCost items ≤
          2 * (Json.itemsChars layout (level + 1) items).length :=
        itemsCost_le (fun item' hitem' => ih item' (List.mem_cons_of_mem item hitem')) (level + 1)
      simp only [Json.cost, Json.itemsCost, Json.chars, List.cons_append, List.length_cons,
        List.length_append, List.length_nil]
      omega
  | @obj fields _ _ ih =>
    cases fields with
    | nil => exact Nat.succ_le_succ (Nat.zero_le _)
    | cons field fields =>
      obtain ⟨key, value⟩ := field
      have hvalue := ih (key, value) (by simp) (level + 1)
      have hfields : Json.fieldsCost fields ≤
          2 * (Json.fieldsChars layout (level + 1) fields).length :=
        fieldsCost_le (fun field' hfield' => ih field' (List.mem_cons_of_mem _ hfield')) (level + 1)
      simp only [Json.cost, Json.fieldsCost, Json.chars, List.cons_append, List.length_cons,
        List.length_append, List.length_nil]
      dsimp only at hvalue
      omega

/-- A value is parsed from its text, also with blanks after it. -/
theorem Json.IsReadable.parse {value : Json} (h : value.IsReadable) (hlayout : layout.IsBlank)
    {blanks : List Char} (hblanks : ∀ c ∈ blanks, isJsonBlank c = true) :
    Json.parse (value.chars layout 0 ++ blanks) = .ok value := by
  have hends : EndsValue blanks := fun c hc => .inl (hblanks c (List.mem_of_mem_head? hc))
  have hreads := h.readsBack hlayout
  have hbegins := hreads.begins 0 hends
  have hcost : value.cost ≤ 2 * (value.chars layout 0 ++ blanks).length + 2 := by
    have hle := h.cost_le layout 0
    rw [List.length_append]
    omega
  have hmark : (value.chars layout 0 ++ blanks).head? ≠ some '\ufeff' := by
    rw [Ne, List.head?_eq_some_iff, not_exists]
    exact hbegins.mark
  have hnothing : skipBlanks blanks = [] := List.dropWhile_eq_nil_iff.mpr hblanks
  rw [Json.parse, if_neg hmark, hbegins.blanks, hreads 0 _ blanks hcost hends]
  simp [hnothing, bind, Except.bind]

end Texts

end ProgramTrees
