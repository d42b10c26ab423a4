import ProgramTrees.Proofs.IntegerRounding
import ProgramTrees.TreeReader

namespace ProgramTrees

def Json.IsCompound : Json → Prop
  | .arr _ | .obj _ => True
  | _ => False

/-- An integer of too many digits stands in the value. -/
inductive Json.HasLongInteger : Json → Prop where
  | int {n : Int} : Nat.pow 10 maxIntegerDigits ≤ n.natAbs → HasLongInteger (.int n)
  | item {items : List Json} {item : Json} :
      item ∈ items → HasLongInteger item → HasLongInteger (.arr items)
  | field {fields : List (String × Json)} {key : String} {value : Json} :
      (key, value) ∈ fields → HasLongInteger value → HasLongInteger (.obj fields)

/-- The value describes the tree, in a place where a node of the class is expected. -/
inductive Describes : NodeClass → Json → Program → Prop where
  | int {json : Json} {n : Int} :
      json.field? "kind" = some (.str "int") → json.field? "value" = some (.int n) →
      -2147483648 ≤ n → n ≤ 2147483647 →
      Describes .expression json (.int () (Int32.ofInt n))
  | float {json : Json} {x : Double} :
      json.field? "kind" = some (.str "float") → json.field? "value" = some (.float x) →
      Describes .expression json (.float () x)
  | wholeFloat {json : Json} {n : Int} :
      json.field? "kind" = some (.str "float") → json.field? "value" = some (.int n) →
      n.natAbs < Format.double.limit →
      Describes .expression json (.float () (Format.double.ofInt n))
  | var {json : Json} {name : String} :
      json.field? "kind" = some (.str "var") → json.field? "name" = some (.str name) →
      name ≠ "" → Describes .expression json (.var () name)
  | operator {json : Json} {op : Operator} {items : List Json} {operands : List Program} :
      json.field? "kind" = some (.str "operator") →
      json.field? "operator" = some (.str op.name) →
      json.field? "operands" = some (.arr items) → items.length = operands.length →
      (∀ item operand, (item, operand) ∈ items.zip operands →
        Describes .expression item operand) →
      Describes .expression json (.apply () op operands)
  | assignment {expected : NodeClass} {json below : Json} {name : String} {value : Program} :
      json.field? "kind" = some (.str "assignment") → json.field? "name" = some (.str name) →
      name ≠ "" → json.field? "value" = some below → Describes .expression below value →
      Describes expected json (.assign () name value)
  | sequence {json : Json} {items : List Json} {statements : List Program} :
      json.field? "kind" = some (.str "sequence") →
      json.field? "statements" = some (.arr items) → items.length = statements.length →
      (∀ item statement, (item, statement) ∈ items.zip statements →
        Describes .statement item statement) →
      Describes .statement json (.sequence () statements)
  | declared {json : Json} {ty : Ty} {name : String} :
      json.field? "kind" = some (.str "declaration") → json.field? "type" = some (.str ty.name) →
      json.field? "name" = some (.str name) → name ≠ "" →
      (json.field? "value" = none ∨ json.field? "value" = some .null) →
      Describes .statement json (.declare () ty name none)
  | initialized {json below : Json} {ty : Ty} {name : String} {value : Program} :
      json.field? "kind" = some (.str "declaration") → json.field? "type" = some (.str ty.name) →
      json.field? "name" = some (.str name) → name ≠ "" →
      json.field? "value" = some below → Describes .expression below value →
      Describes .statement json (.declare () ty name (some value))
  | text {json : Json} {text : String} :
      json.field? "kind" = some (.str "print") → json.field? "prefix" = some (.str text) →
      (json.field? "expression" = none ∨ json.field? "expression" = some .null) →
      Describes .statement json (.print () text none)
  | printed {json below : Json} {text : String} {value : Program} :
      json.field? "kind" = some (.str "print") → json.field? "prefix" = some (.str text) →
      json.field? "expression" = some below → Describes .expression below value →
      Describes .statement json (.print () text (some value))
  | loop {json test rounds : Json} {condition body : Program} :
      json.field? "kind" = some (.str "while") → json.field? "condition" = some test →
      Describes .expression test condition → json.field? "body" = some rounds →
      Describes .statement rounds body →
      Describes .statement json (.loop () condition body)

/-- The fields that nodes must have, each of a kind of node. -/
inductive RequiredField where
  | intValue
  | floatValue
  | varName
  | operator
  | operands
  | target
  | assigned
  | statements
  | type
  | declared
  | text
  | condition
  | body

def RequiredField.kind : RequiredField → String
  | .intValue => "int"
  | .floatValue => "float"
  | .varName => "var"
  | .operator | .operands => "operator"
  | .target | .assigned => "assignment"
  | .statements => "sequence"
  | .type | .declared => "declaration"
  | .text => "print"
  | .condition | .body => "while"

def RequiredField.key : RequiredField → String
  | .intValue | .floatValue | .assigned => "value"
  | .varName | .target | .declared => "name"
  | .operator => "operator"
  | .operands => "operands"
  | .statements => "statements"
  | .type => "type"
  | .text => "prefix"
  | .condition => "condition"
  | .body => "body"

/-- What comes before the field in a node is in order. -/
def RequiredField.IsNext (json : Json) : RequiredField → Prop
  | .operands => ∃ op : Operator, json.field? "operator" = some (.str op.name)
  | .assigned => ∃ name, json.field? "name" = some (.str name) ∧ name ≠ ""
  | .declared => ∃ ty : Ty, json.field? "type" = some (.str ty.name)
  | .body => ∃ test condition, json.field? "condition" = some test ∧
      Describes .expression test condition
  | .intValue | .floatValue | .varName | .operator | .target | .statements | .type | .text
  | .condition => True

/-- The value is one that the field may not have, apart from what is wrong in a node below. -/
def RequiredField.Refuses (value : Json) (fault : NodeFault) : RequiredField → Prop
  | .intValue => (∀ n, value ≠ .int n) ∧ fault = .notInteger ∨
      ∃ n, value = .int n ∧ (n < -2147483648 ∨ 2147483647 < n) ∧ fault = .outOfRange n
  | .floatValue => (∀ n, value ≠ .int n) ∧ (∀ x, value ≠ .float x) ∧ fault = .notNumber
  | .varName | .target | .declared =>
    (∀ name, value = .str name → name = "") ∧ fault = .badName
  | .operator => (∀ op : Operator, value ≠ .str op.name) ∧
      ∃ text, value.quoted? = some text ∧ fault = .unknownOperator text
  | .operands => (∀ items, value ≠ .arr items) ∧ fault = .notList "operands"
  | .statements => (∀ items, value ≠ .arr items) ∧ fault = .notList "statements"
  | .type => (∀ ty : Ty, value ≠ .str ty.name) ∧ ¬ value.IsCompound ∧
      ∃ text, value.quoted? = some text ∧ fault = .unknownType text
  | .text => (∀ text, value ≠ .str text) ∧ fault = .textNotString
  | .assigned | .condition | .body => False

/-- What is first found wrong with a node is wrong with the node itself and not with a node below:
it is no object, it has no kind of its class, or a field is missing or has a wrong value. -/
inductive Faulty : NodeClass → Json → NodeFault → Prop where
  | notObject {expected : NodeClass} {json : Json} : (∀ fields, json ≠ .obj fields) →
      Faulty expected json (.notObject json)
  | wrongKind {expected : NodeClass} {fields : List (String × Json)} {found : Json}
      {text : String} : ((Json.obj fields).field? "kind").getD .null = found →
      (∀ kind ∈ expected.kinds, found ≠ .str kind) → found.quoted? = some text →
      Faulty expected (.obj fields) (.wrongKind text expected)
  | missing {expected : NodeClass} {json : Json} (field : RequiredField) :
      json.field? "kind" = some (.str field.kind) → field.kind ∈ expected.kinds →
      field.IsNext json → json.field? field.key = none →
      Faulty expected json (.missingField field.key field.kind)
  | refused {expected : NodeClass} {json value : Json} {fault : NodeFault}
      (field : RequiredField) : json.field? "kind" = some (.str field.kind) →
      field.kind ∈ expected.kinds → field.IsNext json → json.field? field.key = some value →
      field.Refuses value fault → Faulty expected json fault

/-- A node fails by itself, with an error that does not tell its place. -/
inductive Unreported : NodeClass → Json → TreeError → Prop where
  | compoundType {json found : Json} :
      json.field? "kind" = some (.str "declaration") → json.field? "type" = some found →
      found.IsCompound → Unreported .statement json (.compoundType found)
  | hugeInteger {json : Json} {n : Int} :
      json.field? "kind" = some (.str "float") → json.field? "value" = some (.int n) →
      Format.double.limit ≤ n.natAbs → Unreported .expression json .hugeInteger
  | longKind {expected : NodeClass} {json found : Json} :
      json.field? "kind" = some found → found.HasLongInteger →
      Unreported expected json .longInteger
  | longType {json found : Json} :
      json.field? "kind" = some (.str "declaration") → json.field? "type" = some found →
      ¬ found.IsCompound → found.HasLongInteger → Unreported .statement json .longInteger
  | longOperator {json found : Json} :
      json.field? "kind" = some (.str "operator") → json.field? "operator" = some found →
      found.HasLongInteger → Unreported .expression json .longInteger

theorem Json.field?_eq_some {json value : Json} {key : String} :
    json.field? key = some value ↔
      ∃ fields, json = .obj fields ∧ Table.get? fields key = some value := by
  cases json <;> simp [Json.field?]

theorem Describes.kind {expected : NodeClass} {json : Json} {node : Program}
    (h : Describes expected json node) :
    ∃ kind, json.field? "kind" = some (.str kind) ∧ kind ∈ expected.kinds := by
  cases h with
  | assignment hkind => exact ⟨_, hkind, by cases expected <;> decide⟩
  | int hkind | float hkind | wholeFloat hkind | var hkind | operator hkind | sequence hkind
  | declared hkind | initialized hkind | text hkind | printed hkind | loop hkind =>
    exact ⟨_, hkind, by decide⟩

theorem Describes.ne_null {expected : NodeClass} {json : Json} {node : Program}
    (h : Describes expected json node) : json ≠ .null := by
  rintro rfl
  obtain ⟨kind, hkind, -⟩ := h.kind
  cases hkind

theorem sizeOf_field? {json value : Json} {key : String} (h : json.field? key = some value) :
    sizeOf value < sizeOf json := by
  obtain ⟨fields, rfl, h⟩ := Json.field?_eq_some.mp h
  have := sizeOf_get? h
  simp only [Json.obj.sizeOf_spec]
  omega

theorem sizeOf_item {json item : Json} {key : String} {items : List Json}
    (h : json.field? key = some (.arr items)) (hitem : item ∈ items) :
    sizeOf item < sizeOf json := by
  have hitems := sizeOf_field? h
  have hless := List.sizeOf_lt_of_mem hitem
  simp only [Json.arr.sizeOf_spec] at hitems
  omega

theorem forall_of_mem_zip {items : List Json} {nodes : List Program} {P : Program → Prop}
    (hlength : items.length = nodes.length)
    (h : ∀ item node, (item, node) ∈ items.zip nodes → P node) : ∀ node ∈ nodes, P node := by
  intro node hnode
  have hsnd : (items.zip nodes).map Prod.snd = nodes := List.map_snd_zip hlength.ge
  rw [← hsnd, List.mem_map] at hnode
  obtain ⟨⟨item, node⟩, hpair, rfl⟩ := hnode
  exact h item node hpair

/-- The tree of an object has every node in its place. -/
theorem Describes.inPlace {expected : NodeClass} {json : Json} {node : Program}
    (h : Describes expected json node) :
    match expected with
    | .statement => IsStmt node
    | .expression => IsExpr node := by
  induction h with
  | int => exact .int ..
  | float | wholeFloat => exact .float ..
  | var => exact .var ..
  | operator _ _ _ hlength _ ih => exact .apply _ _ (forall_of_mem_zip hlength ih)
  | @assignment expected _ _ _ _ _ _ _ _ _ ih =>
    cases expected with
    | statement => exact .assign _ _ ih
    | expression => exact .assign _ _ ih
  | sequence _ _ hlength _ ih => exact .sequence _ (forall_of_mem_zip hlength ih)
  | declared => exact .declare _ _ _ nofun
  | initialized _ _ _ _ _ _ ih => exact .declare _ _ _ fun e he => Option.mem_some.mp he ▸ ih
  | text => exact .print _ _ nofun
  | printed _ _ _ _ ih => exact .print _ _ fun e he => Option.mem_some.mp he ▸ ih
  | loop _ _ _ _ _ ihcondition ihbody => exact .loop _ ihcondition ihbody

theorem not_hasLongInteger_str (text : String) : ¬ (Json.str text).HasLongInteger := nofun

theorem option_bind_pure_eq_none {α β : Type} {found : Option α} {f : α → β} :
    (found >>= fun a => pure (f a)) = none ↔ found = none := by
  cases found <;> simp

theorem allQuoted?_eq_none {items : List Json} :
    Json.allQuoted? items = none ↔ ∃ item ∈ items, item.quoted? = none := by
  induction items with
  | nil => simp [Json.allQuoted?]
  | cons item items ih =>
    rw [Json.allQuoted?, List.exists_mem_cons_iff, ← ih]
    cases item.quoted? with
    | none => simp
    | some text => exact option_bind_pure_eq_none.trans (by simp)

theorem fieldsQuoted?_eq_none {fields : List (String × Json)} :
    Json.fieldsQuoted? fields = none ↔ ∃ field ∈ fields, field.2.quoted? = none := by
  induction fields with
  | nil => simp [Json.fieldsQuoted?]
  | cons field fields ih =>
    obtain ⟨key, value⟩ := field
    rw [Json.fieldsQuoted?, List.exists_mem_cons_iff, ← ih]
    cases value.quoted? with
    | none => simp
    | some text => exact option_bind_pure_eq_none.trans (by simp)

/-- A value has no text in a message exactly if an integer of too many digits stands in it. -/
theorem quoted?_eq_none (json : Json) : json.quoted? = none ↔ json.HasLongInteger := by
  cases json with
  | null | float | str => exact ⟨nofun, nofun⟩
  | bool value => cases value <;> exact ⟨nofun, nofun⟩
  | int n =>
    rw [Json.quoted?, integerText?, ite_eq_left_iff]
    refine ⟨fun h => .int ?_, ?_⟩
    · by_contra hlong
      exact absurd (h hlong) (by simp)
    · rintro ⟨hlong⟩ hshort
      exact absurd hlong hshort
  | arr items =>
    have ih : ∀ item ∈ items, (item.quoted? = none ↔ item.HasLongInteger) := fun item hitem =>
      have hless := List.sizeOf_lt_of_mem hitem
      quoted?_eq_none item
    rw [Json.quoted?, option_bind_pure_eq_none, allQuoted?_eq_none]
    constructor
    · rintro ⟨item, hitem, h⟩
      exact .item hitem ((ih item hitem).mp h)
    · rintro (_ | ⟨hitem, h⟩)
      exact ⟨_, hitem, (ih _ hitem).mpr h⟩
  | obj fields =>
    have ih : ∀ field ∈ fields, (field.2.quoted? = none ↔ field.2.HasLongInteger) :=
      fun (key, value) hfield =>
        have hless := List.sizeOf_lt_of_mem hfield
        quoted?_eq_none value
    rw [Json.quoted?, option_bind_pure_eq_none, fieldsQuoted?_eq_none]
    constructor
    · rintro ⟨⟨key, value⟩, hfield, h⟩
      exact .field hfield ((ih _ hfield).mp h)
    · rintro (_ | _ | ⟨hfield, h⟩)
      exact ⟨_, hfield, (ih _ hfield).mpr h⟩
termination_by sizeOf json
decreasing_by all_goals simp_all; omega

end ProgramTrees
