import ProgramTrees.Commands
import ProgramTrees.Proofs.JsonValues
import ProgramTrees.Proofs.Subterms
import ProgramTrees.TreeFile
import ProgramTrees.TreeJson

namespace ProgramTrees

section Fields

variable {place : Place} {fields : List (String × Json)} {kind key : String} {value : Json}

theorem field_of_get? (h : Table.get? fields key = some value) :
    field place fields kind key = .ok ⟨value, sizeOf_get? h⟩ := by
  unfold field
  split
  next found hfound =>
    obtain rfl : found = value := Option.some.inj (hfound.symm.trans h)
    rfl
  next hnone =>
    rw [hnone] at h
    exact nomatch h

theorem sizeOf_fields (fields : List (String × Json)) :
    sizeOf fields < sizeOf (Json.obj fields) := by
  simp

theorem nodeFields_nodeJson {expected : NodeClass} (hkind : kind ∈ expected.kinds) :
    nodeFields place expected (nodeJson kind fields) =
      .ok (⟨("kind", .str kind) :: fields, sizeOf_fields _⟩, kind) := by
  simp [nodeFields, nodeJson, Table.get?_cons, hkind]

theorem nameField_of_get? {name : String} (h : Table.get? fields "name" = some (.str name))
    (hname : name ≠ "") : nameField place fields kind = .ok name := by
  have hempty : name.isEmpty = false := by simpa using hname
  simp [nameField, field_of_get? h, hempty, bind, Except.bind]

theorem intValue_toInt (n : Int32) : intValue place (.int n.toInt) = .ok n := by
  have hrange : isInt32 n.toInt = true := by
    have hle := n.le_toInt
    have hlt := n.toInt_lt
    simp only [isInt32, Bool.and_eq_true, decide_eq_true_eq]
    omega
  simp [intValue, hrange]

theorem operatorValue_name (op : Operator) : operatorValue place (.str op.name) = .ok op := by
  cases op <;> rfl

theorem tyValue_name (ty : Ty) : tyValue place (.str ty.name) = .ok ty := by
  cases ty <;> rfl

end Fields

theorem Node.names_of_child {n c : Program} (hc : c ∈ n.children)
    (h : ∀ name ∈ n.names, name ≠ "") : ∀ name ∈ c.names, name ≠ "" :=
  fun name hname => h name (mem_names_of_child hc hname)

theorem readOperands_toJson {es : List Program}
    (ih : ∀ e ∈ es, ∀ place, readExpr place e.toJson = .ok e) (place : Place) (index : Nat) :
    readOperands place index (Node.allToJson es) = .ok es := by
  induction es generalizing index with
  | nil => rw [Node.allToJson, readOperands]
  | cons e es ih' =>
    rw [Node.allToJson, readOperands, ih e (by simp)]
    simp [ih' (fun e' he' => ih e' (by simp [he'])), bind, Except.bind]
    rfl

theorem readExpr_toJson {e : Program} (he : IsExpr e) (hnames : ∀ name ∈ e.names, name ≠ "") :
    ∀ place, readExpr place e.toJson = .ok e := by
  intro place
  induction he generalizing place with
  | int tag n =>
    rw [Node.toJson, readExpr, nodeFields_nodeJson (by decide)]
    simp [field_of_get?, Table.get?_cons, intValue_toInt, bind, Except.bind]
    rfl
  | float tag x =>
    rw [Node.toJson, readExpr, nodeFields_nodeJson (by decide)]
    simp [field_of_get?, Table.get?_cons, floatValue, bind, Except.bind]
    rfl
  | var tag name =>
    have hname : name ≠ "" := hnames name (by simp [Node.names, Node.subterms, Node.name?])
    rw [Node.toJson, readExpr, nodeFields_nodeJson (by decide)]
    simp [nameField_of_get?, Table.get?_cons, hname, bind, Except.bind]
    rfl
  | @apply tag op operands _ ih =>
    have hbelow : ∀ e ∈ operands, ∀ name ∈ e.names, name ≠ "" := fun e he =>
      Node.names_of_child (show e ∈ (Node.apply tag op operands).children from he) hnames
    have hoperands := readOperands_toJson fun e he => ih e he (hbelow e he)
    rw [Node.toJson, readExpr, nodeFields_nodeJson (by decide)]
    simp [field_of_get?, Table.get?_cons, operatorValue_name, listValue, hoperands, bind,
      Except.bind]
    rfl
  | @assign tag name value _ ih =>
    have hname : name ≠ "" := hnames name (by simp [Node.names, Node.subterms, Node.name?])
    have hvalue := ih (Node.names_of_child (by simp [Node.children]) hnames)
    rw [Node.toJson, readExpr, nodeFields_nodeJson (by decide)]
    simp [nameField_of_get?, field_of_get?, Table.get?_cons, hname, hvalue, bind,
      Except.bind]
    rfl

theorem readStmts_toJson {ss : List Program}
    (ih : ∀ s ∈ ss, ∀ place, readStmt place s.toJson = .ok s) (place : Place) (index : Nat) :
    readStmts place index (Node.allToJson ss) = .ok ss := by
  induction ss generalizing index with
  | nil => rw [Node.allToJson, readStmts]
  | cons s ss ih' =>
    rw [Node.allToJson, readStmts, ih s (by simp)]
    simp [ih' (fun s' hs' => ih s' (by simp [hs'])), bind, Except.bind]
    rfl

theorem toJson_ne_null (n : Program) : n.toJson ≠ .null := by
  cases n with
  | declare _ _ _ value | print _ _ value => cases value <;> simp [Node.toJson, nodeJson]
  | _ => simp [Node.toJson, nodeJson]

theorem readOptionalExpr_of_get? {fields : List (String × Json)} {key : String} {e : Program}
    (h : Table.get? fields key = some e.toJson)
    (hread : ∀ place, readExpr place e.toJson = .ok e) (place : Place) :
    readOptionalExpr place (optionalValue fields key) = .ok (some e) := by
  unfold optionalValue
  rw [h]
  split
  next hnull => exact absurd (Option.some.inj hnull) (toJson_ne_null e)
  next =>
    rw [readOptionalExpr, hread]
    rfl

theorem readStmt_toJson {s : Program} (hs : IsStmt s) (hnames : ∀ name ∈ s.names, name ≠ "") :
    ∀ place, readStmt place s.toJson = .ok s := by
  intro place
  induction hs generalizing place with
  | @assign tag name value hvalue =>
    have hname : name ≠ "" := hnames name (by simp [Node.names, Node.subterms, Node.name?])
    have hread := readExpr_toJson hvalue (Node.names_of_child (by simp [Node.children]) hnames)
    rw [Node.toJson, readStmt, nodeFields_nodeJson (by decide)]
    simp [nameField_of_get?, field_of_get?, Table.get?_cons, hname, hread, bind,
      Except.bind]
    rfl
  | @sequence tag statements _ ih =>
    have hbelow : ∀ s ∈ statements, ∀ name ∈ s.names, name ≠ "" := fun s hs =>
      Node.names_of_child (show s ∈ (Node.sequence tag statements).children from hs) hnames
    have hstatements := readStmts_toJson fun s hs => ih s hs (hbelow s hs)
    rw [Node.toJson, readStmt, nodeFields_nodeJson (by decide)]
    simp [field_of_get?, Table.get?_cons, listValue, hstatements, bind, Except.bind]
    rfl
  | @declare tag ty name value hvalue =>
    have hname : name ≠ "" := by
      refine hnames name (List.mem_filterMap.mpr ⟨_, Node.self_mem_subterms _, rfl⟩)
    cases value with
    | none =>
      rw [Node.toJson, readStmt, nodeFields_nodeJson (by decide)]
      simp [nameField_of_get?, field_of_get?, Table.get?_cons, tyValue_name, optionalValue,
        readOptionalExpr, hname, bind, Except.bind]
      rfl
    | some value =>
      have hread := readExpr_toJson (hvalue value rfl)
        (Node.names_of_child (by simp [Node.children]) hnames)
      have hoptional := readOptionalExpr_of_get? (show Table.get? [("kind", Json.str
        "declaration"), ("type", .str ty.name), ("name", .str name), ("value", value.toJson)]
          "value" = some value.toJson by simp [Table.get?_cons]) hread
      rw [Node.toJson, readStmt, nodeFields_nodeJson (by decide)]
      simp [nameField_of_get?, field_of_get?, Table.get?_cons, tyValue_name, hoptional, hname, bind,
        Except.bind]
      rfl
  | @print tag text value hvalue =>
    cases value with
    | none =>
      rw [Node.toJson, readStmt, nodeFields_nodeJson (by decide)]
      simp [field_of_get?, Table.get?_cons, textValue, optionalValue, readOptionalExpr, bind,
        Except.bind]
      rfl
    | some value =>
      have hread := readExpr_toJson (hvalue value rfl)
        (Node.names_of_child (by simp [Node.children]) hnames)
      have hoptional := readOptionalExpr_of_get? (show Table.get? [("kind", Json.str
        "print"), ("prefix", .str text), ("expression", value.toJson)] "expression" =
          some value.toJson by simp [Table.get?_cons]) hread
      rw [Node.toJson, readStmt, nodeFields_nodeJson (by decide)]
      simp [field_of_get?, Table.get?_cons, textValue, hoptional, bind, Except.bind]
      rfl
  | @loop tag condition body hcondition _ ih =>
    have hread := readExpr_toJson hcondition
      (Node.names_of_child (by simp [Node.children]) hnames)
    have hbody := ih (Node.names_of_child (by simp [Node.children]) hnames)
    rw [Node.toJson, readStmt, nodeFields_nodeJson (by decide)]
    simp [field_of_get?, Table.get?_cons, hread, hbody, bind, Except.bind]
    rfl

end ProgramTrees
