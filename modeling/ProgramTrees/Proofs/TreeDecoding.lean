import Mathlib.Data.List.Forall2
import ProgramTrees.Proofs.TreeFormat
import ProgramTrees.Proofs.TreeRoundTrip

namespace ProgramTrees

section Results

variable {α β : Type} {result : TreeResult α} {next : α → TreeResult β} {e : TreeError}

theorem bind_eq_ok {b : β} :
    (result >>= next) = .ok b ↔ ∃ a, result = .ok a ∧ next a = .ok b := by
  cases result with
  | error e => simp [bind, Except.bind]
  | ok a => simp [bind, Except.bind]

theorem bind_eq_error :
    (result >>= next) = .error e ↔ result = .error e ∨ ∃ a, result = .ok a ∧ next a = .error e := by
  cases result with
  | error e => simp [bind, Except.bind]
  | ok a => simp [bind, Except.bind]

theorem bind_pure_eq_error {f : α → β} :
    (result >>= fun a => pure (f a)) = .error e ↔ result = .error e := by
  cases result <;> simp [bind, Except.bind, pure, Except.pure]

theorem pure_eq_ok {a b : α} : (pure a : TreeResult α) = .ok b ↔ a = b := by
  simp [pure, Except.pure]

theorem fail_eq_error {place : Place} {fault : NodeFault} :
    (fail place fault : TreeResult α) = .error e ↔ e = .malformed place fault := by
  simp [fail, eq_comm]

theorem shown_bind_eq_error {json : Json} {place : Place} {fault : String → NodeFault} :
    ((shown json >>= fun text => fail place (fault text)) : TreeResult α) = .error e ↔
      (∃ text, json.quoted? = some text ∧ e = .malformed place (fault text)) ∨
        json.HasLongInteger ∧ e = .longInteger := by
  rw [← quoted?_eq_none, shown]
  cases json.quoted? <;> simp [bind, Except.bind, fail, eq_comm]

end Results

section Fields

variable {place : Place} {fields : List (String × Json)} {kind key : String} {json : Json}
  {e : TreeError}

theorem field_eq_ok {value : { value : Json // sizeOf value < sizeOf fields }} :
    field place fields kind key = .ok value ↔ Table.get? fields key = some value.val := by
  constructor
  · intro h
    unfold field at h
    split at h
    next found hfound =>
      cases h
      exact hfound
    next => cases h
  · intro h
    rw [field_of_get? h]

theorem field_eq_error :
    field place fields kind key = .error e ↔
      Table.get? fields key = none ∧ e = .malformed place (.missingField key kind) := by
  unfold field
  split
  next h => simp [h]
  next h => simp [h, fail_eq_error]

theorem field_bind_eq_ok {β : Type} {b : β}
    {next : { value : Json // sizeOf value < sizeOf fields } → TreeResult β} :
    (field place fields kind key >>= next) = .ok b ↔
      ∃ value, ∃ h : Table.get? fields key = some value, next ⟨value, sizeOf_get? h⟩ = .ok b := by
  rw [bind_eq_ok]
  constructor
  · rintro ⟨⟨value, hsize⟩, hfield, hnext⟩
    exact ⟨value, field_eq_ok.mp hfield, hnext⟩
  · rintro ⟨value, hget, hnext⟩
    exact ⟨_, field_of_get? hget, hnext⟩

theorem field_bind_eq_error {β : Type}
    {next : { value : Json // sizeOf value < sizeOf fields } → TreeResult β} :
    (field place fields kind key >>= next) = .error e ↔
      (Table.get? fields key = none ∧ e = .malformed place (.missingField key kind)) ∨
        ∃ value, ∃ h : Table.get? fields key = some value,
          next ⟨value, sizeOf_get? h⟩ = .error e := by
  rw [bind_eq_error, field_eq_error]
  refine or_congr_right ⟨?_, ?_⟩
  · rintro ⟨⟨value, hsize⟩, hfield, hnext⟩
    exact ⟨value, field_eq_ok.mp hfield, hnext⟩
  · rintro ⟨value, hget, hnext⟩
    exact ⟨_, field_of_get? hget, hnext⟩

/-- A field that is missing, or has a value that what follows reports, is the fault. -/
theorem field_bind_fault {β : Type} {fault : NodeFault} {bad : Json → Prop}
    {next : { value : Json // sizeOf value < sizeOf fields } → TreeResult β}
    (hfault : Table.get? fields key = none ∧ fault = .missingField key kind ∨
      ∃ value, Table.get? fields key = some value ∧ bad value)
    (hnext : ∀ value hsize, bad value → next ⟨value, hsize⟩ = .error (.malformed place fault)) :
    (field place fields kind key >>= next) = .error (.malformed place fault) := by
  rw [field_bind_eq_error]
  rcases hfault with ⟨hmissing, rfl⟩ | ⟨value, hvalue, hbad⟩
  · exact .inl ⟨hmissing, rfl⟩
  · exact .inr ⟨value, hvalue, hnext value _ hbad⟩

theorem nameField_eq_ok {name : String} :
    nameField place fields kind = .ok name ↔
      Table.get? fields "name" = some (.str name) ∧ name ≠ "" := by
  constructor
  · intro h
    obtain ⟨found, hfound, h⟩ := bind_eq_ok.mp h
    have hget := field_eq_ok.mp hfound
    split at h
    next text heq =>
      split at h
      next => cases h
      next hne =>
        cases h
        exact ⟨by rw [hget, heq], by simpa using hne⟩
    next => cases h
  · rintro ⟨hget, hne⟩
    exact nameField_of_get? hget hne

theorem nameField_eq_error :
    nameField place fields kind = .error e ↔
      (Table.get? fields "name" = none ∧ e = .malformed place (.missingField "name" kind)) ∨
        ∃ value, Table.get? fields "name" = some value ∧ (∀ name, value = .str name → name = "") ∧
          e = .malformed place .badName := by
  rw [nameField, field_bind_eq_error]
  simp only [exists_prop]
  refine or_congr_right (exists_congr fun value => and_congr_right fun _ => ?_)
  cases value with
  | str name => by_cases hempty : name = "" <;> simp [hempty, fail_eq_error]
  | _ => simp [fail_eq_error]

theorem nameField_fault {fault : NodeFault}
    (hfault : Table.get? fields "name" = none ∧ fault = .missingField "name" kind ∨
      ∃ value, Table.get? fields "name" = some value ∧
        (∀ name, value = .str name → name = "") ∧ fault = .badName) :
    nameField place fields kind = .error (.malformed place fault) := by
  rw [nameField_eq_error]
  rcases hfault with ⟨hmissing, rfl⟩ | ⟨value, hvalue, hempty, rfl⟩
  · exact .inl ⟨hmissing, rfl⟩
  · exact .inr ⟨value, hvalue, hempty, rfl⟩

theorem intValue_eq_ok {n : Int32} :
    intValue place json = .ok n ↔
      ∃ k : Int, json = .int k ∧ -2147483648 ≤ k ∧ k ≤ 2147483647 ∧ n = Int32.ofInt k := by
  cases json with
  | int k =>
    by_cases hk : isInt32 k = true
    · have hbounds := hk
      simp only [isInt32, Bool.and_eq_true, decide_eq_true_eq] at hbounds
      simp [intValue, hk, hbounds, eq_comm]
    · have hbounds := hk
      simp only [isInt32, Bool.and_eq_true, decide_eq_true_eq, not_and] at hbounds
      simp [intValue, hk, fail]
      omega
  | _ => simp [intValue, fail]

theorem intValue_eq_error :
    intValue place json = .error e ↔
      ∃ fault, RequiredField.intValue.Refuses json fault ∧ e = .malformed place fault := by
  cases json with
  | int n =>
    have hrange : ¬ isInt32 n = true ↔ n < -2147483648 ∨ 2147483647 < n := by
      simp only [isInt32, Bool.and_eq_true, decide_eq_true_eq]
      omega
    rw [intValue]
    split
    next h => simp [RequiredField.Refuses, ← hrange, h]
    next h => simp [RequiredField.Refuses, ← hrange, h, fail_eq_error]
  | _ => simp [intValue, RequiredField.Refuses, fail_eq_error]

theorem floatValue_eq_ok {x : Double} :
    floatValue place json = .ok x ↔
      json = .float x ∨ ∃ n : Int, json = .int n ∧ doubleOfInt? n = some x := by
  cases json with
  | int n => cases hx : doubleOfInt? n <;> simp [floatValue, hx]
  | _ => simp [floatValue, fail]

theorem floatValue_eq_error :
    floatValue place json = .error e ↔
      (∃ fault, RequiredField.floatValue.Refuses json fault ∧ e = .malformed place fault) ∨
        ∃ n : Int, json = .int n ∧ Format.double.limit ≤ n.natAbs ∧ e = .hugeInteger := by
  cases json with
  | int n =>
    have hlimit := doubleOfInt?_eq_none_iff (n := n)
    cases hx : doubleOfInt? n with
    | none => simp [floatValue, RequiredField.Refuses, hx, hlimit.mp hx, eq_comm]
    | some x => simp [floatValue, RequiredField.Refuses, hx, ← hlimit]
  | _ => simp [floatValue, RequiredField.Refuses, fail_eq_error]

theorem tyValue_eq_ok {ty : Ty} : tyValue place json = .ok ty ↔ json = .str ty.name := by
  constructor
  · intro h
    cases json with
    | str name =>
      cases hname : Ty.ofName? name with
      | none => simp [tyValue, hname, fail] at h
      | some found =>
        obtain rfl : found = ty := by simpa [tyValue, hname] using h
        have heq : found.name = name := by simpa using List.find?_some hname
        rw [heq]
    | arr | obj => cases h
    | _ =>
      obtain ⟨_, -, h⟩ := bind_eq_ok.mp h
      cases h
  · rintro rfl
    exact tyValue_name ty

theorem ofName?_ty_eq_none {name : String} :
    Ty.ofName? name = none ↔ ∀ ty : Ty, name ≠ ty.name := by
  rw [Ty.ofName?, List.find?_eq_none]
  constructor
  · rintro h ty rfl
    exact h ty (by cases ty <;> decide) (by simp)
  · intro h ty _ heq
    have hname : ty.name = name := by simpa using heq
    exact h ty hname.symm

theorem tyValue_eq_error :
    tyValue place json = .error e ↔
      (∃ fault, RequiredField.type.Refuses json fault ∧ e = .malformed place fault) ∨
        (json.IsCompound ∧ e = .compoundType json) ∨
          ¬ json.IsCompound ∧ json.HasLongInteger ∧ e = .longInteger := by
  cases json with
  | str name =>
    have hnone := @ofName?_ty_eq_none name
    cases hname : Ty.ofName? name with
    | none =>
      simp [tyValue, RequiredField.Refuses, Json.IsCompound, Json.quoted?, hname, hnone.mp hname,
        not_hasLongInteger_str, fail_eq_error]
    | some ty =>
      simp [tyValue, RequiredField.Refuses, Json.IsCompound, Json.quoted?, hname, ← hnone,
        not_hasLongInteger_str]
  | arr | obj =>
    simp [tyValue, RequiredField.Refuses, Json.IsCompound, eq_comm]
  | _ =>
    refine shown_bind_eq_error.trans ?_
    simp [RequiredField.Refuses, Json.IsCompound]

theorem operatorValue_eq_ok {op : Operator} :
    operatorValue place json = .ok op ↔ json = .str op.name := by
  constructor
  · intro h
    cases json with
    | str name =>
      cases hname : Operator.ofName? name with
      | none => simp [operatorValue, hname, fail] at h
      | some found =>
        obtain rfl : found = op := by simpa [operatorValue, hname] using h
        have heq : found.name = name := by simpa using List.find?_some hname
        rw [heq]
    | _ =>
      obtain ⟨_, -, h⟩ := bind_eq_ok.mp h
      cases h
  · rintro rfl
    exact operatorValue_name op

theorem ofName?_operator_eq_none {name : String} :
    Operator.ofName? name = none ↔ ∀ op : Operator, name ≠ op.name := by
  rw [Operator.ofName?, List.find?_eq_none]
  constructor
  · rintro h op rfl
    exact h op (by cases op <;> decide) (by simp)
  · intro h op _ heq
    have hname : op.name = name := by simpa using heq
    exact h op hname.symm

theorem operatorValue_eq_error :
    operatorValue place json = .error e ↔
      (∃ fault, RequiredField.operator.Refuses json fault ∧ e = .malformed place fault) ∨
        json.HasLongInteger ∧ e = .longInteger := by
  cases json with
  | str name =>
    have hnone := @ofName?_operator_eq_none name
    cases hname : Operator.ofName? name with
    | none =>
      simp [operatorValue, RequiredField.Refuses, Json.quoted?, hname, hnone.mp hname,
        not_hasLongInteger_str, fail_eq_error]
    | some op =>
      simp [operatorValue, RequiredField.Refuses, Json.quoted?, hname, ← hnone,
        not_hasLongInteger_str]
  | _ =>
    refine shown_bind_eq_error.trans ?_
    simp [RequiredField.Refuses]

theorem listValue_eq_ok {items : { items : List Json // sizeOf items < sizeOf json }} :
    listValue place key json = .ok items ↔ json = .arr items.val := by
  cases json with
  | arr found => simp [listValue, Subtype.ext_iff]
  | _ => simp [listValue, fail]

theorem sizeOf_items {items : List Json} (h : json = .arr items) : sizeOf items < sizeOf json := by
  simp [h]

theorem listValue_bind_eq_ok {β : Type} {b : β}
    {next : { items : List Json // sizeOf items < sizeOf json } → TreeResult β} :
    (listValue place key json >>= next) = .ok b ↔
      ∃ items, ∃ h : json = .arr items, next ⟨items, sizeOf_items h⟩ = .ok b := by
  rw [bind_eq_ok]
  constructor
  · rintro ⟨⟨items, hsize⟩, hlist, hnext⟩
    exact ⟨items, listValue_eq_ok.mp hlist, hnext⟩
  · rintro ⟨items, rfl, hnext⟩
    exact ⟨_, rfl, hnext⟩

theorem listValue_eq_error :
    listValue place key json = .error e ↔
      (∀ items, json ≠ .arr items) ∧ e = .malformed place (.notList key) := by
  cases json <;> simp [listValue, fail_eq_error]

theorem listValue_bind_eq_error {β : Type}
    {next : { items : List Json // sizeOf items < sizeOf json } → TreeResult β} :
    (listValue place key json >>= next) = .error e ↔
      ((∀ items, json ≠ .arr items) ∧ e = .malformed place (.notList key)) ∨
        ∃ items, ∃ h : json = .arr items, next ⟨items, sizeOf_items h⟩ = .error e := by
  rw [bind_eq_error, listValue_eq_error]
  refine or_congr_right ⟨?_, ?_⟩
  · rintro ⟨⟨items, hsize⟩, hlist, hnext⟩
    exact ⟨items, listValue_eq_ok.mp hlist, hnext⟩
  · rintro ⟨items, rfl, hnext⟩
    exact ⟨_, rfl, hnext⟩

theorem textValue_eq_ok {text : String} : textValue place json = .ok text ↔ json = .str text := by
  cases json <;> simp [textValue, fail]

theorem textValue_eq_error :
    textValue place json = .error e ↔
      (∀ text, json ≠ .str text) ∧ e = .malformed place .textNotString := by
  cases json <;> simp [textValue, fail_eq_error]

theorem nodeFields_of_kind {expected : NodeClass}
    (hkind : Table.get? fields "kind" = some (.str kind)) (hmem : kind ∈ expected.kinds) :
    nodeFields place expected (.obj fields) = .ok (⟨fields, sizeOf_fields fields⟩, kind) := by
  simp [nodeFields, hkind, hmem]

theorem nodeFields_of_other {expected : NodeClass} {found : Json}
    (hfound : (Table.get? fields "kind").getD .null = found)
    (hother : ∀ kind ∈ expected.kinds, found ≠ .str kind) :
    nodeFields place expected (.obj fields) =
      (shown found >>= fun text => fail place (.wrongKind text expected)) := by
  simp only [nodeFields]
  split
  next kind hkind =>
    rw [hkind] at hfound
    subst hfound
    have hmem : kind ∉ expected.kinds := fun hmem => hother kind hmem rfl
    rw [if_neg hmem]
    rfl
  next => rw [hfound]

/-- A node is an object of a kind of its class, or reading it fails with its class and its kind. -/
theorem nodeFields_cases (expected : NodeClass) (json : Json) :
    (∃ fields kind, json = .obj fields ∧ Table.get? fields "kind" = some (.str kind) ∧
        kind ∈ expected.kinds) ∨
      (∃ fault, Faulty expected json fault ∧
        ∀ place, nodeFields place expected json = fail place fault) ∨
      Unreported expected json .longInteger ∧
        ∀ place, nodeFields place expected json = .error .longInteger := by
  cases json with
  | obj fields =>
    by_cases hknown : ∃ kind ∈ expected.kinds, Table.get? fields "kind" = some (.str kind)
    · obtain ⟨kind, hmem, hkind⟩ := hknown
      exact .inl ⟨fields, kind, rfl, hkind, hmem⟩
    · refine .inr ?_
      have hother : ∀ kind ∈ expected.kinds,
          (Table.get? fields "kind").getD .null ≠ .str kind := by
        intro kind hmem heq
        cases hget : Table.get? fields "kind" with
        | none => simp [hget] at heq
        | some found =>
          obtain rfl : found = .str kind := by simpa [hget] using heq
          exact hknown ⟨kind, hmem, hget⟩
      cases htext : ((Table.get? fields "kind").getD .null).quoted? with
      | some text =>
        refine .inl ⟨_, .wrongKind rfl hother htext, fun place => ?_⟩
        rw [nodeFields_of_other rfl hother, shown, htext]
        rfl
      | none =>
        refine .inr ⟨?_, fun place => ?_⟩
        · cases hget : Table.get? fields "kind" with
          | none => simp [hget, Json.quoted?] at htext
          | some found =>
            rw [hget] at htext
            exact .longKind hget ((quoted?_eq_none found).mp htext)
        · rw [nodeFields_of_other rfl hother, shown, htext]
          rfl
  | _ => exact .inr (.inl ⟨_, .notObject (by simp), fun _ => rfl⟩)

end Fields

section Optional

variable {place : Place} {fields : List (String × Json)} {key : String} {e : TreeError}

theorem optionalValue_eq_none :
    optionalValue fields key = none ↔
      Table.get? fields key = none ∨ Table.get? fields key = some .null := by
  unfold optionalValue
  split
  next h => simp [h]
  next h => exact ⟨.inl, fun hor => hor.resolve_right h⟩

theorem optionalValue_eq_some {value : Json} :
    optionalValue fields key = some value ↔
      Table.get? fields key = some value ∧ value ≠ .null := by
  unfold optionalValue
  split
  next h =>
    rw [h]
    simp [eq_comm]
  next h =>
    refine ⟨fun heq => ⟨heq, ?_⟩, And.left⟩
    rintro rfl
    exact h heq

theorem readOptionalExpr_eq_ok {value : Option Json} {node : Option Program} :
    readOptionalExpr place value = .ok node ↔
      (value = none ∧ node = none) ∨
        ∃ found n, value = some found ∧ readExpr place found = .ok n ∧ node = some n := by
  cases value with
  | none => simp [readOptionalExpr, eq_comm]
  | some found =>
    rw [readOptionalExpr, bind_eq_ok]
    simp only [pure_eq_ok, Option.some.injEq, reduceCtorEq, false_and, false_or]
    constructor
    · rintro ⟨n, hread, hn⟩
      exact ⟨found, n, rfl, hread, hn.symm⟩
    · rintro ⟨_, n, rfl, hread, hn⟩
      exact ⟨n, hread, hn.symm⟩

theorem readOptionalExpr_eq_error {value : Option Json} :
    readOptionalExpr place value = .error e ↔
      ∃ found, value = some found ∧ readExpr place found = .error e := by
  cases value with
  | none => simp [readOptionalExpr]
  | some found =>
    rw [readOptionalExpr, bind_pure_eq_error]
    simp

end Optional

/-- Reads the node of a class at a place. -/
def NodeClass.read : NodeClass → Place → Json → TreeResult Program
  | .statement => readStmt
  | .expression => readExpr

section Lists

/-- Reads the items of a list below a place from the one with the given index on. -/
def NodeClass.readAll (expected : NodeClass) (place : Place) (step : Nat → Step) (index : Nat) :
    List Json → TreeResult (List Program)
  | [] => .ok []
  | item :: items => do
    let node ← expected.read (place ++ [step index]) item
    return node :: (← expected.readAll place step (index + 1) items)

theorem readOperands_eq (place : Place) (index : Nat) (items : List Json) :
    readOperands place index items = NodeClass.expression.readAll place .operand index items := by
  induction items generalizing index with
  | nil => rw [readOperands, NodeClass.readAll]
  | cons item items ih =>
    rw [readOperands, NodeClass.readAll, ih]
    rfl

theorem readStmts_eq (place : Place) (index : Nat) (items : List Json) :
    readStmts place index items = NodeClass.statement.readAll place .statement index items := by
  induction items generalizing index with
  | nil => rw [readStmts, NodeClass.readAll]
  | cons item items ih =>
    rw [readStmts, NodeClass.readAll, ih]
    rfl

variable {expected : NodeClass} {place : Place} {step : Nat → Step} {index : Nat}
  {items : List Json}

theorem readAll_of_forall₂ {nodes : List Program}
    (h : List.Forall₂ (fun item node => ∀ place, expected.read place item = .ok node)
      items nodes) : expected.readAll place step index items = .ok nodes := by
  induction h generalizing index with
  | nil => rfl
  | cons hitem _ ih =>
    rw [NodeClass.readAll, hitem, ih]
    rfl

theorem forall₂_of_readAll {nodes : List Program}
    (h : expected.readAll place step index items = .ok nodes) :
    List.Forall₂ (fun item node => ∃ place, expected.read place item = .ok node) items nodes := by
  induction items generalizing index nodes with
  | nil =>
    cases h
    exact .nil
  | cons item items ih =>
    simp only [NodeClass.readAll, bind_eq_ok, pure_eq_ok] at h
    obtain ⟨node, hnode, rest, hrest, rfl⟩ := h
    exact .cons ⟨_, hnode⟩ (ih hrest)

theorem readAll_of_first {before after : List Json} {item : Json} {e : TreeError}
    (hbefore : ∀ earlier ∈ before, ∃ node, ∀ place, expected.read place earlier = .ok node)
    (hitem : expected.read (place ++ [step (index + before.length)]) item = .error e) :
    expected.readAll place step index (before ++ item :: after) = .error e := by
  induction before generalizing index with
  | nil =>
    rw [List.nil_append, NodeClass.readAll, bind_eq_error]
    exact .inl hitem
  | cons first before ih =>
    obtain ⟨⟨node, hnode⟩, hrest⟩ := List.forall_mem_cons.mp hbefore
    rw [List.length_cons, Nat.add_comm before.length, ← Nat.add_assoc] at hitem
    rw [List.cons_append, NodeClass.readAll, hnode, ih hrest hitem]
    rfl

theorem first_of_readAll {e : TreeError}
    (h : expected.readAll place step index items = .error e) :
    ∃ before item after, items = before ++ item :: after ∧
      (∀ earlier ∈ before, ∃ place node, expected.read place earlier = .ok node) ∧
      expected.read (place ++ [step (index + before.length)]) item = .error e := by
  induction items generalizing index with
  | nil => cases h
  | cons item items ih =>
    rw [NodeClass.readAll, bind_eq_error] at h
    rcases h with hitem | ⟨node, hnode, hrest⟩
    · exact ⟨[], item, items, rfl, nofun, hitem⟩
    · obtain ⟨before, found, after, rfl, hbefore, hfound⟩ := ih (bind_pure_eq_error.mp hrest)
      refine ⟨item :: before, found, after, rfl, ?_, ?_⟩
      · exact List.forall_mem_cons.mpr ⟨⟨_, node, hnode⟩, hbefore⟩
      · rwa [List.length_cons, Nat.add_comm before.length, ← Nat.add_assoc]

end Lists

section Kinds

variable {place : Place} {fields : List (String × Json)}

theorem readExpr_int (hkind : Table.get? fields "kind" = some (.str "int")) :
    readExpr place (.obj fields) = do
      return .int () (← intValue place (← field place fields "int" "value").val) := by
  rw [readExpr, nodeFields_of_kind hkind (by decide)]
  rfl

theorem readExpr_float (hkind : Table.get? fields "kind" = some (.str "float")) :
    readExpr place (.obj fields) = do
      return .float () (← floatValue place (← field place fields "float" "value").val) := by
  rw [readExpr, nodeFields_of_kind hkind (by decide)]
  rfl

theorem readExpr_var (hkind : Table.get? fields "kind" = some (.str "var")) :
    readExpr place (.obj fields) = do
      return .var () (← nameField place fields "var") := by
  rw [readExpr, nodeFields_of_kind hkind (by decide)]
  rfl

theorem readExpr_operator (hkind : Table.get? fields "kind" = some (.str "operator")) :
    readExpr place (.obj fields) = do
      let op ← operatorValue place (← field place fields "operator" "operator").val
      let items ← listValue place "operands" (← field place fields "operator" "operands").val
      return .apply () op (← NodeClass.expression.readAll place .operand 0 items.val) := by
  rw [readExpr, nodeFields_of_kind hkind (by decide)]
  simp only [← readOperands_eq]
  rfl

theorem read_assignment (expected : NodeClass)
    (hkind : Table.get? fields "kind" = some (.str "assignment")) :
    expected.read place (.obj fields) = do
      let name ← nameField place fields "assignment"
      let value ← field place fields "assignment" "value"
      return .assign () name (← readExpr (place ++ [.value]) value.val) := by
  cases expected with
  | statement =>
    rw [NodeClass.read, readStmt, nodeFields_of_kind hkind (by decide)]
    rfl
  | expression =>
    rw [NodeClass.read, readExpr, nodeFields_of_kind hkind (by decide)]
    rfl

theorem readStmt_sequence (hkind : Table.get? fields "kind" = some (.str "sequence")) :
    readStmt place (.obj fields) = do
      let items ← listValue place "statements" (← field place fields "sequence" "statements").val
      return .sequence () (← NodeClass.statement.readAll place .statement 0 items.val) := by
  rw [readStmt, nodeFields_of_kind hkind (by decide)]
  simp only [← readStmts_eq]
  rfl

theorem readStmt_declaration (hkind : Table.get? fields "kind" = some (.str "declaration")) :
    readStmt place (.obj fields) = do
      let ty ← tyValue place (← field place fields "declaration" "type").val
      let name ← nameField place fields "declaration"
      return .declare () ty name
        (← readOptionalExpr (place ++ [.value]) (optionalValue fields "value")) := by
  rw [readStmt, nodeFields_of_kind hkind (by decide)]
  rfl

theorem readStmt_print (hkind : Table.get? fields "kind" = some (.str "print")) :
    readStmt place (.obj fields) = do
      let text ← textValue place (← field place fields "print" "prefix").val
      return .print () text
        (← readOptionalExpr (place ++ [.expression]) (optionalValue fields "expression")) := by
  rw [readStmt, nodeFields_of_kind hkind (by decide)]
  rfl

theorem readStmt_while (hkind : Table.get? fields "kind" = some (.str "while")) :
    readStmt place (.obj fields) = do
      let condition ←
        readExpr (place ++ [.condition]) (← field place fields "while" "condition").val
      let body ← field place fields "while" "body"
      return .loop () condition (← readStmt (place ++ [.body]) body.val) := by
  rw [readStmt, nodeFields_of_kind hkind (by decide)]
  rfl

end Kinds

theorem read_of_nodeFields_error {expected : NodeClass} {place : Place} {json : Json}
    {e : TreeError} (h : nodeFields place expected json = .error e) :
    expected.read place json = .error e := by
  cases expected with
  | statement =>
    rw [NodeClass.read, readStmt, h]
    rfl
  | expression =>
    rw [NodeClass.read, readExpr, h]
    rfl

end ProgramTrees
