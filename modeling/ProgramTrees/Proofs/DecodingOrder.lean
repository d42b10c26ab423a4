import ProgramTrees.Proofs.TreeObjects

namespace ProgramTrees

def Step.nodeClass : Step → NodeClass
  | .statement _ | .body => .statement
  | .value | .expression | .condition | .operand _ => .expression

/-- The decoder of a node goes on to the node at a step below: the node's own fields that come first
are in order, and the nodes below that come first describe trees. -/
inductive Enters : NodeClass → Json → Step → Json → Prop where
  | operand {json next : Json} {op : Operator} {before after : List Json} :
      json.field? "kind" = some (.str "operator") →
      json.field? "operator" = some (.str op.name) →
      json.field? "operands" = some (.arr (before ++ next :: after)) →
      (∀ item ∈ before, ∃ operand, Describes .expression item operand) →
      Enters .expression json (.operand before.length) next
  | assigned {expected : NodeClass} {json next : Json} {name : String} :
      json.field? "kind" = some (.str "assignment") → json.field? "name" = some (.str name) →
      name ≠ "" → json.field? "value" = some next → Enters expected json .value next
  | statement {json next : Json} {before after : List Json} :
      json.field? "kind" = some (.str "sequence") →
      json.field? "statements" = some (.arr (before ++ next :: after)) →
      (∀ item ∈ before, ∃ statement, Describes .statement item statement) →
      Enters .statement json (.statement before.length) next
  | initial {json next : Json} {ty : Ty} {name : String} :
      json.field? "kind" = some (.str "declaration") → json.field? "type" = some (.str ty.name) →
      json.field? "name" = some (.str name) → name ≠ "" → json.field? "value" = some next →
      next ≠ .null → Enters .statement json .value next
  | printed {json next : Json} {text : String} :
      json.field? "kind" = some (.str "print") → json.field? "prefix" = some (.str text) →
      json.field? "expression" = some next → next ≠ .null →
      Enters .statement json .expression next
  | condition {json next : Json} :
      json.field? "kind" = some (.str "while") → json.field? "condition" = some next →
      Enters .statement json .condition next
  | body {json next test : Json} {condition : Program} :
      json.field? "kind" = some (.str "while") → json.field? "condition" = some test →
      Describes .expression test condition → json.field? "body" = some next →
      Enters .statement json .body next

section Errors

variable {expected : NodeClass} {json next : Json} {step : Step} {place : Place} {fault : NodeFault}
  {e : TreeError}

theorem Enters.error (h : Enters expected json step next)
    (hnext : step.nodeClass.read (place ++ [step]) next = .error e) :
    expected.read place json = .error e := by
  cases h with
  | operand hkind hop hitems hbefore =>
    obtain ⟨fields, rfl, hget⟩ := Json.field?_eq_some.mp hkind
    have hread := fun item hitem => (hbefore item hitem).imp fun _ => Describes.read
    rw [← Nat.zero_add (List.length _)] at hnext
    rw [NodeClass.read, readExpr_operator hget]
    simp only [↓field_bind_eq_error, ↓listValue_bind_eq_error, ↓bind_pure_eq_error, bind_eq_error,
      operatorValue_eq_ok]
    exact .inr ⟨_, hop, .inr ⟨_, rfl, .inr ⟨_, hitems, .inr
      ⟨_, rfl, readAll_of_first hread hnext⟩⟩⟩⟩
  | assigned hkind hname hne hvalue =>
    obtain ⟨fields, rfl, hget⟩ := Json.field?_eq_some.mp hkind
    rw [read_assignment _ hget]
    simp only [↓field_bind_eq_error, ↓bind_pure_eq_error, bind_eq_error, nameField_eq_ok]
    exact .inr ⟨_, ⟨hname, hne⟩, .inr ⟨_, hvalue, hnext⟩⟩
  | statement hkind hitems hbefore =>
    obtain ⟨fields, rfl, hget⟩ := Json.field?_eq_some.mp hkind
    have hread := fun item hitem => (hbefore item hitem).imp fun _ => Describes.read
    rw [← Nat.zero_add (List.length _)] at hnext
    rw [NodeClass.read, readStmt_sequence hget]
    simp only [↓field_bind_eq_error, ↓listValue_bind_eq_error, ↓bind_pure_eq_error]
    exact .inr ⟨_, hitems, .inr ⟨_, rfl, readAll_of_first hread hnext⟩⟩
  | initial hkind hty hname hne hvalue hnull =>
    obtain ⟨fields, rfl, hget⟩ := Json.field?_eq_some.mp hkind
    rw [NodeClass.read, readStmt_declaration hget]
    simp only [↓field_bind_eq_error, ↓bind_pure_eq_error, bind_eq_error, tyValue_eq_ok,
      nameField_eq_ok, readOptionalExpr_eq_error, optionalValue_eq_some]
    exact .inr ⟨_, hty, .inr ⟨_, rfl, .inr ⟨_, ⟨hname, hne⟩, _, ⟨hvalue, hnull⟩, hnext⟩⟩⟩
  | printed hkind htext hvalue hnull =>
    obtain ⟨fields, rfl, hget⟩ := Json.field?_eq_some.mp hkind
    rw [NodeClass.read, readStmt_print hget]
    simp only [↓field_bind_eq_error, ↓bind_pure_eq_error, bind_eq_error, textValue_eq_ok,
      readOptionalExpr_eq_error, optionalValue_eq_some]
    exact .inr ⟨_, htext, .inr ⟨_, rfl, _, ⟨hvalue, hnull⟩, hnext⟩⟩
  | condition hkind htest =>
    obtain ⟨fields, rfl, hget⟩ := Json.field?_eq_some.mp hkind
    rw [NodeClass.read, readStmt_while hget]
    simp only [↓field_bind_eq_error, ↓bind_pure_eq_error, bind_eq_error]
    exact .inr ⟨_, htest, .inl hnext⟩
  | body hkind htest hdescribes hbody =>
    obtain ⟨fields, rfl, hget⟩ := Json.field?_eq_some.mp hkind
    rw [NodeClass.read, readStmt_while hget]
    simp only [↓field_bind_eq_error, ↓bind_pure_eq_error, bind_eq_error]
    exact .inr ⟨_, htest, .inr ⟨_, hdescribes.read _, .inr ⟨_, hbody, hnext⟩⟩⟩

theorem eq_expression_of_mem_kinds {kind : String} (h : kind ∈ expected.kinds)
    (hother : kind ∉ NodeClass.statement.kinds) : expected = .expression := by
  cases expected with
  | statement => exact absurd h hother
  | expression => rfl

theorem eq_statement_of_mem_kinds {kind : String} (h : kind ∈ expected.kinds)
    (hother : kind ∉ NodeClass.expression.kinds) : expected = .statement := by
  cases expected with
  | statement => rfl
  | expression => exact absurd h hother

theorem RequiredField.error {field : RequiredField}
    (hkind : json.field? "kind" = some (.str field.kind)) (hmem : field.kind ∈ expected.kinds)
    (hnext : field.IsNext json)
    (hfault : json.field? field.key = none ∧ fault = .missingField field.key field.kind ∨
      ∃ value, json.field? field.key = some value ∧ field.Refuses value fault) :
    expected.read place json = .error (.malformed place fault) := by
  obtain ⟨fields, rfl, hget⟩ := Json.field?_eq_some.mp hkind
  cases field with
  | intValue =>
    obtain rfl := eq_expression_of_mem_kinds hmem (by decide)
    rw [NodeClass.read, readExpr_int hget]
    refine field_bind_fault hfault fun value _ hrefused => ?_
    exact bind_eq_error.mpr (.inl (intValue_eq_error.mpr ⟨fault, hrefused, rfl⟩))
  | floatValue =>
    obtain rfl := eq_expression_of_mem_kinds hmem (by decide)
    rw [NodeClass.read, readExpr_float hget]
    refine field_bind_fault hfault fun value _ hrefused => ?_
    exact bind_eq_error.mpr (.inl (floatValue_eq_error.mpr (.inl ⟨fault, hrefused, rfl⟩)))
  | varName =>
    obtain rfl := eq_expression_of_mem_kinds hmem (by decide)
    rw [NodeClass.read, readExpr_var hget]
    exact bind_eq_error.mpr (.inl (nameField_fault hfault))
  | operator =>
    obtain rfl := eq_expression_of_mem_kinds hmem (by decide)
    rw [NodeClass.read, readExpr_operator hget]
    refine field_bind_fault hfault fun value _ hrefused => ?_
    exact bind_eq_error.mpr (.inl (operatorValue_eq_error.mpr (.inl ⟨fault, hrefused, rfl⟩)))
  | operands =>
    obtain rfl := eq_expression_of_mem_kinds hmem (by decide)
    obtain ⟨op, hop⟩ := hnext
    rw [NodeClass.read, readExpr_operator hget]
    refine field_bind_eq_error.mpr (.inr ⟨_, hop, ?_⟩)
    refine bind_eq_error.mpr (.inr ⟨op, operatorValue_eq_ok.mpr rfl, ?_⟩)
    refine field_bind_fault hfault ?_
    rintro value - ⟨hother, rfl⟩
    exact bind_eq_error.mpr (.inl (listValue_eq_error.mpr ⟨hother, rfl⟩))
  | target =>
    rw [read_assignment _ hget]
    exact bind_eq_error.mpr (.inl (nameField_fault hfault))
  | assigned =>
    obtain ⟨name, hname⟩ := hnext
    rw [read_assignment _ hget]
    refine bind_eq_error.mpr (.inr ⟨name, nameField_eq_ok.mpr hname, ?_⟩)
    exact field_bind_fault hfault fun value _ hrefused => hrefused.elim
  | statements =>
    obtain rfl := eq_statement_of_mem_kinds hmem (by decide)
    rw [NodeClass.read, readStmt_sequence hget]
    refine field_bind_fault hfault ?_
    rintro value - ⟨hother, rfl⟩
    exact bind_eq_error.mpr (.inl (listValue_eq_error.mpr ⟨hother, rfl⟩))
  | type =>
    obtain rfl := eq_statement_of_mem_kinds hmem (by decide)
    rw [NodeClass.read, readStmt_declaration hget]
    refine field_bind_fault hfault fun value _ hrefused => ?_
    exact bind_eq_error.mpr (.inl (tyValue_eq_error.mpr (.inl ⟨fault, hrefused, rfl⟩)))
  | declared =>
    obtain rfl := eq_statement_of_mem_kinds hmem (by decide)
    obtain ⟨ty, hty⟩ := hnext
    rw [NodeClass.read, readStmt_declaration hget]
    refine field_bind_eq_error.mpr (.inr ⟨_, hty, ?_⟩)
    refine bind_eq_error.mpr (.inr ⟨ty, tyValue_eq_ok.mpr rfl, ?_⟩)
    exact bind_eq_error.mpr (.inl (nameField_fault hfault))
  | text =>
    obtain rfl := eq_statement_of_mem_kinds hmem (by decide)
    rw [NodeClass.read, readStmt_print hget]
    refine field_bind_fault hfault ?_
    rintro value - ⟨hother, rfl⟩
    exact bind_eq_error.mpr (.inl (textValue_eq_error.mpr ⟨hother, rfl⟩))
  | condition =>
    obtain rfl := eq_statement_of_mem_kinds hmem (by decide)
    rw [NodeClass.read, readStmt_while hget]
    exact field_bind_fault hfault fun value _ hrefused => hrefused.elim
  | body =>
    obtain rfl := eq_statement_of_mem_kinds hmem (by decide)
    obtain ⟨test, condition, htest, hdescribes⟩ := hnext
    rw [NodeClass.read, readStmt_while hget]
    refine field_bind_eq_error.mpr (.inr ⟨_, htest, ?_⟩)
    refine bind_eq_error.mpr (.inr ⟨condition, hdescribes.read _, ?_⟩)
    exact field_bind_fault hfault fun value _ hrefused => hrefused.elim

theorem Faulty.error (h : Faulty expected json fault) (place : Place) :
    expected.read place json = .error (.malformed place fault) := by
  cases h with
  | notObject hother =>
    apply read_of_nodeFields_error
    cases json with
    | obj fields => exact absurd rfl (hother fields)
    | _ => rfl
  | wrongKind hfound hother htext =>
    apply read_of_nodeFields_error
    rw [nodeFields_of_other hfound hother, shown, htext]
    rfl
  | missing field hkind hmem hnext hmissing =>
    exact RequiredField.error hkind hmem hnext (.inl ⟨hmissing, rfl⟩)
  | refused field hkind hmem hnext hvalue hrefused =>
    exact RequiredField.error hkind hmem hnext (.inr ⟨_, hvalue, hrefused⟩)

theorem Unreported.error (h : Unreported expected json e) (place : Place) :
    expected.read place json = .error e := by
  cases h with
  | compoundType hkind hty hcompound =>
    obtain ⟨fields, rfl, hget⟩ := Json.field?_eq_some.mp hkind
    rw [NodeClass.read, readStmt_declaration hget]
    simp only [↓field_bind_eq_error, bind_eq_error, tyValue_eq_error]
    exact .inr ⟨_, hty, .inl (.inr (.inl ⟨hcompound, rfl⟩))⟩
  | hugeInteger hkind hvalue hlimit =>
    obtain ⟨fields, rfl, hget⟩ := Json.field?_eq_some.mp hkind
    rw [NodeClass.read, readExpr_float hget]
    simp only [↓field_bind_eq_error, ↓bind_pure_eq_error, floatValue_eq_error]
    exact .inr ⟨_, hvalue, .inr ⟨_, rfl, hlimit, trivial⟩⟩
  | longKind hkind hlong =>
    obtain ⟨fields, rfl, hget⟩ := Json.field?_eq_some.mp hkind
    apply read_of_nodeFields_error
    rw [nodeFields_of_other (by rw [hget]), shown_bind_eq_error]
    · exact .inr ⟨hlong, rfl⟩
    · rintro kind - rfl
      exact not_hasLongInteger_str kind hlong
  | longType hkind hty hcompound hlong =>
    obtain ⟨fields, rfl, hget⟩ := Json.field?_eq_some.mp hkind
    rw [NodeClass.read, readStmt_declaration hget]
    simp only [↓field_bind_eq_error, bind_eq_error, tyValue_eq_error]
    exact .inr ⟨_, hty, .inl (.inr (.inr ⟨hcompound, hlong, trivial⟩))⟩
  | longOperator hkind hop hlong =>
    obtain ⟨fields, rfl, hget⟩ := Json.field?_eq_some.mp hkind
    rw [NodeClass.read, readExpr_operator hget]
    simp only [↓field_bind_eq_error, bind_eq_error, operatorValue_eq_error]
    exact .inr ⟨_, hop, .inl (.inr ⟨hlong, trivial⟩)⟩

theorem Unreported.not_malformed (h : Unreported expected json e) (place : Place)
    (fault : NodeFault) : e ≠ .malformed place fault := by
  cases h <;> exact nofun

/-- The ways in which reading the node at a place fails: the node has a fault itself, it fails
without telling its place, or a node below that the decoder goes on to is not read. -/
inductive Failure (expected : NodeClass) (place : Place) (json : Json) : TreeError → Prop where
  | own {fault : NodeFault} : Faulty expected json fault →
      Failure expected place json (.malformed place fault)
  | unreported {e : TreeError} : Unreported expected json e → Failure expected place json e
  | inner {step : Step} {next : Json} {e : TreeError} :
      Enters expected json step next → step.nodeClass.read (place ++ [step]) next = .error e →
      Failure expected place json e

section Kinds

variable {fields : List (String × Json)} {kind : String}

theorem assignment_failure (hkind : Table.get? fields "kind" = some (.str "assignment"))
    (hmem : "assignment" ∈ expected.kinds) (h : expected.read place (.obj fields) = .error e) :
    Failure expected place (.obj fields) e := by
  rw [read_assignment _ hkind] at h
  simp only [↓field_bind_eq_error, ↓bind_pure_eq_error, bind_eq_error, nameField_eq_error,
    nameField_eq_ok] at h
  rcases h with (⟨hmissing, rfl⟩ | ⟨value, hvalue, hrefused, rfl⟩) |
    ⟨name, hname, ⟨hmissing, rfl⟩ | ⟨next, hnext, hbelow⟩⟩
  · exact .own (.missing .target hkind hmem trivial hmissing)
  · exact .own (.refused .target hkind hmem trivial hvalue ⟨hrefused, rfl⟩)
  · exact .own (.missing .assigned hkind hmem ⟨name, hname⟩ hmissing)
  · exact .inner (.assigned hkind hname.1 hname.2 hnext) hbelow

theorem expression_failure (hkind : Table.get? fields "kind" = some (.str kind))
    (hmem : kind ∈ NodeClass.expression.kinds)
    (h : NodeClass.expression.read place (.obj fields) = .error e) :
    Failure .expression place (.obj fields) e := by
  have hclass := hmem
  simp only [NodeClass.kinds, List.mem_cons, List.not_mem_nil, or_false] at hclass
  rcases hclass with rfl | rfl | rfl | rfl | rfl
  · rw [NodeClass.read, readExpr_int hkind] at h
    simp only [↓field_bind_eq_error, ↓bind_pure_eq_error, intValue_eq_error] at h
    rcases h with ⟨hmissing, rfl⟩ | ⟨value, hvalue, fault, hrefused, rfl⟩
    · exact .own (.missing .intValue hkind hmem trivial hmissing)
    · exact .own (.refused .intValue hkind hmem trivial hvalue hrefused)
  · rw [NodeClass.read, readExpr_float hkind] at h
    simp only [↓field_bind_eq_error, ↓bind_pure_eq_error, floatValue_eq_error] at h
    rcases h with ⟨hmissing, rfl⟩ |
      ⟨value, hvalue, ⟨fault, hrefused, rfl⟩ | ⟨n, rfl, hlimit, rfl⟩⟩
    · exact .own (.missing .floatValue hkind hmem trivial hmissing)
    · exact .own (.refused .floatValue hkind hmem trivial hvalue hrefused)
    · exact .unreported (.hugeInteger hkind hvalue hlimit)
  · rw [NodeClass.read, readExpr_var hkind] at h
    simp only [↓bind_pure_eq_error, nameField_eq_error] at h
    rcases h with ⟨hmissing, rfl⟩ | ⟨value, hvalue, hrefused, rfl⟩
    · exact .own (.missing .varName hkind hmem trivial hmissing)
    · exact .own (.refused .varName hkind hmem trivial hvalue ⟨hrefused, rfl⟩)
  · rw [NodeClass.read, readExpr_operator hkind] at h
    simp only [↓field_bind_eq_error, ↓listValue_bind_eq_error, ↓bind_pure_eq_error, bind_eq_error,
      operatorValue_eq_error, operatorValue_eq_ok] at h
    rcases h with ⟨hmissing, rfl⟩ | ⟨found, hop, (⟨fault, hrefused, rfl⟩ | ⟨hlong, rfl⟩) |
      ⟨op, rfl, ⟨hmissing, rfl⟩ | ⟨value, hvalue, ⟨hother, rfl⟩ | ⟨items, rfl, hall⟩⟩⟩⟩
    · exact .own (.missing .operator hkind hmem trivial hmissing)
    · exact .own (.refused .operator hkind hmem trivial hop hrefused)
    · exact .unreported (.longOperator hkind hop hlong)
    · exact .own (.missing .operands hkind hmem ⟨op, hop⟩ hmissing)
    · exact .own (.refused .operands hkind hmem ⟨op, hop⟩ hvalue ⟨hother, rfl⟩)
    · obtain ⟨before, next, after, rfl, hbefore, hnext⟩ := first_of_readAll hall
      rw [Nat.zero_add] at hnext
      refine .inner (.operand hkind hop hvalue fun item hitem => ?_) hnext
      obtain ⟨_, node, hnode⟩ := hbefore item hitem
      exact ⟨node, describes_of_read hnode⟩
  · exact assignment_failure hkind hmem h

theorem statement_failure (hkind : Table.get? fields "kind" = some (.str kind))
    (hmem : kind ∈ NodeClass.statement.kinds)
    (h : NodeClass.statement.read place (.obj fields) = .error e) :
    Failure .statement place (.obj fields) e := by
  have hclass := hmem
  simp only [NodeClass.kinds, List.mem_cons, List.not_mem_nil, or_false] at hclass
  rcases hclass with rfl | rfl | rfl | rfl | rfl
  · rw [NodeClass.read, readStmt_sequence hkind] at h
    simp only [↓field_bind_eq_error, ↓listValue_bind_eq_error, ↓bind_pure_eq_error] at h
    rcases h with ⟨hmissing, rfl⟩ | ⟨value, hvalue, ⟨hother, rfl⟩ | ⟨items, rfl, hall⟩⟩
    · exact .own (.missing .statements hkind hmem trivial hmissing)
    · exact .own (.refused .statements hkind hmem trivial hvalue ⟨hother, rfl⟩)
    · obtain ⟨before, next, after, rfl, hbefore, hnext⟩ := first_of_readAll hall
      rw [Nat.zero_add] at hnext
      refine .inner (.statement hkind hvalue fun item hitem => ?_) hnext
      obtain ⟨_, node, hnode⟩ := hbefore item hitem
      exact ⟨node, describes_of_read hnode⟩
  · rw [NodeClass.read, readStmt_declaration hkind] at h
    simp only [↓field_bind_eq_error, ↓bind_pure_eq_error, bind_eq_error, tyValue_eq_error,
      tyValue_eq_ok, nameField_eq_error, nameField_eq_ok, readOptionalExpr_eq_error,
      optionalValue_eq_some] at h
    rcases h with ⟨hmissing, rfl⟩ | ⟨found, hty,
      (⟨fault, hrefused, rfl⟩ | ⟨hcompound, rfl⟩ | ⟨hcompound, hlong, rfl⟩) |
      ⟨ty, rfl, (⟨hmissing, rfl⟩ | ⟨value, hvalue, hrefused, rfl⟩) | ⟨name, hname, hbelow⟩⟩⟩
    · exact .own (.missing .type hkind hmem trivial hmissing)
    · exact .own (.refused .type hkind hmem trivial hty hrefused)
    · exact .unreported (.compoundType hkind hty hcompound)
    · exact .unreported (.longType hkind hty hcompound hlong)
    · exact .own (.missing .declared hkind hmem ⟨ty, hty⟩ hmissing)
    · exact .own (.refused .declared hkind hmem ⟨ty, hty⟩ hvalue ⟨hrefused, rfl⟩)
    · obtain ⟨next, ⟨hvalue, hnull⟩, hnext⟩ := hbelow
      exact .inner (.initial hkind hty hname.1 hname.2 hvalue hnull) hnext
  · rw [NodeClass.read, readStmt_print hkind] at h
    simp only [↓field_bind_eq_error, ↓bind_pure_eq_error, bind_eq_error, textValue_eq_error,
      textValue_eq_ok, readOptionalExpr_eq_error, optionalValue_eq_some] at h
    rcases h with ⟨hmissing, rfl⟩ | ⟨value, htext, ⟨hother, rfl⟩ | ⟨text, rfl, hbelow⟩⟩
    · exact .own (.missing .text hkind hmem trivial hmissing)
    · exact .own (.refused .text hkind hmem trivial htext ⟨hother, rfl⟩)
    · obtain ⟨next, ⟨hvalue, hnull⟩, hnext⟩ := hbelow
      exact .inner (.printed hkind htext hvalue hnull) hnext
  · rw [NodeClass.read, readStmt_while hkind] at h
    simp only [↓field_bind_eq_error, ↓bind_pure_eq_error, bind_eq_error] at h
    rcases h with ⟨hmissing, rfl⟩ | ⟨test, htest, hbelow | ⟨condition, hcondition, h⟩⟩
    · exact .own (.missing .condition hkind hmem trivial hmissing)
    · exact .inner (.condition hkind htest) hbelow
    · have hdescribes : Describes .expression test condition := describes_of_read hcondition
      rcases h with ⟨hmissing, rfl⟩ | ⟨next, hbody, hbelow⟩
      · exact .own (.missing .body hkind hmem ⟨test, condition, htest, hdescribes⟩ hmissing)
      · exact .inner (.body hkind htest hdescribes hbody) hbelow
  · exact assignment_failure hkind hmem h

end Kinds

theorem failure_of_error (h : expected.read place json = .error e) :
    Failure expected place json e := by
  rcases nodeFields_cases expected json with
    ⟨fields, kind, rfl, hkind, hmem⟩ | ⟨fault, hfaulty, -⟩ | ⟨hunreported, -⟩
  · cases expected with
    | expression => exact expression_failure hkind hmem h
    | statement => exact statement_failure hkind hmem h
  · obtain rfl := Except.error.inj ((hfaulty.error place).symm.trans h)
    exact .own hfaulty
  · obtain rfl := Except.error.inj ((hunreported.error place).symm.trans h)
    exact .unreported hunreported

theorem Enters.sizeOf_lt (h : Enters expected json step next) : sizeOf next < sizeOf json := by
  cases h with
  | operand _ _ hitems | statement _ hitems => exact sizeOf_item hitems (by simp)
  | assigned _ _ _ hnext | initial _ _ _ _ hnext | printed _ _ hnext | condition _ hnext
  | body _ _ _ hnext => exact sizeOf_field? hnext

end Errors

/-- The decoder comes from a value, read as a node of the first class, along a place to a value that
it reads as a node of the second class. -/
inductive Reaches : NodeClass → Json → Place → NodeClass → Json → Prop where
  | here (expected : NodeClass) (json : Json) : Reaches expected json [] expected json
  | enter {expected cls : NodeClass} {json next found : Json} {step : Step} {place : Place} :
      Enters expected json step next → Reaches step.nodeClass next place cls found →
      Reaches expected json (step :: place) cls found

/-- An error of a value that the decoder comes to is the error of the whole. -/
theorem Reaches.error {expected cls : NodeClass} {json found : Json} {place way : Place}
    {e : TreeError} (h : Reaches expected json way cls found)
    (hfound : cls.read (place ++ way) found = .error e) : expected.read place json = .error e := by
  induction h generalizing place with
  | here => rwa [List.append_nil] at hfound
  | enter henters _ ih => exact henters.error (ih (by rwa [List.append_assoc]))

/-- Every error is that of a value the decoder comes to, and of that value itself. -/
theorem exists_reaches {expected : NodeClass} {json : Json} {place : Place} {e : TreeError}
    (h : expected.read place json = .error e) :
    ∃ way cls found, Reaches expected json way cls found ∧
      ((∃ fault, Faulty cls found fault ∧ e = .malformed (place ++ way) fault) ∨
        Unreported cls found e) := by
  cases failure_of_error h with
  | own hfaulty =>
    exact ⟨[], _, _, .here .., .inl ⟨_, hfaulty, by rw [List.append_nil]⟩⟩
  | unreported hunreported => exact ⟨[], _, _, .here .., .inr hunreported⟩
  | @inner step next _ henters hnext =>
    have := henters.sizeOf_lt
    obtain ⟨way, cls, found, hreaches, hown⟩ := exists_reaches hnext
    rw [List.append_assoc] at hown
    exact ⟨step :: way, cls, found, .enter henters hreaches, hown⟩
termination_by sizeOf json

theorem ofJson_eq_read (json : Json) : Program.ofJson json = NodeClass.statement.read [] json := rfl

/-- A fault is reported exactly if it is that of a value the decoder comes to, at its place. -/
theorem malformed_iff {json : Json} {place : Place} {fault : NodeFault} :
    Program.ofJson json = .error (.malformed place fault) ↔
      ∃ cls found, Reaches .statement json place cls found ∧ Faulty cls found fault := by
  rw [ofJson_eq_read]
  constructor
  · intro h
    obtain ⟨way, cls, found, hreaches, ⟨own, hfaulty, heq⟩ | hunreported⟩ := exists_reaches h
    · obtain ⟨rfl, rfl⟩ := TreeError.malformed.inj heq
      exact ⟨cls, found, hreaches, hfaulty⟩
    · exact absurd rfl (hunreported.not_malformed place fault)
  · rintro ⟨cls, found, hreaches, hfaulty⟩
    exact hreaches.error (hfaulty.error _)

/-- A value is read as a program or reported as malformed, unless the decoder comes to a type that
is a list or an object, to an integer that is too large for a double, or to a kind, type or operator
that no message can show, since an integer of too many digits stands in it: then that is the
error. -/
theorem reported_unless_unreported (json : Json) :
    (((∃ program, Program.ofJson json = .ok program) ∨
        ∃ place fault, Program.ofJson json = .error (.malformed place fault)) ↔
      ¬ ∃ place expected found e,
        Reaches .statement json place expected found ∧ Unreported expected found e) ∧
    ∀ place expected found e, Reaches .statement json place expected found →
      Unreported expected found e → Program.ofJson json = .error e := by
  have hescapes : ∀ place expected found e, Reaches .statement json place expected found →
      Unreported expected found e → Program.ofJson json = .error e :=
    fun _ _ _ _ hreaches hunreported => hreaches.error (hunreported.error _)
  refine ⟨⟨?_, fun hnone => ?_⟩, hescapes⟩
  · rintro hreported ⟨place, expected, found, e, hreaches, hunreported⟩
    have herror := hescapes place expected found e hreaches hunreported
    rcases hreported with ⟨program, hok⟩ | ⟨place, fault, hfault⟩
    · rw [herror] at hok
      cases hok
    · rw [herror] at hfault
      exact hunreported.not_malformed place fault (Except.error.inj hfault)
  · rw [ofJson_eq_read]
    cases hread : NodeClass.statement.read [] json with
    | ok program => exact .inl ⟨program, rfl⟩
    | error e =>
      obtain ⟨way, cls, found, hreaches, ⟨fault, -, rfl⟩ | hunreported⟩ := exists_reaches hread
      · exact .inr ⟨_, fault, rfl⟩
      · exact absurd ⟨way, cls, found, e, hreaches, hunreported⟩ hnone

/-- The print of a float literal whose number is the integer `10 ^ 400`. -/
def hugePrint : Json :=
  .obj [("kind", .str "print"), ("prefix", .str ""),
    ("expression", .obj [("kind", .str "float"), ("value", .int (Nat.pow 10 400))])]

theorem hugePrint_unreported :
    Reaches .statement hugePrint [.expression] .expression
      (.obj [("kind", .str "float"), ("value", .int (Nat.pow 10 400))]) ∧
    Program.ofJson hugePrint = .error .hugeInteger := by
  have hreaches : Reaches .statement hugePrint [.expression] .expression
      (.obj [("kind", .str "float"), ("value", .int (Nat.pow 10 400))]) :=
    .enter (.printed rfl rfl rfl nofun) (.here ..)
  have hhuge : Unreported .expression
      (.obj [("kind", .str "float"), ("value", .int (Nat.pow 10 400))]) .hugeInteger :=
    .hugeInteger rfl rfl (by decide +kernel)
  exact ⟨hreaches, (reported_unless_unreported hugePrint).2 _ _ _ _ hreaches hhuge⟩

/-- A declaration whose type is an empty list. -/
def listTyped : Json :=
  .obj [("kind", .str "declaration"), ("type", .arr []), ("name", .str "x")]

theorem listTyped_unreported :
    Program.ofJson listTyped = .error (.compoundType (.arr [])) ∧
      ¬ ((∃ program, Program.ofJson listTyped = .ok program) ∨
        ∃ place fault, Program.ofJson listTyped = .error (.malformed place fault)) := by
  have hunreported : Unreported .statement listTyped (.compoundType (.arr [])) :=
    .compoundType rfl rfl trivial
  have herror : Program.ofJson listTyped = .error (.compoundType (.arr [])) :=
    hunreported.error []
  refine ⟨herror, ?_⟩
  rw [herror]
  rintro (⟨program, h⟩ | ⟨place, fault, h⟩) <;> cases h

/-- A kind that is an integer is reported exactly if the message can show it. -/
theorem integerKind_unreported_iff (n : Int) :
    Program.ofJson (.obj [("kind", .int n)]) = .error .longInteger ↔
      Nat.pow 10 maxIntegerDigits ≤ n.natAbs := by
  constructor
  · intro h
    cases htext : (Json.int n).quoted? with
    | none =>
      obtain ⟨hlong⟩ := (quoted?_eq_none (.int n)).mp htext
      exact hlong
    | some text =>
      have hfaulty : Faulty .statement (.obj [("kind", .int n)]) _ := .wrongKind rfl nofun htext
      rw [ofJson_eq_read, hfaulty.error] at h
      cases h
  · intro hlong
    have hunreported : Unreported .statement (.obj [("kind", .int n)]) .longInteger :=
      .longKind rfl (.int hlong)
    exact hunreported.error []

end ProgramTrees
