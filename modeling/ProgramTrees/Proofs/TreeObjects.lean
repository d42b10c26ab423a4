import ProgramTrees.Proofs.TreeDecoding

namespace ProgramTrees

theorem Describes.read {expected : NodeClass} {json : Json} {node : Program}
    (h : Describes expected json node) (place : Place) : expected.read place json = .ok node := by
  induction h generalizing place with
  | int hkind hvalue hlower hupper =>
    obtain ⟨fields, rfl, hkind⟩ := Json.field?_eq_some.mp hkind
    rw [NodeClass.read, readExpr_int hkind]
    simp only [↓field_bind_eq_ok, bind_eq_ok, intValue_eq_ok, pure_eq_ok]
    exact ⟨_, hvalue, _, ⟨_, rfl, hlower, hupper, rfl⟩, rfl⟩
  | float hkind hvalue =>
    obtain ⟨fields, rfl, hkind⟩ := Json.field?_eq_some.mp hkind
    rw [NodeClass.read, readExpr_float hkind]
    simp only [↓field_bind_eq_ok, bind_eq_ok, floatValue_eq_ok, pure_eq_ok]
    exact ⟨_, hvalue, _, .inl rfl, rfl⟩
  | wholeFloat hkind hvalue hlimit =>
    obtain ⟨fields, rfl, hkind⟩ := Json.field?_eq_some.mp hkind
    rw [NodeClass.read, readExpr_float hkind]
    simp only [↓field_bind_eq_ok, bind_eq_ok, floatValue_eq_ok, doubleOfInt?_eq_some_iff,
      pure_eq_ok]
    exact ⟨_, hvalue, _, .inr ⟨_, rfl, hlimit, rfl⟩, rfl⟩
  | var hkind hname hne =>
    obtain ⟨fields, rfl, hkind⟩ := Json.field?_eq_some.mp hkind
    rw [NodeClass.read, readExpr_var hkind]
    simp only [bind_eq_ok, nameField_eq_ok, pure_eq_ok]
    exact ⟨_, ⟨hname, hne⟩, rfl⟩
  | operator hkind hop hitems hlength _ ih =>
    obtain ⟨fields, rfl, hkind⟩ := Json.field?_eq_some.mp hkind
    have hall := List.forall₂_iff_zip.mpr ⟨hlength, fun {item operand} => ih item operand⟩
    rw [NodeClass.read, readExpr_operator hkind]
    simp only [↓field_bind_eq_ok, ↓listValue_bind_eq_ok, bind_eq_ok, operatorValue_eq_ok,
      pure_eq_ok]
    exact ⟨_, hop, _, rfl, _, hitems, _, rfl, _, readAll_of_forall₂ hall, rfl⟩
  | assignment hkind hname hne hvalue _ ih =>
    obtain ⟨fields, rfl, hkind⟩ := Json.field?_eq_some.mp hkind
    rw [read_assignment _ hkind]
    simp only [↓field_bind_eq_ok, bind_eq_ok, nameField_eq_ok, pure_eq_ok]
    exact ⟨_, ⟨hname, hne⟩, _, hvalue, _, ih _, rfl⟩
  | sequence hkind hitems hlength _ ih =>
    obtain ⟨fields, rfl, hkind⟩ := Json.field?_eq_some.mp hkind
    have hall := List.forall₂_iff_zip.mpr ⟨hlength, fun {item statement} => ih item statement⟩
    rw [NodeClass.read, readStmt_sequence hkind]
    simp only [↓field_bind_eq_ok, ↓listValue_bind_eq_ok, bind_eq_ok, pure_eq_ok]
    exact ⟨_, hitems, _, rfl, _, readAll_of_forall₂ hall, rfl⟩
  | declared hkind hty hname hne hvalue =>
    obtain ⟨fields, rfl, hkind⟩ := Json.field?_eq_some.mp hkind
    rw [NodeClass.read, readStmt_declaration hkind]
    simp only [↓field_bind_eq_ok, bind_eq_ok, tyValue_eq_ok, nameField_eq_ok,
      readOptionalExpr_eq_ok, optionalValue_eq_none, pure_eq_ok]
    exact ⟨_, hty, _, rfl, _, ⟨hname, hne⟩, _, .inl ⟨hvalue, rfl⟩, rfl⟩
  | initialized hkind hty hname hne hvalue hbelow ih =>
    obtain ⟨fields, rfl, hkind⟩ := Json.field?_eq_some.mp hkind
    rw [NodeClass.read, readStmt_declaration hkind]
    simp only [↓field_bind_eq_ok, bind_eq_ok, tyValue_eq_ok, nameField_eq_ok,
      readOptionalExpr_eq_ok, optionalValue_eq_some, pure_eq_ok]
    exact ⟨_, hty, _, rfl, _, ⟨hname, hne⟩, _,
      .inr ⟨_, _, ⟨hvalue, hbelow.ne_null⟩, ih _, rfl⟩, rfl⟩
  | text hkind htext hvalue =>
    obtain ⟨fields, rfl, hkind⟩ := Json.field?_eq_some.mp hkind
    rw [NodeClass.read, readStmt_print hkind]
    simp only [↓field_bind_eq_ok, bind_eq_ok, textValue_eq_ok, readOptionalExpr_eq_ok,
      optionalValue_eq_none, pure_eq_ok]
    exact ⟨_, htext, _, rfl, _, .inl ⟨hvalue, rfl⟩, rfl⟩
  | printed hkind htext hvalue hbelow ih =>
    obtain ⟨fields, rfl, hkind⟩ := Json.field?_eq_some.mp hkind
    rw [NodeClass.read, readStmt_print hkind]
    simp only [↓field_bind_eq_ok, bind_eq_ok, textValue_eq_ok, readOptionalExpr_eq_ok,
      optionalValue_eq_some, pure_eq_ok]
    exact ⟨_, htext, _, rfl, _, .inr ⟨_, _, ⟨hvalue, hbelow.ne_null⟩, ih _, rfl⟩, rfl⟩
  | loop hkind htest _ hrounds _ ihcondition ihbody =>
    obtain ⟨fields, rfl, hkind⟩ := Json.field?_eq_some.mp hkind
    rw [NodeClass.read, readStmt_while hkind]
    simp only [↓field_bind_eq_ok, bind_eq_ok, pure_eq_ok]
    exact ⟨_, htest, _, ihcondition _, _, hrounds, _, ihbody _, rfl⟩

section Kinds

variable {expected : NodeClass} {place : Place} {fields : List (String × Json)} {kind : String}
  {node : Program}
  (ih : ∀ cls place below tree, sizeOf below < sizeOf (Json.obj fields) →
    NodeClass.read cls place below = .ok tree → Describes cls below tree)
include ih

theorem describes_assignment (hkind : Table.get? fields "kind" = some (.str "assignment"))
    (h : expected.read place (.obj fields) = .ok node) : Describes expected (.obj fields) node := by
  rw [read_assignment _ hkind] at h
  simp only [↓field_bind_eq_ok, bind_eq_ok, nameField_eq_ok, pure_eq_ok] at h
  obtain ⟨name, ⟨hname, hne⟩, below, hbelow, value, hvalue, rfl⟩ := h
  exact .assignment hkind hname hne hbelow (ih .expression _ _ _ (sizeOf_field? hbelow) hvalue)

theorem describes_expression (hkind : Table.get? fields "kind" = some (.str kind))
    (hmem : kind ∈ NodeClass.expression.kinds)
    (h : NodeClass.expression.read place (.obj fields) = .ok node) :
    Describes .expression (.obj fields) node := by
  simp only [NodeClass.kinds, List.mem_cons, List.not_mem_nil, or_false] at hmem
  rcases hmem with rfl | rfl | rfl | rfl | rfl
  · rw [NodeClass.read, readExpr_int hkind] at h
    simp only [↓field_bind_eq_ok, bind_eq_ok, intValue_eq_ok, pure_eq_ok] at h
    obtain ⟨_, hvalue, _, ⟨n, rfl, hlower, hupper, rfl⟩, rfl⟩ := h
    exact .int hkind hvalue hlower hupper
  · rw [NodeClass.read, readExpr_float hkind] at h
    simp only [↓field_bind_eq_ok, bind_eq_ok, floatValue_eq_ok, doubleOfInt?_eq_some_iff,
      pure_eq_ok] at h
    obtain ⟨_, hvalue, _, rfl | ⟨n, rfl, hlimit, rfl⟩, rfl⟩ := h
    · exact .float hkind hvalue
    · exact .wholeFloat hkind hvalue hlimit
  · rw [NodeClass.read, readExpr_var hkind] at h
    simp only [bind_eq_ok, nameField_eq_ok, pure_eq_ok] at h
    obtain ⟨name, ⟨hname, hne⟩, rfl⟩ := h
    exact .var hkind hname hne
  · rw [NodeClass.read, readExpr_operator hkind] at h
    simp only [↓field_bind_eq_ok, ↓listValue_bind_eq_ok, bind_eq_ok, operatorValue_eq_ok,
      pure_eq_ok] at h
    obtain ⟨_, hop, op, rfl, _, hitems, items, rfl, operands, hall, rfl⟩ := h
    obtain ⟨hlength, hpairs⟩ := List.forall₂_iff_zip.mp (forall₂_of_readAll hall)
    refine .operator hkind hop hitems hlength fun item operand hpair => ?_
    obtain ⟨below, hread⟩ := hpairs hpair
    exact ih .expression _ _ _ (sizeOf_item hitems (List.of_mem_zip hpair).1) hread
  · exact describes_assignment ih hkind h

theorem describes_statement (hkind : Table.get? fields "kind" = some (.str kind))
    (hmem : kind ∈ NodeClass.statement.kinds)
    (h : NodeClass.statement.read place (.obj fields) = .ok node) :
    Describes .statement (.obj fields) node := by
  simp only [NodeClass.kinds, List.mem_cons, List.not_mem_nil, or_false] at hmem
  rcases hmem with rfl | rfl | rfl | rfl | rfl
  · rw [NodeClass.read, readStmt_sequence hkind] at h
    simp only [↓field_bind_eq_ok, ↓listValue_bind_eq_ok, bind_eq_ok, pure_eq_ok] at h
    obtain ⟨_, hitems, items, rfl, statements, hall, rfl⟩ := h
    obtain ⟨hlength, hpairs⟩ := List.forall₂_iff_zip.mp (forall₂_of_readAll hall)
    refine .sequence hkind hitems hlength fun item statement hpair => ?_
    obtain ⟨below, hread⟩ := hpairs hpair
    exact ih .statement _ _ _ (sizeOf_item hitems (List.of_mem_zip hpair).1) hread
  · rw [NodeClass.read, readStmt_declaration hkind] at h
    simp only [↓field_bind_eq_ok, bind_eq_ok, tyValue_eq_ok, nameField_eq_ok,
      readOptionalExpr_eq_ok, optionalValue_eq_none, optionalValue_eq_some, pure_eq_ok] at h
    obtain ⟨_, hty, ty, rfl, name, ⟨hname, hne⟩, _, ⟨hnone, rfl⟩ | hsome, rfl⟩ := h
    · exact .declared hkind hty hname hne hnone
    · obtain ⟨below, value, ⟨hbelow, -⟩, hvalue, rfl⟩ := hsome
      exact .initialized hkind hty hname hne hbelow
        (ih .expression _ _ _ (sizeOf_field? hbelow) hvalue)
  · rw [NodeClass.read, readStmt_print hkind] at h
    simp only [↓field_bind_eq_ok, bind_eq_ok, textValue_eq_ok, readOptionalExpr_eq_ok,
      optionalValue_eq_none, optionalValue_eq_some, pure_eq_ok] at h
    obtain ⟨_, htext, text, rfl, _, ⟨hnone, rfl⟩ | hsome, rfl⟩ := h
    · exact .text hkind htext hnone
    · obtain ⟨below, value, ⟨hbelow, -⟩, hvalue, rfl⟩ := hsome
      exact .printed hkind htext hbelow (ih .expression _ _ _ (sizeOf_field? hbelow) hvalue)
  · rw [NodeClass.read, readStmt_while hkind] at h
    simp only [↓field_bind_eq_ok, bind_eq_ok, pure_eq_ok] at h
    obtain ⟨test, htest, condition, hcondition, rounds, hrounds, body, hbody, rfl⟩ := h
    exact .loop hkind htest (ih .expression _ _ _ (sizeOf_field? htest) hcondition) hrounds
      (ih .statement _ _ _ (sizeOf_field? hrounds) hbody)
  · exact describes_assignment ih hkind h

end Kinds

theorem describes_of_read {expected : NodeClass} {place : Place} {json : Json} {node : Program}
    (h : expected.read place json = .ok node) : Describes expected json node := by
  rcases nodeFields_cases expected json with
    ⟨fields, kind, rfl, hkind, hmem⟩ | ⟨fault, -, hfail⟩ | ⟨-, hlong⟩
  · have ih : ∀ cls place below tree, sizeOf below < sizeOf (Json.obj fields) →
        NodeClass.read cls place below = .ok tree → Describes cls below tree :=
      fun _ _ _ _ _ hbelow => describes_of_read hbelow
    cases expected with
    | expression => exact describes_expression ih hkind hmem h
    | statement => exact describes_statement ih hkind hmem h
  · rw [read_of_nodeFields_error (hfail place)] at h
    cases h
  · rw [read_of_nodeFields_error (hlong place)] at h
    cases h
termination_by sizeOf json

/-- A value is read as a tree exactly if it describes that tree, at whatever place it stands. -/
theorem read_eq_ok_iff {expected : NodeClass} {place : Place} {json : Json} {node : Program} :
    expected.read place json = .ok node ↔ Describes expected json node :=
  ⟨describes_of_read, fun h => h.read place⟩

end ProgramTrees
