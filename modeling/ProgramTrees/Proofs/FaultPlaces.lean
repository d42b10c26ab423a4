import ProgramTrees.Proofs.DecodingOrder
import ProgramTrees.Proofs.NumeralReading

namespace ProgramTrees

/-- What stands at a step below a value. -/
def Json.below? (json : Json) : Step → Option Json
  | .statement index => item? "statements" index
  | .operand index => item? "operands" index
  | .value => json.field? "value"
  | .expression => json.field? "expression"
  | .condition => json.field? "condition"
  | .body => json.field? "body"
where
  item? (key : String) (index : Nat) : Option Json :=
    match json.field? key with
    | some (.arr items) => items[index]?
    | _ => none

/-- What a place leads to in a value. -/
def Json.at? (json : Json) : Place → Option Json
  | [] => some json
  | step :: place => (json.below? step).bind (·.at? place)

/-- The steps to the nodes that are read before the node at a step. -/
def Step.earlier : Step → List Step
  | .statement index => (List.range index).map .statement
  | .operand index => (List.range index).map .operand
  | .body => [.condition]
  | .value | .expression | .condition => []

/-- The class that is expected at a place in a program. -/
def Place.nodeClass (place : Place) : NodeClass :=
  place.getLast?.elim .statement Step.nodeClass

section Texts

def indexed (name : String) (index : Nat) : List Char :=
  name.toList ++ '[' :: (Nat.toDigits 10 index ++ [']'])

/-- The characters of a step after its dot. -/
def Step.label : Step → List Char
  | .statement index => indexed "statements" index
  | .value => "value".toList
  | .expression => "expression".toList
  | .condition => "condition".toList
  | .body => "body".toList
  | .operand index => indexed "operands" index

theorem Step.toList_text (step : Step) : step.text.toList = '.' :: step.label := by
  unfold Step.text Step.label
  cases step with
  | statement index | operand index =>
    simp [indexed, toString, Nat.repr]
  | value | expression | condition | body => rfl

theorem indexed_plain {name : String} (index : Nat) {mark : Char} (hmark : mark ∉ name.toList)
    (hdigit : mark.isDigit = false) (hopen : mark ≠ '[') (hclose : mark ≠ ']') :
    mark ∉ indexed name index := by
  intro hmem
  simp only [indexed, List.mem_append, List.mem_cons, hmark, hopen, hclose, List.not_mem_nil,
    or_false, false_or] at hmem
  have := isDigit_toDigits index mark hmem
  simp_all

theorem Step.label_plain (step : Step) : '.' ∉ step.label ∧ '(' ∉ step.label := by
  unfold Step.label
  cases step with
  | statement index | operand index =>
    exact ⟨indexed_plain index (by decide) rfl (by decide) (by decide),
      indexed_plain index (by decide) rfl (by decide) (by decide)⟩
  | value | expression | condition | body => decide

theorem indexed_injective {name : String} {m n : Nat} (h : indexed name m = indexed name n) :
    m = n := by
  have hdigits : Nat.toDigits 10 m = Nat.toDigits 10 n := by simpa [indexed] using h
  rw [← digitsValue_toDigits m, hdigits, digitsValue_toDigits]

/-- The letter that a label begins with, which tells the kinds of steps apart. -/
def Step.initial : Step → Char
  | .statement _ => 's'
  | .value => 'v'
  | .expression => 'e'
  | .condition => 'c'
  | .body => 'b'
  | .operand _ => 'o'

theorem Step.head?_label (step : Step) : step.label.head? = some step.initial := by
  cases step <;> rfl

theorem Step.label_injective {step other : Step} (h : step.label = other.label) :
    step = other := by
  have hinitial : step.initial = other.initial :=
    Option.some.inj (by rw [← head?_label, h, head?_label])
  cases step with
  | statement m =>
    cases other with
    | statement n => rw [indexed_injective h]
    | _ => cases hinitial
  | operand m =>
    cases other with
    | operand n => rw [indexed_injective h]
    | _ => cases hinitial
  | _ => cases other <;> first | rfl | cases hinitial

theorem Place.toList_text (place : Place) :
    place.text.toList = '$' :: place.flatMap fun step => '.' :: step.label := by
  simp [Place.text, List.flatMap_map, Step.toList_text]

theorem cut_first {xs ys us vs : List Char} {mark : Char} (hxs : mark ∉ xs) (hys : mark ∉ ys)
    (hus : ∀ c ∈ us.head?, c = mark) (hvs : ∀ c ∈ vs.head?, c = mark) (h : xs ++ us = ys ++ vs) :
    xs = ys ∧ us = vs := by
  rcases List.append_eq_append_iff.mp h with ⟨_ | ⟨c, cs⟩, rfl, rfl⟩ | ⟨_ | ⟨c, cs⟩, rfl, rfl⟩
  · simp
  · have hc : c = mark := hus c rfl
    simp [hc] at hys
  · simp
  · have hc : c = mark := hvs c rfl
    simp [hc] at hxs

theorem cut_last {xs ys us vs : List Char} {mark : Char} (hus : mark ∉ us) (hvs : mark ∉ vs)
    (h : xs ++ mark :: us = ys ++ mark :: vs) : xs = ys ∧ us = vs := by
  rcases List.append_eq_append_iff.mp h with ⟨_ | ⟨c, cs⟩, rfl, heq⟩ | ⟨_ | ⟨c, cs⟩, rfl, heq⟩
  · simpa using heq
  · obtain ⟨-, rfl⟩ := List.cons.inj heq
    simp at hus
  · simpa using heq.symm
  · obtain ⟨-, rfl⟩ := List.cons.inj heq
    simp at hvs

theorem flatMap_label_injective {place other : Place}
    (h : (place.flatMap fun step => '.' :: step.label) =
      other.flatMap fun step => '.' :: step.label) : place = other := by
  have hhead : ∀ place : Place,
      ∀ c ∈ (place.flatMap fun step => '.' :: step.label).head?, c = '.' := by
    intro place c hc
    cases place with
    | nil => cases hc
    | cons step place => exact (Option.some.inj hc).symm
  induction place generalizing other with
  | nil =>
    cases other with
    | nil => rfl
    | cons first others => cases h
  | cons step place ih =>
    cases other with
    | nil => cases h
    | cons first others =>
      obtain ⟨hlabel, hrest⟩ := cut_first step.label_plain.1 first.label_plain.1 (hhead place)
        (hhead others) (List.cons.inj h).2
      rw [Step.label_injective hlabel, ih hrest]

theorem Place.open_notMem_text (place : Place) : '(' ∉ place.text.toList := by
  rw [Place.toList_text]
  intro hmem
  simp only [List.mem_cons, List.mem_flatMap] at hmem
  rcases hmem with h | ⟨step, -, h | h⟩
  · exact absurd h (by decide)
  · exact absurd h (by decide)
  · exact step.label_plain.2 h

theorem Place.text_injective {place other : Place} (h : place.text = other.text) :
    place = other := by
  have hchars := congrArg String.toList h
  rw [Place.toList_text, Place.toList_text] at hchars
  exact flatMap_label_injective (List.cons.inj hchars).2

/-- A message ends in one place only. -/
theorem message_injective {message text : String} {place other : Place}
    (h : message ++ " (at " ++ place.text ++ ")" = text ++ " (at " ++ other.text ++ ")") :
    message = text ∧ place = other := by
  have hplain : ∀ place : Place, '(' ∉ "at ".toList ++ place.text.toList ++ [')'] := by
    intro place hmem
    simp only [List.mem_append] at hmem
    rcases hmem with (h | h) | h
    · exact absurd h (by decide)
    · exact place.open_notMem_text h
    · exact absurd h (by decide)
  have hchars : (message.toList ++ [' ']) ++ '(' :: ("at ".toList ++ place.text.toList ++ [')']) =
      (text.toList ++ [' ']) ++ '(' :: ("at ".toList ++ other.text.toList ++ [')']) := by
    simpa using congrArg String.toList h
  obtain ⟨hmessage, hplace⟩ := cut_last (hplain place) (hplain other) hchars
  refine ⟨String.toList_injective (List.append_cancel_right hmessage), Place.text_injective ?_⟩
  exact String.toList_injective (List.append_cancel_left (List.append_cancel_right hplace))

theorem withSource_eq (source : Option String) :
    ∃ lead, ∀ message, withSource source message = lead ++ message := by
  unfold withSource
  split
  · exact ⟨"", fun message => by simp⟩
  · exact ⟨"", fun message => by simp⟩
  next name _ => exact ⟨name ++ ": ", fun message => rfl⟩

end Texts

section Ways

variable {expected cls : NodeClass} {json next found : Json} {step : Step} {place : Place}

theorem Enters.below? (h : Enters expected json step next) : json.below? step = some next := by
  cases h with
  | operand _ _ hitems | statement _ hitems => simp [Json.below?, Json.below?.item?, hitems]
  | assigned _ _ _ hnext | initial _ _ _ _ hnext | printed _ _ hnext | condition _ hnext
  | body _ _ _ hnext => exact hnext

theorem item?_before {key : String} {before after : List Json}
    (hitems : json.field? key = some (.arr (before ++ next :: after))) {index : Nat}
    (hindex : index < before.length) : Json.below?.item? json key index = some before[index] := by
  rw [Json.below?.item?, hitems]
  exact (List.getElem?_append_left hindex).trans (List.getElem?_eq_getElem hindex)

theorem Enters.earlier (h : Enters expected json step next) :
    ∀ earlier ∈ step.earlier, ∃ sibling node,
      json.below? earlier = some sibling ∧ earlier.nodeClass.read [] sibling = .ok node := by
  cases h with
  | operand _ _ hitems hbefore | statement _ hitems hbefore =>
    intro earlier hearlier
    obtain ⟨index, hindex, rfl⟩ := List.mem_map.mp hearlier
    rw [List.mem_range] at hindex
    obtain ⟨node, hnode⟩ := hbefore _ (List.getElem_mem hindex)
    exact ⟨_, node, item?_before hitems hindex, hnode.read []⟩
  | body _ htest hdescribes =>
    intro earlier hearlier
    obtain rfl := List.mem_singleton.mp hearlier
    exact ⟨_, _, htest, hdescribes.read []⟩
  | assigned | initial | printed | condition => exact nofun

theorem Reaches.at? (h : Reaches expected json place cls found) : json.at? place = some found := by
  induction h with
  | here => rfl
  | enter henters _ ih => rw [Json.at?, henters.below?, Option.bind_some, ih]

theorem Reaches.nodeClass (h : Reaches expected json place cls found) :
    cls = place.getLast?.elim expected Step.nodeClass := by
  induction h with
  | here => rfl
  | @enter _ _ _ _ _ step place _ _ ih =>
    rw [ih, List.getLast?_cons]
    cases place.getLast? <;> rfl

/-- The way along a place comes through the node at every part of it. -/
theorem Reaches.through {before after : Place}
    (h : Reaches expected json (before ++ after) cls found) :
    ∃ middle parent, Reaches expected json before middle parent ∧
      Reaches middle parent after cls found := by
  induction before generalizing expected json with
  | nil => exact ⟨_, _, .here .., h⟩
  | cons step before ih =>
    cases h with
    | enter henters hrest =>
      obtain ⟨middle, parent, hbefore, hafter⟩ := ih hrest
      exact ⟨middle, parent, .enter henters hbefore, hafter⟩

/-- A node above a fault has the fault at the rest of the place, and no fault of its own. -/
theorem Reaches.not_faulty {after : Place} {fault : NodeFault}
    (h : Reaches expected json (step :: after) cls found) (hfaulty : Faulty cls found fault) :
    expected.read [] json = .error (.malformed (step :: after) fault) ∧
      ∀ other, ¬ Faulty expected json other := by
  have hread : expected.read [] json = .error (.malformed (step :: after) fault) :=
    h.error (hfaulty.error _)
  refine ⟨hread, fun other hother => ?_⟩
  rw [hother.error] at hread
  cases hread

end Ways

theorem message_malformed (source : Option String) (fault : NodeFault) :
    ∃ text, ∀ place, (TreeError.malformed place fault).message source =
      text ++ " (at " ++ Place.text place ++ ")" := by
  obtain ⟨lead, hlead⟩ := withSource_eq source
  refine ⟨lead ++ fault.message, fun place => (hlead _).trans ?_⟩
  simp only [String.append_assoc]
  rfl

/-- The place in a message leads to the first node at fault: the fault is the node's own, and read
alone the node has it at `$`. No node on the way there has a fault of its own; read alone each has
the same fault at the rest of the place. What is read before the nodes on the way is in order. -/
theorem fault_found_at_place {json : Json} {source : Option String} {reported place : Place}
    {fault : NodeFault} {message : String}
    (herror : Program.ofJson json = .error (.malformed reported fault))
    (hmessage : (TreeError.malformed reported fault).message source =
      message ++ " (at " ++ place.text ++ ")") :
    (∃ found, json.at? place = some found ∧ Faulty place.nodeClass found fault ∧
      place.nodeClass.read [] found = .error (.malformed [] fault) ∧
      (TreeError.malformed [] fault).message source = message ++ " (at $)") ∧
    ∀ before step after, place = before ++ step :: after →
      ∃ parent, json.at? before = some parent ∧
        (∀ other, ¬ Faulty before.nodeClass parent other) ∧
        before.nodeClass.read [] parent = .error (.malformed (step :: after) fault) ∧
        ∀ earlier ∈ step.earlier, ∃ sibling node, parent.below? earlier = some sibling ∧
          earlier.nodeClass.read [] sibling = .ok node := by
  obtain ⟨text, htext⟩ := message_malformed source fault
  rw [htext] at hmessage
  obtain ⟨rfl, rfl⟩ := message_injective hmessage
  obtain ⟨cls, found, hreaches, hfaulty⟩ := malformed_iff.mp herror
  refine ⟨⟨found, hreaches.at?, ?_, ?_, ?_⟩, ?_⟩
  · rw [Place.nodeClass, ← hreaches.nodeClass]
    exact hfaulty
  · rw [Place.nodeClass, ← hreaches.nodeClass]
    exact hfaulty.error []
  · rw [htext, String.append_assoc, String.append_assoc]
    rfl
  · rintro before step after rfl
    obtain ⟨middle, parent, hbefore, hafter⟩ := hreaches.through
    obtain ⟨hparent, hfaultless⟩ := hafter.not_faulty hfaulty
    rw [hbefore.nodeClass] at hparent hfaultless
    refine ⟨parent, hbefore.at?, hfaultless, hparent, ?_⟩
    cases hafter with
    | enter henters _ => exact henters.earlier

def nameless : Json :=
  .obj [("kind", .str "var"), ("name", .str "")]

/-- The sum of `1` and a variable without a name. -/
def namelessSum : Json :=
  .obj [("kind", .str "operator"), ("operator", .str "PLUS2"),
    ("operands", .arr [.obj [("kind", .str "int"), ("value", .int 1)], nameless])]

/-- A loop over `x` that prints the sum. -/
def namelessLoop : Json :=
  .obj [("kind", .str "while"), ("condition", .obj [("kind", .str "var"), ("name", .str "x")]),
    ("body", .obj [("kind", .str "print"), ("prefix", .str ""), ("expression", namelessSum)])]

theorem namelessLoop_fault :
    Program.ofJson namelessLoop = .error (.malformed [.body, .expression, .operand 1] .badName) ∧
    namelessLoop.at? [.body, .expression, .operand 1] = some nameless ∧
    Faulty .expression nameless .badName ∧ ∀ other, ¬ Faulty .expression namelessSum other := by
  have hone : Describes .expression (.obj [("kind", .str "int"), ("value", .int 1)]) _ :=
    .int rfl rfl (by decide) (by decide)
  have hoperand : Enters .expression namelessSum (.operand 1) nameless :=
    @Enters.operand _ _ .plus2 [_] [] rfl rfl rfl (List.forall_mem_singleton.mpr ⟨_, hone⟩)
  have hbody : Enters .statement namelessLoop .body _ :=
    .body rfl rfl (.var rfl rfl (by decide)) rfl
  have hreaches : Reaches .statement namelessLoop [.body, .expression, .operand 1] .expression
      nameless :=
    .enter hbody (.enter (.printed rfl rfl rfl nofun) (.enter hoperand (.here ..)))
  have hempty : Faulty .expression nameless .badName :=
    .refused .varName rfl (by decide) trivial rfl ⟨fun name h => (Json.str.inj h).symm, rfl⟩
  have herror : Program.ofJson namelessLoop =
      .error (.malformed [.body, .expression, .operand 1] .badName) :=
    malformed_iff.mpr ⟨_, _, hreaches, hempty⟩
  have hmessage : (TreeError.malformed [.body, .expression, .operand 1] .badName).message none =
      "Variable name must be a non-empty string" ++ " (at " ++
        Place.text [.body, .expression, .operand 1] ++ ")" := rfl
  obtain ⟨⟨found, hat, hfaulty, -⟩, hway⟩ := fault_found_at_place herror hmessage
  obtain rfl : nameless = found := Option.some.inj hat
  obtain ⟨parent, hparent, hfaultless, -⟩ := hway [.body, .expression] (.operand 1) [] rfl
  obtain rfl : namelessSum = parent := Option.some.inj hparent
  exact ⟨herror, hat, hfaulty, hfaultless⟩

end ProgramTrees
