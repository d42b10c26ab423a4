import ProgramTrees.Proofs.TreeObjects
import ProgramTrees.TreeJson

namespace ProgramTrees

/-- JSON values that are equal if the order of the fields of an object does not count. -/
inductive Json.Same : Json → Json → Prop where
  | null : Json.Same .null .null
  | bool (value : Bool) : Json.Same (.bool value) (.bool value)
  | int (value : Int) : Json.Same (.int value) (.int value)
  | float (value : Double) : Json.Same (.float value) (.float value)
  | str (value : String) : Json.Same (.str value) (.str value)
  | arr {items others : List Json} :
      items.length = others.length →
      (∀ item other, (item, other) ∈ items.zip others → Json.Same item other) →
      Json.Same (.arr items) (.arr others)
  | obj {fields others : List (String × Json)} :
      (∀ key, Table.get? fields key = none ↔ Table.get? others key = none) →
      (∀ key value other, Table.get? fields key = some value → Table.get? others key = some other →
        Json.Same value other) →
      Json.Same (.obj fields) (.obj others)

/-- The fields of the nodes of a kind, beside the kind itself. -/
def kindFields : String → List String
  | "sequence" => ["statements"]
  | "declaration" => ["type", "name", "value"]
  | "print" => ["prefix", "expression"]
  | "while" => ["condition", "body"]
  | "assignment" => ["name", "value"]
  | "int" | "float" => ["value"]
  | "var" => ["name"]
  | "operator" => ["operator", "operands"]
  | _ => []

def optionalFields : String → List String
  | "declaration" => ["value"]
  | "print" => ["expression"]
  | _ => []

def nodeKinds : List String :=
  NodeClass.statement.kinds ++ NodeClass.expression.kinds

/-- The object has a field whose value is not null. -/
def Json.gives (json : Json) (key : String) : Bool :=
  match json.field? key with
  | none | some .null => false
  | some _ => true

/-- Whether a field of an object of a kind says anything about its tree. -/
def Json.tells (json : Json) (kind key : String) : Bool :=
  key = "kind" || key ∈ kindFields kind && (key ∉ optionalFields kind || json.gives key)

def Json.asDouble : Json → Json
  | .int n => .float (Format.double.ofInt n)
  | json => json

mutual

/-- The value in which every object of a kind of nodes has only the fields that tell something. -/
def Json.canonical : Json → Json
  | .arr items => .arr (Json.canonicalItems items)
  | .obj fields =>
    match Table.get? fields "kind" with
    | some (.str kind) =>
      if kind ∈ nodeKinds then
        .obj (Json.canonicalFields kind (Json.tells (.obj fields) kind) fields)
      else .obj fields
    | _ => .obj fields
  | json => json

def Json.canonicalItems : List Json → List Json
  | [] => []
  | item :: items => item.canonical :: Json.canonicalItems items

def Json.canonicalFields (kind : String) (told : String → Bool) :
    List (String × Json) → List (String × Json)
  | [] => []
  | (key, value) :: fields =>
    if told key then
      (key, if kind = "float" then value.asDouble else value.canonical) ::
        Json.canonicalFields kind told fields
    else Json.canonicalFields kind told fields

end

/-- The canonical form of the value of a field of a kind of nodes. -/
def Json.canonicalIn (kind : String) (value : Json) : Json :=
  if kind = "float" then value.asDouble else value.canonical

theorem canonicalItems_eq (items : List Json) :
    Json.canonicalItems items = items.map Json.canonical := by
  induction items with
  | nil => rfl
  | cons item items ih => rw [Json.canonicalItems, ih, List.map_cons]

theorem get?_canonicalFields (kind : String) (told : String → Bool)
    (fields : List (String × Json)) (key : String) :
    Table.get? (Json.canonicalFields kind told fields) key =
      if told key then (Table.get? fields key).map (Json.canonicalIn kind) else none := by
  induction fields with
  | nil => simp [Json.canonicalFields]
  | cons field fields ih =>
    obtain ⟨name, value⟩ := field
    rw [Json.canonicalFields, Table.get?_cons]
    by_cases hname : key = name
    · subst hname
      by_cases htold : told key
      · simp [htold, Table.get?_cons, Json.canonicalIn]
      · simp [htold, ih]
    · by_cases htold : told name
      · simp [htold, Table.get?_cons, hname, ih]
      · simp [htold, hname, ih]

theorem mem_of_get? {fields : List (String × Json)} {key : String} {value : Json}
    (h : Table.get? fields key = some value) : (key, value) ∈ fields := by
  induction fields with
  | nil => cases h
  | cons field fields ih =>
    obtain ⟨name, first⟩ := field
    rw [Table.get?_cons] at h
    split at h
    next hname =>
      cases h
      rw [show key = name from hname]
      exact List.mem_cons_self
    next => exact List.mem_cons_of_mem _ (ih h)

section Objects

variable {json value : Json} {kind key : String}

theorem canonical_eq (hkind : json.field? "kind" = some (.str kind)) (hmem : kind ∈ nodeKinds) :
    ∃ fields, json.canonical = .obj fields ∧ ∀ key, Table.get? fields key =
      if json.tells kind key then (json.field? key).map (Json.canonicalIn kind) else none := by
  obtain ⟨fields, rfl, hget⟩ := Json.field?_eq_some.mp hkind
  refine ⟨_, ?_, fun key => get?_canonicalFields ..⟩
  rw [Json.canonical, hget]
  simp only [hmem, if_true]

theorem field?_canonical (hkind : json.field? "kind" = some (.str kind)) (hmem : kind ∈ nodeKinds)
    (key : String) :
    json.canonical.field? key =
      if json.tells kind key then (json.field? key).map (Json.canonicalIn kind) else none := by
  obtain ⟨fields, hcanonical, hlookup⟩ := canonical_eq hkind hmem
  rw [hcanonical]
  exact hlookup key

@[simp] theorem canonicalIn_str (text : String) :
    Json.canonicalIn kind (.str text) = .str text := by
  unfold Json.canonicalIn
  split <;> simp [Json.asDouble, Json.canonical]

theorem kind_canonical (hkind : json.field? "kind" = some (.str kind)) (hmem : kind ∈ nodeKinds) :
    json.canonical.field? "kind" = some (.str kind) := by
  simp [field?_canonical hkind hmem, Json.tells, hkind]

theorem tells_required (hnone : optionalFields kind = []) (key : String) :
    json.tells kind key = true ↔ key = "kind" ∨ key ∈ kindFields kind := by
  simp [Json.tells, hnone]

theorem tells_given {option : String} (hoption : optionalFields kind = [option])
    (hgives : json.gives option = true) (key : String) :
    json.tells kind key = true ↔ key = "kind" ∨ key ∈ kindFields kind := by
  by_cases hkey : key = option
  · simp [Json.tells, hkey, hgives]
  · simp [Json.tells, hoption, hkey]

theorem tells_missing {needed : List String} {option : String}
    (hfields : kindFields kind = needed ++ [option]) (hoption : optionalFields kind = [option])
    (hnew : option ∉ needed) (hgives : json.gives option = false) (key : String) :
    json.tells kind key = true ↔ key = "kind" ∨ key ∈ needed := by
  by_cases hkey : key = option
  · simp [Json.tells, hoption, hkey, hgives, hnew]
  · simp [Json.tells, hfields, hoption, hkey]

theorem required_canonical (hkind : json.field? "kind" = some (.str kind))
    (hmem : kind ∈ nodeKinds) (hkey : key ∈ kindFields kind) (hneeded : key ∉ optionalFields kind)
    (hvalue : json.field? key = some value) :
    json.canonical.field? key = some (value.canonicalIn kind) := by
  simp [field?_canonical hkind hmem, Json.tells, hkey, hneeded, hvalue]

theorem gives_of_ne_null (hvalue : json.field? key = some value) (hne : value ≠ .null) :
    json.gives key = true := by
  unfold Json.gives
  rw [hvalue]
  cases value with
  | null => exact absurd rfl hne
  | _ => rfl

theorem gives_of_missing (hvalue : json.field? key = none ∨ json.field? key = some .null) :
    json.gives key = false := by
  unfold Json.gives
  rcases hvalue with hvalue | hvalue <;> rw [hvalue]

theorem given_canonical (hkind : json.field? "kind" = some (.str kind)) (hmem : kind ∈ nodeKinds)
    (hkey : key ∈ kindFields kind) (hvalue : json.field? key = some value) (hne : value ≠ .null) :
    json.canonical.field? key = some (value.canonicalIn kind) := by
  simp [field?_canonical hkind hmem, Json.tells, hkey, hvalue, gives_of_ne_null hvalue hne]

theorem missing_canonical (hkind : json.field? "kind" = some (.str kind)) (hmem : kind ∈ nodeKinds)
    (hkey : key ∈ optionalFields kind) (hne : key ≠ "kind")
    (hvalue : json.field? key = none ∨ json.field? key = some .null) :
    json.canonical.field? key = none := by
  simp [field?_canonical hkind hmem, Json.tells, hkey, hne, gives_of_missing hvalue]

/-- An object with the fields that tell something, each with a value like that in the canonical
form, is the canonical form up to the order of the fields. -/
theorem same_nodeJson {fields : List (String × Json)}
    (hkind : json.field? "kind" = some (.str kind)) (hmem : kind ∈ nodeKinds)
    (htold : ∀ key, json.tells kind key = true ↔ key = "kind" ∨ key ∈ fields.map Prod.fst)
    (hfields : ∀ field ∈ fields, ∃ found, json.field? field.1 = some found ∧
      field.2.Same (found.canonicalIn kind)) :
    (nodeJson kind fields).Same json.canonical := by
  obtain ⟨others, hcanonical, hlookup⟩ := canonical_eq hkind hmem
  rw [hcanonical]
  refine .obj (fun key => ?_) fun key value other hvalue hother => ?_
  · rw [hlookup key, Table.get?_eq_none, List.map_cons, List.mem_cons, ← htold key]
    by_cases htells : json.tells kind key = true
    · obtain ⟨found, hfound⟩ : ∃ found, json.field? key = some found := by
        rcases (htold key).mp htells with rfl | hkey
        · exact ⟨_, hkind⟩
        · obtain ⟨field, hfield, rfl⟩ := List.mem_map.mp hkey
          obtain ⟨found, hfound, -⟩ := hfields field hfield
          exact ⟨found, hfound⟩
      simp [htells, hfound]
    · simp [htells]
  · rw [hlookup key] at hother
    rw [Table.get?_cons] at hvalue
    split at hvalue
    next hkey =>
      subst hkey
      have htells := (htold "kind").mpr (.inl rfl)
      rw [if_pos htells, hkind, Option.map_some, canonicalIn_str] at hother
      obtain rfl := Option.some.inj hvalue
      obtain rfl := Option.some.inj hother
      exact .str kind
    next hkey =>
      have hfield := mem_of_get? hvalue
      obtain ⟨found, hfound, hsame⟩ := hfields _ hfield
      have htells := (htold key).mpr (.inr (List.mem_map_of_mem hfield))
      rw [if_pos htells, hfound, Option.map_some] at hother
      obtain rfl := Option.some.inj hother
      exact hsame

end Objects

section Trees

variable {expected : NodeClass} {json : Json} {node : Program}

theorem of_mem_zip_canonicalItems {items : List Json} {nodes : List Program}
    {R : Json → Program → Prop}
    (h : ∀ item node, (item, node) ∈ items.zip nodes → R item.canonical node)
    (item : Json) (node : Program) (hpair : (item, node) ∈ (Json.canonicalItems items).zip nodes) :
    R item node := by
  rw [canonicalItems_eq, List.zip_map_left, List.mem_map] at hpair
  obtain ⟨pair, hpair, heq⟩ := hpair
  cases heq
  exact h _ _ hpair

theorem length_canonicalItems (items : List Json) :
    (Json.canonicalItems items).length = items.length := by
  rw [canonicalItems_eq, List.length_map]

theorem Describes.canonical (h : Describes expected json node) :
    Describes expected json.canonical node := by
  induction h with
  | int hkind hvalue hlower hupper =>
    refine .int (kind_canonical hkind (by decide)) ?_ hlower hupper
    exact required_canonical hkind (by decide) (by decide) (by decide) hvalue
  | float hkind hvalue =>
    refine .float (kind_canonical hkind (by decide)) ?_
    exact required_canonical hkind (by decide) (by decide) (by decide) hvalue
  | wholeFloat hkind hvalue =>
    refine .float (kind_canonical hkind (by decide)) ?_
    exact required_canonical hkind (by decide) (by decide) (by decide) hvalue
  | var hkind hname hne =>
    refine .var (kind_canonical hkind (by decide)) ?_ hne
    simpa using required_canonical hkind (by decide) (by decide) (by decide) hname
  | @operator _ _ items _ hkind hop hitems hlength _ ih =>
    refine .operator (kind_canonical hkind (by decide)) ?_ ?_
      ((length_canonicalItems items).trans hlength) (of_mem_zip_canonicalItems ih)
    · simpa using required_canonical hkind (by decide) (by decide) (by decide) hop
    · exact required_canonical hkind (by decide) (by decide) (by decide) hitems
  | assignment hkind hname hne hvalue _ ih =>
    refine .assignment (kind_canonical hkind (by decide)) ?_ hne ?_ ih
    · simpa using required_canonical hkind (by decide) (by decide) (by decide) hname
    · exact required_canonical hkind (by decide) (by decide) (by decide) hvalue
  | @sequence _ items _ hkind hitems hlength _ ih =>
    refine .sequence (kind_canonical hkind (by decide)) ?_
      ((length_canonicalItems items).trans hlength) (of_mem_zip_canonicalItems ih)
    exact required_canonical hkind (by decide) (by decide) (by decide) hitems
  | declared hkind hty hname hne hvalue =>
    refine .declared (kind_canonical hkind (by decide)) ?_ ?_ hne (.inl ?_)
    · simpa using required_canonical hkind (by decide) (by decide) (by decide) hty
    · simpa using required_canonical hkind (by decide) (by decide) (by decide) hname
    · exact missing_canonical hkind (by decide) (by decide) (by decide) hvalue
  | initialized hkind hty hname hne hvalue hbelow ih =>
    refine .initialized (kind_canonical hkind (by decide)) ?_ ?_ hne ?_ ih
    · simpa using required_canonical hkind (by decide) (by decide) (by decide) hty
    · simpa using required_canonical hkind (by decide) (by decide) (by decide) hname
    · exact given_canonical hkind (by decide) (by decide) hvalue hbelow.ne_null
  | text hkind htext hvalue =>
    refine .text (kind_canonical hkind (by decide)) ?_ (.inl ?_)
    · simpa using required_canonical hkind (by decide) (by decide) (by decide) htext
    · exact missing_canonical hkind (by decide) (by decide) (by decide) hvalue
  | printed hkind htext hvalue hbelow ih =>
    refine .printed (kind_canonical hkind (by decide)) ?_ ?_ ih
    · simpa using required_canonical hkind (by decide) (by decide) (by decide) htext
    · exact given_canonical hkind (by decide) (by decide) hvalue hbelow.ne_null
  | loop hkind htest _ hrounds _ ihcondition ihbody =>
    refine .loop (kind_canonical hkind (by decide)) ?_ ihcondition ?_ ihbody
    · exact required_canonical hkind (by decide) (by decide) (by decide) htest
    · exact required_canonical hkind (by decide) (by decide) (by decide) hrounds

theorem allToJson_eq (nodes : List Program) : Node.allToJson nodes = nodes.map Node.toJson := by
  induction nodes with
  | nil => rfl
  | cons node nodes ih => rw [Node.allToJson, ih, List.map_cons]

theorem same_items {items : List Json} {nodes : List Program}
    (hlength : items.length = nodes.length)
    (h : ∀ item node, (item, node) ∈ items.zip nodes → node.toJson.Same item.canonical) :
    (Json.arr (Node.allToJson nodes)).Same (.arr (Json.canonicalItems items)) := by
  have hall : List.Forall₂ (fun item node => node.toJson.Same item.canonical) items nodes :=
    List.forall₂_iff_zip.mpr ⟨hlength, fun {item node} => h item node⟩
  have hsame : List.Forall₂ Json.Same (nodes.map Node.toJson) (items.map Json.canonical) :=
    List.forall₂_map_left_iff.mpr (List.forall₂_map_right_iff.mpr hall.flip)
  obtain ⟨hlengths, hpairs⟩ := List.forall₂_iff_zip.mp hsame
  rw [allToJson_eq, canonicalItems_eq]
  exact .arr hlengths fun item other => hpairs

theorem Describes.same_canonical (h : Describes expected json node) :
    node.toJson.Same json.canonical := by
  induction h with
  | @int _ n hkind hvalue hlower hupper =>
    refine same_nodeJson hkind (by decide) (tells_required rfl) ?_
    have hexact : (Int32.ofInt n).toInt = n := Int32.toInt_ofInt_of_le hlower (by omega)
    simpa [hvalue, hexact] using .int n
  | float hkind hvalue =>
    refine same_nodeJson hkind (by decide) (tells_required rfl) ?_
    simpa [hvalue] using .float _
  | wholeFloat hkind hvalue =>
    refine same_nodeJson hkind (by decide) (tells_required rfl) ?_
    simpa [hvalue] using .float _
  | var hkind hname hne =>
    refine same_nodeJson hkind (by decide) (tells_required rfl) ?_
    simpa [hname] using .str _
  | operator hkind hop hitems hlength _ ih =>
    refine same_nodeJson hkind (by decide) (tells_required rfl) ?_
    simpa [hop, hitems] using ⟨.str _, same_items hlength ih⟩
  | assignment hkind hname hne hvalue _ ih =>
    refine same_nodeJson hkind (by decide) (tells_required rfl) ?_
    simpa [hname, hvalue] using ⟨.str _, ih⟩
  | sequence hkind hitems hlength _ ih =>
    refine same_nodeJson hkind (by decide) (tells_required rfl) ?_
    refine List.forall_mem_singleton.mpr ⟨_, hitems, ?_⟩
    exact same_items hlength ih
  | @declared json _ _ hkind hty hname hne hvalue =>
    have htold : ∀ key, json.tells "declaration" key = true ↔
        key = "kind" ∨ key ∈ ["type", "name"] :=
      tells_missing rfl rfl (by decide) (gives_of_missing hvalue)
    refine same_nodeJson hkind (by decide) htold ?_
    simpa [hname, hty] using ⟨.str _, .str _⟩
  | initialized hkind hty hname hne hvalue hbelow ih =>
    have hgives := gives_of_ne_null hvalue hbelow.ne_null
    refine same_nodeJson hkind (by decide) (tells_given rfl hgives) ?_
    simpa [hname, hty, hvalue] using ⟨.str _, .str _, ih⟩
  | @text json _ hkind htext hvalue =>
    have htold : ∀ key, json.tells "print" key = true ↔ key = "kind" ∨ key ∈ ["prefix"] :=
      tells_missing rfl rfl (by decide) (gives_of_missing hvalue)
    refine same_nodeJson hkind (by decide) htold ?_
    simpa [htext] using .str _
  | printed hkind htext hvalue hbelow ih =>
    have hgives := gives_of_ne_null hvalue hbelow.ne_null
    refine same_nodeJson hkind (by decide) (tells_given rfl hgives) ?_
    simpa [htext, hvalue] using ⟨.str _, ih⟩
  | loop hkind htest _ hrounds _ ihcondition ihbody =>
    refine same_nodeJson hkind (by decide) (tells_required rfl) ?_
    simpa [htest, hrounds] using ⟨ihcondition, ihbody⟩

theorem length_allToJson (nodes : List Program) : (Node.allToJson nodes).length = nodes.length := by
  rw [allToJson_eq, List.length_map]

theorem of_mem_zip_allToJson {items : List Json} {nodes : List Program} {R : Json → Program → Prop}
    (hlength : items.length = nodes.length)
    (h : ∀ item node, (item, node) ∈ items.zip nodes → R node.toJson node) (item : Json)
    (node : Program) (hpair : (item, node) ∈ (Node.allToJson nodes).zip nodes) : R item node := by
  have heach : ∀ node ∈ nodes, R node.toJson node := forall_of_mem_zip hlength h
  have hall : List.Forall₂ R (nodes.map Node.toJson) nodes :=
    List.forall₂_map_left_iff.mpr (List.forall₂_same.mpr heach)
  rw [allToJson_eq] at hpair
  exact (List.forall₂_iff_zip.mp hall).2 hpair

theorem Describes.toJson (h : Describes expected json node) :
    Describes expected node.toJson node := by
  induction h with
  | @int _ n hkind hvalue hlower hupper =>
    have hexact : (Int32.ofInt n).toInt = n := Int32.toInt_ofInt_of_le hlower (by omega)
    refine .int rfl ?_ hlower hupper
    rw [Node.toJson, hexact]
    rfl
  | float => exact .float rfl rfl
  | wholeFloat => exact .float rfl rfl
  | var _ _ hne => exact .var rfl rfl hne
  | operator _ _ _ hlength _ ih =>
    exact .operator rfl rfl rfl (length_allToJson _) (of_mem_zip_allToJson hlength ih)
  | assignment _ _ hne _ _ ih => exact .assignment rfl rfl hne rfl ih
  | sequence _ _ hlength _ ih =>
    exact .sequence rfl rfl (length_allToJson _) (of_mem_zip_allToJson hlength ih)
  | declared _ _ _ hne => exact .declared rfl rfl rfl hne (.inl rfl)
  | initialized _ _ _ hne _ _ ih => exact .initialized rfl rfl rfl hne rfl ih
  | text => exact .text rfl rfl (.inl rfl)
  | printed _ _ _ _ ih => exact .printed rfl rfl rfl ih
  | loop _ _ _ _ _ ihcondition ihbody => exact .loop rfl rfl ihcondition rfl ihbody

end Trees

/-- The decoder accepts exactly the objects that describe a program. The program is encoded as the
canonical form of the object, and that form is decoded as the same program. -/
theorem decoder_accepts_descriptions (json : Json) :
    ((∃ program, Program.ofJson json = .ok program) ↔
        ∃ program, Describes .statement json program) ∧
      ∀ program, Program.ofJson json = .ok program →
        Describes .statement json program ∧
        program.toJson.Same json.canonical ∧
        Program.ofJson json.canonical = .ok program ∧
        Program.ofJson program.toJson = .ok program := by
  have hread : ∀ json program, Program.ofJson json = .ok program ↔
      Describes .statement json program := @read_eq_ok_iff .statement []
  refine ⟨exists_congr (hread json), fun program h => ?_⟩
  have hdescribes := (hread json program).mp h
  exact ⟨hdescribes, hdescribes.same_canonical, (hread _ _).mpr hdescribes.canonical,
    (hread _ _).mpr hdescribes.toJson⟩

/-- `float x = 3.0f; System.out.println("x: ");` as another program may write it: with comments, a
missing value as null and an integer for the double. -/
def annotatedDeclaration : Json :=
  .obj [("kind", .str "sequence"), ("statements", .arr [
    .obj [("line", .int 1), ("type", .str "float"), ("kind", .str "declaration"),
      ("name", .str "x"), ("value", .obj [("value", .int 3), ("kind", .str "float")])],
    .obj [("kind", .str "print"), ("expression", .null), ("prefix", .str "x: "),
      ("seen", .arr [.bool true])]])]

theorem annotatedDeclaration_accepted :
    ∃ program, Program.ofJson annotatedDeclaration = .ok program ∧
      program.toJson.Same annotatedDeclaration.canonical ∧
      Program.ofJson annotatedDeclaration.canonical = .ok program := by
  have hvalue : Describes .expression (.obj [("value", .int 3), ("kind", .str "float")]) _ :=
    .wholeFloat rfl rfl (by decide +kernel)
  have hdescribes : Describes .statement annotatedDeclaration (.sequence () [
      .declare () .float "x" (some (.float () (Format.double.ofInt 3))),
      .print () "x: " none]) := by
    refine .sequence rfl rfl rfl ?_
    simp only [List.zip_cons_cons, List.zip_nil_left, List.mem_cons, List.not_mem_nil, or_false]
    rintro item statement (h | h)
    · cases h
      exact .initialized rfl rfl rfl (by decide) rfl hvalue
    · cases h
      exact .text rfl rfl (.inr rfl)
  have hread := hdescribes.read []
  obtain ⟨-, hsame, hcanonical, -⟩ := (decoder_accepts_descriptions annotatedDeclaration).2 _ hread
  exact ⟨_, hread, hsame, hcanonical⟩

end ProgramTrees
