import ProgramTrees.Proofs.JsonStrings
import ProgramTrees.Proofs.NumberCharacters

namespace ProgramTrees

/-- A line feed or a printable character of ASCII. -/
def isPlainChar (c : Char) : Bool :=
  c = '\n' || (0x20 ≤ c.toNat && c.toNat ≤ 0x7E)

theorem isPlainChar_of_printable {c : Char} (hlow : 0x20 ≤ c.toNat) (hhigh : c.toNat ≤ 0x7E) :
    isPlainChar c = true := by
  simp [isPlainChar, hlow, hhigh]

theorem toNat_lt_of_isPlainChar {c : Char} (h : isPlainChar c = true) : c.toNat < 0x80 := by
  simp only [isPlainChar, Bool.or_eq_true, Bool.and_eq_true, decide_eq_true_eq] at h
  rcases h with rfl | ⟨-, hhigh⟩
  · decide
  · omega

theorem IsNumberChar.plain {c : Char} (h : IsNumberChar c) : isPlainChar c = true := by
  rcases h with hdigit | hmem
  · obtain ⟨hlow, hhigh⟩ := Char.isDigit_iff_toNat.mp hdigit
    rw [show '0'.toNat = 48 from rfl] at hlow
    rw [show '9'.toNat = 57 from rfl] at hhigh
    exact isPlainChar_of_printable (by omega) (by omega)
  · have hall : ∀ c ∈ ['-', '+', '.', 'e', 'E'], isPlainChar c = true :=
      List.all_eq_true.mp (by decide)
    exact hall c hmem

theorem plain_digitChar (n : Nat) : isPlainChar (Nat.digitChar (n % 16)) = true := by
  have hall : ∀ d < 16, isPlainChar (Nat.digitChar d) = true := by decide
  exact hall _ (Nat.mod_lt n (by decide))

theorem plain_unicodeEscape (unit : Nat) : ∀ c ∈ unicodeEscape unit, isPlainChar c = true := by
  have hmarks : isPlainChar '\\' = true ∧ isPlainChar 'u' = true := by decide
  simp only [unicodeEscape, List.map_cons, List.map_nil, List.forall_mem_cons]
  exact ⟨hmarks.1, hmarks.2, plain_digitChar _, plain_digitChar _, plain_digitChar _,
    plain_digitChar _, by simp⟩

theorem plain_simpleEscape {escaped c : Char} (h : simpleEscape? escaped = some c) :
    isPlainChar escaped = true := by
  unfold simpleEscape? at h
  split at h
  case h_9 => exact nomatch h
  all_goals rfl

theorem Escape.plain {c : Char} {escaped : List Char} (h : Escape c escaped) :
    ∀ d ∈ escaped, isPlainChar d = true := by
  cases h with
  | letter hletter =>
    have hbackslash : isPlainChar '\\' = true := by decide
    exact List.forall_mem_cons.mpr
      ⟨hbackslash, List.forall_mem_singleton.mpr (plain_simpleEscape hletter)⟩
  | itself _ _ hlow hhigh =>
    exact List.forall_mem_singleton.mpr (isPlainChar_of_printable hlow hhigh)
  | unit _ => exact plain_unicodeEscape _
  | units _ => exact List.forall_mem_append.mpr ⟨plain_unicodeEscape _, plain_unicodeEscape _⟩

theorem plain_jsonString (s : String) : ∀ c ∈ jsonString s, isPlainChar c = true := by
  have hquote : ∀ c ∈ ['"'], isPlainChar c = true := List.all_eq_true.mp (by decide)
  refine List.forall_mem_append.mpr ⟨List.forall_mem_append.mpr ⟨hquote, ?_⟩, hquote⟩
  intro c hc
  obtain ⟨d, -, hc⟩ := List.mem_flatMap.mp hc
  exact (escape_escapeChar d).plain c hc

theorem plain_jsonText (x : Double) : ∀ c ∈ x.jsonText.toList, isPlainChar c = true := by
  match x with
  | .nan => exact List.all_eq_true.mp (by decide)
  | .infinite true => exact List.all_eq_true.mp (by decide)
  | .infinite false => exact List.all_eq_true.mp (by decide)
  | .finite negative m q _ => exact fun c hc => (numberChars_finiteLiteral negative m q c hc).plain

/-- A layout that puts nothing but plain characters between the items. -/
structure JsonLayout.IsPlain (layout : JsonLayout) : Prop where
  gap : ∀ level, ∀ c ∈ layout.gap level, isPlainChar c = true
  afterComma : ∀ level, ∀ c ∈ layout.afterComma level, isPlainChar c = true

section Values

variable {layout : JsonLayout}

mutual

theorem plain_chars (hlayout : layout.IsPlain) :
    ∀ (value : Json) (level : Nat), ∀ c ∈ value.chars layout level, isPlainChar c = true
  | .null, _ | .bool true, _ | .bool false, _ | .arr [], _ | .obj [], _ => by
    rw [Json.chars]
    exact List.all_eq_true.mp (by decide)
  | .int n, _ => fun c hc => (numberChars_int n c hc).plain
  | .float x, _ => plain_jsonText x
  | .str s, _ => plain_jsonString s
  | .arr (item :: items), level => by
    have hbrackets : isPlainChar '[' = true ∧ isPlainChar ']' = true := by decide
    rw [Json.chars]
    simp only [List.forall_mem_append, List.forall_mem_cons]
    exact ⟨⟨⟨⟨⟨hbrackets.1, hlayout.gap _⟩, plain_chars hlayout item _⟩,
      plain_itemsChars hlayout items _⟩, hlayout.gap _⟩, hbrackets.2, nofun⟩
  | .obj ((key, value) :: fields), level => by
    have hbraces : isPlainChar '\x7b' = true ∧ isPlainChar '\x7d' = true := by decide
    have hcolon : isPlainChar ':' = true ∧ isPlainChar ' ' = true := by decide
    rw [Json.chars]
    simp only [List.forall_mem_append, List.forall_mem_cons]
    exact ⟨⟨⟨⟨⟨⟨⟨hbraces.1, hlayout.gap _⟩, plain_jsonString key⟩, hcolon.1, hcolon.2, nofun⟩,
      plain_chars hlayout value _⟩, plain_fieldsChars hlayout fields _⟩, hlayout.gap _⟩,
      hbraces.2, nofun⟩

theorem plain_itemsChars (hlayout : layout.IsPlain) :
    ∀ (items : List Json) (level : Nat),
      ∀ c ∈ Json.itemsChars layout level items, isPlainChar c = true
  | [], _ => nofun
  | item :: items, level => by
    have hcomma : isPlainChar ',' = true := by decide
    rw [Json.itemsChars]
    simp only [List.forall_mem_append, List.forall_mem_cons]
    exact ⟨⟨⟨hcomma, hlayout.afterComma _⟩, plain_chars hlayout item _⟩,
      plain_itemsChars hlayout items _⟩

theorem plain_fieldsChars (hlayout : layout.IsPlain) :
    ∀ (fields : List (String × Json)) (level : Nat),
      ∀ c ∈ Json.fieldsChars layout level fields, isPlainChar c = true
  | [], _ => nofun
  | (key, value) :: fields, level => by
    have hmarks : isPlainChar ',' = true ∧ isPlainChar ':' = true ∧ isPlainChar ' ' = true := by
      decide
    rw [Json.fieldsChars]
    simp only [List.forall_mem_append, List.forall_mem_cons]
    exact ⟨⟨⟨⟨⟨hmarks.1, hlayout.afterComma _⟩, plain_jsonString key⟩, hmarks.2.1, hmarks.2.2,
      nofun⟩, plain_chars hlayout value _⟩, plain_fieldsChars hlayout fields _⟩

end

end Values

end ProgramTrees
