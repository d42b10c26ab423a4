import ProgramTrees.JsonReader
import ProgramTrees.JsonText

namespace ProgramTrees

theorem hexDigit?_digitChar {d : Nat} (h : d < 16) : hexDigit? (Nat.digitChar d) = some d := by
  have hall : ∀ d < 16, hexDigit? (Nat.digitChar d) = some d := by decide
  exact hall d h

theorem hexUnit?_digits {unit : Nat} (h : unit < 65536) :
    hexUnit? (Nat.digitChar (unit / 4096 % 16)) (Nat.digitChar (unit / 256 % 16))
      (Nat.digitChar (unit / 16 % 16)) (Nat.digitChar (unit % 16)) = some unit := by
  have hdigit (k : Nat) : hexDigit? (Nat.digitChar (k % 16)) = some (k % 16) :=
    hexDigit?_digitChar (Nat.mod_lt k (by decide))
  simp only [hexUnit?, hdigit, Option.bind_eq_bind, Option.bind_some, Option.some.injEq]
  omega

/-- The forms in which a character can stand in a string, each with what decides it. -/
inductive Escape (c : Char) : List Char → Prop where
  | letter {escaped : Char} (h : simpleEscape? escaped = some c) : Escape c ['\\', escaped]
  | itself (hquote : c ≠ '"') (hbackslash : c ≠ '\\') (hlow : 0x20 ≤ c.toNat)
      (hhigh : c.toNat ≤ 0x7E) : Escape c [c]
  | unit (h : c.toNat < 0x10000) : Escape c (unicodeEscape c.toNat)
  | units (h : 0x10000 ≤ c.toNat) :
      Escape c (unicodeEscape (highUnit c.toNat) ++ unicodeEscape (lowUnit c.toNat))

theorem escape_escapeChar (c : Char) : Escape c (escapeChar c) := by
  unfold escapeChar
  split
  next hquote => exact .letter (by rw [hquote]; rfl)
  next hquote =>
  split
  next hbackslash => exact .letter (by rw [hbackslash]; rfl)
  next hbackslash =>
  split
  next hfeed => exact .letter (by rw [hfeed]; rfl)
  next =>
  split
  next hreturn => exact .letter (by rw [hreturn]; rfl)
  next =>
  split
  next htab => exact .letter (by rw [htab]; rfl)
  next =>
  split
  next hback => exact .letter (by rw [hback]; rfl)
  next =>
  split
  next hform => exact .letter (by rw [hform]; rfl)
  next =>
  split
  next hplain => exact .itself hquote hbackslash hplain.1 hplain.2
  next =>
  split
  next hplane => exact .unit hplane
  next hplane => exact .units (Nat.le_of_not_lt hplane)

section Strings

variable {opening rest : List Char} {high : Option Nat}

theorem readString_unicodeEscape {unit : Nat} {added : List Char} {pending : Option Nat}
    (h : unit < 65536) (hjoin : joinUnit? high unit = some (added, pending)) (hrest : rest ≠ []) :
    readString opening high (unicodeEscape unit ++ rest) =
      (readString opening pending rest).map fun (cs, left) => (added ++ cs, left) := by
  have hempty : rest.isEmpty = false := by simpa using hrest
  simp only [unicodeEscape, List.map_cons, List.map_nil, List.cons_append, List.nil_append]
  rw [readString, if_pos rfl]
  simp only [hexUnit?_digits h, hempty, hjoin]

theorem readString_simpleEscape {escaped c : Char} (h : simpleEscape? escaped = some c) :
    readString opening none ('\\' :: escaped :: rest) =
      (readString opening none rest).map fun (cs, left) => (c :: cs, left) := by
  have hu : escaped ≠ 'u' := by
    rintro rfl
    exact nomatch h
  rw [readString, if_pos rfl]
  · simp [hu, h]
  · exact fun _ _ _ _ _ heq _ => hu heq

theorem readString_plain {c : Char} (hquote : c ≠ '"') (hbackslash : c ≠ '\\') (hc : ¬ c < ' ') :
    readString opening none (c :: rest) =
      (readString opening none rest).map fun (cs, left) => (c :: cs, left) := by
  rw [readString.eq_def]
  simp [hquote, hbackslash, hc]

theorem toNat_lt_planes (c : Char) : c.toNat < 0x110000 := by
  rcases c.valid with hlow | ⟨-, hhigh⟩
  · exact Nat.lt_trans hlow (by decide)
  · exact hhigh

theorem joinUnit?_char {c : Char} (h : c.toNat < 0x10000) :
    joinUnit? none c.toNat = some ([c], none) := by
  have hvalid : c.toNat < 0xD800 ∨ 0xDFFF < c.toNat := by
    rcases c.valid with hlow | ⟨hhigh, -⟩
    · exact .inl hlow
    · exact .inr hhigh
  have hhigh : ¬ (0xD800 ≤ c.toNat ∧ c.toNat < 0xDC00) := by omega
  have hlow : ¬ (0xDC00 ≤ c.toNat ∧ c.toNat < 0xE000) := by omega
  rw [joinUnit?, if_neg hhigh, if_neg hlow, Char.ofNat_toNat]
  rfl

theorem joinUnit?_surrogates {c : Char} (h : 0x10000 ≤ c.toNat) :
    joinUnit? none (highUnit c.toNat) = some ([], some (highUnit c.toNat)) ∧
      joinUnit? (some (highUnit c.toNat)) (lowUnit c.toNat) = some ([c], none) := by
  have hvalid := toNat_lt_planes c
  have hhigh : 0xD800 ≤ highUnit c.toNat ∧ highUnit c.toNat < 0xDC00 := by
    unfold highUnit
    omega
  have hlow : 0xDC00 ≤ lowUnit c.toNat ∧ lowUnit c.toNat < 0xE000 := by
    unfold lowUnit
    omega
  have hcode : 0x10000 + (highUnit c.toNat - 0xD800) * 0x400 + (lowUnit c.toNat - 0xDC00) =
      c.toNat := by
    unfold highUnit lowUnit
    omega
  refine ⟨by rw [joinUnit?, if_pos hhigh]; rfl, ?_⟩
  rw [joinUnit?, if_neg (by omega), if_pos hlow]
  simp only [Option.map_some, hcode, Char.ofNat_toNat]

theorem Escape.readString_append {c : Char} {escaped : List Char} (h : Escape c escaped)
    (hrest : rest ≠ []) :
    readString opening none (escaped ++ rest) =
      (readString opening none rest).map fun (cs, left) => (c :: cs, left) := by
  cases h with
  | letter hletter => exact readString_simpleEscape hletter
  | itself hquote hbackslash hlow hhigh =>
    have hblank : ¬ c < ' ' := fun hlt => Nat.not_lt.mpr hlow hlt
    exact readString_plain hquote hbackslash hblank
  | unit hplane =>
    exact readString_unicodeEscape hplane (joinUnit?_char hplane) hrest
  | units hbeyond =>
    obtain ⟨hhigh, hlow⟩ := joinUnit?_surrogates hbeyond
    have hunits : highUnit c.toNat < 65536 ∧ lowUnit c.toNat < 65536 := by
      have hlt := toNat_lt_planes c
      unfold highUnit lowUnit
      omega
    have hsecond : unicodeEscape (lowUnit c.toNat) ++ rest ≠ [] := nofun
    rw [List.append_assoc, readString_unicodeEscape hunits.1 hhigh hsecond,
      readString_unicodeEscape hunits.2 hlow hrest]
    cases readString opening none rest <;> rfl

theorem readString_flatMap (cs rest : List Char) :
    readString opening none (cs.flatMap escapeChar ++ '"' :: rest) = .ok (cs, rest) := by
  induction cs with
  | nil =>
    rw [List.flatMap_nil, List.nil_append, readString.eq_def]
    rfl
  | cons c cs ih =>
    rw [List.flatMap_cons, List.append_assoc, (escape_escapeChar c).readString_append (by simp), ih]
    rfl

end Strings

end ProgramTrees
