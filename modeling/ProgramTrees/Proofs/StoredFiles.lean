import ProgramTrees.FileStore
import ProgramTrees.Utf8

namespace ProgramTrees

namespace FileStore

variable {store : FileStore} {target location : Location} {entry : Entry}

theorem entry?_set_of_ne (h : location ≠ target) :
    entry? (store.set target entry) location = store.entry? location := by
  unfold entry?
  split
  next => rfl
  next => rw [Table.get?_set, if_neg h]

theorem entry?_set_self (h : store.entry? target ≠ some .directory) :
    entry? (store.set target entry) target = some entry := by
  unfold entry? at h ⊢
  split
  next hknown => exact absurd (if_pos hknown) h
  next => exact Table.get?_set_self store target entry

/-- The way to a place leads over directories, so a new entry at a place that is none of them does
not change it. -/
theorem follow_set (hfree : store.entry? target ≠ some .directory) {parts : List String}
    (h : store.follow location parts = .ok target) :
    follow (store.set target entry) location parts = .ok target := by
  induction parts generalizing location with
  | nil => exact h
  | cons part parts ih =>
    unfold follow at h ⊢
    cases hentry : store.entry? location with
    | none =>
      rw [hentry] at h
      exact nomatch h
    | some found =>
      cases found with
      | file _ =>
        rw [hentry] at h
        exact nomatch h
      | directory =>
        have hne : location ≠ target := by
          rintro rfl
          exact hfree hentry
        rw [hentry] at h
        rw [entry?_set_of_ne hne, hentry]
        dsimp only at h ⊢
        split at h
        next => exact nomatch h
        next hshort =>
          rw [if_neg hshort]
          exact ih h

theorem read_of_write {files : FileStore} {path : Path} {bytes : List UInt8}
    (h : store.write path bytes = .ok files) : files.read path = .ok bytes := by
  unfold write at h
  cases hplace : store.locate path with
  | error fault =>
    rw [hplace] at h
    exact nomatch h
  | ok target =>
    simp only [hplace, bind, Except.bind] at h
    split at h
    next => exact nomatch h
    next hfree =>
      obtain rfl := Except.ok.inj h
      have hsame : locate (store.set target (.file bytes)) path = .ok target := by
        unfold locate at hplace ⊢
        split at hplace
        next => exact nomatch hplace
        next hnull =>
          split at hplace
          next => exact nomatch hplace
          next hlong =>
            rw [if_neg hnull, if_neg hlong]
            exact follow_set hfree hplace
      simp only [read, hsame, bind, Except.bind, entry?_set_self hfree]

end FileStore

section Bytes

theorem toList_loop (bytes : ByteArray) (i : Nat) (seen : List UInt8) :
    ByteArray.toList.loop bytes i seen = seen.reverse ++ bytes.data.toList.drop i := by
  rw [ByteArray.toList.loop]
  split
  next h =>
    have hlt : i < bytes.data.toList.length := h
    have hbyte : bytes.get! i = bytes.data.toList[i] := getElem!_pos bytes.data i hlt
    rw [toList_loop bytes (i + 1), hbyte, List.drop_eq_getElem_cons hlt, List.reverse_cons,
      List.append_assoc]
    rfl
  next h =>
    have hle : bytes.data.toList.length ≤ i := Nat.le_of_not_lt h
    rw [List.drop_eq_nil_of_le hle, List.append_nil]
termination_by bytes.size - i

variable {cs : List Char}

theorem toUTF8_ascii (h : ∀ c ∈ cs, c.toNat < 0x80) :
    (String.ofList cs).toUTF8.toList = cs.map fun c => c.val.toUInt8 := by
  have hbytes : cs.flatMap String.utf8EncodeChar = cs.map fun c => c.val.toUInt8 := by
    induction cs with
    | nil => rfl
    | cons c cs ih =>
      obtain ⟨hc, hcs⟩ := List.forall_mem_cons.mp h
      have hsize : c.utf8Size = 1 := Char.utf8Size_eq_one_iff.mpr (Nat.le_of_lt_succ hc)
      rw [List.flatMap_cons, String.utf8EncodeChar_eq_singleton hsize, ih hcs]
      rfl
  rw [String.toUTF8, String.toByteArray_ofList, ByteArray.toList, toList_loop]
  rw [List.utf8Encode, List.toList_data_toByteArray, hbytes]
  rfl

theorem utf8Chars_ascii (h : ∀ c ∈ cs, c.toNat < 0x80) (position : Nat) :
    utf8Chars position none (cs.map fun c => c.val.toUInt8) = .ok cs := by
  induction cs generalizing position with
  | nil => rfl
  | cons c cs ih =>
    obtain ⟨hc, hcs⟩ := List.forall_mem_cons.mp h
    have hbyte : c.val.toUInt8.toNat = c.toNat := by
      rw [UInt32.toNat_toUInt8]
      exact Nat.mod_eq_of_lt (Nat.lt_trans hc (by decide))
    rw [List.map_cons, utf8Chars, hbyte, if_pos hc, ih hcs, Char.ofNat_toNat]
    rfl

end Bytes

end ProgramTrees
