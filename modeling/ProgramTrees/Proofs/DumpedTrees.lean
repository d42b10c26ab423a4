import ProgramTrees.Proofs.JsonCharacters
import ProgramTrees.Proofs.StoredFiles
import ProgramTrees.Proofs.TreeRoundTrip

namespace ProgramTrees

variable {τ : Type}

section Values

theorem isReadable_nodeJson {kind : String} {fields : List (String × Json)}
    (hkeys : ("kind" :: fields.map Prod.fst).Nodup)
    (hfields : ∀ field ∈ fields, field.2.IsReadable) : (nodeJson kind fields).IsReadable :=
  .obj hkeys (List.forall_mem_cons.mpr ⟨.str kind, hfields⟩)

theorem forall_mem_allToJson {ns : List (Node τ)} (h : ∀ n ∈ ns, n.toJson.IsReadable) :
    ∀ item ∈ Node.allToJson ns, item.IsReadable := by
  induction ns with
  | nil => exact nofun
  | cons n ns ih =>
    obtain ⟨hn, hns⟩ := List.forall_mem_cons.mp h
    exact List.forall_mem_cons.mpr ⟨hn, ih hns⟩

theorem natAbs_toInt_lt (n : Int32) : n.toInt.natAbs < Nat.pow 10 maxIntegerDigits := by
  have hle := n.le_toInt
  have hlt := n.toInt_lt
  have hsmall : n.toInt.natAbs < 10 ^ 10 := by omega
  have hpow : ∀ digits, 10 ≤ digits → 10 ^ 10 ≤ Nat.pow 10 digits :=
    fun digits hdigits => Nat.pow_le_pow_right (by decide) hdigits
  exact hsmall.trans_le (hpow maxIntegerDigits (by decide))

theorem isReadable_toJson (n : Node τ) : n.toJson.IsReadable := by
  induction n using Node.induction with
  | int tag n =>
    exact isReadable_nodeJson (by simp) (List.forall_mem_singleton.mpr (.int (natAbs_toInt_lt n)))
  | float tag x =>
    exact isReadable_nodeJson (by simp) (List.forall_mem_singleton.mpr (.float x))
  | var tag name =>
    exact isReadable_nodeJson (by simp) (List.forall_mem_singleton.mpr (.str name))
  | apply tag op operands ih =>
    refine isReadable_nodeJson (by simp) (List.forall_mem_cons.mpr ⟨.str op.name, ?_⟩)
    exact List.forall_mem_singleton.mpr (.arr (forall_mem_allToJson ih))
  | assign tag name value ih =>
    refine isReadable_nodeJson (by simp) (List.forall_mem_cons.mpr ⟨.str name, ?_⟩)
    exact List.forall_mem_singleton.mpr ih
  | sequence tag statements ih =>
    refine isReadable_nodeJson (by simp) (List.forall_mem_singleton.mpr ?_)
    exact .arr (forall_mem_allToJson ih)
  | declare tag ty name value ih =>
    cases value with
    | none =>
      refine isReadable_nodeJson (by simp) (List.forall_mem_cons.mpr ⟨.str ty.name, ?_⟩)
      exact List.forall_mem_singleton.mpr (.str name)
    | some value =>
      refine isReadable_nodeJson (by simp) (List.forall_mem_cons.mpr ⟨.str ty.name, ?_⟩)
      exact List.forall_mem_cons.mpr ⟨.str name, List.forall_mem_singleton.mpr (ih value rfl)⟩
  | print tag text value ih =>
    cases value with
    | none =>
      exact isReadable_nodeJson (by simp) (List.forall_mem_singleton.mpr (.str text))
    | some value =>
      refine isReadable_nodeJson (by simp) (List.forall_mem_cons.mpr ⟨.str text, ?_⟩)
      exact List.forall_mem_singleton.mpr (ih value rfl)
  | loop tag condition body hcondition hbody =>
    refine isReadable_nodeJson (by simp) (List.forall_mem_cons.mpr ⟨hcondition, ?_⟩)
    exact List.forall_mem_singleton.mpr hbody

theorem mem_newLine {level : Nat} {c : Char} (h : c ∈ '\n' :: List.replicate (2 * level) ' ') :
    c = '\n' ∨ c = ' ' := by
  rcases List.mem_cons.mp h with rfl | hc
  · exact .inl rfl
  · exact .inr (List.eq_of_mem_replicate hc)

theorem isBlank_indented : JsonLayout.indented.IsBlank := by
  have hline (level : Nat) : ∀ c ∈ '\n' :: List.replicate (2 * level) ' ',
      isJsonBlank c = true := by
    intro c hc
    rcases mem_newLine hc with rfl | rfl <;> rfl
  exact ⟨hline, hline⟩

theorem isPlain_indented : JsonLayout.indented.IsPlain := by
  have hline (level : Nat) : ∀ c ∈ '\n' :: List.replicate (2 * level) ' ',
      isPlainChar c = true := by
    intro c hc
    rcases mem_newLine hc with rfl | rfl <;> rfl
  exact ⟨hline, hline⟩

end Values

section Texts

theorem toList_dump (n : Node τ) : n.dump.toList = n.toJson.chars .indented 0 ++ ['\n'] := by
  rw [Node.dump, Json.text, String.toList_append, String.toList_ofList]
  rfl

theorem plain_dump (n : Node τ) : ∀ c ∈ n.dump.toList, isPlainChar c = true := by
  rw [toList_dump]
  exact List.forall_mem_append.mpr ⟨plain_chars isPlain_indented n.toJson 0,
    List.forall_mem_singleton.mpr rfl⟩

theorem unifyLineEnds_plain {cs : List Char} (h : ∀ c ∈ cs, isPlainChar c = true) :
    unifyLineEnds cs = cs := by
  induction cs with
  | nil => rfl
  | cons c cs ih =>
    obtain ⟨hc, hcs⟩ := List.forall_mem_cons.mp h
    have hne : c ≠ '\r' := by
      rintro rfl
      exact absurd hc (by decide)
    rw [unifyLineEnds, ih hcs]
    · exact fun _ heq => absurd heq hne
    · exact hne

theorem decodeUtf8_dump (n : Node τ) : decodeUtf8 n.dump.toUTF8.toList = .ok n.dump.toList := by
  have hascii : ∀ c ∈ n.dump.toList, c.toNat < 0x80 :=
    fun c hc => toNat_lt_of_isPlainChar (plain_dump n c hc)
  have hbytes := toUTF8_ascii hascii
  rw [String.ofList_toList] at hbytes
  rw [decodeUtf8, hbytes]
  exact utf8Chars_ascii hascii 0

theorem readTree_dump {p : Program} (hp : IsStmt p) (hnames : ∀ name ∈ p.names, name ≠ "") :
    readTree p.dump = .ok p := by
  have hblank : ∀ c ∈ ['\n'], isJsonBlank c = true := List.forall_mem_singleton.mpr rfl
  have hparse : Json.parse p.dump.toList = .ok p.toJson := by
    rw [toList_dump]
    exact (isReadable_toJson p).parse isBlank_indented hblank
  simp only [readTree, unifyLineEnds_plain (plain_dump p), hparse, Program.ofJson,
    readStmt_toJson hp hnames, Except.mapError, bind, Except.bind]

theorem loadFile_of_read {p : Program} {console : Console} {path : Path}
    (hread : console.files.read path = .ok p.dump.toUTF8.toList)
    (htree : readTree p.dump = .ok p) :
    EStateM.run (Command.loadFile path) console = .ok p console := by
  unfold Command.loadFile
  rw [EStateM.run_bind, EStateM.run_get]
  simp only [hread, decodeUtf8_dump, String.ofList_toList, htree]
  rfl

end Texts

/-- A dumped program is read back from its text, and loaded from every file that it has been written
to. So what is loaded is dumped as the same text and has the same source text. -/
theorem dumped_program_loads {p : Program} (hp : IsStmt p)
    (hnames : ∀ name ∈ p.names, name ≠ "") :
    readTree p.dump = .ok p ∧
    (∀ q, readTree p.dump = .ok q →
      q.dump = p.dump ∧ ∀ style level, q.source style level = p.source style level) ∧
    ∀ (console : Console) (path : Path) (files : FileStore),
      console.files.write path p.dump.toUTF8.toList = .ok files →
      EStateM.run (Command.loadFile path) { console with files } =
        .ok p { console with files } := by
  have hread := readTree_dump hp hnames
  refine ⟨hread, ?_, ?_⟩
  · intro q hq
    obtain rfl : p = q := Except.ok.inj (hread.symm.trans hq)
    exact ⟨rfl, fun _ _ => rfl⟩
  · intro console path files hwrite
    exact loadFile_of_read (FileStore.read_of_write hwrite) hread

/-- Constants without a numeral, a negative zero, an operator without operands, and characters that
JSON strings escape in each of the ways they have. -/
def unusualProgram : Program :=
  .sequence () [
    .declare () .float "é" (some (.float () .nan)),
    .loop () (.assign () "x" (.float () (.zero .double true))) (.sequence () []),
    .print () "a\"\n\x01𝒳" (some (.apply () .mult [.int () (-2147483648)])),
    .print () "" (some (.apply () .plus2 [])),
    .declare () .int "é" none]

theorem unusualProgram_loads :
    IsStmt unusualProgram ∧ (∀ name ∈ unusualProgram.names, name ≠ "") ∧
    readTree unusualProgram.dump = .ok unusualProgram ∧
    ∃ files, FileStore.write [] ⟨"", ["tree.json"]⟩ unusualProgram.dump.toUTF8.toList = .ok files ∧
      ∀ console : Console, EStateM.run (Command.loadFile ⟨"", ["tree.json"]⟩)
        { console with files } = .ok unusualProgram { console with files } := by
  have hstmt : IsStmt unusualProgram := by
    refine .sequence () (List.forall_mem_cons.mpr ⟨.declare () .float "é" ?_,
      List.forall_mem_cons.mpr ⟨.loop () (.assign () "x" (.float () _)) (.sequence () nofun),
      List.forall_mem_cons.mpr ⟨.print () _ ?_, List.forall_mem_cons.mpr ⟨.print () "" ?_,
      List.forall_mem_singleton.mpr (.declare () .int "é" nofun)⟩⟩⟩⟩)
    · rintro e ⟨⟩
      exact .float () .nan
    · rintro e ⟨⟩
      exact .single () .mult (.int () _)
    · rintro e ⟨⟩
      exact .apply () .plus2 nofun
  have hnames : ∀ name ∈ unusualProgram.names, name ≠ "" := by decide
  obtain ⟨hread, -, hload⟩ := dumped_program_loads hstmt hnames
  have hplace : FileStore.locate [] ⟨"", ["tree.json"]⟩ = .ok ["tree.json"] := by
    rw [FileStore.locate, if_neg (by simp), if_neg (by decide)]
    rfl
  have hwrite : FileStore.write [] ⟨"", ["tree.json"]⟩ unusualProgram.dump.toUTF8.toList =
      .ok [(["tree.json"], .file unusualProgram.dump.toUTF8.toList)] := by
    rw [FileStore.write, hplace]
    rfl
  exact ⟨hstmt, hnames, hread, _, hwrite,
    fun console => hload { console with files := [] } _ _ hwrite⟩

end ProgramTrees
