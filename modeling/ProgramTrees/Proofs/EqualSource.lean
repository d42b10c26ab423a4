import ProgramTrees.Proofs.Renumbering
import ProgramTrees.Proofs.StatementReading

namespace ProgramTrees

/-- A program without shared nodes that can be read from source text: its names are names, its
literals are finite, and its operators have as many operands as they take. -/
structure Node.IsReadable (p : Node Nat) : Prop where
  stmt : IsStmt p
  unshared : p.tags.Nodup
  writable : ∀ n ∈ p.subterms, n.isWritable = true
  names : ∀ name ∈ p.names, isName name = true

/-- A run of a program with the types that checking it finds; each loop may take `budget` rounds. -/
def Node.runWithin (p : Node Nat) (budget : Nat) : Run :=
  (p.eval p.findings.typeOf budget).runFrom {}

/-- What is reported of a stop: how and with which message a fault is, and nothing of a run that
is given up. -/
def Stop.account : Stop → Option (FaultChannel × String)
  | .fault reason => some (reason.channel, reason.message)
  | .outOfRounds => none

theorem Stop.account_renumber (f : Nat → Nat) (stop : Stop) :
    (stop.renumber f).account = stop.account := by
  cases stop with
  | fault reason =>
    rw [renumber, account, account, reason.channel_renumber, reason.message_renumber]
  | outOfRounds => rfl

theorem Node.isWritable_retag {τ σ : Type} (f : τ → σ) (n : Node τ) :
    (n.retag f).isWritable = n.isWritable := by
  cases n with
  | apply _ op operands =>
    rw [retag, isWritable, isWritable, allRetag_eq_map, List.length_map]
  | declare _ _ _ value | print _ _ value => cases value <;> rfl
  | _ => rfl

theorem Node.IsReadable.reads {p : Node Nat} (hp : p.IsReadable) :
    Reads (p.source {} 0).toList p.bare.flat none := by
  have hwritable : ∀ n ∈ p.bare.subterms, n.isWritable = true := by
    rw [bare, subterms_retag]
    refine List.forall_mem_map.mpr fun n hn => ?_
    rw [isWritable_retag]
    exact hp.writable n hn
  have hnames : ∀ name ∈ p.bare.names, isName name = true := by
    rw [bare, names_retag]
    exact hp.names
  have hfinish : Reads [] [] none := .finish rfl
  have hreads := reads_source (isStmt_retag _ hp.stmt) hwritable hnames 0 [] [] none
    (.inr (.inr (by simp [EndsStatement]))) hfinish
  rw [source_retag, List.append_nil, List.append_nil] at hreads
  exact hreads

/-- Programs with one source text have the same statements. -/
theorem flat_eq_of_source_eq {p q : Node Nat} (hp : p.IsReadable) (hq : q.IsReadable)
    (hsource : p.source {} 0 = q.source {} 0) : p.bare.flat = q.bare.flat := by
  have hreads := hp.reads
  rw [hsource] at hreads
  exact (hreads.unique hq.reads).1

/-- Trees with the same statements are checked and run alike but for the numbers of nodes. -/
theorem exists_renumbering_of_flat_eq {p q : Node Nat} (hp : p.tags.Nodup) (hq : q.tags.Nodup)
    (hflat : p.bare.flat = q.bare.flat) :
    ∃ f : Equiv.Perm Nat, q.findings = p.findings.renumber f ∧
      ∀ budget, q.runWithin budget = (p.runWithin budget).renumber f := by
  have hnormal (n : Node Nat) : n.normal.bare = Node.block () n.bare.flat := by
    rw [Node.bare, Node.normal, Node.block_retag, Node.bare, Node.flat_retag]
  have hbare : p.normal.bare = q.normal.bare := by rw [hnormal, hnormal, hflat]
  obtain ⟨f, hf⟩ := Node.exists_retag_eq hbare (hp.sublist p.tags_normal_sublist.2)
    (hq.sublist q.tags_normal_sublist.2)
  have hfindings : q.findings = p.findings.renumber f := by
    rw [← findings_normal q, ← hf, findings_retag f.injective, findings_normal]
  refine ⟨f, hfindings, fun budget => ?_⟩
  have htypes (slot : Slot) :
      q.findings.typeOf (slot.renumber f) = p.findings.typeOf slot := by
    rw [hfindings, typeOf_renumber f.injective]
  rw [Node.runWithin, ← eval_normal q, ← hf, Node.runWithin, ← eval_normal p]
  exact runFrom_retag f.injective htypes p.normal {}

/-- Programs with one source text do the same. They have the same statements in the same loops,
checking finds the same problems in the same order, and their runs print the same lines, leave the
same values in the same variables and stop alike, with every budget, so that both go on forever if
one does. What the runs differ in are the numbers that their nodes have. -/
theorem equal_source_equal_behavior {p q : Node Nat} (hp : p.IsReadable) (hq : q.IsReadable)
    (hsource : p.source {} 0 = q.source {} 0) :
    p.bare.flat = q.bare.flat ∧
    p.findings.problems = q.findings.problems ∧ p.findings.messages = q.findings.messages ∧
    p.findings.diagnostics = q.findings.diagnostics ∧
    (∀ budget,
      (p.runWithin budget).machine.environment = (q.runWithin budget).machine.environment ∧
      (p.runWithin budget).machine.names = (q.runWithin budget).machine.names ∧
      (p.runWithin budget).stop.map Stop.account = (q.runWithin budget).stop.map Stop.account) ∧
    ∃ f : Equiv.Perm Nat, ∀ budget, q.runWithin budget = (p.runWithin budget).renumber f := by
  have hflat := flat_eq_of_source_eq hp hq hsource
  obtain ⟨f, hfindings, hrun⟩ := exists_renumbering_of_flat_eq hp.unshared hq.unshared hflat
  have hproblems : p.findings.problems = q.findings.problems := by
    rw [hfindings]
    rfl
  have hdiagnostics : p.findings.diagnostics = q.findings.diagnostics := by
    rw [hfindings]
    rfl
  refine ⟨hflat, hproblems, congrArg (List.map Problem.message) hproblems,
    hdiagnostics, fun budget => ?_, f, hrun⟩
  have haccount : Stop.account ∘ Stop.renumber f = Stop.account :=
    funext (Stop.account_renumber f)
  rw [hrun]
  refine ⟨?_, ?_, ?_⟩
  · exact (environment_renumber f.injective _).symm
  · exact (names_renumber _).symm
  · rw [Run.renumber, Option.map_map]
    exact congrArg (Option.map · _) haccount.symm

/-- Counts down, prints where it came to and divides by zero, with the declaration in a sequence of
its own. -/
def groupedCountdown : Program :=
  .sequence () [.sequence () [.declare () .int "i" (some (.int () 1))],
    .loop () (.var () "i") (.assign () "i" (.apply () .minus2 [.var () "i", .int () 1])),
    .print () "q;\"" (some (.var () "i")),
    .print () "" (some (.apply () .div [.int () 1, .apply () .plus2 [.var () "i", .int () 1]]))]

/-- The same statements, with a sequence after the declaration and another around the body. -/
def regroupedCountdown : Program :=
  .sequence () [.declare () .int "i" (some (.int () 1)), .sequence () [],
    .loop () (.var () "i")
      (.sequence () [.assign () "i" (.apply () .minus2 [.var () "i", .int () 1])]),
    .print () "q;\"" (some (.var () "i")),
    .print () "" (some (.apply () .div [.int () 1, .apply () .plus2 [.var () "i", .int () 1]]))]

theorem groupedCountdown_isReadable : groupedCountdown.numbered.IsReadable := by
  refine ⟨?_, groupedCountdown.tags_numbered_nodup, List.all_eq_true.mp (by decide),
    List.all_eq_true.mp (by decide)⟩
  refine .sequence 0 (List.forall_mem_cons.mpr ⟨.sequence 1 (List.forall_mem_singleton.mpr
    (.declare 2 .int "i" ?_)), List.forall_mem_cons.mpr ⟨.loop 4 (.var 5 "i") (.assign 6 "i"
      (.pair 7 .minus2 (.var 8 "i") (.int 9 1))), List.forall_mem_cons.mpr ⟨.print 10 _ ?_,
        List.forall_mem_singleton.mpr (.print 12 _ ?_)⟩⟩⟩)
  · rintro e ⟨⟩
    exact .int 3 1
  · rintro e ⟨⟩
    exact .var 11 "i"
  · rintro e ⟨⟩
    exact .pair 13 .div (.int 14 1) (.pair 15 .plus2 (.var 16 "i") (.int 17 1))

theorem regroupedCountdown_isReadable : regroupedCountdown.numbered.IsReadable := by
  refine ⟨?_, regroupedCountdown.tags_numbered_nodup, List.all_eq_true.mp (by decide),
    List.all_eq_true.mp (by decide)⟩
  refine .sequence 0 (List.forall_mem_cons.mpr ⟨.declare 1 .int "i" ?_,
    List.forall_mem_cons.mpr ⟨.sequence 3 nofun, List.forall_mem_cons.mpr ⟨.loop 4 (.var 5 "i")
      (.sequence 6 (List.forall_mem_singleton.mpr (.assign 7 "i"
        (.pair 8 .minus2 (.var 9 "i") (.int 10 1))))), List.forall_mem_cons.mpr ⟨.print 11 _ ?_,
          List.forall_mem_singleton.mpr (.print 13 _ ?_)⟩⟩⟩⟩)
  · rintro e ⟨⟩
    exact .int 2 1
  · rintro e ⟨⟩
    exact .var 12 "i"
  · rintro e ⟨⟩
    exact .pair 14 .div (.int 15 1) (.pair 16 .plus2 (.var 17 "i") (.int 18 1))

theorem regroupedCountdown_behaves :
    groupedCountdown.numbered.IsReadable ∧ regroupedCountdown.numbered.IsReadable ∧
    groupedCountdown.numbered.source {} 0 = regroupedCountdown.numbered.source {} 0 ∧
    groupedCountdown.numbered.findings.problems = regroupedCountdown.numbered.findings.problems ∧
    (∀ budget,
      (groupedCountdown.numbered.runWithin budget).machine.environment =
        (regroupedCountdown.numbered.runWithin budget).machine.environment ∧
      (groupedCountdown.numbered.runWithin budget).stop.map Stop.account =
        (regroupedCountdown.numbered.runWithin budget).stop.map Stop.account) ∧
    (regroupedCountdown.numbered.runWithin 2).machine.environment.output = #["q;\"-1"] ∧
    (regroupedCountdown.numbered.runWithin 2).machine.environment.value "i" = some (.int (-1)) ∧
    (regroupedCountdown.numbered.runWithin 2).stop.map Stop.account =
      some (some (.arithmetic, "/ by zero [at OperatorExpression]")) := by
  have hsource : groupedCountdown.numbered.source {} 0 =
      regroupedCountdown.numbered.source {} 0 := by decide +kernel
  obtain ⟨-, hproblems, -, -, hrun, -⟩ := equal_source_equal_behavior groupedCountdown_isReadable
    regroupedCountdown_isReadable hsource
  obtain ⟨henvironment, -, hstop⟩ := hrun 2
  refine ⟨groupedCountdown_isReadable, regroupedCountdown_isReadable, hsource, hproblems,
    fun budget => ⟨(hrun budget).1, (hrun budget).2.2⟩, ?_, ?_, ?_⟩
  · rw [← henvironment]
    decide +kernel
  · rw [← henvironment]
    decide +kernel
  · rw [← hstop]
    decide +kernel

end ProgramTrees
