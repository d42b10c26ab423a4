import Mathlib.Data.List.Chain
import ProgramTrees.Proofs.ProblemReports
import ProgramTrees.Proofs.TypeTable

namespace ProgramTrees

/-- A declaration first enters its name with its type, and then its value may be at odds with it. -/
def Findings.declarationMoments (s : Findings) (ty : Ty) (name : String) (value : Option Slot) :
    List Findings :=
  if name ∈ s.declared then [s.checkDeclaration ty name value]
  else [s.declare name ty, s.checkDeclaration ty name value]

mutual

/-- What has been found after each step of checking a node, the oldest first. A step records a type,
declares a name or reports a problem. It ends when that is done: a declared name has its type by
then, and a problem its diagnostic. -/
def Node.moments : Node Nat → Findings → List Findings
  | .int number _, s => [s.record (.node number) .int]
  | .float number _, s => [s.record (.node number) .float]
  | .var _ name, s => [s.checkUse name]
  | .apply number op operands, s =>
    let (compared, seen) := Node.checkOperands op operands s {}
    Node.operandMoments op operands s {} ++ [compared.conclude number op seen]
  | .assign number name value, s =>
    value.moments s ++ [(value.check s).checkTarget number name value.slot]
  | .sequence _ statements, s => Node.allMoments statements s
  | .declare _ ty name none, s => s.declarationMoments ty name none
  | .declare _ ty name (some value), s =>
    value.moments s ++ (value.check s).declarationMoments ty name value.slot
  | .print _ _ none, _ => []
  | .print _ _ (some value), s => value.moments s
  | .loop _ condition body, s =>
    let judged := (condition.check s).checkCondition condition.slot
    condition.moments s ++ judged :: body.moments judged

def Node.operandMoments (op : Operator) :
    List (Node Nat) → Findings → Agreement → List Findings
  | [], _, _ => []
  | e :: es, s, seen =>
    let (compared, seen) := (e.check s).compare op seen ((e.check s).typeOf e.slot)
    e.moments s ++ compared :: Node.operandMoments op es compared seen

def Node.allMoments : List (Node Nat) → Findings → List Findings
  | [], _ => []
  | n :: ns, s => n.moments s ++ Node.allMoments ns (n.check s)

end

namespace Findings

/-- At most one change to what has been found, made for one of the nodes. A node only gets a type
that the entries below it give it, and only a new name is declared. -/
inductive Step (nodes : List (Node Nat)) (s : Findings) : Findings → Prop where
  | none : Step nodes s s
  | report {problem : Problem} {d : Diagnostic}
      (mentioned : problem.names ⊆ nodes.filterMap Node.name?)
      (told : d.Reports problem (problem.names ++ s.declared))
      (typed : ∀ name, problem ≠ .untypedVariable name) :
      Step nodes s ((s.report problem).emit d)
  | record {a : Node Nat} {ty : Ty} (visited : a ∈ nodes) (backed : a.Backed s.typeOf ty) :
      Step nodes s (s.record (.node a.tag) ty)
  | declare {name : String} {ty : Ty} (named : name ∈ nodes.filterMap Node.name?)
      (new : name ∉ s.declared) : Step nodes s (s.declare name ty)

/-- From some findings to others through all that was found between, one step each. -/
inductive Passes (nodes : List (Node Nat)) : Findings → List Findings → Findings → Prop where
  | done (s : Findings) : Passes nodes s [] s
  | step {s s' t : Findings} {moments : List Findings} (first : Step nodes s s')
      (rest : Passes nodes s' moments t) : Passes nodes s (s' :: moments) t

variable {node : Nat → Node Nat} {nodes : List (Node Nat)} {s s' t : Findings}
  {moments later : List Findings}

theorem Step.passes (h : Step nodes s s') : Passes nodes s [s'] s' :=
  .step h (.done s')

theorem Passes.append (h : Passes nodes s moments s') (h' : Passes nodes s' later t) :
    Passes nodes s (moments ++ later) t := by
  induction h with
  | done s => exact h'
  | step first _ ih => exact .step first (ih h')

theorem Passes.invariant {kept : Findings → Prop}
    (keep : ∀ s s', kept s → Step nodes s s' → kept s') (h : Passes nodes s moments t)
    (hs : kept s) : ∀ s' ∈ s :: moments, kept s' := by
  induction h with
  | done s => simpa using hs
  | step first _ ih =>
    rw [List.forall_mem_cons]
    exact ⟨hs, ih (keep _ _ hs first)⟩

theorem Passes.isChain (h : Passes nodes s moments t) : (s :: moments).IsChain (Step nodes) := by
  induction h with
  | done s => exact .singleton s
  | step first _ ih => exact .cons_cons first ih

theorem Passes.final_mem (h : Passes nodes s moments t) : t ∈ s :: moments := by
  induction h with
  | done s => exact List.mem_singleton_self s
  | step _ _ ih => exact List.mem_cons_of_mem _ ih

theorem Step.sound (hnode : ∀ a ∈ nodes, node a.tag = a) (h : Step nodes s s')
    (hs : s.Sound node) : s'.Sound node := by
  cases h with
  | none => exact hs
  | report => exact hs.report _ _
  | record visited backed => exact hs.record (by rwa [hnode _ visited])
  | declare _ new => exact hs.declare new _

theorem Step.extends (hnode : ∀ a ∈ nodes, node a.tag = a) (h : Step nodes s s')
    (hs : s.Sound node) : s.Extends s' := by
  cases h with
  | none => exact .refl s
  | report => exact s.extends_report _ _
  | record visited backed => exact hs.extends_record (by rwa [hnode _ visited])
  | declare _ new => exact hs.extends_declare new _

theorem Passes.pairwise (hnode : ∀ a ∈ nodes, node a.tag = a) (h : Passes nodes s moments t)
    (hs : s.Sound node) : (s :: moments).Pairwise Extends := by
  induction h with
  | done s => exact List.pairwise_singleton _ _
  | step first _ ih =>
    have hrest := ih (first.sound hnode hs)
    have hfirst := first.extends hnode hs
    refine List.pairwise_cons.mpr ⟨?_, hrest⟩
    intro later hlater
    rcases List.mem_cons.mp hlater with rfl | hlater
    · exact hfirst
    · exact hfirst.trans ((List.pairwise_cons.mp hrest).1 later hlater)

theorem Step.keeps_typed (h : Step nodes s s')
    (hs : ∀ name, .untypedVariable name ∉ s.problems) :
    ∀ name, .untypedVariable name ∉ s'.problems := by
  cases h with
  | none => exact hs
  | report _ _ typed =>
    intro name hname
    rcases List.mem_append.mp hname with hname | hname
    · exact hs name hname
    · exact typed name (List.mem_singleton.mp hname).symm
  | record => exact hs
  | declare => simpa using hs

theorem mem_declaredNames {name : String} : name ∈ s.declaredNames ↔ name ∈ s.declared :=
  List.mem_mergeSort

theorem step_undeclared {problem : Problem} {name : String} (hcode : problem.code = "E0102")
    (hnames : problem.names = [name]) (hname : name ∈ nodes.filterMap Node.name?) :
    Step nodes s ((s.report problem).emit (.undefinedVariable name s.declaredNames)) := by
  refine .report (by simpa [hnames] using hname) (.undefinedVariable hcode (by simp [hnames]) ?_) ?_
  · exact fun other hother => List.mem_append_right _ (mem_declaredNames.mp hother)
  · rintro other rfl
    exact absurd hcode (by simp [Problem.code])

theorem step_mismatch {problem : Problem} {name expected context : String} {found : Option Ty}
    (hcode : problem.code = "E0101") (hnames : problem.names = [name])
    (hname : name ∈ nodes.filterMap Node.name?) (hexpected : OneLine expected)
    (hcontext : OneLine name → OneLine context) :
    Step nodes s
      ((s.report problem).emit (.typeMismatch expected (found.map Ty.name) context)) := by
  refine .report (by simpa [hnames] using hname) (.typeMismatch hcode hexpected ?_) ?_
  · exact fun hlines => hcontext (hlines name (by simp [hnames]))
  · rintro other rfl
    exact absurd hcode (by simp [Problem.code])

theorem step_use {name : String} (hs : s.Sound node) (hname : name ∈ nodes.filterMap Node.name?) :
    Step nodes s (s.checkUse name) := by
  unfold checkUse
  split
  next => exact step_undeclared rfl rfl hname
  next hdeclared =>
    have htyped := (hs.declared name).mp (by simpa using hdeclared)
    rw [if_neg htyped]
    exact .none

theorem step_compare (nodes : List (Node Nat)) (s : Findings) (op : Operator) (seen : Agreement)
    (found : Option Ty) : Step nodes s (s.compare op seen found).1 := by
  obtain ⟨hsymbol, -, -⟩ := oneLine_operator op
  unfold compare
  split
  next =>
    refine .report (List.nil_subset _) (.error rfl fun _ => ?_) (by simp)
    simpa [OneLine, toString] using hsymbol
  next found =>
    split
    next => exact .none
    next first _ =>
      split
      next => exact .none
      next =>
        have htypes := And.intro (oneLine_ty first) (oneLine_ty found)
        refine .report (List.nil_subset _) (.withHelp (.error rfl fun _ => ?_) fun _ => by decide)
          (by simp)
        simpa [OneLine, toString] using ⟨hsymbol, htypes⟩

theorem step_conclude {number : Nat} {op : Operator} {operands : List (Node Nat)}
    {seen : Agreement} (hmem : .apply number op operands ∈ nodes)
    (hseen : seen.Covers s.typeOf operands) : Step nodes s (s.conclude number op seen) := by
  obtain ⟨hsymbol, hname, hnote⟩ := oneLine_operator op
  unfold conclude
  split
  next =>
    refine .report (List.nil_subset _) (.error rfl fun _ => ?_) (by simp)
    simpa [OneLine, toString] using hsymbol
  next ty hty =>
    split
    next hsupports =>
      split
      next hconsistent =>
        exact .record hmem (hseen.backed hty hsupports hconsistent)
      next => exact .none
    next =>
      have htype := oneLine_ty ty
      refine .report (List.nil_subset _) (.withNote (.error rfl fun _ => ?_) fun _ => hnote)
        (by simp)
      simpa [OneLine, toString] using ⟨hname, htype⟩

theorem step_target {number : Nat} {name : String} {value : Node Nat}
    (hs : s.Sound node) (hmem : .assign number name value ∈ nodes) :
    Step nodes s (s.checkTarget number name value.slot) := by
  have hname : name ∈ nodes.filterMap Node.name? := List.mem_filterMap.mpr ⟨_, hmem, rfl⟩
  unfold checkTarget
  split
  next => exact step_undeclared rfl rfl hname
  next hdeclared =>
    obtain ⟨ty, hty⟩ := hs.declared_typed (by simpa using hdeclared)
    simp only
    split
    next =>
      exact step_mismatch rfl rfl hname (oneLine_nameOrUndefined _) fun hone => by
        simpa [OneLine, toString] using hone
    next heq =>
      have hfound : s.typeOf value.slot = some ty := by
        rw [← hty]
        exact (Decidable.of_not_not heq).symm
      have hb : (Node.assign number name value).Backed s.typeOf ty := ⟨hty, hfound⟩
      rw [hty]
      exact .record hmem hb

theorem step_condition (nodes : List (Node Nat)) (s : Findings) (slot : Slot) :
    Step nodes s (s.checkCondition slot) := by
  have hfound := oneLine_nameOrUndefined (s.typeOf slot)
  unfold checkCondition
  simp only
  split
  next => exact .none
  next =>
    refine .report (List.nil_subset _) (.withHelp (.error rfl fun _ => ?_) fun _ => by decide)
      (by simp)
    simpa [OneLine, toString] using hfound

theorem passes_declaration {ty : Ty} {name : String} (value : Option Slot)
    (hname : name ∈ nodes.filterMap Node.name?) :
    Passes nodes s (s.declarationMoments ty name value) (s.checkDeclaration ty name value) := by
  unfold declarationMoments
  split
  next hold =>
    have hfirst := oneLine_nameOrUndefined (s.typeOf (.name name))
    refine Step.passes ?_
    rw [checkDeclaration, if_pos hold]
    refine .report (by simpa [Problem.names] using hname)
      (.withNote (.error rfl fun hlines => ?_) fun _ => ?_) (by simp)
    · have hone := hlines name (by simp [Problem.names])
      simpa [OneLine, toString] using hone
    · simpa [OneLine, toString] using hfirst
  next hnew =>
    refine .step (.declare hname hnew) (Step.passes ?_)
    rw [checkDeclaration, if_neg hnew]
    simp only
    split
    next => exact .none
    next =>
      split
      next => exact .none
      next =>
        exact step_mismatch rfl rfl hname (oneLine_ty ty) fun hone => by
          simpa [OneLine, toString] using hone

theorem passes_operands (hnode : ∀ a ∈ nodes, node a.tag = a) (op : Operator)
    {es : List (Node Nat)} (hes : ∀ e ∈ es, e.NumberedBy node)
    (ih : ∀ e ∈ es, ∀ s : Findings, s.Sound node → Passes nodes s (e.moments s) (e.check s))
    (seen : Agreement) (hs : s.Sound node) :
    Passes nodes s (Node.operandMoments op es s seen) (Node.checkOperands op es s seen).1 := by
  induction es generalizing s seen with
  | nil =>
    rw [Node.operandMoments, Node.checkOperands]
    exact .done s
  | cons e es ih' =>
    have hfirst := ih e (by simp) s hs
    have hcompare := step_compare nodes (e.check s) op seen ((e.check s).typeOf e.slot)
    have hsound := hcompare.sound hnode (check_checked e (hes e (by simp)) hs).sound
    rw [Node.operandMoments, Node.checkOperands]
    exact hfirst.append (.step hcompare (ih' (fun e' he' => hes e' (by simp [he']))
      (fun e' he' => ih e' (by simp [he'])) _ hsound))

theorem passes_all {ns : List (Node Nat)} (hns : ∀ n ∈ ns, n.NumberedBy node)
    (ih : ∀ n ∈ ns, ∀ s : Findings, s.Sound node → Passes nodes s (n.moments s) (n.check s))
    (hs : s.Sound node) : Passes nodes s (Node.allMoments ns s) (Node.checkAll ns s) := by
  induction ns generalizing s with
  | nil =>
    rw [Node.allMoments, Node.checkAll]
    exact .done s
  | cons n ns ih' =>
    have hsound := (check_checked n (hns n (by simp)) hs).sound
    rw [Node.allMoments, Node.checkAll]
    exact (ih n (by simp) s hs).append (ih' (fun n' hn' => hns n' (by simp [hn']))
      (fun n' hn' => ih n' (by simp [hn'])) hsound)

end Findings

variable {node : Nat → Node Nat} {nodes : List (Node Nat)} {s : Findings}

theorem Node.NumberedBy.of_subset {n : Node Nat} (hnode : ∀ a ∈ nodes, node a.tag = a)
    (hn : n.subterms ⊆ nodes) : n.NumberedBy node :=
  fun a ha => hnode a (hn ha)

/-- Checking a node goes step by step, whatever has been found before. -/
theorem check_passes (hnode : ∀ a ∈ nodes, node a.tag = a) (n : Node Nat)
    (hn : n.subterms ⊆ nodes) (hs : s.Sound node) :
    Findings.Passes nodes s (n.moments s) (n.check s) := by
  induction n using Node.induction generalizing s with
  | int number k =>
    have hb : (Node.int number k).Backed s.typeOf .int := rfl
    rw [Node.moments, Node.check]
    exact Findings.Step.passes (.record (hn (Node.self_mem_subterms _)) hb)
  | float number x =>
    have hb : (Node.float number x).Backed s.typeOf .float := rfl
    rw [Node.moments, Node.check]
    exact Findings.Step.passes (.record (hn (Node.self_mem_subterms _)) hb)
  | var number name =>
    have hname : name ∈ nodes.filterMap Node.name? :=
      List.mem_filterMap.mpr ⟨_, hn (Node.self_mem_subterms _), rfl⟩
    rw [Node.moments, Node.check]
    exact (Findings.step_use hs hname).passes
  | apply number op operands ih =>
    have hes : ∀ e ∈ operands, e.subterms ⊆ nodes :=
      fun e he => Node.subterms_subset_of_child hn he
    have hnumbered : ∀ e ∈ operands, e.NumberedBy node :=
      fun e he => Node.NumberedBy.of_subset hnode (hes e he)
    -- The verdict records a type only if what the operands have in common covers all of them.
    obtain ⟨-, -, hcovers, -⟩ :=
      Findings.checkOperands_checked op [] (fun e he s hs => check_checked e (hnumbered e he) hs)
        {} hs ⟨by simp, by simp⟩
    have hoperands := Findings.passes_operands hnode op hnumbered
      (fun e he s hs => ih e he (hes e he) hs) {} hs
    rw [Node.moments, Node.check]
    exact hoperands.append
      (Findings.step_conclude (hn (Node.self_mem_subterms _)) hcovers).passes
  | assign number name value ih =>
    have hvalue : value.subterms ⊆ nodes :=
      Node.subterms_subset_of_child hn (by simp [Node.children])
    have hsound := (check_checked value (Node.NumberedBy.of_subset hnode hvalue) hs).sound
    rw [Node.moments, Node.check]
    exact (ih hvalue hs).append
      (Findings.step_target hsound (hn (Node.self_mem_subterms _))).passes
  | sequence number statements ih =>
    have hns : ∀ n ∈ statements, n.subterms ⊆ nodes :=
      fun n hm => Node.subterms_subset_of_child hn hm
    rw [Node.moments, Node.check]
    exact Findings.passes_all (fun n hm => Node.NumberedBy.of_subset hnode (hns n hm))
      (fun n hm s hs => ih n hm (hns n hm) hs) hs
  | declare number ty name value ih =>
    have hname : name ∈ nodes.filterMap Node.name? :=
      List.mem_filterMap.mpr ⟨_, hn (Node.self_mem_subterms _), rfl⟩
    cases value with
    | none =>
      rw [Node.moments, Node.check]
      exact Findings.passes_declaration none hname
    | some value =>
      have hvalue : value.subterms ⊆ nodes :=
        Node.subterms_subset_of_child hn (by simp [Node.children])
      rw [Node.moments, Node.check]
      exact (ih value rfl hvalue hs).append (Findings.passes_declaration _ hname)
  | print number text value ih =>
    cases value with
    | none =>
      rw [Node.moments, Node.check]
      exact .done s
    | some value =>
      have hvalue : value.subterms ⊆ nodes :=
        Node.subterms_subset_of_child hn (by simp [Node.children])
      rw [Node.moments, Node.check]
      exact ih value rfl hvalue hs
  | loop number condition body hcondition hbody =>
    have hc : condition.subterms ⊆ nodes :=
      Node.subterms_subset_of_child hn (by simp [Node.children])
    have hb : body.subterms ⊆ nodes :=
      Node.subterms_subset_of_child hn (by simp [Node.children])
    have hsound := (check_checked condition (Node.NumberedBy.of_subset hnode hc) hs).sound
    have hjudged := Findings.step_condition nodes (condition.check s) condition.slot
    rw [Node.moments, Node.check]
    exact (hcondition hc hs).append
      (.step hjudged (hbody hb (hjudged.sound hnode hsound)))

namespace Findings

theorem record_of_typed {slot : Slot} {ty : Ty} (h : s.typeOf slot = some ty) :
    s.record slot ty = s := by
  rw [record, Table.set_eq_self h]

theorem checkOperands_of_typed (op : Operator) {es : List (Node Nat)} {ty : Ty}
    (hcheck : ∀ e ∈ es, e.check s = s) (htyped : ∀ e ∈ es, s.typeOf e.slot = some ty) :
    Node.checkOperands op es s ⟨some ty, true⟩ = (s, ⟨some ty, true⟩) := by
  induction es with
  | nil => rw [Node.checkOperands]
  | cons e es ih =>
    have hcompare : s.compare op ⟨some ty, true⟩ (some ty) = (s, ⟨some ty, true⟩) := by
      simp [compare]
    rw [Node.checkOperands, hcheck e (by simp), htyped e (by simp), hcompare]
    exact ih (fun e' he' => hcheck e' (by simp [he'])) fun e' he' => htyped e' (by simp [he'])

end Findings

theorem Node.Backed.of_typed {n : Node Nat} (hn : n.NumberedBy node) (hs : s.Sound node)
    (h : s.typeOf (.node n.tag) ≠ none) :
    ∃ ty, s.typeOf (.node n.tag) = some ty ∧ n.Backed s.typeOf ty := by
  obtain ⟨ty, hty⟩ := Option.ne_none_iff_exists'.mp h
  have hb := hs.backed _ _ hty
  rw [hn n n.self_mem_subterms] at hb
  exact ⟨ty, hty, hb⟩

/-- Checking a node that has a type finds the same type once more and nothing else. -/
theorem check_of_typed (n : Node Nat) (hn : n.NumberedBy node) (hs : s.Sound node)
    (h : s.typeOf n.slot ≠ none) : n.check s = s := by
  -- The entry is backed by entries below, so the nodes below are found as they were first.
  induction n using Node.induction with
  | var number name =>
    have htyped : s.typeOf (.name name) ≠ none := h
    have hdeclared := (hs.declared name).mpr htyped
    rw [Node.check, Findings.checkUse, if_neg (by simpa using hdeclared), if_neg htyped]
  | int number k =>
    obtain ⟨ty, hty, rfl⟩ := Node.Backed.of_typed hn hs h
    rw [Node.check]
    exact Findings.record_of_typed hty
  | float number x =>
    obtain ⟨ty, hty, rfl⟩ := Node.Backed.of_typed hn hs h
    rw [Node.check]
    exact Findings.record_of_typed hty
  | apply number op operands ih =>
    obtain ⟨ty, hty, hsupports, hne, htyped⟩ := Node.Backed.of_typed hn hs h
    have hcheck : ∀ e ∈ operands, e.check s = s := fun e he =>
      ih e he (hn.child he) (by simp [htyped e he])
    have hloop : Node.checkOperands op operands s {} = (s, ⟨some ty, true⟩) := by
      obtain ⟨e, es, rfl⟩ := List.exists_cons_of_ne_nil hne
      have hfirst : s.compare op {} (some ty) = (s, ⟨some ty, true⟩) := rfl
      rw [Node.checkOperands, hcheck e (by simp), htyped e (by simp), hfirst]
      exact Findings.checkOperands_of_typed op (fun e' he' => hcheck e' (by simp [he']))
        fun e' he' => htyped e' (by simp [he'])
    rw [Node.check, hloop]
    simp only [Findings.conclude, hsupports, if_true]
    exact Findings.record_of_typed hty
  | assign number name value ih =>
    obtain ⟨ty, hty, hname, hvalue⟩ := Node.Backed.of_typed hn hs h
    have hcheck : value.check s = s :=
      ih (hn.child (by simp [Node.children])) (by simp [hvalue])
    have hdeclared := (hs.declared name).mpr (by simp [hname])
    rw [Node.check, hcheck, Findings.checkTarget, if_neg (by simpa using hdeclared)]
    simp only [hname, hvalue, ne_eq, not_true_eq_false, if_false, Option.elim_some]
    exact Findings.record_of_typed hty
  | sequence | declare | print | loop =>
    obtain ⟨ty, -, hb⟩ := Node.Backed.of_typed hn hs h
    exact hb.elim

variable {ns : List (Node Nat)}

theorem visits_pass (hnode : ∀ a ∈ Node.allSubterms ns, node a.tag = a) :
    Findings.Passes (Node.allSubterms ns) {} (Node.allMoments ns {}) (Node.checkAll ns {}) := by
  have hns : ∀ n ∈ ns, n.subterms ⊆ Node.allSubterms ns :=
    fun n hn a ha => Node.mem_allSubterms.mpr ⟨n, hn, ha⟩
  exact Findings.passes_all (fun n hn => Node.NumberedBy.of_subset hnode (hns n hn))
    (fun n hn s hs => check_passes hnode n (hns n hn) hs) Findings.Sound.empty

/-- Visits of any nodes on a fresh checker, where nodes may be shared and visited again, change
what has been found step by step. Each moment keeps all that was found before it: types as they
were recorded, declared names, problems and diagnostics. At each moment the variables with a type
are the declared ones, so no variable was found to be declared without a type, and a visit of a
node that has a type would find the same again. -/
theorem visits_only_add
    (coherent : ∀ a ∈ Node.allSubterms ns, ∀ b ∈ Node.allSubterms ns, a.tag = b.tag → a = b) :
    Findings.Passes (Node.allSubterms ns) {} (Node.allMoments ns {}) (Node.checkAll ns {}) ∧
    (({} : Findings) :: Node.allMoments ns {}).Pairwise (fun s s' =>
      s.Extends s' ∧ s.messages <+: s'.messages ∧ s.diagnostics <+: s'.diagnostics) ∧
    ∀ s ∈ ({} : Findings) :: Node.allMoments ns {},
      (∀ name, Slot.name name ∈ s.types.map Prod.fst ↔ name ∈ s.declared) ∧
      (∀ name, .untypedVariable name ∉ s.problems) ∧
      ∀ n ∈ Node.allSubterms ns, s.typeOf n.slot ≠ none → n.check s = s := by
  obtain ⟨node, hnode⟩ := exists_numbering coherent
  have hpasses := visits_pass hnode
  have hsound := hpasses.invariant (fun _ _ hs h => h.sound hnode hs) Findings.Sound.empty
  have htyped := hpasses.invariant (fun _ _ hs h => h.keeps_typed hs) (by simp)
  refine ⟨hpasses, ?_, ?_⟩
  · refine (hpasses.pairwise hnode Findings.Sound.empty).imp fun h => ?_
    exact ⟨h, h.problems.map _, h.diagnostics⟩
  · intro s hs
    refine ⟨?_, htyped s hs, ?_⟩
    · intro name
      rw [(hsound s hs).declared name, Findings.typeOf, ne_eq, Table.get?_eq_none,
        Classical.not_not]
    · intro n hn h
      obtain ⟨visited, hvisited, hn⟩ := Node.mem_allSubterms.mp hn
      refine check_of_typed n (fun a ha => hnode a ?_) (hsound s hs) h
      exact Node.mem_allSubterms.mpr ⟨visited, hvisited, Node.subterms_trans ha hn⟩

/-- A sum that is visited before the variable in it is declared, after it, and once more after its
declaration with another type. The sum and a literal are shared. -/
def sumRevisited : List (Node Nat) :=
  let one : Node Nat := .int 1 1
  let sum : Node Nat := .apply 4 .plus2 [.var 0 "x", .assign 2 "x" one]
  [sum, .declare 3 .int "x" (some one), sum, .declare 5 .float "x" none, sum]

theorem sumRevisited_only_adds :
    (∀ a ∈ Node.allSubterms sumRevisited, ∀ b ∈ Node.allSubterms sumRevisited,
      a.tag = b.tag → a = b) ∧
    (Node.checkAll (sumRevisited.take 1) {}).typeOf (.node 4) = none ∧
    (Node.checkAll sumRevisited {}).typeOf (.node 4) = some .int ∧
    (Node.checkAll sumRevisited {}).messages =
      ["Variable not defined x", "A subexpression of + does not have a type.",
        "Variable x not defined.", "A subexpression of + does not have a type.",
        "Subexpression(s) of operand do not have a type: Operator PLUS2",
        "Variable x declared more than once."] ∧
    (({} : Findings) :: Node.allMoments sumRevisited {}).Pairwise (fun s s' =>
      s.Extends s' ∧ s.messages <+: s'.messages ∧ s.diagnostics <+: s'.diagnostics) := by
  have coherent : ∀ a ∈ Node.allSubterms sumRevisited, ∀ b ∈ Node.allSubterms sumRevisited,
      a.tag = b.tag → a = b := by
    intro a ha b hb h
    simp only [sumRevisited, Node.subterms, Node.allSubterms, List.cons_append,
      List.nil_append, List.append_nil, List.mem_cons, List.not_mem_nil, or_false] at ha hb
    rcases ha with rfl | rfl | rfl | rfl | rfl | rfl | rfl | rfl | rfl | rfl | rfl | rfl |
      rfl | rfl | rfl <;>
      rcases hb with rfl | rfl | rfl | rfl | rfl | rfl | rfl | rfl | rfl | rfl | rfl | rfl |
        rfl | rfl | rfl <;>
      first | rfl | cases h
  exact ⟨coherent, by decide, by decide, by decide, (visits_only_add coherent).2.1⟩

end ProgramTrees
