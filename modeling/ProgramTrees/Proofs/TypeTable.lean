import ProgramTrees.Pipeline
import ProgramTrees.Proofs.Subterms

namespace ProgramTrees

/-- The entries below an expression give it the type. -/
def Node.Backed (types : TypeMap) (ty : Ty) : Node Nat → Prop
  | .int .. => ty = .int
  | .float .. => ty = .float
  | .apply _ op operands =>
    op.supports ty = true ∧ operands ≠ [] ∧ ∀ e ∈ operands, types e.slot = some ty
  | .assign _ name value => types (.name name) = some ty ∧ types value.slot = some ty
  | _ => False

/-- The types at a node and directly below it fit together. -/
def Node.Accepted (types : TypeMap) : Node Nat → Prop
  | .var _ name => types (.name name) ≠ none
  | .sequence .. | .print .. => True
  | .declare _ ty name none => types (.name name) = some ty
  | .declare _ ty name (some value) => types (.name name) = some ty ∧ types value.slot = some ty
  | .loop _ condition _ => types condition.slot = some .int
  | n => ∃ ty, types (.node n.tag) = some ty ∧ n.Backed types ty

/-- The numbers of a tree are those of a numbering of all nodes. -/
def Node.NumberedBy (node : Nat → Node Nat) (n : Node Nat) : Prop :=
  ∀ a ∈ n.subterms, node a.tag = a

theorem Node.NumberedBy.child {node : Nat → Node Nat} {n c : Node Nat} (h : n.NumberedBy node)
    (hc : c ∈ n.children) : c.NumberedBy node :=
  fun a ha => h a (mem_subterms_of_child hc ha)

theorem exists_numbering {nodes : List (Node Nat)}
    (h : ∀ a ∈ nodes, ∀ b ∈ nodes, a.tag = b.tag → a = b) :
    ∃ node : Nat → Node Nat, ∀ a ∈ nodes, node a.tag = a := by
  classical
  refine ⟨fun k => if hk : ∃ a ∈ nodes, a.tag = k then hk.choose else .var k "", ?_⟩
  intro a ha
  have hk : ∃ b ∈ nodes, b.tag = a.tag := ⟨a, ha, rfl⟩
  have hb := hk.choose_spec
  simp only [dif_pos hk]
  exact h _ hb.1 a ha hb.2

theorem Node.Coherent.numberedBy {n : Node Nat} (h : n.Coherent) :
    ∃ node, n.NumberedBy node :=
  exists_numbering h

namespace Findings

structure Extends (s s' : Findings) : Prop where
  types : ∀ slot ty, s.typeOf slot = some ty → s'.typeOf slot = some ty
  declared : s.declared <+: s'.declared
  problems : s.problems <+: s'.problems
  diagnostics : s.diagnostics <+: s'.diagnostics

/-- The declared names are those with a type, and every entry of a node is backed. -/
structure Sound (node : Nat → Node Nat) (s : Findings) : Prop where
  declared : ∀ name, name ∈ s.declared ↔ s.typeOf (.name name) ≠ none
  backed : ∀ number ty, s.typeOf (.node number) = some ty → (node number).Backed s.typeOf ty

variable {node : Nat → Node Nat} {s s' s'' : Findings} {n : Node Nat}

theorem Extends.refl (s : Findings) : s.Extends s :=
  ⟨fun _ _ h => h, List.prefix_rfl, List.prefix_rfl, List.prefix_rfl⟩

theorem Extends.trans (h : s.Extends s') (h' : s'.Extends s'') : s.Extends s'' :=
  ⟨fun slot ty hs => h'.types slot ty (h.types slot ty hs), h.declared.trans h'.declared,
    h.problems.trans h'.problems, h.diagnostics.trans h'.diagnostics⟩

theorem problems_eq_iff (h : s.problems <+: s'.problems) (h' : s'.problems <+: s''.problems) :
    s''.problems = s.problems ↔ s'.problems = s.problems ∧ s''.problems = s'.problems := by
  constructor
  · intro heq
    have hle := h.length_le
    have hle' := h'.length_le
    have hlen : s''.problems.length = s.problems.length := by rw [heq]
    have hfirst : s'.problems = s.problems := (h.eq_of_length (by omega)).symm
    exact ⟨hfirst, heq.trans hfirst.symm⟩
  · rintro ⟨hfirst, hlast⟩
    exact hlast.trans hfirst

theorem Extends.problems_eq (h : s.Extends s') (h' : s'.Extends s'')
    (heq : s''.problems = s.problems) :
    s'.problems = s.problems ∧ s''.problems = s'.problems :=
  (problems_eq_iff h.problems h'.problems).mp heq

@[simp] theorem typeOf_report (s : Findings) (problem : Problem) :
    (s.report problem).typeOf = s.typeOf := rfl

@[simp] theorem typeOf_emit (s : Findings) (d : Diagnostic) : (s.emit d).typeOf = s.typeOf := rfl

@[simp] theorem typeOf_enter (s : Findings) (name : String) :
    (s.enter name).typeOf = s.typeOf := by
  unfold enter
  split <;> rfl

@[simp] theorem problems_enter (s : Findings) (name : String) :
    (s.enter name).problems = s.problems := by
  unfold enter
  split <;> rfl

@[simp] theorem diagnostics_enter (s : Findings) (name : String) :
    (s.enter name).diagnostics = s.diagnostics := by
  unfold enter
  split <;> rfl

@[simp] theorem problems_declare (s : Findings) (name : String) (ty : Ty) :
    (s.declare name ty).problems = s.problems :=
  s.problems_enter name

@[simp] theorem diagnostics_declare (s : Findings) (name : String) (ty : Ty) :
    (s.declare name ty).diagnostics = s.diagnostics :=
  s.diagnostics_enter name

theorem mem_enter {name other : String} :
    other ∈ (s.enter name).declared ↔ other ∈ s.declared ∨ other = name := by
  unfold enter
  split
  next h => exact ⟨.inl, fun hother => hother.elim id fun heq => heq ▸ h⟩
  next => simp

theorem mem_declare {name other : String} {ty : Ty} :
    other ∈ (s.declare name ty).declared ↔ other ∈ s.declared ∨ other = name :=
  mem_enter

theorem extends_enter (s : Findings) (name : String) : s.Extends (s.enter name) := by
  unfold enter
  split
  next => exact .refl s
  next => exact ⟨fun _ _ h => h, List.prefix_append _ _, List.prefix_rfl, List.prefix_rfl⟩

theorem typeOf_record (s : Findings) (slot other : Slot) (ty : Ty) :
    (s.record slot ty).typeOf other = if other = slot then some ty else s.typeOf other :=
  Table.get?_set _ _ _ _

theorem typeOf_declare (s : Findings) (name : String) (other : Slot) (ty : Ty) :
    (s.declare name ty).typeOf other =
      if other = .name name then some ty else s.typeOf other := by
  rw [declare, typeOf_record, typeOf_enter]

theorem extends_report (s : Findings) (problem : Problem) (d : Diagnostic) :
    s.Extends ((s.report problem).emit d) :=
  ⟨fun _ _ h => h, List.prefix_rfl, List.prefix_append _ _, List.prefix_append _ _⟩

theorem problems_report_ne (s : Findings) (problem : Problem) (d : Diagnostic) :
    ((s.report problem).emit d).problems ≠ s.problems := by
  simp [report, emit]

theorem Sound.report (h : s.Sound node) (problem : Problem) (d : Diagnostic) :
    ((s.report problem).emit d).Sound node :=
  ⟨h.declared, h.backed⟩

theorem Sound.declared_typed (h : s.Sound node) {name : String} (hname : name ∈ s.declared) :
    ∃ ty, s.typeOf (.name name) = some ty :=
  Option.ne_none_iff_exists'.mp ((h.declared name).mp hname)

theorem Sound.empty : ({} : Findings).Sound node := by
  refine ⟨?_, ?_⟩
  · intro name
    simp [typeOf]
  · intro number ty h
    simp [typeOf] at h

end Findings

theorem Node.Backed.mono {types types' : TypeMap} {ty : Ty} {n : Node Nat}
    (hle : ∀ slot ty, types slot = some ty → types' slot = some ty) (h : n.Backed types ty) :
    n.Backed types' ty := by
  cases n with
  | int | float => exact h
  | apply => exact ⟨h.1, h.2.1, fun e he => hle _ _ (h.2.2 e he)⟩
  | assign => exact ⟨hle _ _ h.1, hle _ _ h.2⟩
  | var | sequence | declare | print | loop => exact h

theorem Node.Backed.unique {types : TypeMap} {ty ty' : Ty} {n : Node Nat}
    (h : n.Backed types ty) (h' : n.Backed types ty') : ty = ty' := by
  cases n with
  | int | float => exact Eq.trans h (Eq.symm h')
  | apply _ _ operands =>
    obtain ⟨e, he⟩ := List.exists_mem_of_ne_nil operands h.2.1
    exact Option.some.inj ((h.2.2 e he).symm.trans (h'.2.2 e he))
  | assign => exact Option.some.inj (h.1.symm.trans h'.1)
  | var | sequence | declare | print | loop => exact h.elim

theorem Node.Accepted.mono {types types' : TypeMap} {n : Node Nat}
    (hle : ∀ slot ty, types slot = some ty → types' slot = some ty) (h : n.Accepted types) :
    n.Accepted types' := by
  cases n with
  | int | float | apply | assign =>
    obtain ⟨ty, hty, hb⟩ := h
    exact ⟨ty, hle _ _ hty, hb.mono hle⟩
  | var _ name =>
    obtain ⟨ty, hty⟩ := Option.ne_none_iff_exists'.mp h
    exact Option.ne_none_iff_exists'.mpr ⟨ty, hle _ _ hty⟩
  | sequence | print => trivial
  | declare _ _ _ value =>
    cases value with
    | none => exact hle _ _ h
    | some => exact ⟨hle _ _ h.1, hle _ _ h.2⟩
  | loop => exact hle _ _ h

namespace Findings

variable {node : Nat → Node Nat} {s s' s'' : Findings} {n : Node Nat}

theorem Sound.extends_record (h : s.Sound node) {number : Nat} {ty : Ty}
    (hb : (node number).Backed s.typeOf ty) : s.Extends (s.record (.node number) ty) := by
  refine ⟨?_, List.prefix_rfl, List.prefix_rfl, List.prefix_rfl⟩
  intro slot ty' hs
  rw [typeOf_record]
  split
  next heq =>
    subst heq
    rw [hb.unique (h.backed _ _ hs)]
  next => exact hs

theorem Sound.record (h : s.Sound node) {number : Nat} {ty : Ty}
    (hb : (node number).Backed s.typeOf ty) : (s.record (.node number) ty).Sound node := by
  have hle := (h.extends_record hb).types
  refine ⟨?_, ?_⟩
  · intro name
    rw [typeOf_record, if_neg (by simp)]
    exact h.declared name
  · intro k ty' hk
    rw [typeOf_record] at hk
    split at hk
    next heq =>
      cases heq
      cases hk
      exact hb.mono hle
    next => exact (h.backed k ty' hk).mono hle

theorem Sound.extends_declare (h : s.Sound node) {name : String} (hn : name ∉ s.declared)
    (ty : Ty) : s.Extends (s.declare name ty) := by
  have hentered := s.extends_enter name
  refine ⟨?_, hentered.declared, hentered.problems, hentered.diagnostics⟩
  intro slot ty' hs
  rw [typeOf_declare]
  split
  next heq =>
    subst heq
    exact absurd ((h.declared name).mpr (by simp [hs])) hn
  next => exact hs

theorem Sound.declare (h : s.Sound node) {name : String} (hn : name ∉ s.declared) (ty : Ty) :
    (s.declare name ty).Sound node := by
  have hle := (h.extends_declare hn ty).types
  refine ⟨?_, ?_⟩
  · intro other
    rw [typeOf_declare]
    rw [mem_declare, h.declared other]
    split
    next heq => simp [Slot.name.inj heq]
    next hne => simp [show other ≠ name from fun heq => hne (by rw [heq])]
  · intro k ty' hk
    rw [typeOf_declare, if_neg (by simp)] at hk
    exact (h.backed k ty' hk).mono hle

/-- Checking a node kept the findings in order and, unless it added a problem, accepted all nodes
in it. -/
structure Checked (node : Nat → Node Nat) (n : Node Nat) (s s' : Findings) : Prop where
  sound : s'.Sound node
  keeps : s.Extends s'
  accepted : s'.problems = s.problems → ∀ a ∈ n.subterms, a.Accepted s'.typeOf

/-- What a verdict has to do: it is right about the node itself once the nodes below are checked. -/
theorem Checked.of_children {ns : List (Node Nat)} (hns : n.children = ns)
    (hsound : s''.Sound node) (hfirst : s.Extends s') (hlast : s'.Extends s'')
    (hchildren : s'.problems = s.problems →
      ∀ c ∈ ns, ∀ a ∈ c.subterms, a.Accepted s'.typeOf)
    (hself : s''.problems = s.problems → n.Accepted s''.typeOf) : Checked node n s s'' := by
  refine ⟨hsound, hfirst.trans hlast, ?_⟩
  intro heq a ha
  obtain ⟨hfirstEq, -⟩ := hfirst.problems_eq hlast heq
  rcases Node.mem_subterms.mp ha with rfl | ⟨c, hc, ha⟩
  · exact hself heq
  · exact (hchildren hfirstEq c (hns ▸ hc) a ha).mono hlast.types

theorem Checked.leaf (hns : n.children = []) (hsound : s'.Sound node) (hkeeps : s.Extends s')
    (hself : s'.problems = s.problems → n.Accepted s'.typeOf) : Checked node n s s' :=
  .of_children hns hsound (.refl s) hkeeps (by simp) hself

end Findings

/-- While no operand was at odds with the others, all have the type that the first had. -/
def Agreement.Covers (types : TypeMap) (operands : List (Node Nat)) (seen : Agreement) : Prop :=
  (seen.ty ≠ none → operands ≠ []) ∧
    (seen.consistent = true → ∀ e ∈ operands, types e.slot ≠ none ∧ types e.slot = seen.ty)

theorem Agreement.Covers.mono {types types' : TypeMap} {operands : List (Node Nat)}
    {seen : Agreement} (hle : ∀ slot ty, types slot = some ty → types' slot = some ty)
    (h : seen.Covers types operands) : seen.Covers types' operands := by
  refine ⟨h.1, ?_⟩
  intro hc e he
  obtain ⟨hne, heq⟩ := h.2 hc e he
  obtain ⟨ty, hty⟩ := Option.ne_none_iff_exists'.mp hne
  have hty' := hle _ _ hty
  exact ⟨by simp [hty'], by rw [hty', ← heq, hty]⟩

theorem Agreement.Covers.backed {types : TypeMap} {number : Nat} {op : Operator}
    {operands : List (Node Nat)} {seen : Agreement} {ty : Ty} (h : seen.Covers types operands)
    (hty : seen.ty = some ty) (hsupports : op.supports ty = true)
    (hconsistent : seen.consistent = true) :
    (Node.apply number op operands).Backed types ty := by
  refine ⟨hsupports, h.1 (by simp [hty]), ?_⟩
  intro e he
  rw [(h.2 hconsistent e he).2, hty]

namespace Findings

variable {node : Nat → Node Nat} {s s' : Findings} {op : Operator} {operands : List (Node Nat)}

@[simp] theorem typeOf_compare (s : Findings) (op : Operator) (seen : Agreement)
    (found : Option Ty) : (s.compare op seen found).1.typeOf = s.typeOf := by
  unfold compare
  split
  next => rfl
  next =>
    split
    next => rfl
    next => split <;> rfl

theorem extends_compare (s : Findings) (op : Operator) (seen : Agreement) (found : Option Ty) :
    s.Extends (s.compare op seen found).1 := by
  unfold compare
  split
  next => exact s.extends_report _ _
  next =>
    split
    next => exact .refl s
    next =>
      split
      next => exact .refl s
      next => exact s.extends_report _ _

theorem Sound.compare (h : s.Sound node) (op : Operator) (seen : Agreement) (found : Option Ty) :
    (s.compare op seen found).1.Sound node := by
  unfold Findings.compare
  split
  next => exact h.report _ _
  next =>
    split
    next => exact h
    next =>
      split
      next => exact h
      next => exact h.report _ _

theorem consistent_compare {seen : Agreement} {found : Option Ty}
    (h : (s.compare op seen found).1.problems = s.problems) :
    (s.compare op seen found).2.consistent = seen.consistent := by
  unfold compare at h ⊢
  split
  next => exact absurd h (s.problems_report_ne _ _)
  next =>
    split
    next => rfl
    next =>
      split
      next => rfl
      next hty hne =>
        simp only [hty, if_neg hne] at h
        exact absurd h (s.problems_report_ne _ _)

theorem covers_compare (op : Operator) {seen : Agreement} (e : Node Nat)
    (h : seen.Covers s.typeOf operands) :
    (s.compare op seen (s.typeOf e.slot)).2.Covers s.typeOf (operands ++ [e]) := by
  unfold compare
  split
  next => exact ⟨by simp, by simp⟩
  next found hfound =>
    split
    next hnone =>
      refine ⟨by simp, ?_⟩
      intro hc e' he'
      rcases List.mem_append.mp he' with he' | he'
      · obtain ⟨hne, heq⟩ := h.2 hc e' he'
        exact absurd (heq.trans hnone) hne
      · cases List.mem_singleton.mp he'
        exact ⟨by simp [hfound], hfound⟩
    next first hfirst =>
      split
      next heq =>
        refine ⟨by simp, ?_⟩
        intro hc e' he'
        rcases List.mem_append.mp he' with he' | he'
        · exact h.2 hc e' he'
        · cases List.mem_singleton.mp he'
          exact ⟨by simp [hfound], by rw [hfound, hfirst, heq]⟩
      next => exact ⟨by simp, by simp⟩

theorem checkOperands_checked (op : Operator) (operands : List (Node Nat))
    {es : List (Node Nat)}
    (ih : ∀ e ∈ es, ∀ s : Findings, s.Sound node → Checked node e s (e.check s))
    (seen : Agreement) (hs : s.Sound node) (hseen : seen.Covers s.typeOf operands) :
    (Node.checkOperands op es s seen).1.Sound node ∧
      s.Extends (Node.checkOperands op es s seen).1 ∧
      (Node.checkOperands op es s seen).2.Covers (Node.checkOperands op es s seen).1.typeOf
        (operands ++ es) ∧
      ((Node.checkOperands op es s seen).1.problems = s.problems →
        (Node.checkOperands op es s seen).2.consistent = seen.consistent ∧
          ∀ e ∈ es, ∀ a ∈ e.subterms,
            a.Accepted (Node.checkOperands op es s seen).1.typeOf) := by
  induction es generalizing s seen operands with
  | nil =>
    rw [Node.checkOperands]
    exact ⟨hs, .refl s, by simpa using hseen, by simp⟩
  | cons e es ih' =>
    have he := ih e (by simp) s hs
    have hcompared := he.sound.compare op seen ((e.check s).typeOf e.slot)
    have hkept := he.keeps.trans
      (extends_compare (e.check s) op seen ((e.check s).typeOf e.slot))
    have hcovers := covers_compare op e (hseen.mono he.keeps.types)
    rw [Node.checkOperands]
    simp only
    obtain ⟨hsound, hkeeps, hcov, hclean⟩ := ih' (operands ++ [e])
      (fun e' he' => ih e' (by simp [he'])) _ hcompared (by simpa using hcovers)
    refine ⟨hsound, hkept.trans hkeeps, by simpa using hcov, ?_⟩
    intro heq
    obtain ⟨hfirst, hrest⟩ := hkept.problems_eq hkeeps heq
    obtain ⟨hcheck, hcomp⟩ := he.keeps.problems_eq (extends_compare _ op seen _) hfirst
    obtain ⟨hconsistent, haccepted⟩ := hclean hrest
    refine ⟨hconsistent.trans (consistent_compare hcomp), ?_⟩
    intro e' he' a ha
    rcases List.mem_cons.mp he' with rfl | he'
    · refine (he.accepted hcheck a ha).mono fun slot ty h => hkeeps.types slot ty ?_
      simpa using h
    · exact haccepted e' he' a ha

theorem checked_conclude {number : Nat} {seen : Agreement} {s₀ : Findings}
    (hnode : node number = .apply number op operands) (hs : s.Sound node) (hkeeps : s₀.Extends s)
    (hseen : seen.Covers s.typeOf operands)
    (hclean : s.problems = s₀.problems → seen.consistent = true ∧
      ∀ e ∈ operands, ∀ a ∈ e.subterms, a.Accepted s.typeOf) :
    Checked node (.apply number op operands) s₀ (s.conclude number op seen) := by
  unfold conclude
  split
  next =>
    refine .of_children rfl (hs.report _ _) hkeeps (s.extends_report _ _) (fun h => (hclean h).2) ?_
    intro h
    exact absurd (hkeeps.problems_eq (s.extends_report _ _) h).2 (s.problems_report_ne _ _)
  next ty hty =>
    split
    next hsupports =>
      split
      next hconsistent =>
        have hb : (Node.apply number op operands).Backed s.typeOf ty :=
          hseen.backed hty hsupports hconsistent
        have hb' : (node number).Backed s.typeOf ty := hnode ▸ hb
        have hlast := hs.extends_record hb'
        refine .of_children rfl (hs.record hb') hkeeps hlast (fun h => (hclean h).2) ?_
        intro _
        exact ⟨ty, by simp [Node.tag, typeOf_record], hb.mono hlast.types⟩
      next hconsistent =>
        refine .of_children rfl hs hkeeps (.refl s) (fun h => (hclean h).2) ?_
        intro h
        exact absurd (hclean h).1 hconsistent
    next =>
      refine .of_children rfl (hs.report _ _) hkeeps (s.extends_report _ _) (fun h => (hclean h).2) ?_
      intro h
      exact absurd (hkeeps.problems_eq (s.extends_report _ _) h).2 (s.problems_report_ne _ _)

theorem checked_use {number : Nat} {name : String} (hs : s.Sound node) :
    Checked node (.var number name) s (s.checkUse name) := by
  unfold checkUse
  split
  next => exact .leaf rfl (hs.report _ _) (s.extends_report _ _) fun h =>
    absurd h (s.problems_report_ne _ _)
  next =>
    split
    next => exact .leaf rfl (hs.report _ _) (s.extends_report _ _) fun h =>
      absurd h (s.problems_report_ne _ _)
    next htyped => exact .leaf rfl hs (.refl s) fun _ => htyped

theorem checked_target {number : Nat} {name : String} {value : Node Nat} {s₀ : Findings}
    (hnode : node number = .assign number name value) (hv : Checked node value s₀ s) :
    Checked node (.assign number name value) s₀ (s.checkTarget number name value.slot) := by
  have hbelow : s.problems = s₀.problems →
      ∀ c ∈ [value], ∀ a ∈ c.subterms, a.Accepted s.typeOf := by
    simpa using hv.accepted
  have hrefused (problem : Problem) (d : Diagnostic) :
      Checked node (.assign number name value) s₀ ((s.report problem).emit d) :=
    .of_children rfl (hv.sound.report _ _) hv.keeps (s.extends_report _ _) hbelow fun h =>
      absurd (hv.keeps.problems_eq (s.extends_report _ _) h).2 (s.problems_report_ne _ _)
  unfold checkTarget
  split
  next => exact hrefused _ _
  next hdeclared =>
    obtain ⟨ty, hty⟩ := hv.sound.declared_typed (by simpa using hdeclared)
    simp only
    split
    next => exact hrefused _ _
    next heq =>
      have hfound : s.typeOf value.slot = some ty := by
        rw [← hty]
        exact (Decidable.of_not_not heq).symm
      have hb : (Node.assign number name value).Backed s.typeOf ty := ⟨hty, hfound⟩
      have hb' : (node number).Backed s.typeOf ty := hnode ▸ hb
      have hlast := hv.sound.extends_record hb'
      rw [hty]
      refine .of_children rfl (hv.sound.record hb') hv.keeps hlast hbelow ?_
      intro _
      exact ⟨ty, by simp [Node.tag, typeOf_record], hb.mono hlast.types⟩

theorem checked_declaration {number : Nat} {ty : Ty} {name : String} (hs : s.Sound node) :
    Checked node (.declare number ty name none) s (s.checkDeclaration ty name none) := by
  unfold checkDeclaration
  split
  next => exact .leaf rfl (hs.report _ _) (s.extends_report _ _) fun h =>
    absurd h (s.problems_report_ne _ _)
  next hnew =>
    refine .leaf rfl (hs.declare hnew ty) (hs.extends_declare hnew ty) fun _ => ?_
    simp [Node.Accepted, typeOf_declare]

theorem checked_initializer {number : Nat} {ty : Ty} {name : String} {value : Node Nat}
    {s₀ : Findings} (hv : Checked node value s₀ s) :
    Checked node (.declare number ty name (some value)) s₀
      (s.checkDeclaration ty name (some value.slot)) := by
  have hbelow : s.problems = s₀.problems →
      ∀ c ∈ [value], ∀ a ∈ c.subterms, a.Accepted s.typeOf := by
    simpa using hv.accepted
  unfold checkDeclaration
  split
  next =>
    refine .of_children rfl (hv.sound.report _ _) hv.keeps (s.extends_report _ _) hbelow ?_
    intro h
    exact absurd (hv.keeps.problems_eq (s.extends_report _ _) h).2 (s.problems_report_ne _ _)
  next hnew =>
    have hdeclare := hv.sound.extends_declare hnew ty
    have hsound := hv.sound.declare hnew ty
    simp only
    split
    next hfound =>
      refine .of_children rfl hsound hv.keeps hdeclare hbelow fun _ => ?_
      exact ⟨by simp [typeOf_declare], hfound⟩
    next =>
      refine .of_children rfl (hsound.report _ _) hv.keeps (hdeclare.trans (extends_report _ _ _))
        hbelow ?_
      intro h
      have hkept := (hv.keeps.problems_eq (hdeclare.trans (extends_report _ _ _)) h).2
      rw [← problems_declare s name ty] at hkept
      exact absurd hkept (problems_report_ne _ _ _)

theorem checkCondition_keeps (hs : s.Sound node) (slot : Slot) :
    (s.checkCondition slot).Sound node ∧ s.Extends (s.checkCondition slot) ∧
      ((s.checkCondition slot).problems = s.problems → s.typeOf slot = some .int) := by
  unfold checkCondition
  simp only
  split
  next h => exact ⟨hs, .refl s, fun _ => h⟩
  next => exact ⟨hs.report _ _, s.extends_report _ _, fun h => absurd h (s.problems_report_ne _ _)⟩

theorem checkAll_checked {ns : List (Node Nat)}
    (ih : ∀ n ∈ ns, ∀ s : Findings, s.Sound node → Checked node n s (n.check s))
    (hs : s.Sound node) :
    (Node.checkAll ns s).Sound node ∧ s.Extends (Node.checkAll ns s) ∧
      ((Node.checkAll ns s).problems = s.problems →
        ∀ n ∈ ns, ∀ a ∈ n.subterms, a.Accepted (Node.checkAll ns s).typeOf) := by
  induction ns generalizing s with
  | nil =>
    rw [Node.checkAll]
    exact ⟨hs, .refl s, by simp⟩
  | cons n ns ih' =>
    have hn := ih n (by simp) s hs
    obtain ⟨hsound, hkeeps, hclean⟩ := ih' (fun n' hn' => ih n' (by simp [hn'])) hn.sound
    rw [Node.checkAll]
    refine ⟨hsound, hn.keeps.trans hkeeps, ?_⟩
    intro h
    obtain ⟨hfirst, hrest⟩ := hn.keeps.problems_eq hkeeps h
    intro n' hn' a ha
    rcases List.mem_cons.mp hn' with rfl | hn'
    · exact (hn.accepted hfirst a ha).mono hkeeps.types
    · exact hclean hrest n' hn' a ha

end Findings

/-- Checking a node, whatever has been found before. -/
theorem check_checked {node : Nat → Node Nat} (n : Node Nat) (hn : n.NumberedBy node)
    {s : Findings} (hs : s.Sound node) : Findings.Checked node n s (n.check s) := by
  induction n using Node.induction generalizing s with
  | int number k =>
    have hnode : node number = .int number k := hn _ (Node.self_mem_subterms _)
    have hb : (node number).Backed s.typeOf .int := by rw [hnode]; rfl
    rw [Node.check]
    refine .leaf rfl (hs.record hb) (hs.extends_record hb) fun _ => ?_
    exact ⟨.int, by simp [Node.tag, Findings.typeOf_record], rfl⟩
  | float number x =>
    have hnode : node number = .float number x := hn _ (Node.self_mem_subterms _)
    have hb : (node number).Backed s.typeOf .float := by rw [hnode]; rfl
    rw [Node.check]
    refine .leaf rfl (hs.record hb) (hs.extends_record hb) fun _ => ?_
    exact ⟨.float, by simp [Node.tag, Findings.typeOf_record], rfl⟩
  | var number name =>
    rw [Node.check]
    exact Findings.checked_use hs
  | apply number op operands ih =>
    rw [Node.check]
    obtain ⟨hsound, hkeeps, hcovers, hclean⟩ :=
      Findings.checkOperands_checked op [] (fun e he s hs => ih e he (hn.child he) hs)
        {} hs ⟨by simp, by simp⟩
    exact Findings.checked_conclude (hn _ (Node.self_mem_subterms _)) hsound hkeeps hcovers hclean
  | assign number name value ih =>
    rw [Node.check]
    exact Findings.checked_target (hn _ (Node.self_mem_subterms _))
      (ih (hn.child (by simp [Node.children])) hs)
  | sequence number statements ih =>
    obtain ⟨hsound, hkeeps, hclean⟩ :=
      Findings.checkAll_checked (fun n hm s hs => ih n hm (hn.child hm) hs) hs
    rw [Node.check]
    exact .of_children rfl hsound hkeeps (.refl _) hclean fun _ => trivial
  | declare number ty name value ih =>
    cases value with
    | none =>
      rw [Node.check]
      exact Findings.checked_declaration hs
    | some value =>
      rw [Node.check]
      exact Findings.checked_initializer (ih value rfl (hn.child (by simp [Node.children])) hs)
  | print number text value ih =>
    cases value with
    | none =>
      rw [Node.check]
      exact .leaf rfl hs (.refl s) fun _ => trivial
    | some value =>
      have hv := ih value rfl (hn.child (by simp [Node.children])) hs
      rw [Node.check]
      refine .of_children rfl hv.sound hv.keeps (.refl _) ?_ fun _ => trivial
      simpa [Node.children] using hv.accepted
  | loop number condition body hcondition hbody =>
    have hc := hcondition (hn.child (by simp [Node.children])) hs
    obtain ⟨hsound, hkeeps, htyped⟩ := Findings.checkCondition_keeps hc.sound condition.slot
    have hb := hbody (hn.child (by simp [Node.children])) hsound
    have hafter := hkeeps.trans hb.keeps
    rw [Node.check]
    refine ⟨hb.sound, hc.keeps.trans hafter, ?_⟩
    intro h a ha
    obtain ⟨hfirst, hrest⟩ := hc.keeps.problems_eq hafter h
    obtain ⟨hsecond, hthird⟩ := hkeeps.problems_eq hb.keeps hrest
    rcases Node.mem_subterms.mp ha with rfl | ⟨c, hmem, hsub⟩
    · exact hafter.types _ _ (htyped hsecond)
    · simp only [Node.children, List.mem_cons, List.not_mem_nil, or_false] at hmem
      rcases hmem with rfl | rfl
      · exact (hc.accepted hfirst a hsub).mono hafter.types
      · exact hb.accepted hthird a hsub

/-- In a program without problems all types fit. -/
theorem accepted_of_ok {p : Node Nat} (coherent : p.Coherent) (ok : p.findings.ok = true) :
    ∀ a ∈ p.subterms, a.Accepted p.findings.typeOf := by
  obtain ⟨node, hnode⟩ := coherent.numberedBy
  refine (check_checked p hnode Findings.Sound.empty).accepted ?_
  simpa [Findings.ok, Node.findings] using ok

end ProgramTrees
