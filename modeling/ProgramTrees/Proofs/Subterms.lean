import ProgramTrees.Tree

namespace ProgramTrees

variable {τ : Type}

theorem IsExpr.single (tag : τ) (op : Operator) {e : Node τ} (h : IsExpr e) :
    IsExpr (.apply tag op [e]) :=
  .apply tag op (List.forall_mem_singleton.mpr h)

theorem IsExpr.pair (tag : τ) (op : Operator) {l r : Node τ} (hl : IsExpr l) (hr : IsExpr r) :
    IsExpr (.apply tag op [l, r]) :=
  .apply tag op (List.forall_mem_cons.mpr ⟨hl, List.forall_mem_singleton.mpr hr⟩)

/-- Expressions and statements. -/
def Node.InPlace (n : Node τ) : Prop :=
  IsExpr n ∨ IsStmt n

namespace Node.InPlace

variable {tag : τ} {name text : String} {value condition body : Node τ}

theorem operand {op : Operator} {operands : List (Node τ)}
    (h : (Node.apply tag op operands).InPlace) : ∀ e ∈ operands, IsExpr e := by
  rcases h with h | h
  · cases h
    assumption
  · cases h

theorem assigned (h : (Node.assign tag name value).InPlace) : IsExpr value := by
  rcases h with h | h
  · cases h
    assumption
  · cases h
    assumption

theorem statement {statements : List (Node τ)} (h : (Node.sequence tag statements).InPlace) :
    ∀ s ∈ statements, IsStmt s := by
  rcases h with h | h
  · cases h
  · cases h
    assumption

theorem initializer {ty : Ty} (h : (Node.declare tag ty name (some value)).InPlace) :
    IsExpr value := by
  rcases h with h | _ | _ | ⟨_, _, _, h⟩
  · cases h
  · exact h value rfl

theorem printed (h : (Node.print tag text (some value)).InPlace) : IsExpr value := by
  rcases h with h | _ | _ | _ | ⟨_, _, h⟩
  · cases h
  · exact h value rfl

theorem loop (h : (Node.loop tag condition body).InPlace) : IsExpr condition ∧ IsStmt body := by
  rcases h with h | h
  · cases h
  · cases h
    exact ⟨by assumption, by assumption⟩

end Node.InPlace

namespace Node

def children : Node τ → List (Node τ)
  | .int .. | .float .. | .var .. => []
  | .apply _ _ operands => operands
  | .assign _ _ value => [value]
  | .sequence _ statements => statements
  | .declare _ _ _ value | .print _ _ value => value.toList
  | .loop _ condition body => [condition, body]

theorem mem_allSubterms {a : Node τ} {ns : List (Node τ)} :
    a ∈ allSubterms ns ↔ ∃ n ∈ ns, a ∈ n.subterms := by
  induction ns with
  | nil => simp [allSubterms]
  | cons n ns ih => simp [allSubterms, ih]

theorem subterms_eq_cons (n : Node τ) : n.subterms = n :: allSubterms n.children := by
  cases n with
  | declare _ _ _ value | print _ _ value =>
    cases value <;> simp [subterms, allSubterms, children]
  | _ => simp [subterms, allSubterms, children]

theorem mem_subterms {a n : Node τ} :
    a ∈ n.subterms ↔ a = n ∨ ∃ c ∈ n.children, a ∈ c.subterms := by
  rw [subterms_eq_cons, List.mem_cons, mem_allSubterms]

theorem self_mem_subterms (n : Node τ) : n ∈ n.subterms :=
  mem_subterms.mpr (.inl rfl)

theorem mem_subterms_of_child {a c n : Node τ} (hc : c ∈ n.children) (ha : a ∈ c.subterms) :
    a ∈ n.subterms :=
  mem_subterms.mpr (.inr ⟨c, hc, ha⟩)

theorem subterms_subset_of_child {c n : Node τ} {nodes : List (Node τ)}
    (hn : n.subterms ⊆ nodes) (hc : c ∈ n.children) : c.subterms ⊆ nodes :=
  fun _ ha => hn (mem_subterms_of_child hc ha)

theorem mem_names_of_child {c n : Node τ} (hc : c ∈ n.children) {name : String}
    (hname : name ∈ c.names) : name ∈ n.names := by
  obtain ⟨a, ha, hname⟩ := List.mem_filterMap.mp hname
  exact List.mem_filterMap.mpr ⟨a, mem_subterms_of_child hc ha, hname⟩

theorem children_induction {motive : Node τ → Prop}
    (step : ∀ n, (∀ c ∈ n.children, motive c) → motive n) (n : Node τ) : motive n := by
  induction n using Node.induction with
  | int | float | var => exact step _ (by simp [children])
  | apply _ _ _ ih | sequence _ _ ih => exact step _ ih
  | assign _ _ _ ih => exact step _ (by simpa [children] using ih)
  | declare _ _ _ _ ih | print _ _ _ ih => exact step _ (by simpa [children] using ih)
  | loop _ _ _ hc hb => exact step _ (by simpa [children] using ⟨hc, hb⟩)

theorem subterms_trans {a b n : Node τ} (ha : a ∈ b.subterms) (hb : b ∈ n.subterms) :
    a ∈ n.subterms := by
  induction n using children_induction with
  | step n ih =>
    rcases mem_subterms.mp hb with rfl | ⟨c, hc, hb⟩
    · exact ha
    · exact mem_subterms_of_child hc (ih c hc hb)

/-- Nodes that have the same number are the same node. -/
def Coherent (n : Node τ) : Prop :=
  ∀ a ∈ n.subterms, ∀ b ∈ n.subterms, a.tag = b.tag → a = b

end Node

end ProgramTrees
