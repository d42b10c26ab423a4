import ProgramTrees.Pipeline
import ProgramTrees.Proofs.Outcome
import ProgramTrees.Proofs.Retagging

namespace ProgramTrees

variable {τ σ : Type}

namespace Node

/-- Statements as one node: a single one is that node. -/
def block (tag : τ) : List (Node τ) → Node τ
  | [n] => n
  | ns => .sequence tag ns

mutual

/-- The statements of a node in their order, of which none is a sequence. -/
def flat : Node τ → List (Node τ)
  | .sequence _ statements => allFlat statements
  | .loop tag condition body => [.loop tag condition (block body.tag body.flat)]
  | n => [n]

def allFlat : List (Node τ) → List (Node τ)
  | [] => []
  | n :: ns => n.flat ++ allFlat ns

end

/-- The same statements without needless sequences. -/
def normal (n : Node τ) : Node τ :=
  block n.tag n.flat

section Retag

variable (f : τ → σ)

theorem block_retag (tag : τ) (ns : List (Node τ)) :
    (block tag ns).retag f = block (f tag) (ns.map (retag f)) := by
  match ns with
  | [] => rfl
  | [n] => rfl
  | a :: b :: rest =>
    rw [block, retag, allRetag_eq_map]
    · rfl
    · simp

theorem allFlat_retag {ns : List (Node τ)}
    (ih : ∀ n ∈ ns, (n.retag f).flat = n.flat.map (retag f)) :
    allFlat (allRetag f ns) = (allFlat ns).map (retag f) := by
  induction ns with
  | nil => rfl
  | cons n ns ih' =>
    obtain ⟨hn, hns⟩ := List.forall_mem_cons.mp ih
    rw [allRetag, allFlat, allFlat, hn, ih' hns, List.map_append]

theorem flat_retag (n : Node τ) : (n.retag f).flat = n.flat.map (retag f) := by
  induction n using Node.induction with
  | int | float | var | apply | assign => rfl
  | sequence _ _ ih => rw [retag, flat, flat, allFlat_retag f ih]
  | declare _ _ _ value | print _ _ value => cases value <;> rfl
  | loop _ _ _ _ hbody =>
    rw [retag, flat, flat, hbody, tag_retag, List.map_singleton, retag, block_retag]

end Retag

section Tags

theorem allSubterms_append (ns ms : List (Node τ)) :
    allSubterms (ns ++ ms) = allSubterms ns ++ allSubterms ms := by
  induction ns with
  | nil => rfl
  | cons n ns ih => rw [List.cons_append, allSubterms, allSubterms, ih, List.append_assoc]

theorem allTags_append (ns ms : List (Node τ)) : allTags (ns ++ ms) = allTags ns ++ allTags ms := by
  rw [allTags, allSubterms_append, List.map_append]
  rfl

theorem allTags_cons (n : Node τ) (ns : List (Node τ)) :
    allTags (n :: ns) = n.tags ++ allTags ns :=
  List.map_append

theorem allTags_singleton (n : Node τ) : allTags [n] = n.tags := by
  rw [allTags_cons]
  exact List.append_nil _

theorem tags_block (tag : τ) (ns : List (Node τ)) :
    List.Sublist (block tag ns).tags (tag :: allTags ns) := by
  match ns with
  | [] => exact List.Sublist.refl _
  | [n] =>
    rw [allTags_singleton]
    exact List.sublist_cons_self tag n.tags
  | a :: b :: rest => exact List.Sublist.refl _

theorem allTags_allFlat {ns : List (Node τ)} (ih : ∀ n ∈ ns, List.Sublist (allTags n.flat) n.tags) :
    List.Sublist (allTags (allFlat ns)) (allTags ns) := by
  induction ns with
  | nil => exact List.Sublist.refl _
  | cons n ns ih' =>
    obtain ⟨hn, hns⟩ := List.forall_mem_cons.mp ih
    rw [allFlat, allTags_append, allTags_cons]
    exact hn.append (ih' hns)

theorem tags_normal_sublist (n : Node τ) :
    List.Sublist (allTags n.flat) n.tags ∧ List.Sublist n.normal.tags n.tags := by
  have hsame {n n' : Node τ} (hflat : n.flat = [n']) (h : List.Sublist n'.tags n.tags) :
      List.Sublist (allTags n.flat) n.tags ∧ List.Sublist n.normal.tags n.tags := by
    rw [normal, hflat, allTags_singleton]
    exact ⟨h, h⟩
  induction n using Node.induction with
  | int | float | var | apply | assign | declare | print => exact hsame rfl (List.Sublist.refl _)
  | sequence tag statements ih =>
    have hbelow : List.Sublist (allTags (allFlat statements)) (allTags statements) :=
      allTags_allFlat fun s hs => (ih s hs).1
    exact ⟨hbelow.cons tag, (tags_block tag _).trans (hbelow.cons_cons tag)⟩
  | loop tag condition body _ hbody =>
    refine hsame rfl ?_
    have hparts (b : Node τ) : (loop tag condition b).tags = tag :: (condition.tags ++ b.tags) := by
      simp [tags, subterms, Node.tag]
    rw [hparts, hparts]
    exact (hbody.2.append_left condition.tags).cons_cons tag

end Tags

end Node

section Checking

theorem checkAll_append (ns ms : List (Node Nat)) (s : Findings) :
    Node.checkAll (ns ++ ms) s = Node.checkAll ms (Node.checkAll ns s) := by
  induction ns generalizing s with
  | nil => rfl
  | cons n ns ih => rw [List.cons_append, Node.checkAll, Node.checkAll, ih]

theorem check_block (tag : Nat) (ns : List (Node Nat)) (s : Findings) :
    (Node.block tag ns).check s = Node.checkAll ns s := by
  match ns with
  | [] => rfl
  | [n] => rfl
  | a :: b :: rest => rfl

theorem checkAll_allFlat {ns : List (Node Nat)}
    (ih : ∀ n ∈ ns, ∀ s, Node.checkAll n.flat s = n.check s) (s : Findings) :
    Node.checkAll (Node.allFlat ns) s = Node.checkAll ns s := by
  induction ns generalizing s with
  | nil => rfl
  | cons n ns ih' =>
    obtain ⟨hn, hns⟩ := List.forall_mem_cons.mp ih
    rw [Node.allFlat, checkAll_append, hn, ih' hns, Node.checkAll]

theorem checkAll_flat (n : Node Nat) (s : Findings) : Node.checkAll n.flat s = n.check s := by
  induction n using Node.induction generalizing s with
  | int | float | var | apply | assign | declare | print => rfl
  | sequence _ _ ih => rw [Node.flat, checkAll_allFlat ih, Node.check]
  | loop _ condition body _ hbody =>
    have hblock (s : Findings) : (Node.block body.tag body.flat).check s = body.check s := by
      rw [check_block, hbody]
    rw [Node.flat, Node.checkAll, Node.checkAll, Node.check, Node.check, hblock]

theorem findings_normal (p : Node Nat) : p.normal.findings = p.findings := by
  rw [Node.findings, Node.findings, Node.normal, check_block, checkAll_flat]

end Checking

section Evaluation

variable {types : TypeMap} {budget : Nat}

theorem evalAll_append (ns ms : List (Node Nat)) :
    Node.evalAll types budget (ns ++ ms) =
      Node.evalAll types budget ns >>= fun _ => Node.evalAll types budget ms := by
  induction ns with
  | nil => rw [List.nil_append, Node.evalAll, pure_bind]
  | cons n ns ih => rw [List.cons_append, Node.evalAll, Node.evalAll, ih, bind_assoc]

theorem evalAll_singleton (n : Node Nat) :
    Node.evalAll types budget [n] = n.eval types budget := by
  rw [Node.evalAll, Node.evalAll]
  exact bind_pure _

theorem eval_block (tag : Nat) (ns : List (Node Nat)) :
    (Node.block tag ns).eval types budget = Node.evalAll types budget ns := by
  match ns with
  | [] => rfl
  | [n] => rw [Node.block, evalAll_singleton]
  | a :: b :: rest => rfl

theorem evalAll_allFlat {ns : List (Node Nat)}
    (ih : ∀ n ∈ ns, Node.evalAll types budget n.flat = n.eval types budget) :
    Node.evalAll types budget (Node.allFlat ns) = Node.evalAll types budget ns := by
  induction ns with
  | nil => rfl
  | cons n ns ih' =>
    obtain ⟨hn, hns⟩ := List.forall_mem_cons.mp ih
    rw [Node.allFlat, evalAll_append, hn, ih' hns, Node.evalAll]

theorem evalAll_flat (n : Node Nat) :
    Node.evalAll types budget n.flat = n.eval types budget := by
  induction n using Node.induction with
  | int | float | var | apply | assign | declare | print => exact evalAll_singleton _
  | sequence _ _ ih => rw [Node.flat, evalAll_allFlat ih, Node.eval]
  | loop _ condition body _ hbody =>
    have hblock : (Node.block body.tag body.flat).eval types budget = body.eval types budget := by
      rw [eval_block, hbody]
    rw [Node.flat, evalAll_singleton, eval_loop, eval_loop, hblock]

theorem eval_normal (p : Node Nat) : p.normal.eval types budget = p.eval types budget := by
  rw [Node.normal, eval_block, evalAll_flat]

end Evaluation

end ProgramTrees
