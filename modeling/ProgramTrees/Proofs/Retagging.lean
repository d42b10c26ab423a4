import Mathlib.Logic.Equiv.Basic
import ProgramTrees.Proofs.Subterms
import ProgramTrees.SourceText

namespace ProgramTrees

variable {τ σ : Type}

namespace Node

mutual

/-- The same tree with the tags that a function makes of its tags. -/
def retag (f : τ → σ) : Node τ → Node σ
  | .int tag n => .int (f tag) n
  | .float tag x => .float (f tag) x
  | .var tag name => .var (f tag) name
  | .apply tag op operands => .apply (f tag) op (allRetag f operands)
  | .assign tag name value => .assign (f tag) name (value.retag f)
  | .sequence tag statements => .sequence (f tag) (allRetag f statements)
  | .declare tag ty name none => .declare (f tag) ty name none
  | .declare tag ty name (some value) => .declare (f tag) ty name (some (value.retag f))
  | .print tag text none => .print (f tag) text none
  | .print tag text (some value) => .print (f tag) text (some (value.retag f))
  | .loop tag condition body => .loop (f tag) (condition.retag f) (body.retag f)

def allRetag (f : τ → σ) : List (Node τ) → List (Node σ)
  | [] => []
  | n :: ns => n.retag f :: allRetag f ns

end

/-- The tree without its tags. -/
def bare (n : Node τ) : Program :=
  n.retag fun _ => ()

/-- The tags of the nodes of a tree, each node before those below it. -/
def tags (n : Node τ) : List τ :=
  n.subterms.map tag

def allTags (ns : List (Node τ)) : List τ :=
  (allSubterms ns).map tag

section Retag

variable (f : τ → σ)

theorem allRetag_eq_map (ns : List (Node τ)) : allRetag f ns = ns.map (retag f) := by
  induction ns with
  | nil => rfl
  | cons n ns ih => rw [allRetag, ih, List.map_cons]

@[simp] theorem tag_retag (n : Node τ) : (n.retag f).tag = f n.tag := by
  cases n with
  | declare _ _ _ value | print _ _ value => cases value <;> rfl
  | _ => rfl

@[simp] theorem kind_retag (n : Node τ) : (n.retag f).kind = n.kind := by
  cases n with
  | declare _ _ _ value | print _ _ value => cases value <;> rfl
  | _ => rfl

theorem name?_retag (n : Node τ) : (n.retag f).name? = n.name? := by
  cases n with
  | declare _ _ _ value | print _ _ value => cases value <;> rfl
  | _ => rfl

theorem allSubterms_retag {ns : List (Node τ)}
    (ih : ∀ n ∈ ns, (n.retag f).subterms = n.subterms.map (retag f)) :
    allSubterms (allRetag f ns) = (allSubterms ns).map (retag f) := by
  induction ns with
  | nil => rfl
  | cons n ns ih' =>
    obtain ⟨hn, hns⟩ := List.forall_mem_cons.mp ih
    rw [allRetag, allSubterms, allSubterms, hn, ih' hns, List.map_append]

theorem children_retag (n : Node τ) : (n.retag f).children = allRetag f n.children := by
  cases n with
  | declare _ _ _ value | print _ _ value => cases value <;> rfl
  | _ => rfl

theorem subterms_retag (n : Node τ) : (n.retag f).subterms = n.subterms.map (retag f) := by
  induction n using children_induction with
  | step n ih =>
    rw [subterms_eq_cons, subterms_eq_cons n, children_retag, allSubterms_retag f ih, List.map_cons]

theorem tags_retag (n : Node τ) : (n.retag f).tags = n.tags.map f := by
  simp [tags, subterms_retag]

theorem names_retag (n : Node τ) : (n.retag f).names = n.names := by
  have hname : name? ∘ retag f = name? := funext (name?_retag f)
  rw [names, names, subterms_retag, List.filterMap_map, hname]

theorem isExpr_retag {e : Node τ} (he : IsExpr e) : IsExpr (e.retag f) := by
  induction he with
  | int tag n => exact .int (f tag) n
  | float tag x => exact .float (f tag) x
  | var tag name => exact .var (f tag) name
  | apply tag op _ ih =>
    rw [retag, allRetag_eq_map]
    exact .apply (f tag) op (List.forall_mem_map.mpr ih)
  | assign tag name _ ih => exact .assign (f tag) name ih

theorem isStmt_retag {s : Node τ} (hs : IsStmt s) : IsStmt (s.retag f) := by
  induction hs with
  | assign tag name hvalue => exact .assign (f tag) name (isExpr_retag f hvalue)
  | sequence tag _ ih =>
    rw [retag, allRetag_eq_map]
    exact .sequence (f tag) (List.forall_mem_map.mpr ih)
  | @declare tag ty name value hvalue =>
    cases value with
    | none => exact .declare (f tag) ty name nofun
    | some value =>
      refine .declare (f tag) ty name ?_
      rintro e ⟨⟩
      exact isExpr_retag f (hvalue value rfl)
  | @print tag text value hvalue =>
    cases value with
    | none => exact .print (f tag) text nofun
    | some value =>
      refine .print (f tag) text ?_
      rintro e ⟨⟩
      exact isExpr_retag f (hvalue value rfl)
  | loop tag hcondition _ ih => exact .loop (f tag) (isExpr_retag f hcondition) ih

end Retag

section Source

variable (f : τ → σ) (style : SourceStyle)

theorem asOperand_retag (outer : Operator) (side : Side) (n : Node τ) (text : String) :
    (n.retag f).asOperand outer side text = n.asOperand outer side text := by
  cases n with
  | declare _ _ _ value | print _ _ value => cases value <;> rfl
  | _ => rfl

theorem operatorSource_retag (op : Operator) (operands : List (Node τ × String)) :
    op.source (operands.map fun (n, text) => (n.retag f, text)) = op.source operands := by
  match operands with
  | [] => rfl
  | [(n, text)] => simp only [List.map_cons, List.map_nil, Operator.source, asOperand_retag]
  | [(l, left), (r, right)] =>
    simp only [List.map_cons, List.map_nil, Operator.source, asOperand_retag]
  | (a, first) :: (b, second) :: (c, third) :: rest =>
    simp only [List.map_cons, Operator.source, List.map_map, Function.comp_def]

theorem withSources_retag {ns : List (Node τ)}
    (ih : ∀ n ∈ ns, ∀ depth, (n.retag f).source style depth = n.source style depth) (depth : Nat) :
    withSources style depth (allRetag f ns) =
      (withSources style depth ns).map fun (n, text) => (n.retag f, text) := by
  induction ns with
  | nil => rfl
  | cons n ns ih' =>
    obtain ⟨hn, hns⟩ := List.forall_mem_cons.mp ih
    rw [allRetag, withSources, withSources, hn, ih' hns, List.map_cons]

theorem lines_retag {ns : List (Node τ)}
    (ih : ∀ n ∈ ns, ∀ depth, (n.retag f).source style depth = n.source style depth) (depth : Nat) :
    lines style depth (allRetag f ns) = lines style depth ns := by
  induction ns with
  | nil => rfl
  | cons n ns ih' =>
    obtain ⟨hn, hns⟩ := List.forall_mem_cons.mp ih
    rw [allRetag, lines, lines, hn, kind_retag, ih' hns]

theorem source_retag (n : Node τ) (depth : Nat) :
    (n.retag f).source style depth = n.source style depth := by
  induction n using Node.induction generalizing depth with
  | int | float | var => rfl
  | apply _ _ _ ih =>
    rw [retag, source, source, withSources_retag f style ih, operatorSource_retag]
  | assign _ _ _ ih => rw [retag, source, source, ih]
  | sequence _ _ ih => rw [retag, source, source, lines_retag f style ih]
  | declare _ _ _ value ih | print _ _ value ih =>
    cases value with
    | none => rfl
    | some value => rw [retag, source, source, ih value rfl]
  | loop _ _ _ hcondition hbody =>
    rw [retag, source, source, hcondition, hbody, kind_retag]

end Source

section Permutation

theorem allRetag_allRetag {ρ : Type} (f : τ → σ) (g : σ → ρ) {ns : List (Node τ)}
    (ih : ∀ n ∈ ns, (n.retag f).retag g = n.retag (g ∘ f)) :
    allRetag g (allRetag f ns) = allRetag (g ∘ f) ns := by
  induction ns with
  | nil => rfl
  | cons n ns ih' =>
    obtain ⟨hn, hns⟩ := List.forall_mem_cons.mp ih
    rw [allRetag, allRetag, allRetag, hn, ih' hns]

theorem retag_retag {ρ : Type} (f : τ → σ) (g : σ → ρ) (n : Node τ) :
    (n.retag f).retag g = n.retag (g ∘ f) := by
  induction n using Node.induction with
  | int | float | var => rfl
  | apply _ _ _ ih | sequence _ _ ih => rw [retag, retag, retag, allRetag_allRetag f g ih]; rfl
  | assign _ _ _ ih => rw [retag, retag, retag, ih]; rfl
  | declare _ _ _ value ih | print _ _ value ih =>
    cases value with
    | none => rfl
    | some value => rw [retag, retag, retag, ih value rfl]; rfl
  | loop _ _ _ hcondition hbody => rw [retag, retag, retag, hcondition, hbody]; rfl

theorem bare_retag (f : τ → σ) (n : Node τ) : (n.retag f).bare = n.bare :=
  retag_retag f _ n

theorem tags_eq_cons (n : Node τ) : n.tags = n.tag :: allTags n.children := by
  rw [tags, subterms_eq_cons, List.map_cons]
  rfl

/-- The node of the same form with another tag and other nodes below it. -/
def rebuild (tag : τ) (children : List (Node τ)) : Node σ → Node τ
  | .int _ n => .int tag n
  | .float _ x => .float tag x
  | .var _ name => .var tag name
  | .apply _ op _ => .apply tag op children
  | .assign _ name _ =>
    match children with
    | [value] => .assign tag name value
    | _ => .sequence tag children
  | .sequence _ _ => .sequence tag children
  | .declare _ ty name _ => .declare tag ty name children.head?
  | .print _ text _ => .print tag text children.head?
  | .loop _ _ _ =>
    match children with
    | [condition, body] => .loop tag condition body
    | _ => .sequence tag children

theorem rebuild_bare (n : Node τ) : rebuild n.tag n.children n.bare = n := by
  cases n with
  | declare _ _ _ value | print _ _ value => cases value <;> rfl
  | _ => rfl

theorem eq_of_allRetag_eq {ns ms : List (Node τ)} {as bs : List τ}
    (ih : ∀ n ∈ ns, ∀ {m : Node τ} {as bs : List τ}, n.bare = m.bare →
      n.tags ++ as = m.tags ++ bs → n = m ∧ as = bs)
    (hbare : allRetag (fun _ => ()) ns = allRetag (fun _ => ()) ms)
    (htags : allTags ns ++ as = allTags ms ++ bs) : ns = ms ∧ as = bs := by
  induction ns generalizing ms with
  | nil =>
    cases ms with
    | nil => exact ⟨rfl, htags⟩
    | cons m ms => exact nomatch hbare
  | cons n ns ih' =>
    cases ms with
    | nil => exact nomatch hbare
    | cons m ms =>
      obtain ⟨hfirst, hrest⟩ := List.forall_mem_cons.mp ih
      obtain ⟨hn, hns⟩ := List.cons.inj hbare
      simp only [allTags, allSubterms, List.map_append, List.append_assoc] at htags
      obtain ⟨rfl, hafter⟩ := hfirst hn htags
      obtain ⟨rfl, heq⟩ := ih' hrest hns hafter
      exact ⟨rfl, heq⟩

/-- A tree is determined by its bare form and its tags. -/
theorem eq_of_bare_eq {a b : Node τ} {as bs : List τ} (hbare : a.bare = b.bare)
    (htags : a.tags ++ as = b.tags ++ bs) : a = b ∧ as = bs := by
  induction a using children_induction generalizing b as bs with
  | step a ih =>
    rw [tags_eq_cons, tags_eq_cons b, List.cons_append, List.cons_append] at htags
    obtain ⟨htag, hbelow⟩ := List.cons.inj htags
    have hchildren : allRetag (fun _ => ()) a.children = allRetag (fun _ => ()) b.children := by
      rw [← children_retag, ← children_retag]
      exact congrArg children hbare
    obtain ⟨hsame, heq⟩ := eq_of_allRetag_eq (fun c hc => ih c hc) hchildren hbelow
    refine ⟨?_, heq⟩
    rw [← rebuild_bare a, ← rebuild_bare b, htag, hsame, hbare]

end Permutation

section Numbering

theorem allTags_allNumberedFrom {ns : List (Node τ)}
    (ih : ∀ n ∈ ns, ∀ next, (n.numberedFrom next).1.tags = List.range' next n.subterms.length ∧
      (n.numberedFrom next).2 = next + n.subterms.length) (next : Nat) :
    allTags (allNumberedFrom next ns).1 = List.range' next (allSubterms ns).length ∧
      (allNumberedFrom next ns).2 = next + (allSubterms ns).length := by
  induction ns generalizing next with
  | nil => exact ⟨rfl, rfl⟩
  | cons n ns ih' =>
    obtain ⟨hn, hns⟩ := List.forall_mem_cons.mp ih
    obtain ⟨htags, hnext⟩ := hn next
    obtain ⟨hallTags, hallNext⟩ := ih' hns (n.numberedFrom next).2
    rw [allNumberedFrom, allSubterms, List.length_append]
    refine ⟨?_, by rw [hallNext, hnext, Nat.add_assoc]⟩
    rw [allTags, allSubterms, List.map_append]
    change (n.numberedFrom next).1.tags ++ allTags (allNumberedFrom _ ns).1 = _
    rw [htags, hallTags, hnext, List.range'_append_1]

theorem tags_numberedFrom (n : Node τ) (next : Nat) :
    (n.numberedFrom next).1.tags = List.range' next n.subterms.length ∧
      (n.numberedFrom next).2 = next + n.subterms.length := by
  induction n using Node.induction generalizing next with
  | int | float | var => exact ⟨rfl, rfl⟩
  | apply _ _ _ ih | sequence _ _ ih =>
    obtain ⟨htags, hnext⟩ := allTags_allNumberedFrom ih (next + 1)
    rw [numberedFrom, subterms, List.length_cons, List.range'_succ]
    exact ⟨congrArg (next :: ·) htags, by rw [hnext, Nat.add_right_comm, Nat.add_assoc]⟩
  | assign _ _ _ ih =>
    obtain ⟨htags, hnext⟩ := ih (next + 1)
    rw [numberedFrom, subterms, List.length_cons, List.range'_succ]
    exact ⟨congrArg (next :: ·) htags, by rw [hnext, Nat.add_right_comm, Nat.add_assoc]⟩
  | declare _ _ _ value ih | print _ _ value ih =>
    cases value with
    | none => exact ⟨rfl, rfl⟩
    | some value =>
      obtain ⟨htags, hnext⟩ := ih value rfl (next + 1)
      rw [numberedFrom, subterms, List.length_cons, List.range'_succ]
      exact ⟨congrArg (next :: ·) htags, by rw [hnext, Nat.add_right_comm, Nat.add_assoc]⟩
  | loop _ condition body hcondition hbody =>
    obtain ⟨hfirst, hmiddle⟩ := hcondition (next + 1)
    obtain ⟨hsecond, hlast⟩ := hbody (condition.numberedFrom (next + 1)).2
    rw [numberedFrom, subterms, List.length_cons, List.length_append, List.range'_succ]
    refine ⟨?_, by rw [hlast, hmiddle]; omega⟩
    rw [tags, subterms, List.map_cons, List.map_append]
    change next :: ((condition.numberedFrom (next + 1)).1.tags ++ (body.numberedFrom _).1.tags) = _
    rw [hfirst, hsecond, hmiddle, List.range'_append_1]

theorem tags_numbered_nodup (n : Node τ) : n.numbered.tags.Nodup := by
  rw [numbered, (tags_numberedFrom n 0).1]
  exact List.nodup_range' ..

end Numbering

end Node

theorem exists_perm_map_eq {xs ys : List Nat} (hx : xs.Nodup) (hy : ys.Nodup)
    (hlength : xs.length = ys.length) : ∃ f : Equiv.Perm Nat, xs.map f = ys := by
  induction xs generalizing ys with
  | nil =>
    obtain rfl := List.length_eq_zero_iff.mp hlength.symm
    exact ⟨.refl Nat, rfl⟩
  | cons x xs ih =>
    cases ys with
    | nil => exact nomatch hlength
    | cons y ys =>
      obtain ⟨hxs, hx⟩ := List.nodup_cons.mp hx
      obtain ⟨hys, hy⟩ := List.nodup_cons.mp hy
      obtain ⟨f, rfl⟩ := ih hx hy (Nat.succ.inj hlength)
      refine ⟨f.trans (.swap (f x) y), ?_⟩
      have hfirst : (f.trans (Equiv.swap (f x) y)) x = y := Equiv.swap_apply_left (f x) y
      have hrest : ∀ a ∈ xs, (f.trans (Equiv.swap (f x) y)) a = f a := by
        intro a ha
        refine Equiv.swap_apply_of_ne_of_ne ?_ ?_
        · rintro heq
          exact hxs (f.injective heq ▸ ha)
        · rintro rfl
          exact hys (List.mem_map_of_mem ha)
      rw [List.map_cons, hfirst, List.map_congr_left hrest]

/-- Of two trees with one bare form, each without shared nodes, the second is the first with its
tags permuted. -/
theorem Node.exists_retag_eq {a b : Node Nat} (hbare : a.bare = b.bare) (ha : a.tags.Nodup)
    (hb : b.tags.Nodup) : ∃ f : Equiv.Perm Nat, a.retag f = b := by
  have hlength : a.tags.length = b.tags.length := by
    have htags : a.bare.tags = b.bare.tags := congrArg tags hbare
    rw [bare, bare, tags_retag, tags_retag] at htags
    simpa using congrArg List.length htags
  obtain ⟨f, hf⟩ := exists_perm_map_eq ha hb hlength
  have htags : (a.retag f).tags ++ [] = b.tags ++ [] := by rw [tags_retag, hf]
  exact ⟨f, (eq_of_bare_eq ((bare_retag f a).trans hbare) htags).1⟩

end ProgramTrees
