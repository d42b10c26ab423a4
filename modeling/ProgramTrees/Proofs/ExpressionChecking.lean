import ProgramTrees.Proofs.Judgement
import ProgramTrees.Proofs.TypeTable

namespace ProgramTrees

/-- The names of the findings are those of a context, with its types. -/
structure Findings.Holds (s : Findings) (Γ : Context) : Prop where
  declared : ∀ name, name ∈ s.declared ↔ name ∈ Γ.map Prod.fst
  types : ∀ name, s.typeOf (.name name) = Γ.get? name

def Findings.Fresh (s : Findings) (nodes : List (Node Nat)) : Prop :=
  ∀ a ∈ nodes, s.typeOf (.node a.tag) = none

/-- Between two findings the entries of these occurrences, and no others, were settled by the
judgement, and the context became `Γ`. -/
structure Recorded (occurrences : List (Context × Node Nat)) (Γ : Context) (s s' : Findings) :
    Prop where
  context : s'.Holds Γ
  frame : ∀ number, (∀ x ∈ occurrences, x.2.tag ≠ number) →
    s'.typeOf (.node number) = s.typeOf (.node number)
  entries : ∀ x ∈ occurrences, x.2.kind ≠ .var →
    ∀ ty, s'.typeOf (.node x.2.tag) = some ty ↔ HasType x.1 x.2 ty

/-- Between two findings problems were only added, and none was if these occurrences fit. -/
structure Silent (occurrences : List (Context × Node Nat)) (s s' : Findings) : Prop where
  grows : s.problems <+: s'.problems
  iff : s'.problems = s.problems ↔ ∀ x ∈ occurrences, x.2.Fits x.1

variable {Γ Δ : Context} {s s' s'' : Findings} {occurrences first second : List (Context × Node Nat)}

theorem Silent.append (h : Silent first s s') (h' : Silent second s' s'')
    (hmem : ∀ x, x ∈ occurrences ↔ x ∈ first ∨ x ∈ second) : Silent occurrences s s'' := by
  refine ⟨h.grows.trans h'.grows, ?_⟩
  rw [Findings.problems_eq_iff h.grows h'.grows, h.iff, h'.iff]
  simp only [hmem]
  constructor
  · rintro ⟨hfirst, hsecond⟩ x (hx | hx)
    · exact hfirst x hx
    · exact hsecond x hx
  · intro hall
    exact ⟨fun x hx => hall x (.inl hx), fun x hx => hall x (.inr hx)⟩

theorem Recorded.append (h : Recorded first Γ s s') (h' : Recorded second Δ s' s'')
    (hmem : ∀ x, x ∈ occurrences ↔ x ∈ first ∨ x ∈ second)
    (hdisjoint : ∀ x ∈ first, ∀ y ∈ second, y.2.tag ≠ x.2.tag) :
    Recorded occurrences Δ s s'' := by
  refine ⟨h'.context, ?_, ?_⟩
  · intro number hnumber
    rw [h'.frame number fun x hx => hnumber x ((hmem x).mpr (.inr hx)),
      h.frame number fun x hx => hnumber x ((hmem x).mpr (.inl hx))]
  · intro x hx hvar ty
    rcases (hmem x).mp hx with hx | hx
    · rw [h'.frame x.2.tag (hdisjoint x hx)]
      exact h.entries x hx hvar ty
    · exact h'.entries x hx hvar ty

theorem Recorded.of_typeOf_eq (h : Recorded first Γ s s') (hs : s''.Holds Δ)
    (htypes : s''.typeOf = s'.typeOf) : Recorded first Δ s s'' := by
  refine ⟨hs, ?_, ?_⟩
  · intro number hnumber
    rw [htypes, h.frame number hnumber]
  · intro x hx hvar ty
    rw [htypes, h.entries x hx hvar ty]

theorem tag_ne_of_nodup {as bs : List (Node Nat)} (h : ((as ++ bs).map Node.tag).Nodup)
    {a b : Node Nat} (ha : a ∈ as) (hb : b ∈ bs) : b.tag ≠ a.tag := by
  rw [List.map_append, List.nodup_append] at h
  exact (h.2.2 _ (List.mem_map_of_mem ha) _ (List.mem_map_of_mem hb)).symm

theorem tag_ne_of_not_mem {number : Nat} {as : List (Node Nat)} (h : number ∉ as.map Node.tag)
    {a : Node Nat} (ha : a ∈ as) : a.tag ≠ number := by
  rintro rfl
  exact h (List.mem_map_of_mem ha)

theorem Recorded.fresh (h : Recorded first Γ s s') {as bs : List (Node Nat)}
    (hfirst : ∀ x ∈ first, x.2 ∈ as) (hnodup : ((as ++ bs).map Node.tag).Nodup)
    (hfresh : s.Fresh bs) : s'.Fresh bs := by
  intro b hb
  rw [h.frame b.tag fun x hx => (tag_ne_of_nodup hnodup (hfirst x hx) hb).symm]
  exact hfresh b hb

theorem Recorded.unchanged {n : Node Nat} (hs : s'.Holds Δ) (htypes : s'.typeOf = s.typeOf)
    (hfresh : s.typeOf (.node n.tag) = none)
    (hn : n.kind ≠ .var → ∀ ty, ¬ HasType Γ n ty) : Recorded [(Γ, n)] Δ s s' := by
  refine ⟨hs, fun number _ => by rw [htypes], ?_⟩
  intro x hx hvar ty
  cases List.mem_singleton.mp hx
  rw [htypes, hfresh]
  simp [hn hvar ty]

theorem Recorded.record {n : Node Nat} {ty : Ty} (hs : s.Holds Γ) (h : HasType Γ n ty) :
    Recorded [(Γ, n)] Γ s (s.record (.node n.tag) ty) := by
  refine ⟨⟨hs.declared, ?_⟩, ?_, ?_⟩
  · intro name
    rw [Findings.typeOf_record, if_neg (by simp)]
    exact hs.types name
  · intro number hnumber
    rw [Findings.typeOf_record, if_neg]
    simpa using Ne.symm (hnumber (Γ, n) (by simp))
  · intro x hx _ ty'
    cases List.mem_singleton.mp hx
    rw [Findings.typeOf_record, if_pos rfl, Option.some.injEq]
    constructor
    · rintro rfl
      exact h
    · exact h.unique

theorem Silent.of_fits {n : Node Nat} (heq : s'.problems = s.problems) (h : n.Fits Γ) :
    Silent [(Γ, n)] s s' := by
  refine ⟨heq ▸ List.prefix_rfl, ?_⟩
  simp [heq, h]

theorem Silent.of_report {n : Node Nat} (problem : Problem) (d : Diagnostic) (h : ¬ n.Fits Γ) :
    Silent [(Γ, n)] s ((s.report problem).emit d) := by
  refine ⟨List.prefix_append _ _, ?_⟩
  simp [Findings.problems_report_ne, h]

theorem Recorded.typeOf_slot {e : Node Nat} (he : IsExpr e)
    (h : Recorded (e.occurrences Γ) Γ s s') (ty : Ty) :
    s'.typeOf e.slot = some ty ↔ HasType Γ e ty := by
  have hself := h.entries _ (e.self_mem_occurrences Γ)
  cases he with
  | var tag name =>
    rw [show (Node.var tag name).slot = .name name from rfl, h.context.types]
    constructor
    · exact .var tag
    · rintro (_ | _ | ⟨_, hname⟩)
      exact hname
  | int | float | apply | assign => exact hself (by simp [Node.kind]) ty

/-- Checking a node that was met in the context `Γ` settled all that is in it. -/
structure Judged (n : Node Nat) (Γ Δ : Context) (s s' : Findings) : Prop where
  recorded : Recorded (n.occurrences Γ) Δ s s'
  silent : Silent (n.occurrences Γ) s s'

theorem judged_use {number : Nat} {name : String} (hs : s.Holds Γ)
    (hfresh : s.typeOf (.node number) = none) :
    Judged (.var number name) Γ Γ s (s.checkUse name) := by
  have hfits : (Node.var number name).Fits Γ ↔ Γ.get? name ≠ none := by
    rw [Option.ne_none_iff_exists']
    constructor
    · rintro ⟨ty, _ | _ | ⟨_, h⟩⟩
      exact ⟨ty, h⟩
    · rintro ⟨ty, h⟩
      exact ⟨ty, .var number h⟩
  have hrecorded (s' : Findings) (hs' : s'.Holds Γ) (htypes : s'.typeOf = s.typeOf) :
      Recorded ((Node.var number name).occurrences Γ) Γ s s' :=
    .unchanged hs' htypes hfresh (by simp [Node.kind])
  unfold Findings.checkUse
  split
  next hname =>
    rw [hs.declared, ← Table.get?_eq_none] at hname
    exact ⟨hrecorded _ ⟨hs.declared, hs.types⟩ rfl, .of_report _ _ (by simp [hfits, hname])⟩
  next =>
    rw [hs.types]
    split
    next hname =>
      exact ⟨hrecorded _ ⟨hs.declared, hs.types⟩ rfl, .of_report _ _ (by simp [hfits, hname])⟩
    next hname => exact ⟨hrecorded s hs rfl, .of_fits rfl (hfits.mpr hname)⟩

theorem judged_target {number : Nat} {name : String} {value : Node Nat} (hvalue : IsExpr value)
    (h : Judged value Γ Γ s s') (hfresh : s'.typeOf (.node number) = none)
    (hnumber : ∀ a ∈ value.subterms, a.tag ≠ number) :
    Judged (.assign number name value) Γ Γ s (s'.checkTarget number name value.slot) := by
  have hs' := h.recorded.context
  have htype := h.recorded.typeOf_slot hvalue
  suffices hstep : Recorded [(Γ, .assign number name value)] Γ s'
        (s'.checkTarget number name value.slot) ∧
      Silent [(Γ, .assign number name value)] s' (s'.checkTarget number name value.slot) by
    refine ⟨h.recorded.append hstep.1 (fun x => ?_) ?_, h.silent.append hstep.2 fun x => ?_⟩
    · simp [Node.occurrences, or_comm]
    · intro x hx y hy
      cases List.mem_singleton.mp hy
      exact (hnumber x.2 (Node.mem_subterms_of_occurrence hx)).symm
    · simp [Node.occurrences, or_comm]
  have hiff (ty : Ty) : HasType Γ (.assign number name value) ty ↔
      Γ.get? name = some ty ∧ HasType Γ value ty := by
    constructor
    · rintro (_ | _ | _ | _ | ⟨_, hname, hv⟩)
      exact ⟨hname, hv⟩
    · rintro ⟨hname, hv⟩
      exact .assign number hname hv
  have hreport (problem : Problem) (d : Diagnostic)
      (hnone : ∀ ty, ¬ HasType Γ (.assign number name value) ty) :
      Recorded [(Γ, .assign number name value)] Γ s' ((s'.report problem).emit d) ∧
        Silent [(Γ, .assign number name value)] s' ((s'.report problem).emit d) :=
    ⟨.unchanged ⟨hs'.declared, hs'.types⟩ rfl hfresh fun _ => hnone,
      .of_report problem d (by rintro ⟨ty, hty⟩; exact hnone ty hty)⟩
  unfold Findings.checkTarget
  split
  next hname =>
    rw [hs'.declared, ← Table.get?_eq_none] at hname
    exact hreport _ _ (by simp [hiff, hname])
  next hname =>
    rw [hs'.declared, ← Table.get?_eq_none] at hname
    obtain ⟨ty, hty⟩ := Option.ne_none_iff_exists'.mp hname
    simp only [hs'.types, hty, Option.elim_some]
    split
    next hne =>
      refine hreport _ _ fun ty' h' => hne ?_
      obtain ⟨hname', hv⟩ := (hiff ty').mp h'
      rw [(htype ty').mpr hv, ← hty, hname']
    next heq =>
      have hassign := (hiff ty).mpr ⟨hty, (htype ty).mp (Decidable.of_not_not heq).symm⟩
      exact ⟨.record hs' hassign, .of_fits rfl ⟨ty, hassign⟩⟩

/-- What is known of operands that have been seen: the type of one of them if any has one, and
whether all have it. -/
structure Agreement.Sums (Γ : Context) (operands : List (Node Nat)) (seen : Agreement) : Prop where
  typed : ∀ ty, seen.ty = some ty → ∃ e ∈ operands, HasType Γ e ty
  untyped : seen.ty = none → ∀ e ∈ operands, ∀ ty, ¬ HasType Γ e ty
  all : seen.consistent = true ↔ ∀ e ∈ operands, ∃ ty, seen.ty = some ty ∧ HasType Γ e ty

section Operands

variable {op : Operator} {seen : Agreement} {operands : List (Node Nat)} {e : Node Nat}
variable {found : Option Ty}

theorem Agreement.Sums.empty : ({} : Agreement).Sums Γ [] :=
  ⟨by simp, by simp, by simp⟩

theorem sums_compare (s : Findings) (op : Operator) (h : seen.Sums Γ operands)
    (hfound : ∀ ty, found = some ty ↔ HasType Γ e ty) :
    (s.compare op seen found).2.Sums Γ (operands ++ [e]) := by
  unfold Findings.compare
  cases found with
  | none =>
    have he (ty : Ty) : ¬ HasType Γ e ty := by simp [← hfound]
    refine ⟨?_, ?_, by simp [he]⟩
    · intro ty hty
      obtain ⟨a, ha, hat⟩ := h.typed ty hty
      exact ⟨a, by simp [ha], hat⟩
    · intro hnone a ha ty
      rcases List.mem_append.mp ha with ha | ha
      · exact h.untyped hnone a ha ty
      · cases List.mem_singleton.mp ha
        exact he ty
  | some new =>
    have he : HasType Γ e new := (hfound new).mp rfl
    dsimp only
    split
    next hnone =>
      refine ⟨fun ty hty => ⟨e, by simp, by cases hty; exact he⟩, by simp, ?_⟩
      rw [h.all]
      simp only [hnone, reduceCtorEq, false_and, exists_false, List.mem_append, List.mem_singleton,
        Option.some.injEq, exists_eq_left']
      constructor
      · rintro hall a (ha | rfl)
        · exact (hall a ha).elim
        · exact he
      · intro hall a ha
        exact h.untyped hnone a ha new (hall a (.inl ha))
    next first hfirst =>
      obtain ⟨a, ha, hat⟩ := h.typed first hfirst
      split
      next heq =>
        subst heq
        refine ⟨fun ty hty => ?_, by simp [hfirst], ?_⟩
        · obtain ⟨b, hb, hbt⟩ := h.typed ty hty
          exact ⟨b, by simp [hb], hbt⟩
        · rw [h.all]
          simp only [hfirst, Option.some.injEq, exists_eq_left', List.mem_append,
            List.mem_singleton]
          constructor
          · rintro hall b (hb | rfl)
            · exact hall b hb
            · exact he
          · exact fun hall b hb => hall b (.inl hb)
      next hne =>
        refine ⟨fun ty hty => ?_, by simp [hfirst], ?_⟩
        · obtain ⟨b, hb, hbt⟩ := h.typed ty hty
          exact ⟨b, by simp [hb], hbt⟩
        · simp only [hfirst, Option.some.injEq, exists_eq_left', Bool.false_eq_true, false_iff]
          exact fun hall => hne (he.unique (hall e (by simp)))

theorem compare_consistent_iff :
    (s.compare op seen found).2.consistent = true ↔
      (s.compare op seen found).1.problems = s.problems ∧ seen.consistent = true := by
  unfold Findings.compare
  split
  next => simp [Findings.problems_report_ne]
  next =>
    split
    next => simp
    next =>
      split
      next => simp
      next => simp [Findings.problems_report_ne]

theorem Findings.Holds.compare (h : s.Holds Γ) (op : Operator) (seen : Agreement)
    (found : Option Ty) : (s.compare op seen found).1.Holds Γ := by
  refine ⟨?_, by simpa using h.types⟩
  unfold Findings.compare
  split
  next => exact h.declared
  next =>
    split
    next => exact h.declared
    next => split <;> exact h.declared

theorem checkOperands_judged (op : Operator) {es : List (Node Nat)} (hes : ∀ e ∈ es, IsExpr e)
    (ih : ∀ e ∈ es, ∀ s : Findings, s.Holds Γ → s.Fresh e.subterms →
      (e.subterms.map Node.tag).Nodup → Judged e Γ Γ s (e.check s))
    (hs : s.Holds Γ) (hfresh : s.Fresh (Node.allSubterms es))
    (hnodup : ((Node.allSubterms es).map Node.tag).Nodup) (hseen : seen.Sums Γ operands) :
    Recorded (Node.allOccurrences Γ es) Γ s (Node.checkOperands op es s seen).1 ∧
      (Node.checkOperands op es s seen).2.Sums Γ (operands ++ es) ∧
      s.problems <+: (Node.checkOperands op es s seen).1.problems ∧
      ((Node.checkOperands op es s seen).1.problems = s.problems ∧ seen.consistent = true ↔
        (∀ x ∈ Node.allOccurrences Γ es, x.2.Fits x.1) ∧
          (Node.checkOperands op es s seen).2.consistent = true) := by
  induction es generalizing s seen operands with
  | nil =>
    rw [Node.checkOperands, Node.allOccurrences]
    refine ⟨⟨hs, fun _ _ => rfl, by simp⟩, by simpa using hseen, List.prefix_rfl, by simp⟩
  | cons e es ih' =>
    rw [Node.allSubterms] at hfresh hnodup
    have hsplit := hnodup
    rw [List.map_append, List.nodup_append] at hsplit
    have he := ih e (by simp) s hs (fun a ha => hfresh a (by simp [ha])) hsplit.1
    have hes' : ∀ x ∈ e.occurrences Γ, x.2 ∈ e.subterms :=
      fun x => Node.mem_subterms_of_occurrence
    have hcompared := he.recorded.context.compare op seen ((e.check s).typeOf e.slot)
    have hstep := he.recorded.of_typeOf_eq hcompared (Findings.typeOf_compare _ _ _ _)
    have hsums := sums_compare (e.check s) op hseen (he.recorded.typeOf_slot (hes e (by simp)))
    have hgrows := (Findings.extends_compare (e.check s) op seen
      ((e.check s).typeOf e.slot)).problems
    rw [Node.checkOperands, Node.allOccurrences, (hes e (by simp)).declarations, List.append_nil]
    dsimp only
    obtain ⟨hrecorded, hsums, hlast, hsilent⟩ :=
      ih' (fun e' he' => hes e' (by simp [he'])) (fun e' he' => ih e' (by simp [he'])) hcompared
        (hstep.fresh hes' hnodup fun a ha => hfresh a (by simp [ha])) hsplit.2.1 hsums
    refine ⟨hstep.append hrecorded (by simp) ?_, by simpa using hsums,
      (he.silent.grows.trans hgrows).trans hlast, ?_⟩
    · intro x hx y hy
      exact tag_ne_of_nodup hnodup (hes' x hx) (Node.mem_allSubterms_of_occurrence hy)
    · rw [Findings.problems_eq_iff (he.silent.grows.trans hgrows) hlast,
        Findings.problems_eq_iff he.silent.grows hgrows, he.silent.iff]
      rw [compare_consistent_iff] at hsilent
      simp only [List.mem_append, or_imp, forall_and]
      grind

end Operands

theorem Agreement.Sums.agree_iff {seen : Agreement} {operands : List (Node Nat)}
    (h : seen.Sums Γ operands) (ty : Ty) :
    seen.ty = some ty ∧ seen.consistent = true ↔
      operands ≠ [] ∧ ∀ e ∈ operands, HasType Γ e ty := by
  constructor
  · rintro ⟨hty, hall⟩
    obtain ⟨e, he, -⟩ := h.typed ty hty
    refine ⟨List.ne_nil_of_mem he, fun a ha => ?_⟩
    obtain ⟨ty', hty', hat⟩ := h.all.mp hall a ha
    obtain rfl := Option.some.inj (hty.symm.trans hty')
    exact hat
  · rintro ⟨hne, hall⟩
    obtain ⟨e, he⟩ := List.exists_mem_of_ne_nil operands hne
    have hty : seen.ty = some ty := by
      cases hseen : seen.ty with
      | none => exact absurd (hall e he) (h.untyped hseen e he ty)
      | some ty' =>
        obtain ⟨a, ha, hat⟩ := h.typed ty' hseen
        rw [hat.unique (hall a ha)]
    exact ⟨hty, h.all.mpr fun a ha => ⟨ty, hty, hall a ha⟩⟩

theorem hasType_apply_iff {number : Nat} {op : Operator} {operands : List (Node Nat)} {ty : Ty} :
    HasType Γ (.apply number op operands) ty ↔
      (operands ≠ [] ∧ ∀ e ∈ operands, HasType Γ e ty) ∧ op.supports ty = true := by
  constructor
  · rintro (_ | _ | _ | ⟨_, hne, hall, hsupports⟩)
    exact ⟨⟨hne, hall⟩, hsupports⟩
  · rintro ⟨⟨hne, hall⟩, hsupports⟩
    exact .apply number hne hall hsupports

/-- The verdict on an operation records its type, and it is a problem to have none, unless an
operand was one before. -/
theorem conclude_judged (number : Nat) (op : Operator) {operands : List (Node Nat)}
    {seen : Agreement} (hs : s.Holds Γ) (hseen : seen.Sums Γ operands)
    (hfresh : s.typeOf (.node number) = none) :
    Recorded [(Γ, .apply number op operands)] Γ s (s.conclude number op seen) ∧
      s.problems <+: (s.conclude number op seen).problems ∧
      ((s.conclude number op seen).problems = s.problems ∧ seen.consistent = true ↔
        (Node.apply number op operands).Fits Γ) := by
  have htype (ty : Ty) : HasType Γ (.apply number op operands) ty ↔
      (seen.ty = some ty ∧ seen.consistent = true) ∧ op.supports ty = true := by
    rw [hasType_apply_iff, hseen.agree_iff]
  have hfits : (Node.apply number op operands).Fits Γ ↔
      ∃ ty, (seen.ty = some ty ∧ seen.consistent = true) ∧ op.supports ty = true :=
    exists_congr htype
  unfold Findings.conclude
  split
  next hnone =>
    refine ⟨.unchanged ⟨hs.declared, hs.types⟩ rfl hfresh fun _ ty => by simp [htype, hnone],
      List.prefix_append _ _, ?_⟩
    simp [hfits, hnone, Findings.problems_report_ne]
  next ty hty =>
    split
    next hsupports =>
      split
      next hall =>
        exact ⟨.record hs ((htype ty).mpr ⟨⟨hty, hall⟩, hsupports⟩), List.prefix_rfl,
          by simp [hfits, hty, hall, hsupports, Findings.record]⟩
      next hall =>
        exact ⟨.unchanged hs rfl hfresh fun _ ty' => by simp [htype, hall], List.prefix_rfl,
          by simp [hfits, hall]⟩
    next hsupports =>
      refine ⟨.unchanged ⟨hs.declared, hs.types⟩ rfl hfresh fun _ ty' => ?_,
        List.prefix_append _ _, ?_⟩
      · rw [htype]
        rintro ⟨⟨hty', -⟩, hsupports'⟩
        obtain rfl := Option.some.inj (hty.symm.trans hty')
        exact hsupports hsupports'
      · simp [hfits, hty, hsupports, Findings.problems_report_ne]

/-- Checking an expression settles every node in it. -/
theorem check_expr {e : Node Nat} (he : IsExpr e) (hs : s.Holds Γ) (hfresh : s.Fresh e.subterms)
    (hnodup : (e.subterms.map Node.tag).Nodup) : Judged e Γ Γ s (e.check s) := by
  induction he generalizing s with
  | int number n =>
    rw [Node.check]
    exact ⟨.record hs (.int number n), .of_fits rfl ⟨.int, .int number n⟩⟩
  | float number x =>
    rw [Node.check]
    exact ⟨.record hs (.float number x), .of_fits rfl ⟨.float, .float number x⟩⟩
  | var number name =>
    rw [Node.check]
    exact judged_use hs (hfresh _ (Node.self_mem_subterms _))
  | @apply number op operands hoperands ih =>
    rw [Node.subterms] at hfresh hnodup
    rw [List.map_cons, List.nodup_cons] at hnodup
    rw [Node.check]
    obtain ⟨hrecorded, hsums, hgrows, hsilent⟩ := checkOperands_judged op hoperands
      (fun e he s => ih e he) hs (fun a ha => hfresh a (by simp [ha])) hnodup.2 .empty
    have hbelow : ∀ x ∈ Node.allOccurrences Γ operands, x.2.tag ≠ number :=
      fun x hx => tag_ne_of_not_mem hnodup.1 (Node.mem_allSubterms_of_occurrence hx)
    obtain ⟨hown, hlast, hverdict⟩ := conclude_judged number op
      hrecorded.context hsums (by
        rw [hrecorded.frame number hbelow]
        exact hfresh (.apply number op operands) (by simp))
    refine ⟨hrecorded.append hown (by simp [Node.occurrences, or_comm]) ?_,
      hgrows.trans hlast, ?_⟩
    · intro x hx y hy
      cases List.mem_singleton.mp hy
      exact (hbelow x hx).symm
    · rw [Findings.problems_eq_iff hgrows hlast, Node.occurrences, List.forall_mem_cons]
      simp only [and_true] at hsilent
      constructor
      · rintro ⟨hfirst, hown⟩
        obtain ⟨hall, hconsistent⟩ := hsilent.mp hfirst
        exact ⟨hverdict.mp ⟨hown, hconsistent⟩, hall⟩
      · rintro ⟨hfits, hall⟩
        obtain ⟨hown, hconsistent⟩ := hverdict.mpr hfits
        exact ⟨hsilent.mpr ⟨hall, hconsistent⟩, hown⟩
  | @assign number name value hvalue ih =>
    rw [Node.subterms] at hfresh hnodup
    rw [List.map_cons, List.nodup_cons] at hnodup
    rw [Node.check]
    have h := ih hs (fun a ha => hfresh a (by simp [ha])) hnodup.2
    have hnumber : ∀ a ∈ value.subterms, a.tag ≠ number :=
      fun a ha => tag_ne_of_not_mem hnodup.1 ha
    refine judged_target hvalue h ?_ hnumber
    rw [h.recorded.frame number fun x hx => hnumber x.2 (Node.mem_subterms_of_occurrence hx)]
    exact hfresh (.assign number name value) (by simp)

end ProgramTrees
