import ProgramTrees.Proofs.ExpressionChecking

namespace ProgramTrees

variable {Γ Δ : Context} {s s' : Findings}

theorem IsExpr.fits_iff {e : Node Nat} (he : IsExpr e) : e.Fits Γ ↔ ∃ ty, HasType Γ e ty := by
  cases he <;> exact Iff.rfl

theorem Findings.Holds.again {name : String} (h : s.Holds Γ) (hname : name ∈ s.declared)
    (ty : Ty) : s.Holds (Γ ++ [(name, ty)]) := by
  have hmem := (h.declared name).mp hname
  refine ⟨?_, ?_⟩
  · intro other
    rw [h.declared, List.map_append, List.mem_append]
    constructor
    · exact .inl
    · rintro (hother | hother)
      · exact hother
      · rw [List.mem_singleton.mp hother]
        exact hmem
  · intro other
    rw [h.types, Table.get?_append]
    cases hother : Γ.get? other with
    | some ty' => rfl
    | none =>
      rw [Table.get?_eq_none] at hother
      rw [Table.get?_cons, if_neg (by rintro rfl; exact hother hmem)]
      rfl

theorem Findings.Holds.declare {name : String} (h : s.Holds Γ) (hname : name ∉ s.declared)
    (ty : Ty) : (s.declare name ty).Holds (Γ ++ [(name, ty)]) := by
  rw [h.declared, ← Table.get?_eq_none] at hname
  refine ⟨?_, ?_⟩
  · intro other
    simp [Findings.mem_declare, h.declared other]
  · intro other
    rw [Findings.typeOf_declare, h.types, Table.get?_append, Table.get?_cons]
    by_cases hother : other = name
    · simp [hother, hname]
    · simp [hother]

theorem typeOf_declare_slot {value : Node Nat} {name : String} {ty ty' : Ty}
    (hvalue : IsExpr value) (h : Recorded (value.occurrences Γ) Γ s s')
    (hname : Γ.get? name = none) (htype : HasType Γ value ty') :
    (s'.declare name ty).typeOf value.slot = some ty' := by
  rw [Findings.typeOf_declare, if_neg]
  · exact (h.typeOf_slot hvalue ty').mpr htype
  · intro heq
    cases htype with
    | var _ hty =>
      rw [Slot.name.inj heq, hname] at hty
      exact nomatch hty
    | int | float | apply | assign => exact nomatch heq

section Statements

variable {number : Nat} {name : String} {ty : Ty} {n : Node Nat}
  {below : List (Context × Node Nat)}

theorem Judged.wrap (hn : n.occurrences Γ = (Γ, n) :: below) (htype : ∀ ty, ¬ HasType Γ n ty)
    (hfits : n.Fits Γ) (hs : s.Holds Γ) (hfresh : s.typeOf (.node n.tag) = none)
    (hnumber : ∀ x ∈ below, x.2.tag ≠ n.tag) (h : Recorded below Δ s s') (h' : Silent below s s') :
    Judged n Γ Δ s s' := by
  have hown : Recorded [(Γ, n)] Γ s s := .unchanged hs rfl hfresh fun _ => htype
  have hsilent : Silent [(Γ, n)] s s := .of_fits rfl hfits
  refine ⟨hown.append h (by simp [hn]) ?_, hsilent.append h' (by simp [hn])⟩
  intro x hx y hy
  cases List.mem_singleton.mp hx
  exact hnumber y hy

theorem recorded_declaration (ty : Ty) (name : String) (hs : s.Holds Γ)
    (hfresh : s.typeOf (.node number) = none) (value : Option (Node Nat)) (slot : Option Slot) :
    Recorded [(Γ, .declare number ty name value)] (Γ ++ [(name, ty)]) s
      (s.checkDeclaration ty name slot) := by
  have htype (ty' : Ty) : ¬ HasType Γ (.declare number ty name value) ty' := nofun
  have hentry (s' : Findings) (hs' : s'.Holds (Γ ++ [(name, ty)]))
      (hnode : ∀ k, s'.typeOf (.node k) = s.typeOf (.node k)) :
      Recorded [(Γ, .declare number ty name value)] (Γ ++ [(name, ty)]) s s' := by
    refine ⟨hs', fun k _ => hnode k, ?_⟩
    intro x hx _ ty'
    cases List.mem_singleton.mp hx
    rw [hnode, Node.tag, hfresh]
    simp [htype]
  unfold Findings.checkDeclaration
  split
  next hname =>
    have hagain := hs.again hname ty
    exact hentry _ ⟨hagain.declared, hagain.types⟩ fun _ => rfl
  next hname =>
    have hdeclare := hs.declare hname ty
    have hnode (k : Nat) : (s.declare name ty).typeOf (.node k) = s.typeOf (.node k) := by
      rw [Findings.typeOf_declare, if_neg (by simp)]
    cases slot with
    | none => exact hentry _ hdeclare hnode
    | some slot =>
      dsimp only
      split
      next => exact hentry _ hdeclare hnode
      next => exact hentry _ ⟨hdeclare.declared, hdeclare.types⟩ hnode

theorem silent_declaration (hs : s.Holds Γ) :
    Silent [(Γ, .declare number ty name none)] s (s.checkDeclaration ty name none) := by
  unfold Findings.checkDeclaration
  split
  next hname =>
    refine .of_report _ _ ?_
    rintro ⟨hnone, -⟩
    rw [Table.get?_eq_none, ← hs.declared] at hnone
    exact hnone hname
  next hname =>
    refine .of_fits (s.problems_declare name ty) ⟨?_, nofun⟩
    rw [Table.get?_eq_none, ← hs.declared]
    exact hname

/-- The verdict on a declaration, once its value is settled. An expression that uses the name
before it is declared is a problem of its own, so that it does not matter that the verdict comes
after the name has its type. -/
theorem silent_initializer {value : Node Nat} (hvalue : IsExpr value)
    (h : Judged value Γ Γ s s') :
    Silent ((.declare number ty name (some value) : Node Nat).occurrences Γ) s
      (s'.checkDeclaration ty name value.slot) := by
  have hs' := h.recorded.context
  have hgrows : s'.problems <+: (s'.checkDeclaration ty name value.slot).problems := by
    unfold Findings.checkDeclaration
    split
    next => exact List.prefix_append _ _
    next =>
      dsimp only
      split
      next => simp
      next => simp [Findings.report, Findings.emit]
  refine ⟨h.silent.grows.trans hgrows, ?_⟩
  rw [Findings.problems_eq_iff h.silent.grows hgrows, h.silent.iff, Node.occurrences,
    List.forall_mem_cons, and_comm]
  refine and_congr_left fun hall => ?_
  obtain ⟨ty', htype⟩ := hvalue.fits_iff.mp (hall _ (value.self_mem_occurrences Γ))
  have hfits : (Node.declare number ty name (some value)).Fits Γ ↔
      Γ.get? name = none ∧ ty' = ty := by
    refine and_congr_right fun _ => ?_
    simp only [Option.mem_def, Option.some.injEq, forall_eq']
    exact ⟨htype.unique, fun heq => heq ▸ htype⟩
  rw [hfits, Table.get?_eq_none, ← hs'.declared]
  unfold Findings.checkDeclaration
  split
  next hname => simp [hname, Findings.problems_report_ne]
  next hname =>
    have hnew := hname
    rw [hs'.declared, ← Table.get?_eq_none] at hnew
    simp only [typeOf_declare_slot hvalue h.recorded hnew htype, Option.some.injEq]
    split
    next heq => simp [hname, heq]
    next hne => simp [hne, Findings.report, Findings.emit]

theorem judged_condition (number : Nat) {condition : Node Nat} (body : Node Nat)
    (hcondition : IsExpr condition)
    (h : Recorded (condition.occurrences Γ) Γ s s') (hfresh : s'.typeOf (.node number) = none) :
    Recorded [(Γ, .loop number condition body)] Γ s' (s'.checkCondition condition.slot) ∧
      Silent [(Γ, .loop number condition body)] s' (s'.checkCondition condition.slot) := by
  have hs' := h.context
  have htype (ty : Ty) : ¬ HasType Γ (.loop number condition body) ty := nofun
  unfold Findings.checkCondition
  dsimp only
  split
  next heq =>
    exact ⟨.unchanged hs' rfl hfresh fun _ => htype,
      .of_fits rfl ((h.typeOf_slot hcondition .int).mp heq)⟩
  next hne =>
    refine ⟨.unchanged ⟨hs'.declared, hs'.types⟩ rfl hfresh fun _ => htype, .of_report _ _ ?_⟩
    exact fun hint => hne ((h.typeOf_slot hcondition .int).mpr hint)

theorem checkAll_judged {ns : List (Node Nat)}
    (ih : ∀ n ∈ ns, ∀ {Γ : Context} {s : Findings}, s.Holds Γ → s.Fresh n.subterms →
      (n.subterms.map Node.tag).Nodup → Judged n Γ (Γ ++ n.declarations) s (n.check s))
    (hs : s.Holds Γ) (hfresh : s.Fresh (Node.allSubterms ns))
    (hnodup : ((Node.allSubterms ns).map Node.tag).Nodup) :
    Recorded (Node.allOccurrences Γ ns) (Γ ++ Node.allDeclarations ns) s (Node.checkAll ns s) ∧
      Silent (Node.allOccurrences Γ ns) s (Node.checkAll ns s) := by
  induction ns generalizing Γ s with
  | nil =>
    rw [Node.checkAll, Node.allOccurrences, Node.allDeclarations, List.append_nil]
    exact ⟨⟨hs, fun _ _ => rfl, by simp⟩, ⟨List.prefix_rfl, by simp⟩⟩
  | cons n ns ih' =>
    rw [Node.allSubterms] at hfresh hnodup
    have hsplit := hnodup
    rw [List.map_append, List.nodup_append] at hsplit
    have hn := ih n (by simp) hs (fun a ha => hfresh a (by simp [ha])) hsplit.1
    have hmem : ∀ x ∈ n.occurrences Γ, x.2 ∈ n.subterms :=
      fun x => Node.mem_subterms_of_occurrence
    rw [Node.checkAll, Node.allOccurrences, Node.allDeclarations, ← List.append_assoc]
    obtain ⟨hrecorded, hsilent⟩ := ih' (fun n' hn' => ih n' (by simp [hn'])) hn.recorded.context
      (hn.recorded.fresh hmem hnodup fun a ha => hfresh a (by simp [ha])) hsplit.2.1
    refine ⟨hn.recorded.append hrecorded (by simp) ?_, hn.silent.append hsilent (by simp)⟩
    intro x hx y hy
    exact tag_ne_of_nodup hnodup (hmem x hx) (Node.mem_allSubterms_of_occurrence hy)

end Statements

theorem judged_initialized (number : Nat) (ty : Ty) (name : String) {value : Node Nat}
    (hexpr : IsExpr value) (hs : s.Holds Γ)
    (hfresh : s.Fresh (Node.declare number ty name (some value)).subterms)
    (hnodup : ((Node.declare number ty name (some value)).subterms.map Node.tag).Nodup) :
    Judged (.declare number ty name (some value)) Γ
      (Γ ++ (Node.declare number ty name (some value)).declarations) s
      ((Node.declare number ty name (some value)).check s) := by
  rw [Node.subterms] at hfresh hnodup
  rw [List.map_cons, List.nodup_cons] at hnodup
  rw [Node.check, Node.declarations, hexpr.declarations, List.nil_append]
  have h := check_expr hexpr hs (fun a ha => hfresh a (by simp [ha])) hnodup.2
  have hnumber : ∀ x ∈ value.occurrences Γ, x.2.tag ≠ number :=
    fun x hx => tag_ne_of_not_mem hnodup.1 (Node.mem_subterms_of_occurrence hx)
  have hown := recorded_declaration ty name h.recorded.context (by
      rw [h.recorded.frame number hnumber]
      exact hfresh (.declare number ty name (some value)) (by simp)) (some value) value.slot
  refine ⟨h.recorded.append hown (by simp [Node.occurrences, or_comm]) ?_,
    silent_initializer hexpr h⟩
  intro x hx y hy
  cases List.mem_singleton.mp hy
  exact (hnumber x hx).symm

theorem judged_loop (number : Nat) {condition body : Node Nat} (hcondition : IsExpr condition)
    (hs : s.Holds Γ) (hfresh : s.Fresh (Node.loop number condition body).subterms)
    (hnodup : ((Node.loop number condition body).subterms.map Node.tag).Nodup)
    (ih : ∀ {Γ : Context} {s : Findings}, s.Holds Γ → s.Fresh body.subterms →
      (body.subterms.map Node.tag).Nodup →
        Judged body Γ (Γ ++ body.declarations) s (body.check s)) :
    Judged (.loop number condition body) Γ (Γ ++ (Node.loop number condition body).declarations) s
      ((Node.loop number condition body).check s) := by
  rw [Node.subterms] at hfresh hnodup
  rw [List.map_cons, List.nodup_cons] at hnodup
  have hsplit := hnodup.2
  rw [List.map_append, List.nodup_append] at hsplit
  rw [Node.check, Node.declarations, hcondition.declarations, List.nil_append]
  have h := check_expr hcondition hs (fun a ha => hfresh a (by simp [ha])) hsplit.1
  have hmem : ∀ x ∈ condition.occurrences Γ, x.2 ∈ condition.subterms :=
    fun x => Node.mem_subterms_of_occurrence
  have hnumber : ∀ a ∈ condition.subterms ++ body.subterms, a.tag ≠ number :=
    fun a ha => tag_ne_of_not_mem hnodup.1 ha
  obtain ⟨hown, hverdict⟩ := judged_condition number body hcondition h.recorded (by
      rw [h.recorded.frame number fun x hx => hnumber x.2 (by simp [hmem x hx])]
      exact hfresh (.loop number condition body) (by simp))
  have hfirst : Recorded (condition.occurrences Γ ++ [(Γ, .loop number condition body)]) Γ s _ :=
    h.recorded.append hown (by simp) fun x hx y hy => by
      cases List.mem_singleton.mp hy
      exact (hnumber x.2 (by simp [hmem x hx])).symm
  have hdisjoint : ∀ x ∈ condition.occurrences Γ ++ [(Γ, .loop number condition body)],
      ∀ a ∈ body.subterms, a.tag ≠ x.2.tag := by
    intro x hx a ha
    rcases List.mem_append.mp hx with hx | hx
    · exact tag_ne_of_nodup hnodup.2 (hmem x hx) ha
    · cases List.mem_singleton.mp hx
      exact hnumber a (by simp [ha])
  have hbody := ih hfirst.context (fun a ha => ?_) hsplit.2.1
  · have hall (x : Context × Node Nat) :
        x ∈ (Node.loop number condition body).occurrences Γ ↔
          x ∈ condition.occurrences Γ ++ [(Γ, .loop number condition body)] ∨
            x ∈ body.occurrences Γ := by
      simp [Node.occurrences, hcondition.declarations, or_assoc, or_left_comm]
    refine ⟨hfirst.append hbody.recorded hall fun x hx y hy => ?_,
      (h.silent.append hverdict (by simp)).append hbody.silent hall⟩
    exact hdisjoint x hx y.2 (Node.mem_subterms_of_occurrence hy)
  · rw [hfirst.frame a.tag fun x hx => (hdisjoint x hx a ha).symm]
    exact hfresh a (by simp [ha])

/-- Checking a statement settles every node in it. -/
theorem check_stmt {n : Node Nat} (hn : IsStmt n) (hs : s.Holds Γ) (hfresh : s.Fresh n.subterms)
    (hnodup : (n.subterms.map Node.tag).Nodup) :
    Judged n Γ (Γ ++ n.declarations) s (n.check s) := by
  induction hn generalizing Γ s with
  | assign number name hvalue =>
    have hassign := IsExpr.assign number name hvalue
    rw [hassign.declarations, List.append_nil]
    exact check_expr hassign hs hfresh hnodup
  | @sequence number statements _ ih =>
    rw [Node.subterms] at hfresh hnodup
    rw [List.map_cons, List.nodup_cons] at hnodup
    rw [Node.check, Node.declarations]
    obtain ⟨hrecorded, hsilent⟩ := checkAll_judged (fun n hn => ih n hn) hs
      (fun a ha => hfresh a (by simp [ha])) hnodup.2
    have htype (ty : Ty) : ¬ HasType Γ (.sequence number statements) ty := fun h => by cases h
    exact .wrap rfl htype trivial hs (hfresh (.sequence number statements) (by simp))
      (fun x hx => tag_ne_of_not_mem hnodup.1 (Node.mem_allSubterms_of_occurrence hx))
      hrecorded hsilent
  | @declare number ty name value hvalue =>
    cases value with
    | none =>
      rw [Node.check, Node.declarations]
      exact ⟨recorded_declaration ty name hs (hfresh _ (Node.self_mem_subterms _)) none none,
        silent_declaration hs⟩
    | some value => exact judged_initialized number ty name (hvalue value rfl) hs hfresh hnodup
  | @print number text value hvalue =>
    cases value with
    | none =>
      rw [Node.check, Node.declarations, List.append_nil]
      have htype (ty : Ty) : ¬ HasType Γ (.print number text none) ty := fun h => by cases h
      exact ⟨.unchanged hs rfl (hfresh _ (Node.self_mem_subterms _)) fun _ => htype,
        .of_fits rfl trivial⟩
    | some value =>
      have hexpr := hvalue value rfl
      rw [Node.subterms] at hfresh hnodup
      rw [List.map_cons, List.nodup_cons] at hnodup
      rw [Node.check, Node.declarations, hexpr.declarations, List.append_nil]
      have h := check_expr hexpr hs (fun a ha => hfresh a (by simp [ha])) hnodup.2
      have htype (ty : Ty) : ¬ HasType Γ (.print number text (some value)) ty := fun h => by cases h
      exact .wrap rfl htype trivial hs (hfresh (.print number text (some value)) (by simp))
        (fun x hx => tag_ne_of_not_mem hnodup.1 (Node.mem_subterms_of_occurrence hx))
        h.recorded h.silent
  | @loop number condition body hcondition _ ih =>
    exact judged_loop number hcondition hs hfresh hnodup ih

/-- Every node fits exactly if every expression has a type, no name is declared twice, every
initializer has the type of its declaration and every condition is an integer. -/
theorem fits_iff {p : Node Nat} (hp : IsStmt p) :
    (∀ x ∈ p.occurrences [], x.2.Fits x.1) ↔
      (∀ Γ e, (Γ, e) ∈ p.occurrences [] → e.kind.isExpression = true → ∃ ty, HasType Γ e ty) ∧
      (p.declarations.map Prod.fst).Nodup ∧
      (∀ Γ number ty name value,
        (Γ, .declare number ty name (some value)) ∈ p.occurrences [] → HasType Γ value ty) ∧
      ∀ Γ number condition body,
        (Γ, .loop number condition body) ∈ p.occurrences [] → HasType Γ condition .int := by
  have hnames : (p.declarations.map Prod.fst).Nodup ↔ DeclareNew (p.occurrences []) := by
    simpa using nodup_declarations_iff hp []
  rw [hnames]
  constructor
  · intro h
    refine ⟨?_, ?_, ?_, ?_⟩
    · intro Γ e he hkind
      have hfits := h (Γ, e) he
      cases e with
      | int | float | var | apply | assign => exact hfits
      | sequence | declare | print | loop => exact nomatch hkind
    · exact fun Γ number ty name value hmem => (h _ hmem).1
    · exact fun Γ number ty name value hmem => (h _ hmem).2 value rfl
    · exact fun Γ number condition body hmem => h _ hmem
  · rintro ⟨hexprs, hnew, hvalues, hconditions⟩ ⟨Γ, n⟩ hmem
    cases n with
    | int | float | var | apply | assign => exact hexprs Γ _ hmem rfl
    | sequence | print => trivial
    | declare number ty name value =>
      refine ⟨hnew Γ number ty name value hmem, ?_⟩
      rintro e rfl
      exact hvalues Γ number ty name e hmem
    | loop number condition body => exact hconditions Γ number condition body hmem

/-- Checking is the judgement. In a tree without shared nodes an expression other than a variable
has an entry exactly if it has a type in its context, and then that one; the names are those that
are declared, each with its first type; and there is no problem exactly if every expression has a
type, no name is declared twice, every initializer has the type of its declaration and every
condition is an integer. -/
theorem findings_are_judgements {p : Node Nat} (hp : IsStmt p)
    (unshared : (p.subterms.map Node.tag).Nodup) :
    (∀ Γ e, (Γ, e) ∈ p.occurrences [] → e.kind ≠ .var →
      ∀ ty, p.findings.typeOf (.node e.tag) = some ty ↔ HasType Γ e ty) ∧
    (∀ name, (name ∈ p.findings.declared ↔ name ∈ p.declarations.map Prod.fst) ∧
      p.findings.typeOf (.name name) = p.declarations.get? name) ∧
    (p.findings.problems = [] ↔
      (∀ Γ e, (Γ, e) ∈ p.occurrences [] → e.kind.isExpression = true → ∃ ty, HasType Γ e ty) ∧
      (p.declarations.map Prod.fst).Nodup ∧
      (∀ Γ number ty name value,
        (Γ, .declare number ty name (some value)) ∈ p.occurrences [] → HasType Γ value ty) ∧
      ∀ Γ number condition body,
        (Γ, .loop number condition body) ∈ p.occurrences [] → HasType Γ condition .int) := by
  have hempty : ({} : Findings).Holds [] :=
    ⟨fun name => by simp, fun name => by simp [Findings.typeOf]⟩
  have h := check_stmt hp hempty (fun a _ => by simp [Findings.typeOf]) unshared
  refine ⟨?_, ?_, ?_⟩
  · exact fun Γ e hmem hvar ty => h.recorded.entries (Γ, e) hmem hvar ty
  · exact fun name => ⟨h.recorded.context.declared name, h.recorded.context.types name⟩
  · rw [← fits_iff hp]
    exact h.silent.iff

/-- The name `x` is used in its own initializer, and declared once more in a loop after that, at a
type that its value does not have. -/
def earlyUse : Node Nat :=
  .sequence 0 [.declare 1 .int "x" (some (.var 2 "x")),
    .loop 3 (.var 4 "x") (.declare 5 .float "x" (some (.apply 6 .plus2
      [.var 7 "x", .assign 8 "x" (.int 9 2)])))]

theorem earlyUse_judged :
    IsStmt earlyUse ∧ (earlyUse.subterms.map Node.tag).Nodup ∧
      HasType [("x", .int)] (.apply 6 .plus2 [.var 7 "x", .assign 8 "x" (.int 9 2)] : Node Nat)
        .int ∧
      earlyUse.declarations = [("x", .int), ("x", .float)] ∧
      earlyUse.findings.typeOf (.name "x") = some .int ∧ earlyUse.findings.problems ≠ [] := by
  have hsum : IsExpr (.apply 6 .plus2 [.var 7 "x", .assign 8 "x" (.int 9 2)] : Node Nat) :=
    .pair 6 .plus2 (.var 7 "x") (.assign 8 "x" (.int 9 2))
  have hp : IsStmt earlyUse := by
    refine .sequence 0 ?_
    simp only [List.mem_cons, List.not_mem_nil, or_false, forall_eq_or_imp, forall_eq]
    refine ⟨.declare 1 .int "x" ?_, .loop 3 (.var 4 "x") (.declare 5 .float "x" ?_)⟩
    · simpa using .var 2 "x"
    · simpa using hsum
  have unshared : (earlyUse.subterms.map Node.tag).Nodup := by decide
  obtain ⟨hentries, hnames, hproblems⟩ := findings_are_judgements hp unshared
  refine ⟨hp, unshared, ?_, rfl, ?_, ?_⟩
  · exact (hentries [("x", .int)] _ (by simp [earlyUse, Node.occurrences, Node.allOccurrences,
      Node.declarations]) (by decide) .int).mp (by decide)
  · exact (hnames "x").2.trans rfl
  · rw [Ne, hproblems]
    rintro ⟨-, hnodup, -⟩
    revert hnodup
    decide

end ProgramTrees
