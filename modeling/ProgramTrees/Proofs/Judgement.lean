import ProgramTrees.Proofs.Subterms
import ProgramTrees.Table

namespace ProgramTrees

variable {τ : Type}

/-- Declarations in the order in which they are met. A name has the type of the first that
declares it. -/
abbrev Context := Table String Ty

namespace Node

mutual

/-- The declarations in a tree, each after those in its initializer. -/
def declarations : Node τ → Context
  | .int .. | .float .. | .var .. => []
  | .apply _ _ operands => allDeclarations operands
  | .assign _ _ value => value.declarations
  | .sequence _ statements => allDeclarations statements
  | .declare _ ty name none => [(name, ty)]
  | .declare _ ty name (some value) => value.declarations ++ [(name, ty)]
  | .print _ _ none => []
  | .print _ _ (some value) => value.declarations
  | .loop _ condition body => condition.declarations ++ body.declarations

def allDeclarations : List (Node τ) → Context
  | [] => []
  | n :: ns => n.declarations ++ allDeclarations ns

end

mutual

/-- The nodes of a tree that is met in a context, each in its own context. -/
def occurrences (Γ : Context) : Node τ → List (Context × Node τ)
  | .int tag n => [(Γ, .int tag n)]
  | .float tag x => [(Γ, .float tag x)]
  | .var tag name => [(Γ, .var tag name)]
  | .apply tag op operands => (Γ, .apply tag op operands) :: allOccurrences Γ operands
  | .assign tag name value => (Γ, .assign tag name value) :: value.occurrences Γ
  | .sequence tag statements => (Γ, .sequence tag statements) :: allOccurrences Γ statements
  | .declare tag ty name none => [(Γ, .declare tag ty name none)]
  | .declare tag ty name (some value) =>
    (Γ, .declare tag ty name (some value)) :: value.occurrences Γ
  | .print tag text none => [(Γ, .print tag text none)]
  | .print tag text (some value) => (Γ, .print tag text (some value)) :: value.occurrences Γ
  | .loop tag condition body =>
    (Γ, .loop tag condition body) ::
      (condition.occurrences Γ ++ body.occurrences (Γ ++ condition.declarations))

def allOccurrences (Γ : Context) : List (Node τ) → List (Context × Node τ)
  | [] => []
  | n :: ns => n.occurrences Γ ++ allOccurrences (Γ ++ n.declarations) ns

end

theorem allOccurrences_snd {ns : List (Node τ)}
    (ih : ∀ n ∈ ns, ∀ Γ, (n.occurrences Γ).map Prod.snd = n.subterms) (Γ : Context) :
    (allOccurrences Γ ns).map Prod.snd = allSubterms ns := by
  induction ns generalizing Γ with
  | nil => rfl
  | cons n ns ih' =>
    rw [allOccurrences, allSubterms, List.map_append, ih n (by simp),
      ih' (fun n' hn' => ih n' (by simp [hn']))]

theorem occurrences_snd (n : Node τ) (Γ : Context) :
    (n.occurrences Γ).map Prod.snd = n.subterms := by
  induction n using Node.induction generalizing Γ with
  | int | float | var => rfl
  | apply _ _ _ ih | sequence _ _ ih =>
    rw [occurrences, subterms, List.map_cons, allOccurrences_snd ih]
  | assign _ _ _ ih => rw [occurrences, subterms, List.map_cons, ih]
  | declare _ _ _ value ih | print _ _ value ih =>
    cases value with
    | none => rfl
    | some value => rw [occurrences, subterms, List.map_cons, ih value rfl]
  | loop _ _ _ hcondition hbody =>
    rw [occurrences, subterms, List.map_cons, List.map_append, hcondition, hbody]

theorem mem_subterms_of_occurrence {n : Node τ} {Γ : Context} {x : Context × Node τ}
    (h : x ∈ n.occurrences Γ) : x.2 ∈ n.subterms :=
  n.occurrences_snd Γ ▸ List.mem_map_of_mem h

theorem mem_allSubterms_of_occurrence {ns : List (Node τ)} {Γ : Context}
    {x : Context × Node τ} (h : x ∈ allOccurrences Γ ns) : x.2 ∈ allSubterms ns :=
  allOccurrences_snd (fun n _ => n.occurrences_snd) Γ ▸ List.mem_map_of_mem h

theorem self_mem_occurrences (n : Node τ) (Γ : Context) : (Γ, n) ∈ n.occurrences Γ := by
  cases n with
  | declare _ _ _ value | print _ _ value => cases value <;> simp [occurrences]
  | _ => simp [occurrences]

theorem allDeclarations_eq_nil {ns : List (Node τ)} (h : ∀ n ∈ ns, n.declarations = []) :
    allDeclarations ns = [] := by
  induction ns with
  | nil => rfl
  | cons n ns ih =>
    rw [allDeclarations, h n (by simp), ih fun n' hn' => h n' (by simp [hn'])]
    rfl

end Node

theorem IsExpr.declarations {e : Node τ} (he : IsExpr e) : e.declarations = [] := by
  induction he with
  | int | float | var => rfl
  | apply _ _ _ ih => exact Node.allDeclarations_eq_nil ih
  | assign _ _ _ ih => exact ih

inductive HasType (Γ : Context) : Node τ → Ty → Prop where
  | int (tag : τ) (n : Int32) : HasType Γ (.int tag n) .int
  | float (tag : τ) (x : Double) : HasType Γ (.float tag x) .float
  | var (tag : τ) {name : String} {ty : Ty} : Γ.get? name = some ty → HasType Γ (.var tag name) ty
  | apply (tag : τ) {op : Operator} {operands : List (Node τ)} {ty : Ty} : operands ≠ [] →
      (∀ e ∈ operands, HasType Γ e ty) → op.supports ty = true →
      HasType Γ (.apply tag op operands) ty
  | assign (tag : τ) {name : String} {value : Node τ} {ty : Ty} : Γ.get? name = some ty →
      HasType Γ value ty → HasType Γ (.assign tag name value) ty

theorem HasType.unique {Γ : Context} {e : Node τ} {ty ty' : Ty} (h : HasType Γ e ty)
    (h' : HasType Γ e ty') : ty = ty' := by
  induction h with
  | int | float => cases h'; rfl
  | var _ hname =>
    cases h' with
    | var _ hname' => exact Option.some.inj (hname.symm.trans hname')
  | @apply _ _ operands _ hne _ _ ih =>
    cases h' with
    | apply _ _ hoperands' =>
      obtain ⟨e, he⟩ := List.exists_mem_of_ne_nil operands hne
      exact ih e he (hoperands' e he)
  | assign _ hname =>
    cases h' with
    | assign _ hname' => exact Option.some.inj (hname.symm.trans hname')

/-- What the rules ask of a node in its context: of an expression that it has a type, of a
declaration that its name is new and that its value has its type, of a loop that its condition is
an integer. -/
def Node.Fits (Γ : Context) : Node τ → Prop
  | .sequence .. | .print .. => True
  | .declare _ ty name value => Γ.get? name = none ∧ ∀ e ∈ value, HasType Γ e ty
  | .loop _ condition _ => HasType Γ condition .int
  | e => ∃ ty, HasType Γ e ty

/-- Every declaration among these occurrences declares a name that is new in its context. -/
def DeclareNew (occurrences : List (Context × Node τ)) : Prop :=
  ∀ Γ tag ty name value, (Γ, .declare tag ty name value) ∈ occurrences → Γ.get? name = none

section Names

variable {Γ : Context} {first second : List (Context × Node τ)} {n e : Node τ}

theorem declareNew_append :
    DeclareNew (first ++ second) ↔ DeclareNew first ∧ DeclareNew second := by
  simp only [DeclareNew, List.mem_append, or_imp, forall_and]

theorem declareNew_cons_of_ne (hn : n.kind ≠ .declaration) :
    DeclareNew ((Γ, n) :: second) ↔ DeclareNew second := by
  constructor
  · intro h Δ tag ty name value hmem
    exact h Δ tag ty name value (List.mem_cons_of_mem _ hmem)
  · intro h Δ tag ty name value hmem
    rcases List.mem_cons.mp hmem with heq | hmem
    · cases heq
      exact absurd rfl hn
    · exact h Δ tag ty name value hmem

theorem IsExpr.declareNew (he : IsExpr e) (Γ : Context) : DeclareNew (e.occurrences Γ) := by
  intro Δ tag ty name value hmem
  have hsub : Node.declare tag ty name value ∈ e.subterms :=
    Node.mem_subterms_of_occurrence hmem
  clear hmem
  exfalso
  induction he with
  | int | float | var => simp [Node.subterms] at hsub
  | apply _ _ _ ih =>
    simp only [Node.subterms, List.mem_cons, reduceCtorEq, false_or,
      Node.mem_allSubterms] at hsub
    obtain ⟨a, ha, hsub⟩ := hsub
    exact ih a ha hsub
  | assign _ _ _ ih =>
    simp only [Node.subterms, List.mem_cons, reduceCtorEq, false_or] at hsub
    exact ih hsub

theorem nodup_declare_iff {name : String} {ty : Ty} :
    ((Γ ++ [(name, ty)]).map Prod.fst).Nodup ↔
      (Γ.map Prod.fst).Nodup ∧ Γ.get? name = none := by
  rw [List.map_append, List.nodup_append, Table.get?_eq_none]
  refine and_congr_right fun _ => ?_
  constructor
  · rintro ⟨-, hne⟩ hmem
    exact hne name hmem name (by simp) rfl
  · refine fun hmem => ⟨by simp, ?_⟩
    rintro a ha _ hb rfl
    obtain rfl : a = name := List.mem_singleton.mp hb
    exact hmem ha

theorem nodup_allDeclarations_iff {ns : List (Node τ)}
    (ih : ∀ n ∈ ns, ∀ Γ : Context, ((Γ ++ n.declarations).map Prod.fst).Nodup ↔
      (Γ.map Prod.fst).Nodup ∧ DeclareNew (n.occurrences Γ)) (Γ : Context) :
    ((Γ ++ Node.allDeclarations ns).map Prod.fst).Nodup ↔
      (Γ.map Prod.fst).Nodup ∧ DeclareNew (Node.allOccurrences Γ ns) := by
  induction ns generalizing Γ with
  | nil => simp [Node.allDeclarations, Node.allOccurrences, DeclareNew]
  | cons n ns ih' =>
    rw [Node.allDeclarations, Node.allOccurrences, ← List.append_assoc,
      ih' fun n' hn' => ih n' (by simp [hn']), ih n (by simp), declareNew_append, and_assoc]

/-- No name is declared twice exactly if each declaration declares a new one. -/
theorem nodup_declarations_iff (hn : IsStmt n) (Γ : Context) :
    ((Γ ++ n.declarations).map Prod.fst).Nodup ↔
      (Γ.map Prod.fst).Nodup ∧ DeclareNew (n.occurrences Γ) := by
  induction hn generalizing Γ with
  | assign tag name hvalue =>
    have hassign := IsExpr.assign tag name hvalue
    rw [hassign.declarations, List.append_nil, and_iff_left (hassign.declareNew Γ)]
  | sequence tag _ ih =>
    rw [Node.declarations, Node.occurrences, declareNew_cons_of_ne (by simp [Node.kind]),
      nodup_allDeclarations_iff ih]
  | @declare tag ty name value hvalue =>
    have hself (below : List (Context × Node τ)) (hbelow : DeclareNew below) :
        DeclareNew ((Γ, .declare tag ty name value) :: below) ↔ Γ.get? name = none := by
      constructor
      · intro h
        exact h Γ tag ty name value (by simp)
      · intro h Δ tag' ty' name' value' hmem
        rcases List.mem_cons.mp hmem with heq | hmem
        · cases heq
          exact h
        · exact hbelow Δ tag' ty' name' value' hmem
    cases value with
    | none =>
      rw [Node.declarations, Node.occurrences, nodup_declare_iff, hself [] nofun]
    | some value =>
      rw [Node.declarations, Node.occurrences, (hvalue value rfl).declarations, List.nil_append,
        nodup_declare_iff, hself _ ((hvalue value rfl).declareNew Γ)]
  | @print tag text value hvalue =>
    cases value with
    | none => simp [Node.declarations, Node.occurrences, DeclareNew]
    | some value =>
      rw [Node.declarations, Node.occurrences, declareNew_cons_of_ne (by simp [Node.kind]),
        (hvalue value rfl).declarations, List.append_nil,
        and_iff_left ((hvalue value rfl).declareNew Γ)]
  | loop tag hcondition _ ih =>
    rw [Node.declarations, Node.occurrences, declareNew_cons_of_ne (by simp [Node.kind]),
      hcondition.declarations, List.nil_append, List.append_nil, declareNew_append, ih,
      and_iff_right (hcondition.declareNew Γ)]

end Names

end ProgramTrees
