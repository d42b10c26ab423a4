import Mathlib.Data.List.Lex
import Mathlib.Data.Prod.Lex
import ProgramTrees.Proofs.EditScripts
import ProgramTrees.Suggestion

namespace ProgramTrees

/-- The place of a candidate in the order: by the distance and then by the code points. -/
def rank (name candidate : String) : ℕ ×ₗ List ℕ :=
  toLex (nameDistance name candidate, candidate.toList.map Char.toNat)

/-- Candidates in the order of their ranks. -/
def byRank (name : String) (candidates : List String) : List String :=
  candidates.mergeSort fun a b => decide (rank name a ≤ rank name b)

/-- A candidate is another name, and its distance is small enough. -/
def IsNear (distance : Int) (name candidate : String) : Prop :=
  candidate ≠ name ∧ nameDistance name candidate ≤ distance

/-- The lengths do not differ by more than the distance. -/
def LengthsNear (distance : Int) (name candidate : String) : Prop :=
  ((candidate.length : Int) - name.length).natAbs ≤ distance

instance (distance : Int) (name candidate : String) : Decidable (IsNear distance name candidate) :=
  inferInstanceAs (Decidable (_ ∧ _))

instance (distance : Int) (name candidate : String) :
    Decidable (LengthsNear distance name candidate) :=
  inferInstanceAs (Decidable (_ ≤ _))

/-- The suggestions among the candidates for which there is a distance. -/
def suggestionsBy (distance? : String → Option Nat) (count : Int) (candidates : List String) :
    List String :=
  let scored := candidates.filterMap fun candidate =>
    (distance? candidate).map fun distance => (distance, candidate)
  (upTo count (scored.mergeSort isBefore)).map (·.2)

/-- The distance of two names is the length of a shortest script between them in lower case. -/
theorem nameDistance_shortest (a b : String) :
    TurnsIn (nameDistance a b) (lowercase a.toList) (lowercase b.toList) ∧
      ∀ n, TurnsIn n (lowercase a.toList) (lowercase b.toList) → nameDistance a b ≤ n := by
  rw [nameDistance, editDistance_eq]
  refine ⟨turnsIn_leastEdits _ _, ?_⟩
  rintro n ⟨script, rfl, hscript⟩
  exact EditScript.distance_le_length hscript

section Order

variable {name : String} {candidates candidates' : List String}

theorem codePoints_lt_iff (s t : List Char) : s.map Char.toNat < t.map Char.toNat ↔ s < t := by
  induction s generalizing t with
  | nil => cases t <;> simp
  | cons c s ih =>
    cases t with
    | nil => simp
    | cons d t =>
      have hlt : c.toNat < d.toNat ↔ c < d := Iff.rfl
      have heq : c.toNat = d.toNat ↔ c = d := Char.toNat_inj
      simp only [List.map_cons, List.cons_lt_cons_iff, hlt, heq, ih]

theorem rank_injective (name : String) : Function.Injective (rank name) := by
  intro a b h
  have hcodes : a.toList.map Char.toNat = b.toList.map Char.toNat :=
    congrArg (fun r => (ofLex r).2) h
  have hchars := List.map_injective_iff.mpr (fun _ _ => Char.toNat_inj.mp) hcodes
  exact String.toList_inj.mp hchars

theorem isBefore_iff (name a b : String) :
    isBefore (nameDistance name a, a) (nameDistance name b, b) = true ↔
      rank name a ≤ rank name b := by
  have hcodes : a.toList.map Char.toNat ≤ b.toList.map Char.toNat ↔ ¬ b < a := by
    rw [← not_lt, codePoints_lt_iff]
    rfl
  rw [rank, rank, Prod.Lex.toLex_le_toLex, hcodes]
  simp [isBefore]

theorem byRank_perm (name : String) (candidates : List String) :
    (byRank name candidates).Perm candidates :=
  List.mergeSort_perm ..

theorem byRank_ordered (name : String) (candidates : List String) :
    (byRank name candidates).Pairwise fun a b => rank name a ≤ rank name b := by
  have h : (byRank name candidates).Pairwise
      fun a b => decide (rank name a ≤ rank name b) = true := by
    refine List.pairwise_mergeSort ?_ ?_ candidates
    · intro a b c hab hbc
      simp only [decide_eq_true_eq] at hab hbc ⊢
      exact hab.trans hbc
    · intro a b
      simpa using le_total (rank name a) (rank name b)
  exact h.imp fun hab => of_decide_eq_true hab

theorem eq_byRank {sorted : List String}
    (hsorted : sorted.Pairwise fun a b => rank name a ≤ rank name b)
    (hperm : sorted.Perm candidates) : sorted = byRank name candidates := by
  refine List.Perm.eq_of_pairwise ?_ hsorted (byRank_ordered name candidates)
    (hperm.trans (byRank_perm name candidates).symm)
  intro a b _ _ hab hba
  exact rank_injective name (le_antisymm hab hba)

theorem byRank_congr (h : candidates.Perm candidates') :
    byRank name candidates = byRank name candidates' :=
  eq_byRank (byRank_ordered name candidates) ((byRank_perm name candidates).trans h)

theorem byRank_filter (p : String → Bool) :
    byRank name (candidates.filter p) = (byRank name candidates).filter p :=
  (eq_byRank ((byRank_ordered name candidates).filter p)
    ((byRank_perm name candidates).filter p)).symm

end Order

section Suggestions

variable {limits : SuggestionLimits} {name : String}

theorem map_upTo {α β : Type} (f : α → β) (count : Int) (xs : List α) :
    (upTo count xs).map f = upTo count (xs.map f) := by
  unfold upTo
  split <;> simp [List.map_take]

theorem upTo_natCast {α : Type} (k : Nat) (xs : List α) : upTo (k : Int) xs = xs.take k := by
  simp [upTo]

/-- Where the candidates of some kind are taken, with their distances from the name, the first of
them in order are suggested. -/
theorem suggestionsBy_eq {distance? : String → Option Nat} {p : String → Bool}
    (h : ∀ candidate, distance? candidate =
      if p candidate then some (nameDistance name candidate) else none)
    (count : Int) (candidates : List String) :
    suggestionsBy distance? count candidates = upTo count (byRank name (candidates.filter p)) := by
  have hscored : (candidates.filterMap fun candidate =>
        (distance? candidate).map fun distance => (distance, candidate)) =
      (candidates.filter p).map fun candidate => (nameDistance name candidate, candidate) := by
    rw [← List.filterMap_eq_map, List.filterMap_filter]
    congr 1
    funext candidate
    rw [h]
    cases p candidate <;> rfl
  rw [suggestionsBy, hscored, map_upTo]
  congr 1
  rw [byRank, ← List.map_mergeSort (f := fun candidate => (nameDistance name candidate, candidate))
    (r := fun a b => decide (rank name a ≤ rank name b)), List.map_map]
  · exact List.map_id _
  · intro a _ b _
    rw [Bool.eq_iff_iff, decide_eq_true_eq, isBefore_iff]

theorem candidateDistance?_eq (limits : SuggestionLimits) (name candidate : String) :
    candidateDistance? limits name candidate =
      if decide (IsNear limits.distance name candidate ∧ LengthsNear limits.distance name candidate)
      then some (nameDistance name candidate) else none := by
  simp only [candidateDistance?, decide_eq_true_eq]
  split
  next h =>
    rw [if_neg]
    rintro ⟨⟨hname, -⟩, hlengths⟩
    rcases h with h | h
    · exact hname h
    · exact not_le.mpr h hlengths
  next h =>
    obtain ⟨hname, hlengths⟩ := not_or.mp h
    refine if_congr ?_ rfl rfl
    exact ⟨fun hnear => ⟨⟨hname, hnear⟩, not_lt.mp hlengths⟩, fun h => h.1.2⟩

theorem suggestions_eq (limits : SuggestionLimits) (name : String) (candidates : List String) :
    suggestions limits name candidates =
      upTo limits.count (byRank name (candidates.filter fun candidate =>
        IsNear limits.distance name candidate ∧ LengthsNear limits.distance name candidate)) :=
  suggestionsBy_eq (candidateDistance?_eq limits name) limits.count candidates

theorem suggestions_congr {candidates candidates' : List String}
    (h : candidates.Perm candidates') :
    suggestions limits name candidates = suggestions limits name candidates' := by
  rw [suggestions_eq, suggestions_eq, byRank_congr (h.filter _)]

end Suggestions

/-- Of the other names whose length and lower-case distance are near enough, the first `k` in order
of distance and name are suggested, or all if they are fewer. So the order of the candidates has no
influence, and more suggestions begin with the same ones. -/
theorem suggestions_are_first (distance : Int) (k : Nat) (name : String)
    (candidates : List String) :
    let kept := candidates.filter fun candidate =>
      IsNear distance name candidate ∧ LengthsNear distance name candidate
    let suggested := suggestions ⟨distance, k⟩ name candidates
    suggested.length = min k kept.length ∧
      (∃ left, kept.Perm (suggested ++ left) ∧
        ∀ a ∈ suggested, ∀ b ∈ left, ¬ rank name b < rank name a) ∧
      (suggested.Pairwise fun a b => rank name a ≤ rank name b) ∧
      (∀ candidates', candidates'.Perm candidates →
        suggestions ⟨distance, k⟩ name candidates' = suggested) ∧
      ∀ more, k ≤ more → suggested <+: suggestions ⟨distance, more⟩ name candidates := by
  intro kept suggested
  have hsuggested : suggested = (byRank name kept).take k := by
    rw [← upTo_natCast]
    exact suggestions_eq ⟨distance, k⟩ name candidates
  have hordered := byRank_ordered name kept
  have hcut : (byRank name kept).take k ++ (byRank name kept).drop k = byRank name kept :=
    List.take_append_drop ..
  rw [hsuggested]
  refine ⟨?_, ⟨(byRank name kept).drop k, ?_, ?_⟩, ?_, ?_, ?_⟩
  · rw [List.length_take, (byRank_perm name kept).length_eq]
  · rw [hcut]
    exact (byRank_perm name kept).symm
  · intro a ha b hb
    rw [← hcut, List.pairwise_append] at hordered
    exact not_lt.mpr (hordered.2.2 a ha b hb)
  · exact hordered.sublist (List.take_sublist ..)
  · intro candidates' hperm
    rw [← hsuggested]
    exact suggestions_congr hperm
  · intro more hmore
    rw [suggestions_eq, upTo_natCast]
    exact List.take_prefix_take_left hmore

end ProgramTrees
