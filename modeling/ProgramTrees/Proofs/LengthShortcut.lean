import ProgramTrees.Proofs.EditScripts
import ProgramTrees.Proofs.SuggestionRanking

namespace ProgramTrees

/-- The distance of a candidate that is near enough, whatever its length. -/
def nearDistance? (limits : SuggestionLimits) (name candidate : String) : Option Nat :=
  if candidate = name then none
  else
    let distance := nameDistance name candidate
    if distance ≤ limits.distance then some distance else none

/-- The suggestions among candidates of any length. -/
def suggestionsOfAnyLength (limits : SuggestionLimits) (name : String) (candidates : List String) :
    List String :=
  suggestionsBy (nearDistance? limits name) limits.count candidates

/-- A candidate is near enough and left out for its length. -/
def IsLost (distance : Int) (name candidate : String) : Prop :=
  IsNear distance name candidate ∧ ¬ LengthsNear distance name candidate

def dottedCapitals (name : String) : Nat :=
  name.toList.count '\u0130'

section LowerCase

theorem length_lowerChar (c : Char) :
    (lowerChar c).length = if c = '\u0130' then 2 else 1 := by
  unfold lowerChar
  split
  next => rfl
  next => split <;> rfl

theorem length_lowerAfter (passed cs : List Char) :
    (lowerAfter passed cs).length = cs.length + cs.count '\u0130' := by
  induction cs generalizing passed with
  | nil => rfl
  | cons c cs ih =>
    have hfirst : (if c = 'Σ' then
          if reachesLetter passed && !reachesLetter cs then ['ς'] else ['σ']
        else lowerChar c).length = if c = '\u0130' then 2 else 1 := by
      by_cases hsigma : c = 'Σ'
      · subst hsigma
        rw [if_pos rfl]
        split <;> rfl
      · rw [if_neg hsigma, length_lowerChar]
    rw [lowerAfter, List.length_append, hfirst, ih, List.length_cons, List.count_cons]
    simp only [beq_iff_eq]
    split <;> omega

/-- Only a dotted capital I makes a text longer when it is lowered. -/
theorem length_lowercase (name : String) :
    (lowercase name.toList).length = name.length + dottedCapitals name := by
  rw [lowercase, length_lowerAfter, String.length_toList, dottedCapitals]

theorem lengthGap_le_nameDistance (name candidate : String) :
    ((candidate.length : Int) - name.length).natAbs ≤ nameDistance name candidate +
      ((dottedCapitals candidate : Int) - dottedCapitals name).natAbs := by
  have hgap := lengthGap_le_editDistance (lowercase name.toList) (lowercase candidate.toList)
  rw [length_lowercase, length_lowercase] at hgap
  unfold nameDistance
  omega

theorem IsLost.dottedCapitals_ne {distance : Int} {name candidate : String}
    (h : IsLost distance name candidate) : dottedCapitals candidate ≠ dottedCapitals name := by
  obtain ⟨⟨-, hnear⟩, hlengths⟩ := h
  have hgap := lengthGap_le_nameDistance name candidate
  unfold LengthsNear at hlengths
  omega

end LowerCase

section Cuts

variable {α : Type} {p : α → Bool} {xs : List α}

theorem take_filter_iff (k : Nat) :
    (xs.filter p).take k = xs.take k ↔ ∀ x ∈ xs.take k, p x = true := by
  constructor
  · intro h x hx
    rw [← h] at hx
    exact List.of_mem_filter (List.mem_of_mem_take hx)
  · intro h
    by_cases hk : k ≤ xs.length
    · have hsplit : xs.filter p = xs.take k ++ (xs.drop k).filter p := by
        conv_lhs => rw [← List.take_append_drop k xs, List.filter_append, List.filter_eq_self.mpr h]
      have hlength : (xs.take k).length = k := by simpa using hk
      rw [hsplit, List.take_left' hlength]
    · have htake : xs.take k = xs := List.take_of_length_le (by omega)
      rw [htake] at h ⊢
      rw [List.filter_eq_self.mpr h, htake]

theorem take_filter_length_sub_iff (n : Nat) :
    (xs.filter p).take ((xs.filter p).length - n) = xs.take (xs.length - n) ↔
      xs.take (xs.length - n) = [] ∨ ∀ x ∈ xs, p x = true := by
  have hle : (xs.filter p).length ≤ xs.length := List.length_filter_le ..
  constructor
  · intro h
    have hlength := congrArg List.length h
    simp only [List.length_take] at hlength
    by_cases hall : (xs.filter p).length = xs.length
    · exact .inr (List.length_filter_eq_length_iff.mp hall)
    · left
      have hnone : xs.length - n = 0 := by omega
      rw [hnone, List.take_zero]
  · rintro (h | h)
    · have hlength := congrArg List.length h
      simp only [List.length_take, List.length_nil] at hlength
      have hnone : (xs.filter p).length - n = 0 := by omega
      rw [h, hnone, List.take_zero]
    · rw [List.filter_eq_self.mpr h]

end Cuts

section Suggestions

variable {distance : Int} {name : String} {candidates : List String}

theorem nearDistance?_eq (limits : SuggestionLimits) (name candidate : String) :
    nearDistance? limits name candidate =
      if decide (IsNear limits.distance name candidate) then some (nameDistance name candidate)
      else none := by
  simp only [nearDistance?, decide_eq_true_eq]
  unfold IsNear
  by_cases hname : candidate = name <;> simp [hname]

theorem suggestionsOfAnyLength_eq (limits : SuggestionLimits) (name : String)
    (candidates : List String) :
    suggestionsOfAnyLength limits name candidates =
      upTo limits.count (byRank name (candidates.filter (IsNear limits.distance name ·))) :=
  suggestionsBy_eq (nearDistance?_eq limits name) limits.count candidates

/-- The comparison of lengths comes to dropping candidates from the others in order. -/
theorem suggestions_eq_filter (limits : SuggestionLimits) (name : String)
    (candidates : List String) :
    suggestions limits name candidates =
      upTo limits.count ((byRank name (candidates.filter (IsNear limits.distance name ·))).filter
        (LengthsNear limits.distance name ·)) := by
  rw [suggestions_eq, ← byRank_filter, List.filter_filter]
  congr 3
  funext candidate
  rw [Bool.decide_and, Bool.and_comm]

theorem mem_byRank_near {candidate : String} :
    candidate ∈ byRank name (candidates.filter (IsNear distance name ·)) ↔
      candidate ∈ candidates ∧ IsNear distance name candidate := by
  rw [(byRank_perm name _).mem_iff, List.mem_filter, decide_eq_true_eq]

end Suggestions

/-- With and without the comparison of lengths the suggestions are the same exactly if none of those
without it is lost; where the last ones are left out, exactly if there are none or no candidate is
lost. A lost candidate has more or fewer dotted capitals than the name. -/
theorem suggestions_unaffected_iff (distance : Int) (name : String) (candidates : List String) :
    (∀ k : Nat, suggestions ⟨distance, k⟩ name candidates =
        suggestionsOfAnyLength ⟨distance, k⟩ name candidates ↔
      ∀ candidate ∈ suggestionsOfAnyLength ⟨distance, k⟩ name candidates,
        ¬ IsLost distance name candidate) ∧
    (∀ count < 0, suggestions ⟨distance, count⟩ name candidates =
        suggestionsOfAnyLength ⟨distance, count⟩ name candidates ↔
      suggestionsOfAnyLength ⟨distance, count⟩ name candidates = [] ∨
        ∀ candidate ∈ candidates, ¬ IsLost distance name candidate) ∧
    ∀ candidate, IsLost distance name candidate →
      dottedCapitals candidate ≠ dottedCapitals name := by
  have hlost {candidate : String}
      (h : candidate ∈ byRank name (candidates.filter (IsNear distance name ·))) :
      decide (LengthsNear distance name candidate) = true ↔ ¬ IsLost distance name candidate := by
    have hnear := (mem_byRank_near.mp h).2
    rw [decide_eq_true_eq, IsLost, not_and_not_right]
    exact ⟨fun hlengths _ => hlengths, fun hlengths => hlengths hnear⟩
  refine ⟨?_, ?_, fun candidate h => h.dottedCapitals_ne⟩
  · intro k
    rw [suggestions_eq_filter, suggestionsOfAnyLength_eq, upTo_natCast, upTo_natCast,
      take_filter_iff]
    exact forall₂_congr fun candidate h => hlost (List.mem_of_mem_take h)
  · intro count hcount
    have hcut (xs : List String) : upTo count xs = xs.take (xs.length - count.natAbs) := by
      rw [upTo, if_neg (by omega)]
    rw [suggestions_eq_filter, suggestionsOfAnyLength_eq, hcut, hcut, take_filter_length_sub_iff]
    refine or_congr_right ⟨?_, ?_⟩
    · intro h candidate hcandidate hcandidate'
      have hmem := mem_byRank_near.mpr ⟨hcandidate, hcandidate'.1⟩
      exact (hlost hmem).mp (h candidate hmem) hcandidate'
    · intro h candidate hmem
      exact (hlost hmem).mpr (h candidate (mem_byRank_near.mp hmem).1)

/-- Three dotted capitals, and the same name in lower case. -/
theorem dottedName_lost :
    suggestionsOfAnyLength {} "i\u0307i\u0307i\u0307" ["\u0130\u0130\u0130"] =
        ["\u0130\u0130\u0130"] ∧
      suggestions {} "i\u0307i\u0307i\u0307" ["\u0130\u0130\u0130"] = [] := by
  have hsame : nameDistance "i\u0307i\u0307i\u0307" "\u0130\u0130\u0130" = 0 := by decide
  have hname : "\u0130\u0130\u0130" ≠ "i\u0307i\u0307i\u0307" := by decide
  constructor
  · simp [suggestionsOfAnyLength, suggestionsBy, nearDistance?, hsame, hname, upTo]
  · have hgap : candidateDistance? {} "i\u0307i\u0307i\u0307" "\u0130\u0130\u0130" = none := by
      decide
    simp [suggestions, hgap, upTo]

end ProgramTrees
