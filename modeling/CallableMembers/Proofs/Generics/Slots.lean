import CallableMembers.Generics.Arrangement
import Mathlib.Data.List.Induction
import Mathlib.Data.List.Nodup
import Mathlib.Data.List.Perm.Subperm

/-!
# Slots — which parameter stands in which slot

A pass leaves a slot to the last parameter that declares its number.  The occupied slots are
therefore the declared numbers below the length of the list, in ascending order.  There are as
many slots as parameters, so none is left empty exactly if the declared numbers are a permutation
of the slots.
-/

namespace CallableMembers
namespace Generics

/-- Of the parameters that declare ordinal `k`, the last one. -/
def claimant? (ps : List GenericParameter) (k : Nat) : Option GenericParameter :=
  ps.findRev? fun p => p.ordinal == k

/-- The declared numbers, in the order of the parameters. -/
def ordinals (ps : List GenericParameter) : List Nat :=
  ps.map GenericParameter.ordinal

/-- The parameter declares `k`, and none behind it in the list does. -/
def LastDeclaring (ps : List GenericParameter) (k : Nat) (p : GenericParameter) : Prop :=
  ∃ before after, ps = before ++ p :: after ∧ p.ordinal = k ∧ k ∉ ordinals after

variable {ps : List GenericParameter} {p : GenericParameter} {k : Nat}

@[simp] theorem length_ordinals (ps : List GenericParameter) : (ordinals ps).length = ps.length :=
  List.length_map _

theorem LastDeclaring.mem (last : LastDeclaring ps k p) : p ∈ ps := by
  rcases last with ⟨before, after, rfl, -, -⟩
  exact List.mem_append_right _ (List.mem_cons_self ..)

theorem LastDeclaring.ordinal (last : LastDeclaring ps k p) : p.ordinal = k := by
  rcases last with ⟨_, _, _, declared, _⟩
  exact declared

/-! ## One slot -/

theorem claimant?_concat (ps : List GenericParameter) (p : GenericParameter) (k : Nat) :
    claimant? (ps ++ [p]) k = if p.ordinal = k then some p else claimant? ps k := by
  rw [claimant?, claimant?, List.findRev?_eq_find?_reverse, List.findRev?_eq_find?_reverse,
    List.reverse_concat]
  -- Searched from the end, the new parameter is the first one met.
  by_cases declared : p.ordinal = k
  · rw [if_pos declared]
    exact List.find?_cons_of_pos (beq_iff_eq.2 declared)
  · rw [if_neg declared]
    exact List.find?_cons_of_neg (mt beq_iff_eq.1 declared)

/-- What a pass leaves in the slot is the last parameter that declares its number. -/
theorem fill_eq_claimant? (ps : List GenericParameter) (k : Nat) : fill ps k = claimant? ps k := by
  -- From the end of the list: the last parameter takes the slot, or leaves it as the pass had it.
  induction ps using List.reverseRecOn with
  | nil => rfl
  | append_singleton ps p ih =>
      rw [claimant?_concat, ← ih, fill, List.foldl_concat]
      rfl

theorem slots_eq (ps : List GenericParameter) :
    slots ps = (List.range ps.length).map (claimant? ps) :=
  List.map_congr_left fun k _ => fill_eq_claimant? ps k

theorem claimant?_eq_some_iff : claimant? ps k = some p ↔ LastDeclaring ps k p := by
  rw [claimant?, List.findRev?_eq_find?_reverse, List.find?_eq_some_iff_append]
  simp only [beq_iff_eq, Bool.not_eq_true', beq_eq_false_iff_ne]
  -- Searched from the end, what is passed by is what stands behind the parameter.
  constructor
  · rintro ⟨declared, passed, rest, split, others⟩
    refine ⟨rest.reverse, passed.reverse, ?_, declared, ?_⟩
    · simpa using congrArg List.reverse split
    · simpa [ordinals] using others
  · rintro ⟨before, after, rfl, declared, others⟩
    refine ⟨declared, after.reverse, before.reverse, by simp, ?_⟩
    simpa [ordinals] using others

theorem claimant?_eq_none_iff : claimant? ps k = none ↔ k ∉ ordinals ps := by
  rw [claimant?, List.findRev?_eq_find?_reverse, List.find?_eq_none]
  simp [ordinals]

/-! ## The occupied slots -/

theorem claimed_eq (ps : List GenericParameter) :
    claimed ps = (List.range ps.length).filterMap (claimant? ps) := by
  rw [claimed, slots_eq, List.filterMap_map]
  rfl

theorem mem_claimed_iff : p ∈ claimed ps ↔ p.ordinal < ps.length ∧ LastDeclaring ps p.ordinal p := by
  rw [claimed_eq, List.mem_filterMap]
  simp only [List.mem_range, claimant?_eq_some_iff]
  constructor
  · rintro ⟨k, slot, last⟩
    rw [last.ordinal]
    exact ⟨slot, last⟩
  · rintro ⟨slot, last⟩
    exact ⟨p.ordinal, slot, last⟩

/-- The occupied slots are the slots with a declared number. -/
theorem ordinals_claimed (ps : List GenericParameter) :
    ordinals (claimed ps) = (List.range ps.length).filter fun k => decide (k ∈ ordinals ps) := by
  -- A slot shows its own number if it is occupied.
  have shown : ∀ k, (claimant? ps k).map GenericParameter.ordinal
      = Option.guard (fun k => decide (k ∈ ordinals ps)) k := by
    intro k
    cases claimed : claimant? ps k with
    | none => simp [Option.guard, claimant?_eq_none_iff.1 claimed]
    | some p =>
        have last := claimant?_eq_some_iff.1 claimed
        have declared : k ∈ ordinals ps := List.mem_map.2 ⟨p, last.mem, last.ordinal⟩
        simp [Option.guard, declared, last.ordinal]
  rw [ordinals, claimed_eq, List.map_filterMap, ← List.filterMap_eq_filter]
  exact List.filterMap_congr fun k _ => shown k

theorem mem_ordinals_claimed_iff : k ∈ ordinals (claimed ps) ↔ k < ps.length ∧ k ∈ ordinals ps := by
  rw [ordinals_claimed, List.mem_filter, List.mem_range, decide_eq_true_iff]

theorem pairwise_ordinals_claimed (ps : List GenericParameter) :
    (ordinals (claimed ps)).Pairwise (· < ·) := by
  rw [ordinals_claimed]
  exact List.pairwise_lt_range.filter _

theorem nodup_ordinals_claimed (ps : List GenericParameter) : (ordinals (claimed ps)).Nodup :=
  (pairwise_ordinals_claimed ps).imp Nat.ne_of_lt

theorem nodup_claimed (ps : List GenericParameter) : (claimed ps).Nodup :=
  List.Nodup.of_map _ (nodup_ordinals_claimed ps)

theorem claimed_subset (ps : List GenericParameter) : claimed ps ⊆ ps :=
  fun _ member => (mem_claimed_iff.1 member).2.mem

/-! ## Empty slots -/

theorem firstUnclaimed?_eq_some_iff :
    firstUnclaimed? ps = some k
      ↔ k < ps.length ∧ k ∉ ordinals ps ∧ ∀ j < k, j ∈ ordinals ps := by
  have empty : ∀ j, (claimant? ps j).isNone = true ↔ j ∉ ordinals ps := by
    intro j
    rw [Option.isNone_iff_eq_none, claimant?_eq_none_iff]
  simp only [firstUnclaimed?, slots_eq, List.findIdx?_eq_some_iff_getElem, List.getElem_map,
    List.getElem_range, empty, not_not, List.length_map, List.length_range, exists_prop]

theorem firstUnclaimed?_eq_none_iff :
    firstUnclaimed? ps = none ↔ ∀ k < ps.length, k ∈ ordinals ps := by
  have occupied : ∀ j, (claimant? ps j).isNone = false ↔ j ∈ ordinals ps := by
    intro j
    rw [← not_iff_not, Bool.not_eq_false, Option.isNone_iff_eq_none, claimant?_eq_none_iff]
  simp [firstUnclaimed?, slots_eq, occupied]

/-- As many numbers as slots, and every slot is among them: then they are the slots, each once. -/
theorem perm_range_iff {l : List Nat} : l.Perm (List.range l.length) ↔ ∀ k < l.length, k ∈ l := by
  constructor
  · intro perm k slot
    exact perm.mem_iff.2 (List.mem_range.2 slot)
  · intro occupied
    have inside : List.range l.length ⊆ l := fun k slot => occupied k (List.mem_range.1 slot)
    have part : (List.range l.length).Subperm l := List.subperm_of_subset List.nodup_range inside
    exact (part.perm_of_length_le (Nat.le_of_eq List.length_range.symm)).symm

/-! ## Arrangements -/

/-- Either policy yields the occupied slots; the strict one only if all slots are occupied. -/
theorem eq_claimed_of_arrange {policy : GapPolicy} {ps view : List GenericParameter}
    (arranged : arrange policy ps = .ok view) :
    view = claimed ps ∧ (policy = .strict → missingCount ps = 0) := by
  cases policy with
  | lenient =>
      cases arranged
      exact ⟨rfl, fun strict => by cases strict⟩
  | strict =>
      unfold arrange at arranged
      cases first : firstUnclaimed? ps with
      | some ordinal =>
          simp only [first] at arranged
          cases arranged
      | none =>
          simp only [first] at arranged
          cases arranged
          -- No slot is the first empty one, so none is empty.
          have occupied : ∀ slot ∈ slots ps, slot.isNone = false :=
            List.findIdx?_eq_none_iff.1 first
          refine ⟨rfl, fun _ => List.countP_eq_zero.2 ?_⟩
          intro slot listed
          simp [occupied slot listed]

/-- What is missing from a view is what its length lacks. -/
theorem missingCount_of_arrange {policy : GapPolicy} {ps view : List GenericParameter}
    (arranged : arrange policy ps = .ok view) : view.length + missingCount ps = ps.length := by
  rw [(eq_claimed_of_arrange arranged).1]
  exact length_claimed_add_missingCount ps

theorem lenient_of_loss {policy : GapPolicy} {ps view : List GenericParameter}
    (arranged : arrange policy ps = .ok view) (lossy : view.length < ps.length) :
    policy = .lenient := by
  have lengths := missingCount_of_arrange arranged
  cases policy with
  | lenient => rfl
  | strict =>
      have complete := (eq_claimed_of_arrange arranged).2 rfl
      omega

/-- An arrangement that succeeds reports its loss with exact numbers, and nothing else. -/
theorem arrangeEvents_of_arrange {policy : GapPolicy} {ps view : List GenericParameter}
    (arranged : arrange policy ps = .ok view) :
    arrangeEvents policy ps
      = if view.length < ps.length then [.skipped (ps.length - view.length) ps.length] else [] := by
  have lengths := missingCount_of_arrange arranged
  by_cases lossy : view.length < ps.length
  · have missing : missingCount ps = ps.length - view.length := by omega
    have some : missingCount ps ≠ 0 := by omega
    rw [if_pos lossy, lenient_of_loss arranged lossy]
    simp only [arrangeEvents]
    rw [if_neg some, missing]
  · have none : missingCount ps = 0 := by omega
    rw [if_neg lossy]
    cases policy with
    | strict => rfl
    | lenient => simp only [arrangeEvents, if_pos none]

/-- Only the strict policy refuses, and it reports nothing. -/
theorem arrangeEvents_of_error {policy : GapPolicy} {ps : List GenericParameter} {e : MemberError}
    (refused : arrange policy ps = .error e) : arrangeEvents policy ps = [] := by
  cases policy with
  | strict => rfl
  | lenient => cases refused

end Generics
end CallableMembers
