import CallableMembers.Proofs.Generics.Outcomes
import Mathlib.Data.Nat.Count
import Mathlib.Order.Bounds.Basic

/-!
# Agreement — what the lenient view says about the strict outcome

Both policies look at the same slots.  Where no slot is empty they yield the same view.  Otherwise
the lenient view is in place up to the first empty slot, which the strict policy names, and out of
place from there on: a view that has skipped a number never comes back to its own places.
-/

namespace CallableMembers
namespace Generics

/-! ## Numbers at their own places -/

/-- In an ascending list that starts at `b` or later, a number stands at its own place, counted
from `b`, exactly if no number before it is missing. -/
theorem getElem?_eq_add_iff_of_ascending {l : List Nat} {b : Nat} (i : Nat)
    (ascending : l.Pairwise (· < ·)) (least : ∀ x ∈ l, b ≤ x) :
    l[i]? = some (b + i) ↔ ∀ j ≤ i, b + j ∈ l := by
  induction l generalizing b i with
  | nil => simpa using ⟨0, Nat.zero_le i⟩
  | cons x l ih =>
      have ⟨first, rest⟩ := List.pairwise_cons.1 ascending
      have start : b ≤ x := least x (List.mem_cons_self ..)
      -- Only the head can be the least number of all.
      have head : b ∈ x :: l ↔ x = b := by
        refine ⟨fun member => ?_, fun same => same ▸ List.mem_cons_self ..⟩
        rcases List.mem_cons.1 member with same | behind
        · exact same.symm
        · exact absurd (first b behind) (Nat.not_lt_of_le start)
      cases i with
      | zero => simpa using head.symm
      | succ i =>
          have above : ∀ y ∈ l, b + 1 ≤ y := fun y member =>
            Nat.lt_of_le_of_lt start (first y member)
          have tail : l[i]? = some (b + 1 + i) ↔ ∀ j ≤ i, b + 1 + j ∈ l := ih i rest above
          calc
            (x :: l)[i + 1]? = some (b + (i + 1)) ↔ l[i]? = some (b + 1 + i) := by
              rw [List.getElem?_cons_succ, Nat.add_right_comm, Nat.add_assoc]
            _ ↔ ∀ j ≤ i, b + 1 + j ∈ l := tail
            _ ↔ ∀ j ≤ i + 1, b + j ∈ x :: l := by
              constructor
              · intro all j bound
                cases j with
                | zero =>
                    have next : x < b + 1 := first _ (all 0 (Nat.zero_le i))
                    exact head.2 (Nat.le_antisymm (Nat.le_of_lt_succ next) start)
                | succ j =>
                    have member := all j (Nat.le_of_succ_le_succ bound)
                    exact List.mem_cons_of_mem _ (by rwa [Nat.add_right_comm] at member)
              · intro all j bound
                have same : x = b := head.1 (all 0 (Nat.zero_le _))
                have member := all (j + 1) (Nat.succ_le_succ bound)
                rcases List.mem_cons.1 member with here | behind
                · omega
                · rwa [Nat.add_right_comm]

/-- The parameter at place `i` of the view declares `i`. -/
def AtOwnPlace (view : List GenericParameter) (i : Nat) : Prop :=
  (ordinals view)[i]? = some i

instance (view : List GenericParameter) : DecidablePred (AtOwnPlace view) :=
  fun i => inferInstanceAs (Decidable ((ordinals view)[i]? = some i))

variable {ps view : List GenericParameter} {k : Nat}

theorem lt_length_of_atOwnPlace {i : Nat} (own : AtOwnPlace view i) : i < view.length := by
  have inside : i < (ordinals view).length := (List.getElem?_eq_some_iff.1 own).1
  simpa using inside

/-! ## The first empty slot -/

/-- The lenient view is in place before the first empty slot and nowhere else. -/
theorem atOwnPlace_claimed_iff (first : firstUnclaimed? ps = some k) (i : Nat) :
    AtOwnPlace (claimed ps) i ↔ i < k := by
  have ⟨slot, missing, below⟩ := firstUnclaimed?_eq_some_iff.1 first
  have place : AtOwnPlace (claimed ps) i ↔ ∀ j ≤ i, 0 + j ∈ ordinals (claimed ps) := by
    have iff := getElem?_eq_add_iff_of_ascending i (pairwise_ordinals_claimed ps)
      fun x _ => Nat.zero_le x
    rwa [Nat.zero_add] at iff
  simp only [Nat.zero_add, mem_ordinals_claimed_iff] at place
  constructor
  · intro own
    -- Were the empty slot passed, its number would be declared.
    refine Nat.lt_of_not_le fun passed => missing ?_
    exact (place.1 own k passed).2
  · intro before
    refine place.2 fun j bound => ?_
    have early : j < k := Nat.lt_of_le_of_lt bound before
    exact ⟨Nat.lt_trans early slot, below j early⟩

theorem le_length_claimed (first : firstUnclaimed? ps = some k) : k ≤ (claimed ps).length := by
  refine Nat.le_of_not_lt fun short => ?_
  -- Otherwise the place right behind the view would be one of its own places.
  have own := (atOwnPlace_claimed_iff first (claimed ps).length).2 short
  exact Nat.lt_irrefl _ (lt_length_of_atOwnPlace own)

theorem count_atOwnPlace_claimed (first : firstUnclaimed? ps = some k) :
    Nat.count (AtOwnPlace (claimed ps)) (claimed ps).length = k := by
  have own := atOwnPlace_claimed_iff first
  obtain ⟨rest, length⟩ := Nat.exists_eq_add_of_le (le_length_claimed first)
  have before : Nat.count (AtOwnPlace (claimed ps)) k = k :=
    Nat.count_iff_forall.2 fun i early => (own i).2 early
  have behind : Nat.count (fun i => AtOwnPlace (claimed ps) (k + i)) rest = 0 :=
    Nat.count_iff_forall_not.2 fun i _ late =>
      Nat.not_lt_of_le (Nat.le_add_right k i) ((own _).1 late)
  calc
    Nat.count (AtOwnPlace (claimed ps)) (claimed ps).length
        = Nat.count (AtOwnPlace (claimed ps)) k
            + Nat.count (fun i => AtOwnPlace (claimed ps) (k + i)) rest := by
          rw [length, Nat.count_add]
    _ = k := by rw [before, behind, Nat.add_zero]

/-- The lengths of the prefixes of a view that are in place. -/
def PrefixInPlace (view : List GenericParameter) : Set Nat :=
  {n | n ≤ view.length ∧ ∀ i < n, AtOwnPlace view i}

theorem isGreatest_prefixInPlace (first : firstUnclaimed? ps = some k) :
    IsGreatest (PrefixInPlace (claimed ps)) k := by
  have own := atOwnPlace_claimed_iff first
  refine ⟨⟨le_length_claimed first, fun i early => (own i).2 early⟩, ?_⟩
  rintro n ⟨-, inPlace⟩
  refine Nat.le_of_not_lt fun longer => ?_
  exact Nat.lt_irrefl k ((own k).1 (inPlace k longer))

/-! ## Both policies on one list -/

/-- The lenient view has all parameters exactly if every slot has one. -/
theorem length_claimed_eq_iff :
    (claimed ps).length = ps.length ↔ ∀ k < ps.length, k ∈ ordinals ps := by
  have length : (claimed ps).length
      = ((List.range ps.length).filter fun k => decide (k ∈ ordinals ps)).length := by
    simpa using congrArg List.length (ordinals_claimed ps)
  calc
    (claimed ps).length = ps.length
        ↔ ((List.range ps.length).filter fun k => decide (k ∈ ordinals ps)).length
            = (List.range ps.length).length := by rw [length, List.length_range]
    _ ↔ ∀ k ∈ List.range ps.length, decide (k ∈ ordinals ps) = true :=
      List.length_filter_eq_length_iff
    _ ↔ ∀ k < ps.length, k ∈ ordinals ps := by simp

/-- The strict policy accepts a list of at most 2³² parameters exactly if the lenient view has all
of them; then both yield the same view and nothing is warned of.  Otherwise the number that the
strict policy names tells how many parameters of the lenient view are in place: those before it,
which are the longest prefix in place, and none from there on. -/
theorem policies_agree (few : ps.length ≤ UInt32.size) :
    ∃ view, arrange .lenient ps = .ok view
      ∧ ((∃ view', arrange .strict ps = .ok view') ↔ view.length = ps.length)
      ∧ (∀ view', arrange .strict ps = .ok view' →
          view' = view ∧ arrangeEvents .lenient ps = [])
      ∧ (view.length ≠ ps.length →
          ∃ ordinal : UInt32, arrange .strict ps = .error (.unclaimedOrdinal ordinal ps.length)
            ∧ ordinal.toNat = Nat.count (AtOwnPlace view) view.length
            ∧ IsGreatest (PrefixInPlace view) ordinal.toNat
            ∧ (∀ i, AtOwnPlace view i ↔ i < ordinal.toNat)) := by
  refine ⟨claimed ps, rfl, ?_⟩
  rw [Ne, length_claimed_eq_iff]
  by_cases occupied : ∀ k < ps.length, k ∈ ordinals ps
  · have accepted := arrange_strict_of_occupied occupied
    have complete := length_claimed_eq_iff.2 occupied
    refine ⟨iff_of_true ⟨_, accepted⟩ occupied, ?_, fun empty => absurd occupied empty⟩
    intro view' arranged
    rw [accepted] at arranged
    cases arranged
    refine ⟨rfl, ?_⟩
    have viewed : arrange .lenient ps = .ok (claimed ps) := rfl
    have silent := arrangeEvents_of_arrange viewed
    simpa [complete] using silent
  · rcases exists_arrange_strict_of_empty occupied with ⟨k, first, refused⟩
    have ⟨slot, _, _⟩ := firstUnclaimed?_eq_some_iff.1 first
    have exact : (UInt32.ofNatClamp k).toNat = k :=
      UInt32.toNat_ofNatClamp_of_lt (Nat.lt_of_lt_of_le slot few)
    have nothing : ∀ view', arrange .strict ps ≠ .ok view' := by
      intro view' arranged
      rw [refused] at arranged
      cases arranged
    refine ⟨iff_of_false (fun ⟨view', arranged⟩ => nothing view' arranged) occupied,
      fun view' arranged => absurd arranged (nothing view'), fun _ => ⟨_, refused, ?_⟩⟩
    rw [exact]
    exact ⟨(count_atOwnPlace_claimed first).symm, isGreatest_prefixInPlace first,
      atOwnPlace_claimed_iff first⟩

/-- The second of four numbers is missing: the lenient view stops being in place there, although
it goes on. -/
theorem policies_agree_of_gap :
    let t : GenericParameter := ⟨0, .null, 2, 0, "T"⟩
    let u : GenericParameter := ⟨1, .null, 0, 0, "U"⟩
    let v : GenericParameter := ⟨2, .null, 3, 0, "V"⟩
    let w : GenericParameter := ⟨3, .null, 0, 0, "W"⟩
    [t, u, v, w].length ≤ UInt32.size
      ∧ arrange .lenient [t, u, v, w] = .ok [w, t, v]
      ∧ ∃ ordinal : UInt32, arrange .strict [t, u, v, w] = .error (.unclaimedOrdinal ordinal 4)
          ∧ ordinal.toNat = Nat.count (AtOwnPlace [w, t, v]) 3
          ∧ IsGreatest (PrefixInPlace [w, t, v]) ordinal.toNat
          ∧ AtOwnPlace [w, t, v] 0 ∧ ¬ AtOwnPlace [w, t, v] 1 ∧ ¬ AtOwnPlace [w, t, v] 2 := by
  intro t u v w
  have few : [t, u, v, w].length ≤ UInt32.size := by decide
  have lenient : arrange .lenient [t, u, v, w] = .ok [w, t, v] := rfl
  rcases policies_agree few with ⟨view, arranged, -, -, otherwise⟩
  rw [lenient] at arranged
  cases arranged
  rcases otherwise (by decide) with ⟨ordinal, refused, count, greatest, -⟩
  exact ⟨few, lenient, ordinal, refused, count, greatest, by decide, by decide, by decide⟩

end Generics
end CallableMembers
