import CallableMembers.Proofs.Generics.Slots

/-!
# Outcomes — what either policy makes of a list

The strict policy takes exactly the lists whose numbers are the slots, each once, and puts every
parameter at the place it declares; any other list is refused with the smallest number that is
missing.  The lenient policy takes every list and yields one parameter for every declared number
that has a slot, in ascending order, each time the last one that declares it.
-/

namespace CallableMembers
namespace Generics

variable {ps view : List GenericParameter}

/-! ## The strict policy -/

/-- The view holds every object of the list once, each at the place that it declares. -/
structure Placement (ps view : List GenericParameter) : Prop where
  perm : view.Perm ps
  distinct : view.Nodup
  /-- Said of identities, provided that an identity belongs to one object. -/
  once : (∀ p ∈ ps, ∀ q ∈ ps, p.id = q.id → p = q) →
    ∀ p ∈ ps, (view.map GenericParameter.id).count p.id = 1
  inPlace : ∀ (i : Nat) (inside : i < view.length), view[i].ordinal = i

theorem ordinals_claimed_of_occupied (occupied : ∀ k < ps.length, k ∈ ordinals ps) :
    ordinals (claimed ps) = List.range ps.length := by
  rw [ordinals_claimed, List.filter_eq_self]
  intro k slot
  exact decide_eq_true (occupied k (List.mem_range.1 slot))

theorem claimed_perm_of_occupied (occupied : ∀ k < ps.length, k ∈ ordinals ps) :
    (claimed ps).Perm ps := by
  have length : (claimed ps).length = ps.length := by
    rw [← length_ordinals, ordinals_claimed_of_occupied occupied, List.length_range]
  -- The view has no object twice and all from the list, of which it leaves none out.
  have part : (claimed ps).Subperm ps := List.subperm_of_subset (nodup_claimed ps) (claimed_subset ps)
  exact part.perm_of_length_le (Nat.le_of_eq length.symm)

theorem placement_claimed (occupied : ∀ k < ps.length, k ∈ ordinals ps) :
    Placement ps (claimed ps) where
  perm := claimed_perm_of_occupied occupied
  distinct := nodup_claimed ps
  once identified p member := by
    have perm := claimed_perm_of_occupied occupied
    have ids : ((claimed ps).map GenericParameter.id).Nodup := by
      refine List.Nodup.map_on ?_ (nodup_claimed ps)
      intro p member q member' same
      exact identified p (perm.subset member) q (perm.subset member') same
    exact List.count_eq_one_of_mem ids (List.mem_map_of_mem (perm.mem_iff.2 member))
  inPlace i inside := by
    have numbers := ordinals_claimed_of_occupied occupied
    have inside' : i < (ordinals (claimed ps)).length := by rwa [length_ordinals]
    have number : (ordinals (claimed ps))[i] = i := by
      simp only [numbers, List.getElem_range]
    simpa only [ordinals, List.getElem_map] using number

theorem arrange_strict_of_occupied (occupied : ∀ k < ps.length, k ∈ ordinals ps) :
    arrange .strict ps = .ok (claimed ps) := by
  simp only [arrange, firstUnclaimed?_eq_none_iff.2 occupied]

theorem exists_arrange_strict_of_empty (empty : ¬ ∀ k < ps.length, k ∈ ordinals ps) :
    ∃ k, firstUnclaimed? ps = some k ∧ arrange .strict ps = .error (unclaimedError ps k) := by
  cases first : firstUnclaimed? ps with
  | none => exact absurd (firstUnclaimed?_eq_none_iff.1 first) empty
  | some k => exact ⟨k, rfl, by simp only [arrange, first]⟩

/-- The strict policy accepts a list of at most 2³² parameters exactly if their numbers are a
permutation of the slots, and then every object stands at its place.  In every other case it
names the smallest number that no parameter declares, which is one of the slots. -/
theorem strict_outcome (few : ps.length ≤ UInt32.size) :
    ((∃ view, arrange .strict ps = .ok view) ↔ (ordinals ps).Perm (List.range ps.length))
      ∧ (∀ view, arrange .strict ps = .ok view → Placement ps view)
      ∧ (¬ (ordinals ps).Perm (List.range ps.length) →
          ∃ ordinal : UInt32, arrange .strict ps = .error (.unclaimedOrdinal ordinal ps.length)
            ∧ ordinal.toNat < ps.length ∧ ordinal.toNat ∉ ordinals ps
            ∧ ∀ j < ordinal.toNat, j ∈ ordinals ps) := by
  have counted : (ordinals ps).Perm (List.range ps.length) ↔ ∀ k < ps.length, k ∈ ordinals ps := by
    rw [← length_ordinals ps]
    exact perm_range_iff
  rw [counted]
  by_cases occupied : ∀ k < ps.length, k ∈ ordinals ps
  · have accepted := arrange_strict_of_occupied occupied
    refine ⟨iff_of_true ⟨_, accepted⟩ occupied, ?_, fun empty => absurd occupied empty⟩
    intro view arranged
    rw [accepted] at arranged
    cases arranged
    exact placement_claimed occupied
  · rcases exists_arrange_strict_of_empty occupied with ⟨k, first, refused⟩
    rcases firstUnclaimed?_eq_some_iff.1 first with ⟨slot, missing, below⟩
    have exact : (UInt32.ofNatClamp k).toNat = k :=
      UInt32.toNat_ofNatClamp_of_lt (Nat.lt_of_lt_of_le slot few)
    refine ⟨iff_of_false ?_ occupied, ?_, fun _ => ⟨UInt32.ofNatClamp k, refused, ?_⟩⟩
    · rintro ⟨view, arranged⟩
      rw [refused] at arranged
      cases arranged
    · intro view arranged
      rw [refused] at arranged
      cases arranged
    · rw [exact]
      exact ⟨slot, missing, below⟩

/-- Of three parameters that are registered out of order, and of three of which two declare the
same number. -/
theorem strict_outcome_of_three :
    let t : GenericParameter := ⟨0, .null, 0, 0, "T"⟩
    let u : GenericParameter := ⟨1, .null, 2, 0, "U"⟩
    let v : GenericParameter := ⟨2, .null, 1, 0, "V"⟩
    let w : GenericParameter := ⟨3, .null, 0, 0, "W"⟩
    [u, t, v].length ≤ UInt32.size
      ∧ Placement [u, t, v] [t, v, u]
      ∧ ([t, v, u].map GenericParameter.id).count v.id = 1
      ∧ [t, u, w].length ≤ UInt32.size
      ∧ ¬ (ordinals [t, u, w]).Perm (List.range 3)
      ∧ ∃ ordinal : UInt32, arrange .strict [t, u, w] = .error (.unclaimedOrdinal ordinal 3)
          ∧ ordinal.toNat < 3 ∧ ordinal.toNat ∉ ordinals [t, u, w] := by
  intro t u v w
  have few : [u, t, v].length ≤ UInt32.size := by decide
  have few' : [t, u, w].length ≤ UInt32.size := by decide
  have twice : ¬ (ordinals [t, u, w]).Perm (List.range 3) := by decide
  have placed : Placement [u, t, v] [t, v, u] := (strict_outcome few).2.1 _ rfl
  have once := placed.once (by decide) v (by decide)
  rcases (strict_outcome few').2.2 twice with ⟨ordinal, refused, slot, missing, -⟩
  exact ⟨few, placed, once, few', twice, ordinal, refused, slot, missing⟩

/-! ## The lenient policy -/

/-- The view has one parameter for every declared number that has a slot, in ascending order, and
it is the last one in the list that declares it. -/
structure Selection (ps view : List GenericParameter) : Prop where
  ascending : (ordinals view).Pairwise (· < ·)
  numbers : ∀ k, k ∈ ordinals view ↔ k < ps.length ∧ k ∈ ordinals ps
  last : ∀ p ∈ view, LastDeclaring ps p.ordinal p

theorem selection_claimed (ps : List GenericParameter) : Selection ps (claimed ps) where
  ascending := pairwise_ordinals_claimed ps
  numbers _ := mem_ordinals_claimed_iff
  last _ member := (mem_claimed_iff.1 member).2

/-- Ascending numbers are known by which ones they are. -/
theorem eq_of_ascending {l l' : List Nat} (ascending : l.Pairwise (· < ·))
    (ascending' : l'.Pairwise (· < ·)) (same : ∀ k, k ∈ l ↔ k ∈ l') : l = l' := by
  have perm : l.Perm l' := (List.perm_ext_iff_of_nodup (ascending.imp Nat.ne_of_lt)
    (ascending'.imp Nat.ne_of_lt)).2 same
  exact perm.eq_of_pairwise (fun a b _ _ below above => absurd above (Nat.lt_asymm below))
    ascending ascending'

/-- The numbers of a selection tell what stands there. -/
theorem Selection.eq_filterMap (selection : Selection ps view) :
    view = (ordinals view).filterMap (claimant? ps) := by
  have found : ∀ p ∈ view, (claimant? ps ∘ GenericParameter.ordinal) p = some p :=
    fun p member => claimant?_eq_some_iff.2 (selection.last p member)
  rw [ordinals, List.filterMap_map, List.filterMap_congr found, List.filterMap_some]

theorem Selection.eq_claimed (selection : Selection ps view) : view = claimed ps := by
  have known := selection_claimed ps
  have numbers : ordinals view = ordinals (claimed ps) :=
    eq_of_ascending selection.ascending known.ascending fun k =>
      (selection.numbers k).trans (known.numbers k).symm
  rw [selection.eq_filterMap, numbers, ← known.eq_filterMap]

/-- The lenient policy accepts every list and yields the one view that selects, for each number
with a slot, the last parameter that declares it.  It warns of the parameters left out, with
exact numbers, and reports nothing else. -/
theorem lenient_outcome (ps : List GenericParameter) :
    (∀ view, arrange .lenient ps = .ok view ↔ Selection ps view)
      ∧ ∃ view, arrange .lenient ps = .ok view ∧ view.length ≤ ps.length
          ∧ arrangeEvents .lenient ps
              = (if view.length < ps.length then
                  [.skipped (ps.length - view.length) ps.length] else [])
          ∧ ∀ e ∈ arrangeEvents .lenient ps, e.level = .warn := by
  have accepted : arrange .lenient ps = .ok (claimed ps) := rfl
  have lengths := missingCount_of_arrange accepted
  have events := arrangeEvents_of_arrange accepted
  refine ⟨?_, claimed ps, accepted, by omega, events, ?_⟩
  · intro view
    constructor
    · intro arranged
      cases arranged
      exact selection_claimed ps
    · intro selection
      rw [selection.eq_claimed]
      rfl
  · intro e reported
    rw [events] at reported
    split at reported
    · rw [List.mem_singleton.1 reported]
      rfl
    · cases reported

end Generics
end CallableMembers
