import CallableMembers.Proofs.Generics.Reordering

/-!
# Rearrangement — arranging a view once more

A view is shorter than its list where slots were empty, and then it opens fewer slots than the
list did.  Arranged again it keeps the parameters whose numbers still have a slot.  Nothing is
lost exactly if the numbers are those of the slots, and these views stay as they are for good.
-/

namespace CallableMembers
namespace Generics

variable {ps view : List GenericParameter} {l : List Nat}

/-! ## Ascending numbers -/

theorem eq_range_iff_perm (ascending : l.Pairwise (· < ·)) :
    l = List.range l.length ↔ l.Perm (List.range l.length) := by
  constructor
  · intro same
    exact .of_eq same
  · intro perm
    exact eq_of_ascending ascending List.pairwise_lt_range fun k => perm.mem_iff

/-- As many ascending numbers as there are slots, none beyond the slots: then none is left out. -/
theorem eq_range_iff_forall_lt (ascending : l.Pairwise (· < ·)) :
    l = List.range l.length ↔ ∀ k ∈ l, k < l.length := by
  rw [eq_range_iff_perm ascending]
  constructor
  · intro perm k member
    exact List.mem_range.1 (perm.subset member)
  · intro below
    have inside : l ⊆ List.range l.length := fun k member => List.mem_range.2 (below k member)
    have part : l.Subperm (List.range l.length) :=
      List.subperm_of_subset (ascending.imp Nat.ne_of_lt) inside
    exact part.perm_of_length_le (Nat.le_of_eq List.length_range)

theorem eq_range_iff_forall_mem (ascending : l.Pairwise (· < ·)) :
    l = List.range l.length ↔ ∀ k < l.length, k ∈ l :=
  (eq_range_iff_perm ascending).trans perm_range_iff

/-! ## Views as lists -/

section Ascending

variable (ascending : (ordinals view).Pairwise (· < ·))

include ascending

/-- No number occurs twice, so nobody gives way: what has a slot is selected. -/
theorem selection_filter :
    Selection view (view.filter fun p => decide (p.ordinal < view.length)) where
  ascending := ascending.sublist (List.filter_sublist.map GenericParameter.ordinal)
  numbers k := by
    simp only [ordinals, List.mem_map, List.mem_filter, decide_eq_true_iff]
    constructor
    · rintro ⟨p, ⟨member, slot⟩, rfl⟩
      exact ⟨slot, p, member, rfl⟩
    · rintro ⟨slot, p, member, rfl⟩
      exact ⟨p, ⟨member, slot⟩, rfl⟩
  last p member := by
    have distinct : (ordinals view).Nodup := ascending.imp Nat.ne_of_lt
    exact (lastDeclaring_iff_of_nodup distinct).2 ⟨List.mem_of_mem_filter member, rfl⟩

theorem claimed_eq_filter :
    claimed view = view.filter fun p => decide (p.ordinal < view.length) :=
  (selection_filter ascending).eq_claimed.symm

theorem claimed_eq_self_iff : claimed view = view ↔ ordinals view = List.range view.length := by
  calc
    claimed view = view ↔ ∀ p ∈ view, p.ordinal < view.length := by
      rw [claimed_eq_filter ascending, List.filter_eq_self]
      simp only [decide_eq_true_iff]
    _ ↔ ∀ k ∈ ordinals view, k < (ordinals view).length := by
      simp only [ordinals, List.forall_mem_map, List.length_map]
    _ ↔ ordinals view = List.range view.length := by
      rw [← eq_range_iff_forall_lt ascending, length_ordinals]

end Ascending

/-! ## The strict policy -/

theorem arrange_strict_iff :
    arrange .strict ps = .ok view ↔ (∀ k < ps.length, k ∈ ordinals ps) ∧ view = claimed ps := by
  constructor
  · intro arranged
    refine ⟨Classical.byContradiction fun empty => ?_, (eq_claimed_of_arrange arranged).1⟩
    rcases exists_arrange_strict_of_empty empty with ⟨k, -, refused⟩
    rw [refused] at arranged
    cases arranged
  · rintro ⟨occupied, rfl⟩
    exact arrange_strict_of_occupied occupied

theorem exists_arrange_strict_iff (ascending : (ordinals view).Pairwise (· < ·)) :
    (∃ again, arrange .strict view = .ok again) ↔ ordinals view = List.range view.length := by
  simp only [arrange_strict_iff, exists_and_left, exists_eq, and_true]
  rw [← length_ordinals view, eq_range_iff_forall_mem ascending]

/-- Numbers that are the slots, in their order, are left alone by either policy. -/
theorem arrange_eq_self (inPlace : ordinals view = List.range view.length) (policy : GapPolicy) :
    arrange policy view = .ok view := by
  have ascending : (ordinals view).Pairwise (· < ·) := by
    rw [inPlace]
    exact List.pairwise_lt_range
  have same : claimed view = view := (claimed_eq_self_iff ascending).2 inPlace
  cases policy with
  | lenient => exact congrArg Except.ok same
  | strict =>
      refine arrange_strict_iff.2 ⟨fun k slot => ?_, same.symm⟩
      rw [inPlace]
      exact List.mem_range.2 slot

theorem ordinals_of_arrange_strict (arranged : arrange .strict ps = .ok view) :
    ordinals view = List.range view.length := by
  rcases arrange_strict_iff.1 arranged with ⟨occupied, rfl⟩
  rw [ordinals_claimed_of_occupied occupied, (claimed_perm_of_occupied occupied).length_eq]

/-! ## Arranging a view again -/

/-- Arranged again, a lenient view keeps the entries whose numbers are below its length, in their
order.  It comes out as it was exactly if its numbers count up from zero without a gap, and
exactly then the strict policy accepts it too.  What the strict policy makes of a list is left as
it is by both policies. -/
theorem rearranged_view (ps : List GenericParameter) :
    ∃ view again, arrange .lenient ps = .ok view ∧ arrange .lenient view = .ok again
      ∧ again.Sublist view
      ∧ again = view.filter (fun p => decide (p.ordinal < view.length))
      ∧ (again = view ↔ ordinals view = List.range view.length)
      ∧ ((∃ accepted, arrange .strict view = .ok accepted)
          ↔ ordinals view = List.range view.length)
      ∧ ∀ result, arrange .strict ps = .ok result →
          ∀ policy, arrange policy result = .ok result := by
  have ascending : (ordinals (claimed ps)).Pairwise (· < ·) := pairwise_ordinals_claimed ps
  have kept := claimed_eq_filter ascending
  have part : (claimed (claimed ps)).Sublist (claimed ps) := by
    rw [kept]
    exact List.filter_sublist
  exact ⟨claimed ps, claimed (claimed ps), rfl, rfl, part, kept, claimed_eq_self_iff ascending,
    exists_arrange_strict_iff ascending,
    fun _ arranged => arrange_eq_self (ordinals_of_arrange_strict arranged)⟩

/-- Four parameters leave a gap at two, so the one with the number three has no slot among the
three of the view.  Without it the numbers have no gap. -/
theorem rearranged_view_of_gap :
    let t : GenericParameter := ⟨0, .null, 3, 0, "T"⟩
    let u : GenericParameter := ⟨1, .null, 1, 0, "U"⟩
    let v : GenericParameter := ⟨2, .null, 0, 0, "V"⟩
    let w : GenericParameter := ⟨3, .null, 9, 0, "W"⟩
    arrange .lenient [t, u, v, w] = .ok [v, u, t] ∧ arrange .lenient [v, u, t] = .ok [v, u]
      ∧ [v, u].Sublist [v, u, t]
      ∧ (¬ ∃ accepted, arrange .strict [v, u, t] = .ok accepted)
      ∧ arrange .strict [u, v] = .ok [v, u]
      ∧ ∀ policy, arrange policy [v, u] = .ok [v, u] := by
  intro t u v w
  have first : arrange .lenient [t, u, v, w] = .ok [v, u, t] := rfl
  have second : arrange .lenient [v, u, t] = .ok [v, u] := rfl
  have accepted : arrange .strict [u, v] = .ok [v, u] := rfl
  rcases rearranged_view [t, u, v, w] with
    ⟨view, again, arranged, arranged', part, -, -, strict, -⟩
  rcases rearranged_view [u, v] with ⟨_, _, _, _, _, _, _, _, fixed⟩
  rw [first] at arranged
  cases arranged
  rw [second] at arranged'
  cases arranged'
  have gap : ¬ ordinals [v, u, t] = List.range [v, u, t].length := by decide
  exact ⟨first, second, part, mt strict.1 gap, accepted, fixed _ accepted⟩

end Generics
end CallableMembers
