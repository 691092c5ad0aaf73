import CallableMembers.Proofs.Generics.Outcomes
import Mathlib.Data.List.FinRange

/-!
# Reordering — what the order of registration decides

Which numbers stand in a view, whether a strict arrangement succeeds and what is reported depend
on the declared numbers alone.  The order of the list decides only between parameters that
declare the same number: a reordering that leaves these in their order leaves every view as it is.
-/

namespace CallableMembers
namespace Generics

variable {ps qs : List GenericParameter} {p : GenericParameter} {k : Nat}

/-! ## Reorderings -/

/-- The list in another order: at place `i` stands what stood at place `σ i`. -/
def reordered (ps : List GenericParameter) (σ : Equiv.Perm (Fin ps.length)) :
    List GenericParameter :=
  List.ofFn fun i => ps[σ i]

/-- Parameters that declare the same number come in the order in which they came before. -/
def KeepsTies (ps : List GenericParameter) (σ : Equiv.Perm (Fin ps.length)) : Prop :=
  ∀ i j, i < j → ps[σ i].ordinal = ps[σ j].ordinal → σ i < σ j

theorem reordered_perm (ps : List GenericParameter) (σ : Equiv.Perm (Fin ps.length)) :
    (reordered ps σ).Perm ps := by
  have perm : (reordered ps σ).Perm (List.ofFn fun i : Fin ps.length => ps[i]) :=
    σ.ofFn_comp_perm fun i : Fin ps.length => ps[i]
  simpa using perm

/-! ## What the numbers decide -/

theorem mem_ordinals_of_perm (perm : ps.Perm qs) : k ∈ ordinals ps ↔ k ∈ ordinals qs :=
  (perm.map GenericParameter.ordinal).mem_iff

theorem ordinals_claimed_of_perm (perm : ps.Perm qs) :
    ordinals (claimed ps) = ordinals (claimed qs) := by
  simp only [ordinals_claimed, perm.length_eq, mem_ordinals_of_perm perm]

theorem missingCount_of_perm (perm : ps.Perm qs) : missingCount ps = missingCount qs := by
  have occupied : (claimed ps).length = (claimed qs).length := by
    simpa using congrArg List.length (ordinals_claimed_of_perm perm)
  have slots := length_claimed_add_missingCount ps
  have slots' := length_claimed_add_missingCount qs
  have length := perm.length_eq
  omega

theorem arrangeEvents_of_perm (perm : ps.Perm qs) (policy : GapPolicy) :
    arrangeEvents policy ps = arrangeEvents policy qs := by
  cases policy with
  | strict => rfl
  | lenient => simp only [arrangeEvents, missingCount_of_perm perm, perm.length_eq]

theorem firstUnclaimed?_of_perm (perm : ps.Perm qs) : firstUnclaimed? ps = firstUnclaimed? qs := by
  ext k
  simp only [firstUnclaimed?_eq_some_iff, perm.length_eq, mem_ordinals_of_perm perm]

/-! ## What stands in a slot -/

/-- Views are equal if every slot goes to the same parameter. -/
theorem claimed_congr (length : ps.length = qs.length)
    (same : ∀ k, claimant? ps k = claimant? qs k) : claimed ps = claimed qs := by
  have slot : claimant? ps = claimant? qs := funext same
  simp only [claimed_eq, length, slot]

/-- Among distinct numbers, whoever declares a number is the last one to declare it. -/
theorem lastDeclaring_iff_of_nodup (distinct : (ordinals ps).Nodup) :
    LastDeclaring ps k p ↔ p ∈ ps ∧ p.ordinal = k := by
  constructor
  · intro last
    exact ⟨last.mem, last.ordinal⟩
  · rintro ⟨member, declared⟩
    rcases List.append_of_mem member with ⟨before, after, rfl⟩
    refine ⟨before, after, rfl, declared, ?_⟩
    -- A second parameter with the number behind this one would repeat it.
    have behind : (ordinals (p :: after)).Nodup := by
      rw [ordinals, List.map_append] at distinct
      exact distinct.of_append_right
    rw [← declared]
    exact (List.nodup_cons.1 behind).1

theorem claimed_of_perm_of_nodup (perm : ps.Perm qs) (distinct : (ordinals ps).Nodup) :
    claimed ps = claimed qs := by
  have distinct' : (ordinals qs).Nodup := (perm.map GenericParameter.ordinal).nodup_iff.1 distinct
  refine claimed_congr perm.length_eq fun k => ?_
  ext p
  calc
    claimant? ps k = some p ↔ p ∈ ps ∧ p.ordinal = k :=
      claimant?_eq_some_iff.trans (lastDeclaring_iff_of_nodup distinct)
    _ ↔ p ∈ qs ∧ p.ordinal = k := and_congr_left' perm.mem_iff
    _ ↔ claimant? qs k = some p :=
      (claimant?_eq_some_iff.trans (lastDeclaring_iff_of_nodup distinct')).symm

/-- The last declaration, said of places instead of parts of the list. -/
theorem lastDeclaring_ofFn_iff {n : Nat} {f : Fin n → GenericParameter} :
    LastDeclaring (List.ofFn f) k p
      ↔ ∃ i, f i = p ∧ p.ordinal = k ∧ ∀ j, i < j → (f j).ordinal ≠ k := by
  constructor
  · rintro ⟨before, after, split, declared, others⟩
    have shown : ∀ j : Fin n, (before ++ p :: after)[j.val]? = some (f j) := by
      intro j
      simp [← split]
    have length : n = before.length + (after.length + 1) := by
      simpa using congrArg List.length split
    let i : Fin n := ⟨before.length, by omega⟩
    have here : f i = p := by simpa [i] using (shown i).symm
    refine ⟨i, here, declared, ?_⟩
    intro j behind same
    -- A later place lies in the part behind the parameter.
    have member : f j ∈ after := by
      have below : before.length < j.val := behind
      have place : j.val - before.length = j.val - before.length - 1 + 1 := by omega
      have found := shown j
      rw [List.getElem?_append_right (Nat.le_of_lt below), place, List.getElem?_cons_succ] at found
      exact List.mem_of_getElem? found
    exact others (List.mem_map.2 ⟨f j, member, same⟩)
  · rintro ⟨i, rfl, declared, others⟩
    have inside : i.val < (List.ofFn f).length := by simp
    refine ⟨(List.ofFn f).take i, (List.ofFn f).drop (i + 1), ?_, declared, ?_⟩
    · calc
        List.ofFn f = (List.ofFn f).take i ++ (List.ofFn f).drop i :=
          (List.take_append_drop ..).symm
        _ = (List.ofFn f).take i ++ f i :: (List.ofFn f).drop (i + 1) := by
          simp [List.drop_eq_getElem_cons inside]
    · intro again
      rcases List.mem_map.1 again with ⟨q, member, same⟩
      rcases List.mem_iff_getElem.1 member with ⟨j, inside', rfl⟩
      have within : i + 1 + j < n := by
        simp only [List.length_drop, List.length_ofFn] at inside'
        omega
      refine others ⟨i + 1 + j, within⟩ (Fin.lt_def.2 (by simp; omega)) ?_
      simpa using same

/-! ## Reorderings that keep ties -/

section Ties

variable {σ : Equiv.Perm (Fin ps.length)} (keeps : KeepsTies ps σ)

include keeps

/-- The last one to declare a number stays the last one. -/
theorem LastDeclaring.reordered (last : LastDeclaring ps k p) :
    LastDeclaring (reordered ps σ) k p := by
  have places : (List.ofFn fun i : Fin ps.length => ps[i]) = ps := by simp
  rw [← places] at last
  rcases lastDeclaring_ofFn_iff.1 last with ⟨i, here, declared, others⟩
  have back : σ (σ.symm i) = i := σ.apply_symm_apply i
  refine lastDeclaring_ofFn_iff.2 ⟨σ.symm i, by simpa [back] using here, declared, ?_⟩
  intro j behind same
  -- Behind it now means behind it before, among those that declare the number.
  have tied : ps[σ (σ.symm i)].ordinal = ps[σ j].ordinal := by
    calc
      ps[σ (σ.symm i)].ordinal = k := by simpa [back, here] using declared
      _ = ps[σ j].ordinal := same.symm
  have before : i < σ j := by simpa [back] using keeps _ _ behind tied
  exact others (σ j) before same

theorem claimed_reordered : claimed (reordered ps σ) = claimed ps := by
  have perm := reordered_perm ps σ
  refine claimed_congr perm.length_eq fun k => ?_
  cases slot : claimant? ps k with
  | none =>
      have undeclared : k ∉ ordinals ps := claimant?_eq_none_iff.1 slot
      have undeclared' : k ∉ ordinals (reordered ps σ) := fun declared =>
        undeclared ((mem_ordinals_of_perm perm).1 declared)
      exact claimant?_eq_none_iff.2 undeclared'
  | some p =>
      have last : LastDeclaring ps k p := claimant?_eq_some_iff.1 slot
      exact claimant?_eq_some_iff.2 (last.reordered keeps)

end Ties

/-! ## Arrangements of a reordered list -/

/-- Under the strict policy the order of the list makes no difference at all. -/
theorem arrange_strict_of_perm (perm : ps.Perm qs) : arrange .strict ps = arrange .strict qs := by
  have first := firstUnclaimed?_of_perm perm
  cases unclaimed : firstUnclaimed? qs with
  | some k =>
      rw [unclaimed] at first
      simp only [arrange, first, unclaimed, unclaimedError, perm.length_eq]
  | none =>
      rw [unclaimed] at first
      -- Every slot is claimed, so the numbers are the slots and no two of them are equal.
      have slots : (ordinals ps).Perm (List.range (ordinals ps).length) := by
        refine perm_range_iff.2 ?_
        rw [length_ordinals]
        exact firstUnclaimed?_eq_none_iff.1 first
      have distinct : (ordinals ps).Nodup := slots.nodup_iff.2 List.nodup_range
      simp only [arrange, first, unclaimed, claimed_of_perm_of_nodup perm distinct]

/-- However a list is reordered, the strict policy gives the same view or the same error.  The
lenient policy gives the same numbers and the same warning, and the same view if the reordering
keeps the order of the parameters that share a number, as it does if all numbers are distinct. -/
theorem outcome_reordered (ps : List GenericParameter) (σ : Equiv.Perm (Fin ps.length)) :
    arrange .strict (reordered ps σ) = arrange .strict ps
      ∧ (∀ policy, arrangeEvents policy (reordered ps σ) = arrangeEvents policy ps)
      ∧ ∃ view view', arrange .lenient ps = .ok view
          ∧ arrange .lenient (reordered ps σ) = .ok view'
          ∧ ordinals view' = ordinals view
          ∧ (KeepsTies ps σ → view' = view)
          ∧ ((ordinals ps).Nodup → view' = view) := by
  have perm := reordered_perm ps σ
  refine ⟨arrange_strict_of_perm perm, arrangeEvents_of_perm perm, claimed ps,
    claimed (reordered ps σ), rfl, rfl, ordinals_claimed_of_perm perm, claimed_reordered, ?_⟩
  intro distinct
  exact (claimed_of_perm_of_nodup perm.symm distinct).symm

/-- Of two parameters that share a number the later one stands in the view.  Moving the third
parameter between them changes nothing; exchanging the two does. -/
theorem outcome_reordered_of_tie :
    let t : GenericParameter := ⟨0, .null, 0, 0, "T"⟩
    let u : GenericParameter := ⟨1, .null, 1, 0, "U"⟩
    let w : GenericParameter := ⟨2, .null, 0, 0, "W"⟩
    let keeping : Equiv.Perm (Fin [t, w, u].length) := Equiv.swap 1 2
    let breaking : Equiv.Perm (Fin [t, w, u].length) := Equiv.swap 0 1
    KeepsTies [t, w, u] keeping ∧ reordered [t, w, u] keeping = [t, u, w]
      ∧ arrange .lenient [t, w, u] = .ok [w, u] ∧ arrange .lenient [t, u, w] = .ok [w, u]
      ∧ arrangeEvents .lenient [t, u, w] = [.skipped 1 3]
      ∧ ¬ KeepsTies [t, w, u] breaking
      ∧ arrange .lenient (reordered [t, w, u] breaking) = .ok [t, u] := by
  intro t u w keeping breaking
  have keeps : KeepsTies [t, w, u] keeping := by
    unfold KeepsTies
    decide
  have moved : reordered [t, w, u] keeping = [t, u, w] := by decide
  rcases outcome_reordered [t, w, u] keeping with
    ⟨-, reports, view, view', first, second, -, same, -⟩
  have shown : view = [w, u] := by
    cases first
    decide
  rw [moved, same keeps, shown] at second
  have warned : arrangeEvents .lenient [t, u, w] = [.skipped 1 3] := by
    rw [← moved, reports]
    decide
  refine ⟨keeps, moved, by rw [first, shown], second, warned, ?_, rfl⟩
  unfold KeepsTies
  decide

end Generics
end CallableMembers
