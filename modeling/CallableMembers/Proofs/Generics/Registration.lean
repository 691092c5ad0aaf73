import CallableMembers.Proofs.Generics.RosterHistory
import CallableMembers.Proofs.Generics.Slots

/-!
# Registration — what one more parameter changes in a lenient view

A parameter at the end of the list takes the slot of its number from whoever had it.  The list is
longer by one, so there is also one more slot, which a parameter that had none before may claim.
Everything else stays where it was.
-/

namespace CallableMembers
namespace Generics

variable {ps : List GenericParameter} {p q : GenericParameter} {k : Nat}

/-! ## One more parameter in the list -/

/-- The new parameter comes last, so it is the last one to declare its number. -/
theorem lastDeclaring_concat_iff :
    LastDeclaring (ps ++ [p]) k q ↔ if p.ordinal = k then q = p else LastDeclaring ps k q := by
  rw [← claimant?_eq_some_iff, claimant?_concat]
  split
  · rw [Option.some.injEq, eq_comm]
  · exact claimant?_eq_some_iff

theorem mem_ordinals_concat_iff : k ∈ ordinals (ps ++ [p]) ↔ k ∈ ordinals ps ∨ k = p.ordinal := by
  simp [ordinals]

/-! ## One more parameter in the view -/

theorem mem_claimed_concat_iff :
    q ∈ claimed (ps ++ [p])
      ↔ q.ordinal ≤ ps.length
        ∧ if p.ordinal = q.ordinal then q = p else LastDeclaring ps q.ordinal q := by
  rw [mem_claimed_iff, lastDeclaring_concat_iff, List.length_append, List.length_singleton,
    Nat.lt_succ_iff]

theorem mem_ordinals_claimed_concat_iff :
    k ∈ ordinals (claimed (ps ++ [p]))
      ↔ k ≤ ps.length ∧ (k ∈ ordinals ps ∨ k = p.ordinal) := by
  rw [mem_ordinals_claimed_iff, mem_ordinals_concat_iff, List.length_append,
    List.length_singleton, Nat.lt_succ_iff]

/-- The new parameter is seen exactly if its number has a slot by then. -/
theorem mem_claimed_concat_self : p ∈ claimed (ps ++ [p]) ↔ p.ordinal ≤ ps.length := by
  rw [mem_claimed_concat_iff]
  simp

/-- What stood in the view stands there still, unless the new parameter takes its place. -/
theorem mem_claimed_concat_of_mem (member : q ∈ claimed ps) :
    (if q.ordinal = p.ordinal then p else q) ∈ claimed (ps ++ [p]) := by
  have ⟨slot, last⟩ := mem_claimed_iff.1 member
  have slot' : q.ordinal ≤ ps.length := Nat.le_of_lt slot
  split
  · next shared =>
      rw [shared] at slot'
      exact mem_claimed_concat_self.2 slot'
  · next apart =>
      refine mem_claimed_concat_iff.2 ⟨slot', ?_⟩
      rwa [if_neg (Ne.symm apart)]

/-- Whoever else is new in the view declares the slot that was opened. -/
theorem cases_of_mem_claimed_concat (member : q ∈ claimed (ps ++ [p])) :
    q ∈ claimed ps ∨ q = p ∨ (q.ordinal = ps.length ∧ LastDeclaring ps q.ordinal q) := by
  have ⟨slot, declaring⟩ := mem_claimed_concat_iff.1 member
  split at declaring
  · exact .inr (.inl declaring)
  · rcases Nat.lt_or_eq_of_le slot with before | opened
    · exact .inl (mem_claimed_iff.2 ⟨before, declaring⟩)
    · exact .inr (.inr ⟨opened, declaring⟩)

/-! ## Numbers of the view -/

theorem ordinals_claimed_subset_concat (ps : List GenericParameter) (p : GenericParameter) :
    ordinals (claimed ps) ⊆ ordinals (claimed (ps ++ [p])) := by
  intro k member
  have ⟨slot, declared⟩ := mem_ordinals_claimed_iff.1 member
  exact mem_ordinals_claimed_concat_iff.2 ⟨Nat.le_of_lt slot, .inl declared⟩

/-- Only the number of the new parameter and the number of the new slot can come in. -/
theorem ordinals_claimed_concat_subset (ps : List GenericParameter) (p : GenericParameter) :
    ordinals (claimed (ps ++ [p])) ⊆ p.ordinal :: ps.length :: ordinals (claimed ps) := by
  intro k member
  rcases List.mem_map.1 member with ⟨q, found, rfl⟩
  rcases cases_of_mem_claimed_concat found with before | rfl | ⟨opened, -⟩
  · exact List.mem_cons_of_mem _ (List.mem_cons_of_mem _ (List.mem_map_of_mem before))
  · exact List.mem_cons_self ..
  · rw [opened]
    exact List.mem_cons_of_mem _ (List.mem_cons_self ..)

/-- A view that has no number twice is no longer than any list with all of its numbers. -/
theorem length_claimed_le_of_subset {ps : List GenericParameter} {l : List Nat}
    (inside : ordinals (claimed ps) ⊆ l) : (claimed ps).length ≤ l.length := by
  rw [← length_ordinals]
  exact ((nodup_ordinals_claimed ps).subperm inside).length_le

/-! ## Views of a roster -/

namespace Roster

/-- Whatever was asked of the roster before, under the lenient policy it shows the lenient view of
what was registered, and the next registration puts one more parameter behind it. -/
theorem view_of_lenient {start : GapPolicy} {calls : List Call}
    (lenient : policyInForce start calls = .lenient) (p : GenericParameter) :
    let r := (withPolicy start).after calls
    r.read.view = arrange .lenient (registered calls)
      ∧ (r.register p).read.view = arrange .lenient (registered calls ++ [p]) := by
  intro r
  have current : r.Current := (current_withPolicy start).after calls
  have policy : r.policy = .lenient := (policy_after (withPolicy start) calls).trans lenient
  have params : r.params = registered calls := params_after (withPolicy start) calls
  have next : (r.register p).Current := current.perform (.register p)
  rw [current.view_read, next.view_read, policy, params]
  refine ⟨rfl, ?_⟩
  calc
    arrange (r.register p).policy (r.register p).params
        = arrange r.policy (r.params ++ [p]) := rfl
    _ = arrange .lenient (registered calls ++ [p]) := by rw [policy, params]

end Roster

/-! ## Registration is local -/

/-- How the lenient view of a list differs from that of the list with one more parameter. -/
structure LocalGrowth (ps : List GenericParameter) (p : GenericParameter)
    (view view' : List GenericParameter) : Prop where
  /-- Every object stays, unless the new one declares its number and takes the place. -/
  kept : ∀ q ∈ view, (if q.ordinal = p.ordinal then p else q) ∈ view'
  seen : p ∈ view' ↔ p.ordinal ≤ ps.length
  /-- The slot that was opened may go to the last earlier parameter that declares it. -/
  newcomers : ∀ q ∈ view', q ∈ view ∨ q = p
    ∨ (q.ordinal = ps.length ∧ LastDeclaring ps q.ordinal q)
  once : (ordinals view').Nodup
  numbersKept : ordinals view ⊆ ordinals view'
  numbersAdded : ordinals view' ⊆ p.ordinal :: ps.length :: ordinals view
  longer : view.length ≤ view'.length
  bounded : view'.length ≤ view.length + 2

theorem localGrowth_claimed (ps : List GenericParameter) (p : GenericParameter) :
    LocalGrowth ps p (claimed ps) (claimed (ps ++ [p])) where
  kept _ := mem_claimed_concat_of_mem
  seen := mem_claimed_concat_self
  newcomers _ := cases_of_mem_claimed_concat
  once := nodup_ordinals_claimed _
  numbersKept := ordinals_claimed_subset_concat ps p
  numbersAdded := ordinals_claimed_concat_subset ps p
  longer := by
    rw [← length_ordinals (claimed (ps ++ [p]))]
    exact length_claimed_le_of_subset (ordinals_claimed_subset_concat ps p)
  bounded := by
    rw [← length_ordinals (claimed ps)]
    exact length_claimed_le_of_subset (ordinals_claimed_concat_subset ps p)

/-- When a parameter is put behind a list of `n`, every number of the lenient view stays in it,
and with it the very object that stood there, unless the new parameter declares that number and
takes the place.  The new parameter is in the view exactly if its number is at most `n`, and apart
from its number only `n` can come in.  A roster under the lenient policy shows these two views
before and after the parameter is registered. -/
theorem registration_local (ps : List GenericParameter) (p : GenericParameter) :
    ∃ view view', arrange .lenient ps = .ok view ∧ arrange .lenient (ps ++ [p]) = .ok view'
      ∧ LocalGrowth ps p view view'
      ∧ ∀ (start : GapPolicy) (calls : List Roster.Call),
          Roster.policyInForce start calls = .lenient → Roster.registered calls = ps →
            let r := (Roster.withPolicy start).after calls
            r.read.view = .ok view ∧ (r.register p).read.view = .ok view' := by
  refine ⟨claimed ps, claimed (ps ++ [p]), rfl, rfl, localGrowth_claimed ps p, ?_⟩
  rintro start calls lenient rfl
  exact Roster.view_of_lenient lenient p

/-- The second parameter to declare zero takes the place of the first, and the slot opened by it
goes to a parameter that had none.  The roster was strict at first, and its view could not be
arranged then. -/
theorem registration_local_of_opened_slot :
    let u : GenericParameter := ⟨0, .null, 2, 0, "U"⟩
    let t : GenericParameter := ⟨1, .null, 0, 0, "T"⟩
    let v : GenericParameter := ⟨2, .null, 0, 0, "V"⟩
    let calls : List Roster.Call := [.register u, .register t, .read, .setPolicy .lenient]
    let r := Roster.empty.after calls
    arrange .lenient [u, t] = .ok [t] ∧ arrange .lenient [u, t, v] = .ok [v, u]
      ∧ LocalGrowth [u, t] v [t] [v, u]
      ∧ v ∈ [v, u] ∧ t ∉ [v, u] ∧ t.ordinal = v.ordinal
      ∧ u ∉ [t] ∧ u.ordinal = [u, t].length
      ∧ Roster.policyInForce .strict calls = .lenient ∧ Roster.registered calls = [u, t]
      ∧ r.read.view = .ok [t] ∧ (r.register v).read.view = .ok [v, u] := by
  intro u t v calls r
  have before : arrange .lenient [u, t] = .ok [t] := rfl
  have after : arrange .lenient ([u, t] ++ [v]) = .ok [v, u] := rfl
  have lenient : Roster.policyInForce .strict calls = .lenient := rfl
  have listed : Roster.registered calls = [u, t] := rfl
  rcases registration_local [u, t] v with ⟨view, view', arranged, arranged', growth, shown⟩
  rw [before] at arranged
  rw [after] at arranged'
  cases arranged
  cases arranged'
  have taken : v ∈ [v, u] := growth.kept t (List.mem_singleton.2 rfl)
  have ⟨first, second⟩ := shown .strict calls lenient listed
  exact ⟨before, after, growth, taken, by decide, rfl, by decide, rfl, lenient, listed, first,
    second⟩

end Generics
end CallableMembers
