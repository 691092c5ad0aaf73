import CallableMembers.OrderedMap

/-!
# MapValues — the values of an ordered map after a change

Storing a value exchanges it for the value that had the key; forgetting a key takes its value
away.  Every other value stays, as often as it is there.
-/

namespace CallableMembers

universe u v

variable {κ : Type u} {ν : Type v} [Ord κ] [Std.TransOrd κ]

/-- The value that a sorted list has for a key. -/
def lookupAscending (k : κ) (l : List (κ × ν)) : Option ν :=
  (l.find? fun e => compare k e.1 == .eq).map Prod.snd

/-- Every key from a greater one on is greater. -/
theorem lookupAscending_of_lt {k : κ} {a : κ × ν} {l : List (κ × ν)}
    (below : compare k a.1 = .lt) (sorted : (a :: l).Pairwise fun a b => compare a.1 b.1 = .lt) :
    lookupAscending k (a :: l) = none := by
  have ⟨first, _⟩ := List.pairwise_cons.1 sorted
  have apart : ∀ e ∈ a :: l, ¬ (compare k e.1 == .eq) = true := by
    intro e member
    rcases List.mem_cons.1 member with rfl | member
    · simp [below]
    · simp [Std.TransCmp.lt_trans below (first e member)]
  simp [lookupAscending, List.find?_eq_none.2 apart]

/-- A key stands once, so the entries behind it have other keys. -/
theorem filter_ne_tail {k : κ} {a : κ × ν} {l : List (κ × ν)} (same : compare k a.1 = .eq)
    (sorted : (a :: l).Pairwise fun a b => compare a.1 b.1 = .lt) :
    l.filter (fun e => compare k e.1 != .eq) = l := by
  have ⟨first, _⟩ := List.pairwise_cons.1 sorted
  apply List.filter_eq_self.2
  intro e member
  simp [Std.TransCmp.lt_of_eq_of_lt same (first e member)]

theorem values_insertAscending_perm (k : κ) (x : ν) {l : List (κ × ν)}
    (sorted : l.Pairwise fun a b => compare a.1 b.1 = .lt) :
    ((insertAscending k x l).map Prod.snd ++ (lookupAscending k l).toList).Perm
      (x :: l.map Prod.snd) := by
  induction l with
  | nil => simp [insertAscending, lookupAscending]
  | cons a l ih =>
      unfold insertAscending
      split
      · -- Below the head: the key is new.
        next below => simp [lookupAscending_of_lt below sorted]
      · -- At the head: its value is exchanged.
        next same =>
          have found : lookupAscending k (a :: l) = some a.2 := by
            simp [lookupAscending, same]
          simp only [found, List.map_cons, Option.toList_some, List.cons_append]
          exact List.Perm.cons x List.perm_append_comm
      · -- Above the head: the change happens behind it.
        next above =>
          have skipped : lookupAscending k (a :: l) = lookupAscending k l := by
            simp [lookupAscending, above]
          rw [skipped, List.map_cons, List.map_cons, List.cons_append]
          exact (List.Perm.cons a.2 (ih (List.pairwise_cons.1 sorted).2)).trans (List.Perm.swap ..)

theorem values_filter_perm (k : κ) {l : List (κ × ν)}
    (sorted : l.Pairwise fun a b => compare a.1 b.1 = .lt) :
    ((l.filter fun e => compare k e.1 != .eq).map Prod.snd ++ (lookupAscending k l).toList).Perm
      (l.map Prod.snd) := by
  induction l with
  | nil => simp [lookupAscending]
  | cons a l ih =>
      by_cases same : compare k a.1 = .eq
      · have found : lookupAscending k (a :: l) = some a.2 := by
          simp [lookupAscending, same]
        rw [found, List.filter_cons_of_neg (by simp [same]), filter_ne_tail same sorted]
        exact List.perm_append_comm
      · have skipped : lookupAscending k (a :: l) = lookupAscending k l := by
          simp [lookupAscending, same]
        rw [skipped, List.filter_cons_of_pos (by simp [same])]
        exact List.Perm.cons a.2 (ih (List.pairwise_cons.1 sorted).2)

theorem lookupAscending_of_mem {e : κ × ν} {l : List (κ × ν)}
    (sorted : l.Pairwise fun a b => compare a.1 b.1 = .lt) (member : e ∈ l) :
    lookupAscending e.1 l = some e.2 := by
  induction l with
  | nil => cases member
  | cons a l ih =>
      have ⟨first, rest⟩ := List.pairwise_cons.1 sorted
      rcases List.mem_cons.1 member with rfl | member
      · simp [lookupAscending]
      · have above : compare e.1 a.1 = .gt := Std.OrientedCmp.gt_iff_lt.2 (first e member)
        simpa [lookupAscending, above] using ih rest member

namespace OrderedMap

theorem find?_insert_self (m : OrderedMap κ ν) (k : κ) (x : ν) :
    (m.insert k x).find? k = some x := by
  rw [find?_insert]
  simp

theorem find?_insert_of_ne [Std.LawfulEqOrd κ] (m : OrderedMap κ ν) {k k' : κ} (apart : k' ≠ k)
    (x : ν) : (m.insert k x).find? k' = m.find? k' := by
  rw [find?_insert, if_neg (by simpa using apart)]

theorem find?_erase_self (m : OrderedMap κ ν) (k : κ) : (m.erase k).find? k = none := by
  rw [find?_erase]
  simp

theorem values_insert_perm (m : OrderedMap κ ν) (k : κ) (x : ν) :
    ((m.insert k x).values ++ (m.find? k).toList).Perm (x :: m.values) :=
  values_insertAscending_perm k x m.ascending

theorem values_erase_perm (m : OrderedMap κ ν) (k : κ) :
    ((m.erase k).values ++ (m.find? k).toList).Perm m.values :=
  values_filter_perm k m.ascending

/-- The entries are what can be looked up. -/
theorem mem_entries_iff [Std.LawfulEqOrd κ] {m : OrderedMap κ ν} {k : κ} {x : ν} :
    (k, x) ∈ m.entries ↔ m.find? k = some x := by
  constructor
  · exact lookupAscending_of_mem m.ascending
  · intro found
    rcases Option.map_eq_some_iff.1 found with ⟨e, listed, rfl⟩
    have same : k = e.1 := by simpa using List.find?_some listed
    exact same ▸ List.mem_of_find?_eq_some listed

theorem mem_values_iff {m : OrderedMap κ ν} {x : ν} : x ∈ m.values ↔ ∃ k, m.find? k = some x := by
  constructor
  · intro member
    rcases List.mem_map.1 member with ⟨e, listed, rfl⟩
    exact ⟨e.1, lookupAscending_of_mem m.ascending listed⟩
  · rintro ⟨k, found⟩
    rcases Option.map_eq_some_iff.1 found with ⟨e, listed, rfl⟩
    exact List.mem_map.2 ⟨e, List.mem_of_find?_eq_some listed, rfl⟩

theorem mem_values_of_find? {m : OrderedMap κ ν} {k : κ} {x : ν} (found : m.find? k = some x) :
    x ∈ m.values :=
  mem_values_iff.2 ⟨k, found⟩

theorem mem_values_insert {m : OrderedMap κ ν} {k : κ} {x y : ν}
    (member : y ∈ (m.insert k x).values) : y = x ∨ y ∈ m.values := by
  rcases List.mem_map.1 member with ⟨e, listed, rfl⟩
  rcases mem_insertAscending listed with rfl | before
  · exact .inl rfl
  · exact .inr (List.mem_map.2 ⟨e, before, rfl⟩)

omit [Std.TransOrd κ] in
theorem mem_values_erase {m : OrderedMap κ ν} {k : κ} {y : ν} (member : y ∈ (m.erase k).values) :
    y ∈ m.values := by
  rcases List.mem_map.1 member with ⟨e, listed, rfl⟩
  exact List.mem_map.2 ⟨e, (List.mem_filter.1 listed).1, rfl⟩

/-- What holds of the old values and of the new one holds of all values afterwards. -/
theorem forall_values_insert {P : ν → Prop} {m : OrderedMap κ ν} {x : ν}
    (old : ∀ y ∈ m.values, P y) (new : P x) (k : κ) : ∀ y ∈ (m.insert k x).values, P y := by
  intro y member
  rcases mem_values_insert member with rfl | before
  · exact new
  · exact old y before

omit [Std.TransOrd κ] in
theorem forall_values_erase {P : ν → Prop} {m : OrderedMap κ ν} (old : ∀ y ∈ m.values, P y)
    (k : κ) : ∀ y ∈ (m.erase k).values, P y :=
  fun y member => old y (mem_values_erase member)

end OrderedMap
end CallableMembers
