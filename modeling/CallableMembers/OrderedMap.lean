/-!
# OrderedMap — a finite map whose entries stand in ascending key order

Keys are distinct, so listing the entries lists every key once and in order.  `insert` replaces
the entry of a key that is already there.

Member tables are kept in a skip map that comes from elsewhere.  Two things are assumed of it, and
this type has both by construction: its entries are listed in the order of their keys (`ascending`),
and an insertion replaces the entry of its key and touches no other (`find?_insert`).  When the
skip map lets go of a value that was replaced is not assumed; see `Session.State.retired`.
-/

namespace CallableMembers

universe u v

variable {κ : Type u} {ν : Type v}

/-! ## Insertion into a sorted list -/

section Insertion

variable [Ord κ]

def insertAscending (k : κ) (x : ν) : List (κ × ν) → List (κ × ν)
  | [] => [(k, x)]
  | e :: rest =>
      match compare k e.1 with
      | .lt => (k, x) :: e :: rest
      | .eq => (k, x) :: rest
      | .gt => e :: insertAscending k x rest

theorem mem_insertAscending {k : κ} {x : ν} {e : κ × ν} {l : List (κ × ν)}
    (h : e ∈ insertAscending k x l) : e = (k, x) ∨ e ∈ l := by
  induction l with
  | nil => simpa [insertAscending] using h
  | cons a l ih =>
      unfold insertAscending at h
      split at h
      · simpa using h
      · rcases List.mem_cons.1 h with h | h
        · exact .inl h
        · exact .inr (List.mem_cons_of_mem _ h)
      · rcases List.mem_cons.1 h with h | h
        · exact .inr (h ▸ List.mem_cons_self ..)
        · exact (ih h).imp id (List.mem_cons_of_mem _)

theorem pairwise_insertAscending [Std.TransOrd κ] (k : κ) (x : ν) {l : List (κ × ν)}
    (h : l.Pairwise fun a b => compare a.1 b.1 = .lt) :
    (insertAscending k x l).Pairwise fun a b => compare a.1 b.1 = .lt := by
  induction l with
  | nil => simp [insertAscending]
  | cons a l ih =>
      have ⟨first, rest⟩ := List.pairwise_cons.1 h
      unfold insertAscending
      split
      · next below =>
          refine List.pairwise_cons.2 ⟨?_, h⟩
          intro b hb
          rcases List.mem_cons.1 hb with rfl | hb
          · exact below
          · exact Std.TransCmp.lt_trans below (first b hb)
      · next same =>
          exact List.pairwise_cons.2
            ⟨fun b hb => Std.TransCmp.lt_of_eq_of_lt same (first b hb), rest⟩
      · next above =>
          refine List.pairwise_cons.2 ⟨?_, ih rest⟩
          intro b hb
          rcases mem_insertAscending hb with rfl | hb
          · exact Std.OrientedCmp.gt_iff_lt.1 above
          · exact first b hb

end Insertion

/-! ## The map -/

structure OrderedMap (κ : Type u) (ν : Type v) [Ord κ] where
  entries : List (κ × ν)
  ascending : entries.Pairwise fun a b => compare a.1 b.1 = .lt

namespace OrderedMap

variable [Ord κ]

def empty : OrderedMap κ ν :=
  ⟨[], .nil⟩

instance : EmptyCollection (OrderedMap κ ν) := ⟨empty⟩

instance : Inhabited (OrderedMap κ ν) := ⟨empty⟩

def size (m : OrderedMap κ ν) : Nat :=
  m.entries.length

def keys (m : OrderedMap κ ν) : List κ :=
  m.entries.map Prod.fst

def values (m : OrderedMap κ ν) : List ν :=
  m.entries.map Prod.snd

def find? (m : OrderedMap κ ν) (k : κ) : Option ν :=
  (m.entries.find? fun e => compare k e.1 == .eq).map Prod.snd

def contains (m : OrderedMap κ ν) (k : κ) : Bool :=
  (m.find? k).isSome

def insert [Std.TransOrd κ] (m : OrderedMap κ ν) (k : κ) (x : ν) : OrderedMap κ ν :=
  ⟨insertAscending k x m.entries, pairwise_insertAscending k x m.ascending⟩

def erase (m : OrderedMap κ ν) (k : κ) : OrderedMap κ ν :=
  ⟨m.entries.filter fun e => compare k e.1 != .eq, m.ascending.filter _⟩

/-! ## Lookup after a change -/

@[simp] theorem find?_empty (k : κ) : (empty : OrderedMap κ ν).find? k = none := rfl

/-- A lookup sees the newest value of its key and is blind to changes of other keys. -/
theorem find?_insert [Std.TransOrd κ] (m : OrderedMap κ ν) (k k' : κ) (x : ν) :
    (m.insert k x).find? k' = if compare k' k == .eq then some x else m.find? k' := by
  obtain ⟨l, sorted⟩ := m
  simp only [find?, insert]
  clear sorted
  induction l with
  | nil => by_cases h : compare k' k == .eq <;> simp [insertAscending, h]
  | cons a l ih =>
      unfold insertAscending
      split
      · by_cases h : compare k' k == .eq <;> simp [h]
      · next same =>
          by_cases h : compare k' k == .eq
          · simp [h]
          · have other : (compare k' a.1 == .eq) = false := by
              have : compare k' a.1 = compare k' k :=
                (Std.TransCmp.congr_right same).symm
              rw [this]
              simpa using h
            simp [h, other]
      · next above =>
          by_cases ha : compare k' a.1 == .eq
          · have other : (compare k' k == .eq) = false := by
              have : compare k' k = compare a.1 k := Std.TransCmp.congr_left (by simpa using ha)
              rw [this, Std.OrientedCmp.gt_iff_lt.1 above]
              rfl
            simp [ha, other]
          · simp [ha, ih]

theorem find?_erase [Std.TransOrd κ] (m : OrderedMap κ ν) (k k' : κ) :
    (m.erase k).find? k' = if compare k' k == .eq then none else m.find? k' := by
  obtain ⟨l, sorted⟩ := m
  simp only [find?, erase]
  clear sorted
  by_cases h : compare k' k = .eq
  · have absent : ∀ e ∈ l.filter (fun e => compare k e.1 != .eq), ¬ (compare k' e.1 == .eq) := by
      intro e he hk
      have hk : compare k' e.1 = .eq := by simpa using hk
      have : compare k e.1 = .eq := by rw [← Std.TransCmp.congr_left h]; exact hk
      simp [this] at he
    simp [h, List.find?_eq_none.2 absent]
  · induction l with
    | nil => simp
    | cons a l ih =>
        by_cases ha : compare k a.1 = .eq
        · have : (compare k' a.1 == .eq) = false := by
            rw [← Std.TransCmp.congr_right ha]
            simpa using h
          simp_all
        · by_cases hk : compare k' a.1 = .eq <;> simp_all

end OrderedMap
end CallableMembers
