import Mathlib.Data.List.Infix

/-!
# NameList — names in a row, separated by a comma and a space

A row of names can be read back if no name is empty or contains the separator.  A name may end in
a comma and may start with a space: the first separator in the row is still the one behind the
first name, because the two letters of a separator differ.
-/

namespace CallableMembers
namespace Text

def separator : List Char :=
  [',', ' ']

/-- Can stand in a row of names. -/
structure Listable (name : List Char) : Prop where
  nonempty : name ≠ []
  whole : ¬ separator <:+: name

variable {name name' rest rest' more : List Char}

/-! ## The first separator -/

/-- Of two separators in one text the later one starts behind `more`.  If the text before the later
one has no separator in it, the two are the same. -/
theorem eq_nil_of_separator_shifted (whole : ¬ separator <:+: name ++ more)
    (same : separator ++ rest = more ++ (separator ++ rest')) : more = [] := by
  match more, whole, same with
  | [], _, _ => rfl
  | [x], _, same =>
      -- The space of the one separator would be the comma of the other.
      have second := List.head_eq_of_cons_eq (List.tail_eq_of_cons_eq same)
      exact absurd second (by decide)
  | x :: y :: more, whole, same =>
      have comma : ',' = x := List.head_eq_of_cons_eq same
      have space : ' ' = y := List.head_eq_of_cons_eq (List.tail_eq_of_cons_eq same)
      refine absurd ⟨name, more, ?_⟩ whole
      rw [← comma, ← space]
      simp [separator]

/-- Names without a separator are cut off at the first one. -/
theorem append_separator_inj (whole : ¬ separator <:+: name) (whole' : ¬ separator <:+: name')
    (same : name ++ separator ++ rest = name' ++ separator ++ rest') :
    name = name' ∧ rest = rest' := by
  rw [List.append_assoc, List.append_assoc] at same
  rcases List.append_eq_append_iff.1 same with ⟨more, rfl, behind⟩ | ⟨more, rfl, behind⟩
  · have none := eq_nil_of_separator_shifted whole' behind
    rw [none] at behind
    rw [none, List.append_nil]
    exact ⟨rfl, List.append_cancel_left behind⟩
  · have none := eq_nil_of_separator_shifted whole behind
    rw [none] at behind
    rw [none, List.append_nil]
    exact ⟨rfl, (List.append_cancel_left behind).symm⟩

/-! ## Rows of names -/

theorem Listable.intercalate_cons_ne_nil (listable : Listable name) (names : List (List Char)) :
    separator.intercalate (name :: names) ≠ [] := by
  cases names with
  | nil => simpa using listable.nonempty
  | cons next names => simp [listable.nonempty]

/-- A name alone is no row of several names, because the row has a separator in it. -/
theorem Listable.ne_intercalate (listable : Listable name) (name' next : List Char)
    (names : List (List Char)) : name ≠ separator.intercalate (name' :: next :: names) := by
  rintro rfl
  refine listable.whole ⟨name', separator.intercalate (next :: names), ?_⟩
  rw [List.intercalate_cons_cons]

theorem intercalate_inj {names names' : List (List Char)}
    (listable : ∀ name ∈ names, Listable name) (listable' : ∀ name ∈ names', Listable name)
    (same : separator.intercalate names = separator.intercalate names') : names = names' := by
  induction names generalizing names' with
  | nil =>
      cases names' with
      | nil => rfl
      | cons name' names' =>
          have ⟨first', _⟩ := List.forall_mem_cons.1 listable'
          exact absurd same.symm (first'.intercalate_cons_ne_nil names')
  | cons name names ih =>
      have ⟨first, others⟩ := List.forall_mem_cons.1 listable
      cases names' with
      | nil => exact absurd same (first.intercalate_cons_ne_nil names)
      | cons name' names' =>
          have ⟨first', others'⟩ := List.forall_mem_cons.1 listable'
          -- Either row may end here, and then so does the other one.
          cases names with
          | nil =>
              rw [List.intercalate_singleton] at same
              cases names' with
              | nil => rw [same, List.intercalate_singleton]
              | cons next' names' => exact absurd same (first.ne_intercalate name' next' names')
          | cons next names =>
              cases names' with
              | nil =>
                  rw [List.intercalate_singleton] at same
                  exact absurd same.symm (first'.ne_intercalate name next names)
              | cons next' names' =>
                  rw [List.intercalate_cons_cons, List.intercalate_cons_cons] at same
                  have ⟨here, behind⟩ := append_separator_inj first.whole first'.whole same
                  rw [here, ih others others' behind]

/-! ## Longer names -/

/-- A separator can end in what is appended only with its space. -/
theorem separator_infix_of_append (spaceless : ' ' ∉ more) (inside : separator <:+: name ++ more) :
    separator <:+: name := by
  rcases List.infix_append_iff.1 inside with before | behind | ⟨front, back, split, suffix, start⟩
  · exact before
  · exact absurd (behind.subset (by decide)) spaceless
  · rcases List.eq_nil_or_concat back with rfl | ⟨init, last, rfl⟩
    · rw [List.append_nil] at split
      rw [split]
      exact suffix.isInfix
    · have space : ' ' = last := by
        have ends := congrArg List.getLast? split
        simpa [separator] using ends
      have member : last ∈ more := start.subset (by simp)
      rw [← space] at member
      exact absurd member spaceless

theorem Listable.append (listable : Listable name) (spaceless : ' ' ∉ more) :
    Listable (name ++ more) where
  nonempty := List.append_ne_nil_of_left_ne_nil listable.nonempty more
  whole := mt (separator_infix_of_append spaceless) listable.whole

end Text
end CallableMembers
