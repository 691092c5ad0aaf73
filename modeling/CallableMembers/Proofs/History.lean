import Mathlib.Data.List.Induction

/-!
# History — what a history of calls leaves behind

Two things are told by the calls made so far: whether a mark made by one of them is outstanding,
and what has been reported.  Both can be followed call by call, and both are known once it is
known what one call does after any history.
-/

namespace CallableMembers
namespace History

variable {C E : Type} {c : C} {calls : List C}

/-! ## Outstanding marks -/

/-- A call of the history made a mark, and no call since has cleared it.  Whether a call marks or
clears may depend on the calls before it. -/
def Outstanding (marks clears : List C → C → Prop) (calls : List C) : Prop :=
  ∃ before c later, calls = before ++ c :: later ∧ marks before c
    ∧ ∀ between c' rest, later = between ++ c' :: rest → ¬ clears (before ++ c :: between) c'

section Outstanding

variable {marks clears : List C → C → Prop}

theorem not_outstanding_nil : ¬ Outstanding marks clears [] := by
  rintro ⟨before, c, later, split, -⟩
  simp at split

/-- The last call marks, or it leaves a mark that was outstanding. -/
theorem outstanding_concat_iff :
    Outstanding marks clears (calls ++ [c])
      ↔ marks calls c ∨ (Outstanding marks clears calls ∧ ¬ clears calls c) := by
  constructor
  · rintro ⟨before, c₀, later, split, marked, kept⟩
    rcases List.eq_nil_or_concat later with rfl | ⟨later, last, rfl⟩
    · have ⟨same, last⟩ := List.append_inj' split rfl
      cases same
      cases last
      exact .inl marked
    · have whole : calls ++ [c] = (before ++ c₀ :: later) ++ [last] := by simpa using split
      have ⟨same, end'⟩ := List.append_inj' whole rfl
      cases same
      cases end'
      refine .inr ⟨⟨before, c₀, later, rfl, marked, ?_⟩, kept later c [] (by simp)⟩
      rintro between c' rest rfl
      exact kept between c' (rest ++ [c]) (by simp)
  · rintro (marked | ⟨⟨before, c₀, later, rfl, marked, kept⟩, last⟩)
    · exact ⟨calls, c, [], rfl, marked, by simp⟩
    · refine ⟨before, c₀, later ++ [c], by simp, marked, ?_⟩
      intro between c' rest split
      rcases List.eq_nil_or_concat rest with rfl | ⟨rest, x, rfl⟩
      · have ⟨same, end'⟩ := List.append_inj' split rfl
        cases same
        cases end'
        exact last
      · have whole : later ++ [c] = (between ++ c' :: rest) ++ [x] := by simpa using split
        exact kept between c' rest (List.append_inj' whole rfl).1

/-- A flag that every call sets, clears or leaves alone tells whether a mark is outstanding. -/
theorem flag_iff_outstanding (flag : List C → Prop) (initial : ¬ flag [])
    (step : ∀ calls c, flag (calls ++ [c]) ↔ marks calls c ∨ (flag calls ∧ ¬ clears calls c))
    (calls : List C) : flag calls ↔ Outstanding marks clears calls := by
  induction calls using List.reverseRecOn with
  | nil => exact iff_of_false initial not_outstanding_nil
  | append_singleton calls c ih =>
      calc
        flag (calls ++ [c]) ↔ marks calls c ∨ (flag calls ∧ ¬ clears calls c) := step calls c
        _ ↔ marks calls c ∨ (Outstanding marks clears calls ∧ ¬ clears calls c) := by rw [ih]
        _ ↔ Outstanding marks clears (calls ++ [c]) := outstanding_concat_iff.symm

end Outstanding

/-! ## Traces -/

/-- The log of a history: each call adds what is due from it after the calls before it. -/
inductive Trace (due : List C → C → List E → Prop) : List C → List E → Prop where
  | nil : Trace due [] []
  | snoc {calls : List C} {log : List E} {c : C} {added : List E} :
      Trace due calls log → due calls c added → Trace due (calls ++ [c]) (log ++ added)

section Trace

variable {due : List C → C → List E → Prop}

theorem Trace.eq_nil {log : List E} (trace : Trace due [] log) : log = [] := by
  generalize empty : ([] : List C) = calls at trace
  cases trace with
  | nil => rfl
  | snoc before added => simp at empty

theorem Trace.exists_of_concat {log : List E} (trace : Trace due (calls ++ [c]) log) :
    ∃ earlier added, Trace due calls earlier ∧ due calls c added ∧ log = earlier ++ added := by
  generalize whole : calls ++ [c] = calls' at trace
  cases trace with
  | nil => simp at whole
  | snoc before added =>
      have ⟨same, last⟩ := List.append_inj' whole rfl
      cases same
      cases last
      exact ⟨_, _, before, added, rfl⟩

/-- If a log grows by the one thing that is due from each call, it is the one trace. -/
theorem trace_iff_eq (log : List C → List E) (initial : log [] = [])
    (step : ∀ calls c, ∃ added, log (calls ++ [c]) = log calls ++ added ∧ due calls c added
      ∧ ∀ added', due calls c added' → added' = added)
    {calls : List C} {log' : List E} : Trace due calls log' ↔ log' = log calls := by
  induction calls using List.reverseRecOn generalizing log' with
  | nil =>
      rw [initial]
      exact ⟨Trace.eq_nil, fun empty => empty ▸ .nil⟩
  | append_singleton calls c ih =>
      rcases step calls c with ⟨added, grown, due, only⟩
      rw [grown]
      constructor
      · intro trace
        rcases trace.exists_of_concat with ⟨earlier, added', before, due', rfl⟩
        rw [ih.1 before, only added' due']
      · rintro rfl
        exact .snoc (ih.2 rfl) due

end Trace

end History
end CallableMembers
