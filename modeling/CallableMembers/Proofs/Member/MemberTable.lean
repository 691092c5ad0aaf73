import CallableMembers.Member.Method
import CallableMembers.Proofs.MapValues
import CallableMembers.Proofs.TokenOrder

/-!
# MemberTable — what a table lists after a sequence of additions

Under every token a table lists the member that was added last with it, in the order of the
tokens.  Where only definitions and references are members, the definitions come first.
-/

namespace CallableMembers

/-- If whatever stands before an item with the property has it too, these items come first. -/
theorem filter_append_filter_not_of_pairwise {α : Type} (p : α → Bool) {l : List α}
    (first : l.Pairwise fun a b => p b = true → p a = true) :
    l.filter p ++ l.filter (fun a => !p a) = l := by
  induction l with
  | nil => rfl
  | cons a l ih =>
      have ⟨head, tail⟩ := List.pairwise_cons.1 first
      cases has : p a with
      | true => simp [has, ih tail]
      | false =>
          -- Nothing behind an item without the property has it.
          have none : ∀ b ∈ l, p b = false := by
            intro b member
            cases later : p b with
            | false => rfl
            | true => exact absurd (head b member later) (by simp [has])
          have before : l.filter p = [] := List.filter_eq_nil_iff.2 fun b member => by
            simp [none b member]
          have behind : l.filter (fun a => !p a) = l := List.filter_eq_self.2 fun b member => by
            rw [none b member, Bool.not_false]
          rw [List.filter_cons_of_neg (by simp [has]), List.filter_cons_of_pos (by simp [has]),
            before, behind, List.nil_append]

namespace OrderedMap

universe u v

theorem mem_keys_iff {κ : Type u} {ν : Type v} [Ord κ] [Std.TransOrd κ] [Std.LawfulEqOrd κ]
    {m : OrderedMap κ ν} {k : κ} : k ∈ m.keys ↔ ∃ x, m.find? k = some x := by
  simp only [keys, List.mem_map, Prod.exists, exists_and_right, exists_eq_right, mem_entries_iff]

end OrderedMap

namespace Member
namespace MemberTable

/-! ## Additions -/

def addAll (table : MemberTable) (members : List Method) : MemberTable :=
  members.foldl add table

/-- The last of the members that have the token. -/
def lastWith (token : Token) (members : List Method) : Option Method :=
  (members.filter fun m => m.token = token).getLast?

theorem addAll_append (table : MemberTable) (first second : List Method) :
    table.addAll (first ++ second) = (table.addAll first).addAll second :=
  List.foldl_append

theorem lastWith_cons (token : Token) (m : Method) (members : List Method) :
    lastWith token (m :: members)
      = (lastWith token members).or (if m.token = token then some m else none) := by
  unfold lastWith
  by_cases same : m.token = token
  · rw [List.filter_cons_of_pos (by simpa using same), if_pos same, List.getLast?_cons]
    cases (members.filter fun m => m.token = token).getLast? <;> rfl
  · rw [List.filter_cons_of_neg (by simpa using same), if_neg same, Option.or_none]

theorem mem_of_lastWith {token : Token} {m : Method} {members : List Method}
    (last : lastWith token members = some m) : m ∈ members ∧ m.token = token := by
  simpa using List.mem_filter.1 (List.mem_of_getLast? last)

theorem exists_lastWith_iff {token : Token} {members : List Method} :
    (∃ m, lastWith token members = some m) ↔ ∃ m ∈ members, m.token = token := by
  constructor
  · rintro ⟨m, last⟩
    exact ⟨m, mem_of_lastWith last⟩
  · rintro ⟨m, member, same⟩
    have some : members.filter (fun m => m.token = token) ≠ [] :=
      List.ne_nil_of_mem (List.mem_filter.2 ⟨member, by simpa using same⟩)
    exact ⟨_, List.getLast?_eq_some_getLast some⟩

theorem find?_add (table : MemberTable) (m : Method) (token : Token) :
    (table.add m).find? token = if m.token = token then some m else table.find? token := by
  rw [add, OrderedMap.find?_insert]
  by_cases same : m.token = token
  · simp [same]
  · have other : ¬ (compare token m.token == .eq) = true := by
      simpa using fun h : token = m.token => same h.symm
    rw [if_neg same, if_neg other]

theorem find?_addAll (table : MemberTable) (members : List Method) (token : Token) :
    (table.addAll members).find? token = (lastWith token members).or (table.find? token) := by
  induction members generalizing table with
  | nil => rfl
  | cons m members ih =>
      have later : (table.addAll (m :: members)).find? token
          = (lastWith token members).or ((table.add m).find? token) := ih (table.add m)
      rw [later, lastWith_cons, find?_add, Option.or_assoc]
      by_cases same : m.token = token
      · rw [if_pos same, if_pos same, Option.some_or]
      · rw [if_neg same, if_neg same, Option.none_or]

/-! ## What a table lists -/

/-- The table is the one that these additions lead to, said without the additions being made. -/
structure Lists (table : MemberTable) (added : List Method) : Prop where
  find? : ∀ token, table.find? token = lastWith token added
  ascending : table.entries.Pairwise fun e e' => e.1.Before e'.1
  tokens : ∀ token, token ∈ table.keys ↔ ∃ m ∈ added, m.token = token
  filed : ∀ e ∈ table.entries, e.2.token = e.1 ∧ e.2 ∈ added

theorem lists_addAll (added : List Method) : Lists (addAll .empty added) added := by
  have found : ∀ token, (addAll .empty added).find? token = lastWith token added := by
    intro token
    rw [find?_addAll, OrderedMap.find?_empty, Option.or_none]
  refine ⟨found, ?_, ?_, ?_⟩
  · exact (addAll .empty added).ascending.imp Token.compare_eq_lt_iff.1
  · intro token
    rw [OrderedMap.mem_keys_iff, ← exists_lastWith_iff]
    simp only [found]
  · intro e listed
    have last : lastWith e.1 added = some e.2 := by
      rw [← found]
      exact lookupAscending_of_mem (addAll .empty added).ascending listed
    exact (mem_of_lastWith last).symm

/-! ## Definitions and references -/

/-- All definitions are listed before all references, and there is nothing else. -/
def DefinitionsFirst (table : MemberTable) : Prop :=
  ∃ definitions references, table.entries = definitions ++ references
    ∧ (∀ e ∈ definitions, e.1.table = Token.Table.methodDef)
    ∧ ∀ e ∈ references, e.1.table = Token.Table.memberRef

theorem definitionsFirst_of_callable {table : MemberTable}
    (callable : ∀ token ∈ table.keys, token.isCallable = true) : table.DefinitionsFirst := by
  let isDefinition : Token × Method → Bool := fun e => e.1.table == Token.Table.methodDef
  have kinds : ∀ e ∈ table.entries,
      e.1.table = Token.Table.methodDef ∨ e.1.table = Token.Table.memberRef := by
    intro e listed
    simpa [Token.isCallable] using callable e.1 (List.mem_map_of_mem listed)
  have first : table.entries.Pairwise fun e e' =>
      isDefinition e' = true → isDefinition e = true := by
    refine List.Pairwise.imp_of_mem ?_ table.ascending
    intro e e' listed _ below definition
    have definition : e'.1.table = Token.Table.methodDef := by
      simpa [isDefinition] using definition
    rcases kinds e listed with here | reference
    · simpa [isDefinition] using here
    · -- The table of references is behind the one of definitions.
      rcases Token.compare_eq_lt_iff.1 below with earlier | ⟨same, -⟩
      · rw [reference, definition] at earlier
        exact absurd earlier (by decide)
      · rw [reference, definition] at same
        exact absurd same (by decide)
  refine ⟨_, _, (filter_append_filter_not_of_pairwise isDefinition first).symm, ?_, ?_⟩
  · intro e listed
    simpa [isDefinition] using (List.mem_filter.1 listed).2
  · intro e listed
    have ⟨member, other⟩ := List.mem_filter.1 listed
    exact (kinds e member).resolve_left (by simpa [isDefinition] using other)

end MemberTable
end Member
end CallableMembers
