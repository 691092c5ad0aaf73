import CallableMembers.Proofs.MapValues
import CallableMembers.Session.Run

/-!
# Queries — what the steps that only ask answer

A query looks up what stands under a name and answers from the session as it is at that moment.
There is one law for each kind of query, which says what it answers; all of them leave the session
alone and report nothing.  Sorting a list of generic parameters leaves the session alone as well,
but may report something.
-/

namespace CallableMembers
namespace Session

open CallableMembers.Generics CallableMembers.Member CallableMembers.Types

/-- The steps that only ask. -/
def Step.asks : Step → Bool
  | .typeInfo _ | .typeText _ | .elements _ => true
  | .refInfo _ | .refText _ | .resolve _ _ => true
  | .parameterInfo _ | .genericInfo _ | .rosterInfo _ => true
  | .methodInfo _ | .methodText _ | .methodParameter _ _ | .emptyParameterCopy _ => true
  | .resolveDeclaring _ | .members _ | .find _ _ => true
  | _ => false

namespace State

/-- The session stays as it is and reports nothing.  It gives the reply, or says that a name is not
known if there is none. -/
def tell (s : State) (reply? : Option (Except MemberError Reply)) : State × Answer :=
  (s, ⟨reply?.elim (.error .noSuch) fun reply => reply.mapError .failed, []⟩)

/-- A step that looks one name up and answers from what is there tells about it. -/
theorem step_of_lookup {α : Type} {s : State} {st : Step} {found? : Option α}
    {reply : α → Except MemberError Reply}
    (taken : s.step? st = found?.bind fun x => some ⟨s, reply x, []⟩) :
    s.step st = s.tell (found?.map reply) := by
  unfold step tell
  rw [taken]
  cases found? <;> rfl

variable (s : State)

/-! ## Types and references -/

theorem step_typeInfo (name : String) :
    s.step (.typeInfo name)
      = s.tell ((s.types.find? name).map fun t => .ok (.type ⟨t, (s.members t).size⟩)) :=
  step_of_lookup rfl

theorem step_typeText (name : String) :
    s.step (.typeText name)
      = s.tell ((s.types.find? name).map fun t =>
          .ok (.text (t.debugTree (s.members t).size).indented)) :=
  step_of_lookup rfl

/-- The type and its elements, each by the text of its flavor. -/
theorem step_elements (name : String) :
    s.step (.elements name)
      = s.tell ((s.types.find? name).map fun t =>
          .ok (.texts (t.flavorChain.map fun flavor => flavor.debugTree.inline))) :=
  step_of_lookup rfl

theorem step_refInfo (name : String) :
    s.step (.refInfo name)
      = s.tell ((s.refs.find? name).map fun r =>
          .ok (.ref ⟨s.isValid r, s.tokenOf? r, s.fullNameOf? r⟩)) :=
  step_of_lookup rfl

theorem step_refText (name : String) :
    s.step (.refText name)
      = s.tell ((s.refs.find? name).map fun r => .ok (.text r.debugTree.inline)) :=
  step_of_lookup rfl

/-- The type that the reference leads to, or an error that carries the name asked under. -/
theorem step_resolve (name what : String) :
    s.step (.resolve name what)
      = s.tell ((s.refs.find? name).map fun r =>
          match s.upgrade r with
          | some t => .ok (.type ⟨t, (s.members t).size⟩)
          | none => .error (.typeMissing what)) := by
  have taken : s.step? (.resolve name what) = (s.refs.find? name).bind fun r =>
      some ⟨s, (s.resolve r what).map fun t => .type (s.typeView t), []⟩ := rfl
  rw [step_of_lookup taken]
  congr 2
  funext r
  unfold resolve
  cases s.upgrade r <;> rfl

/-! ## Parameters, generic parameters and rosters -/

theorem step_parameterInfo (name : String) :
    s.step (.parameterInfo name)
      = s.tell ((s.parameters.find? name).map fun p => .ok (.parameter p)) :=
  step_of_lookup rfl

theorem step_genericInfo (name : String) :
    s.step (.genericInfo name)
      = s.tell ((s.generics.find? name).map fun p =>
          .ok (.generic ⟨p, (s.constraintsOf p).map fun r =>
            ⟨s.isValid r, s.tokenOf? r, s.fullNameOf? r⟩⟩)) :=
  step_of_lookup rfl

theorem step_rosterInfo (name : String) :
    s.step (.rosterInfo name) = s.tell ((s.rosters.find? name).map fun r => .ok (.roster r)) :=
  step_of_lookup rfl

/-- Sorting answers with the arrangement of what the names stand for, each object with the first
place at which it is listed, and reports what the arrangement reports. -/
theorem step_sort {names : List String} {ps : List GenericParameter}
    (found : names.mapM s.generics.find? = some ps) (policy : GapPolicy) :
    s.step (.sort names policy)
      = (s, ⟨((arrange policy ps).map fun view => Reply.placed (place ps view)).mapError .failed,
          arrangeEvents policy ps⟩) := by
  unfold step
  simp [step?, sort, found]

/-! ## Methods -/

theorem step_methodInfo (name : String) :
    s.step (.methodInfo name)
      = s.tell ((s.methods.find? name).map fun m =>
          .ok (.method
            { method := m
              declaring? := m.declaring?.map s.refView
              resolved := s.resolveDeclaring m
              generics := m.generics.map s.genericView
              sorted := place m.generics m.genericView })) :=
  step_of_lookup rfl

theorem step_methodText (name : String) :
    s.step (.methodText name)
      = s.tell ((s.methods.find? name).map fun m =>
          let tree := m.debugTree fun t => (s.members t).size
          .ok (.texts [tree.inline, tree.indented])) :=
  step_of_lookup rfl

theorem step_methodParameter (name : String) (index : Nat) :
    s.step (.methodParameter name index)
      = s.tell ((s.methods.find? name).map fun m => .ok (.parameter? m.parameters[index]?)) :=
  step_of_lookup rfl

/-- An emptied copy of the parameters is empty, and the member has as many as before. -/
theorem step_emptyParameterCopy (name : String) :
    s.step (.emptyParameterCopy name)
      = s.tell ((s.methods.find? name).map fun m =>
          .ok (.sizes [0, m.parameters.length, m.parameters.length])) := by
  have taken : s.step? (.emptyParameterCopy name) = (s.methods.find? name).bind fun m =>
      some ⟨s, .ok (.sizes [(m.parameters.drop m.parameters.length).length, m.parameters.length,
        m.parameters.length]), []⟩ := rfl
  rw [step_of_lookup taken]
  simp only [List.drop_length, List.length_nil]

/-- A member without a declaring type has none to show; otherwise the type shows as long as it can
be reached, and is reported missing from then on. -/
theorem step_resolveDeclaring (name : String) :
    s.step (.resolveDeclaring name)
      = s.tell ((s.methods.find? name).map fun m =>
          match m.declaring? with
          | none => .ok (.type? none)
          | some r =>
              match s.upgrade r with
              | some t => .ok (.type? (some ⟨t, (s.members t).size⟩))
              | none => .error (.typeMissing "declaring type")) := by
  have taken : s.step? (.resolveDeclaring name) = (s.methods.find? name).bind fun m =>
      some ⟨s, (s.resolveDeclaring m).map fun t? => .type? (t?.map s.typeView), []⟩ := rfl
  rw [step_of_lookup taken]
  congr 2
  funext m
  unfold resolveDeclaring
  cases m.declaring? with
  | none => rfl
  | some r =>
      simp only [resolve]
      cases s.upgrade r <;> rfl

/-! ## Member tables -/

theorem step_members (name : String) :
    s.step (.members name)
      = s.tell ((s.types.find? name).map fun t => .ok (.members (s.members t))) :=
  step_of_lookup rfl

theorem mem_namesOf_iff {s : State} {m : Method} {name : String} :
    name ∈ s.namesOf m ↔ ∃ m', s.methods.find? name = some m' ∧ m'.id = m.id := by
  simp only [namesOf, List.mem_map, List.mem_filter, beq_iff_eq, Prod.exists, exists_and_right,
    exists_eq_right, OrderedMap.mem_entries_iff]

/-- The member under the token, if there is one, with all names of this very object. -/
theorem step_find (name : String) (token : Token) :
    s.step (.find name token)
      = s.tell ((s.types.find? name).map fun t =>
          .ok (.found (((s.members t).find? token).map fun m => (m, s.namesOf m)))) :=
  step_of_lookup rfl

/-! ## All queries -/

theorem exists_tell_of_asks {query : Step} (asks : query.asks = true) :
    ∃ reply?, s.step query = s.tell reply? := by
  cases query with
  | typeInfo name => exact ⟨_, s.step_typeInfo name⟩
  | typeText name => exact ⟨_, s.step_typeText name⟩
  | elements name => exact ⟨_, s.step_elements name⟩
  | refInfo name => exact ⟨_, s.step_refInfo name⟩
  | refText name => exact ⟨_, s.step_refText name⟩
  | resolve name what => exact ⟨_, s.step_resolve name what⟩
  | parameterInfo name => exact ⟨_, s.step_parameterInfo name⟩
  | genericInfo name => exact ⟨_, s.step_genericInfo name⟩
  | rosterInfo name => exact ⟨_, s.step_rosterInfo name⟩
  | methodInfo name => exact ⟨_, s.step_methodInfo name⟩
  | methodText name => exact ⟨_, s.step_methodText name⟩
  | methodParameter name index => exact ⟨_, s.step_methodParameter name index⟩
  | emptyParameterCopy name => exact ⟨_, s.step_emptyParameterCopy name⟩
  | resolveDeclaring name => exact ⟨_, s.step_resolveDeclaring name⟩
  | members name => exact ⟨_, s.step_members name⟩
  | find name token => exact ⟨_, s.step_find name token⟩
  | _ => cases asks

theorem step_of_asks {query : Step} (asks : query.asks = true) :
    (s.step query).1 = s ∧ (s.step query).2.events = [] := by
  rcases s.exists_tell_of_asks asks with ⟨reply?, told⟩
  rw [told]
  exact ⟨rfl, rfl⟩

theorem run_of_asks {queries : List Step} (ask : ∀ query ∈ queries, query.asks = true) :
    (s.run queries).1 = s := by
  induction queries with
  | nil => rfl
  | cons query queries ih =>
      have first := (s.step_of_asks (ask query (List.mem_cons_self ..))).1
      calc
        (s.run (query :: queries)).1 = ((s.step query).1.run queries).1 := rfl
        _ = (s.run queries).1 := by rw [first]
        _ = s := ih fun other member => ask other (List.mem_cons_of_mem _ member)

variable {s} in
/-- The outcome of a query has the state it was asked in, and no events. -/
theorem outcome_of_asks {query : Step} {o : Outcome} (asks : query.asks = true)
    (taken : s.step? query = some o) : o.state = s ∧ o.events = [] := by
  have ⟨state, events⟩ := s.step_of_asks asks
  simp only [step, taken] at state events
  exact ⟨state, events⟩

end State
end Session
end CallableMembers
