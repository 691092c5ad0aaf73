import CallableMembers.Proofs.Ownership.Reachability
import CallableMembers.Proofs.Session.MemberTables

/-!
# Lifetime — which types a session keeps alive

A weak reference is valid exactly as long as its target is sustained: it can be reached along
strong edges from an object that the caller holds, or from one that lies on a cycle of strong
edges.  Counting holders therefore loses no type and keeps none beyond that, whatever is made,
overwritten, frozen or dropped, and in whatever order.  Only a member that is replaced in a table
keeps alive what it leads to, until it is reclaimed; where no token is added twice to one table,
there is none.
-/

namespace CallableMembers
namespace Session

open CallableMembers.Generics CallableMembers.Member CallableMembers.Ownership CallableMembers.Types

namespace State

/-! ## Strong edges, handles and references -/

/-- The one object keeps the other alive. -/
inductive Strong (s : State) : ObjectId → ObjectId → Prop where
  | element {t element : TypeDesc} {members : MemberTable} :
      s.ledger.object? t.id = some (.type t members) → t.element? = some element →
        Strong s t.id element.id
  | member {t : TypeDesc} {members : MemberTable} {token : Token} {m : Method} :
      s.ledger.object? t.id = some (.type t members) → members.find? token = some m →
        Strong s t.id m.id
  | parameterType {p : Parameter} :
      s.ledger.object? p.id = some (.parameter p) → Strong s p.id p.type.id
  | methodParameter {m : Method} {p : Parameter} :
      s.ledger.object? m.id = some (.method m) → p ∈ m.parameters → Strong s m.id p.id
  | methodReturn {m : Method} {t : TypeDesc} :
      s.ledger.object? m.id = some (.method m) → m.returnType? = some t → Strong s m.id t.id

/-- The caller holds the object under a name, or through a draft. -/
inductive Handle (s : State) : ObjectId → Prop where
  | type (name : String) {t : TypeDesc} : s.types.find? name = some t → Handle s t.id
  | parameter (name : String) {p : Parameter} :
      s.parameters.find? name = some p → Handle s p.id
  | method (name : String) {m : Method} : s.methods.find? name = some m → Handle s m.id
  | draftParameter (name : String) {d : Draft} {p : Parameter} :
      s.drafts.find? name = some d → p ∈ d.signature.parameters → Handle s p.id
  | draftReturn (name : String) {d : Draft} {t : TypeDesc} :
      s.drafts.find? name = some d → d.signature.role.returnType? = some t → Handle s t.id

/-- The object is reached from a handle or from a cycle. -/
def Sustained (s : State) (i : ObjectId) : Prop :=
  ∃ j, (s.Handle j ∨ Relation.TransGen s.Strong j j) ∧ Relation.ReflTransGen s.Strong j i

/-- The object is reached from a member that was replaced in a table and not reclaimed so far. -/
def Deferred (s : State) (i : ObjectId) : Prop :=
  ∃ m ∈ s.retired, Relation.ReflTransGen s.Strong m.id i

/-- The weak references of a session: those with a name, declaring types and constraints. -/
inductive Refers (s : State) : WeakRef → Prop where
  | named (name : String) {r : WeakRef} : s.refs.find? name = some r → Refers s r
  | ofDraft (name : String) {d : Draft} {r : WeakRef} :
      s.drafts.find? name = some d → d.declaring? = some r → Refers s r
  | ofMethod {m : Method} {r : WeakRef} :
      s.ledger.object? m.id = some (.method m) → m.declaring? = some r → Refers s r
  | ofConstraint (p : GenericParameter) {r : WeakRef} : r ∈ s.constraintsOf p → Refers s r

/-- The signature of the draft under a name. -/
def signature? (s : State) (name : String) : Option Signature :=
  (s.drafts.find? name).map Draft.signature

end State

/-! ## Strong edges are the holds of the ledger -/

theorem mem_holds_iff {signature : Signature} {i : ObjectId} :
    i ∈ signature.holds ↔ (∃ p ∈ signature.parameters, p.id = i)
      ∨ ∃ t, signature.role.returnType? = some t ∧ t.id = i := by
  simp [Signature.holds, Option.mem_toList]

theorem WellPlaced.strong_iff {s : State} {i j : ObjectId} (placed : WellPlaced s.ledger) :
    s.Strong i j ↔ s.ledger.Edge i j := by
  constructor
  · intro strong
    cases strong with
    | element found inner => exact edge_of_element ⟨_, found⟩ inner
    | member found listed =>
        have member := OrderedMap.mem_values_of_find? listed
        exact ⟨_, found, List.mem_append_right _ (List.mem_map.2 ⟨_, member, rfl⟩)⟩
    | parameterType found => exact ⟨_, found, List.mem_singleton.2 rfl⟩
    | methodParameter found member =>
        exact ⟨_, found, mem_holds_iff.2 (.inl ⟨_, member, rfl⟩)⟩
    | methodReturn found returned =>
        exact ⟨_, found, mem_holds_iff.2 (.inr ⟨_, returned, rfl⟩)⟩
  · intro edge
    rcases edge with ⟨node, found, held⟩
    -- The object stands under its own identity, so the edge starts where its kind says.
    have id : node.id = i := (placed i node found).1
    cases node with
    | type t members =>
        cases id
        rcases List.mem_append.1 held with inner | listed
        · rcases List.mem_map.1 inner with ⟨element, here, rfl⟩
          exact .element found (Option.mem_toList.1 here)
        · rcases List.mem_map.1 listed with ⟨m, here, rfl⟩
          rcases OrderedMap.mem_values_iff.1 here with ⟨token, entry⟩
          exact .member found entry
    | parameter p =>
        cases id
        rcases List.mem_singleton.1 held with rfl
        exact .parameterType found
    | method m =>
        cases id
        rcases mem_holds_iff.1 held with ⟨p, member, rfl⟩ | ⟨t, returned, rfl⟩
        · exact .methodParameter found member
        · exact .methodReturn found returned

theorem handle_iff {s : State} {i : ObjectId} : s.Handle i ↔ i ∈ s.handles := by
  simp only [State.handles, List.mem_append]
  constructor
  · intro handle
    cases handle with
    | type name found =>
        exact .inl (.inl (.inl (List.mem_map_of_mem (OrderedMap.mem_values_of_find? found))))
    | parameter name found =>
        exact .inl (.inl (.inr (List.mem_map_of_mem (OrderedMap.mem_values_of_find? found))))
    | method name found =>
        exact .inl (.inr (List.mem_map_of_mem (OrderedMap.mem_values_of_find? found)))
    | draftParameter name found member =>
        have held := mem_holds_iff.2 (.inl ⟨_, member, rfl⟩)
        exact .inr (List.mem_flatMap.2 ⟨_, OrderedMap.mem_values_of_find? found, held⟩)
    | draftReturn name found returned =>
        have held := mem_holds_iff.2 (.inr ⟨_, returned, rfl⟩)
        exact .inr (List.mem_flatMap.2 ⟨_, OrderedMap.mem_values_of_find? found, held⟩)
  · intro listed
    rcases listed with ((listed | listed) | listed) | listed
    · rcases List.mem_map.1 listed with ⟨t, member, rfl⟩
      rcases OrderedMap.mem_values_iff.1 member with ⟨name, found⟩
      exact .type name found
    · rcases List.mem_map.1 listed with ⟨p, member, rfl⟩
      rcases OrderedMap.mem_values_iff.1 member with ⟨name, found⟩
      exact .parameter name found
    · rcases List.mem_map.1 listed with ⟨m, member, rfl⟩
      rcases OrderedMap.mem_values_iff.1 member with ⟨name, found⟩
      exact .method name found
    · rcases List.mem_flatMap.1 listed with ⟨d, member, held⟩
      rcases OrderedMap.mem_values_iff.1 member with ⟨name, found⟩
      rcases mem_holds_iff.1 held with ⟨p, inside, rfl⟩ | ⟨t, returned, rfl⟩
      · exact .draftParameter name found inside
      · exact .draftReturn name found returned

namespace Consistent

variable {s : State}

/-- Between two steps, what is held by anyone is what is sustained or deferred. -/
theorem isLive_iff (h : Consistent s []) (i : ObjectId) :
    s.ledger.isLive i = true ↔ s.Sustained i ∨ s.Deferred i := by
  have edges : s.Strong = s.ledger.Edge := by
    funext i j
    exact propext h.coherent.objects.strong_iff
  -- Nothing is loose, so the roots are the handles and the retired members.
  have sound : s.ledger.Sound s.roots := h.sound
  rw [sound.isLive_iff_reachable]
  simp only [State.Sustained, State.Deferred, Ledger.Anchor, edges, handle_iff, State.roots,
    List.mem_append, List.mem_map]
  constructor
  · rintro ⟨j, (handle | ⟨m, member, rfl⟩) | cycle, path⟩
    · exact .inl ⟨j, .inl handle, path⟩
    · exact .inr ⟨m, member, path⟩
    · exact .inl ⟨j, .inr cycle, path⟩
  · rintro (⟨j, handle | cycle, path⟩ | ⟨m, member, path⟩)
    · exact ⟨j, .inl (.inl handle), path⟩
    · exact ⟨j, .inr cycle, path⟩
    · exact ⟨m.id, .inl (.inr ⟨m, member, rfl⟩), path⟩

/-- Without retired members nothing is deferred. -/
theorem isLive_iff_sustained (h : Consistent s []) (none : s.retired = []) (i : ObjectId) :
    s.ledger.isLive i = true ↔ s.Sustained i := by
  have undeferred : ¬ s.Deferred i := by
    rintro ⟨m, member, -⟩
    rw [none] at member
    cases member
  rw [h.isLive_iff, or_iff_left undeferred]

/-! ## What references lead to -/

theorem target_of_refers {r : WeakRef} (h : Consistent s []) (refers : s.Refers r) :
    HasTarget s.ledger r := by
  cases refers with
  | named name found => exact h.coherent.refs r (OrderedMap.mem_values_of_find? found)
  | ofDraft name found declared => exact (h.draft_of_find? found).declaring r declared
  | ofMethod found declared => exact (h.coherent.objects _ _ found).2.2 r declared
  | ofConstraint p listed => exact h.coherent.target_of_constraintsOf listed

end Consistent

/-! ## What drafts hold -/

/-- A draft holds its parameters and its current return type; when it is frozen, its member takes
over both, or nothing does. -/
structure HoldsCurrent (s : State) (name : String) (signature : Signature) : Prop where
  returns : ∀ e t s', s.evaluate e = some (t, s') →
    (s.step (.returns name e)).1.signature? name
      = some ⟨signature.parameters, .method (some t)⟩
  constructor : (s.step (.constructor name)).1.signature? name
    = some ⟨signature.parameters, .constructor⟩
  frozen : ∀ as, (s.step (.freeze name as)).1.signature? name = none
  built : ∀ as v, (s.step (.freeze name as)).2.reply = .ok (.method v) →
    v.method.signature = signature
      ∧ (s.step (.freeze name as)).1.methods.find? as = some v.method

section Drafts

variable {s : State} {name : String} {d : Draft} (found : s.drafts.find? name = some d)

include found

theorem signature?_step_returns {e : TypeExpr} {t : TypeDesc} {s' : State}
    (result : s.evaluate e = some (t, s')) :
    (s.step (.returns name e)).1.signature? name
      = some ⟨d.signature.parameters, .method (some t)⟩ := by
  have taken : s.step? (.returns name e) = some
      (.ok ((s'.updateDraft name (d.apply (.returns t))).releaseAll
          (d.signature.role.returnType?.toList.map TypeDesc.id))
        (.draft (d.apply (.returns t)).isGeneric)) := by
    simp [State.step?, State.returns, found, result]
  -- Releasing the old return type leaves the drafts alone.
  have drafts : (s.step (.returns name e)).1.drafts
      = s'.drafts.insert name (d.apply (.returns t)) := by
    rw [state_step taken]
    rfl
  rw [State.signature?, drafts, OrderedMap.find?_insert_self]
  rfl

theorem signature?_step_constructor :
    (s.step (.constructor name)).1.signature? name
      = some ⟨d.signature.parameters, .constructor⟩ := by
  have taken : s.step? (.constructor name) = some
      (.ok ((s.updateDraft name (d.apply .constructor)).releaseAll
          (d.signature.role.returnType?.toList.map TypeDesc.id))
        (.draft (d.apply .constructor).isGeneric)) := by
    simp [State.step?, State.constructor, found]
  have drafts : (s.step (.constructor name)).1.drafts
      = s.drafts.insert name (d.apply .constructor) := by
    rw [state_step taken]
    rfl
  rw [State.signature?, drafts, OrderedMap.find?_insert_self]
  rfl

/-- The draft is used up whether or not there is a member. -/
theorem signature?_step_freeze (as : String) :
    (s.step (.freeze name as)).1.signature? name = none := by
  rcases exists_freeze found as with ⟨o, taken⟩
  have answered : s.step? (.freeze name as) = some o := taken
  have drafts : (s.step (.freeze name as)).1.drafts = s.drafts.erase name := by
    rw [state_step answered]
    rcases freeze_cases taken with ⟨d', -, ⟨e, _, _, rfl⟩ | ⟨m, _, _, rfl⟩⟩
    · rfl
    · rfl
  rw [State.signature?, drafts, OrderedMap.find?_erase_self]
  rfl

theorem signature_of_built {as : String} {v : MethodView}
    (built : (s.step (.freeze name as)).2.reply = .ok (.method v)) :
    v.method.signature = d.signature
      ∧ (s.step (.freeze name as)).1.methods.find? as = some v.method := by
  rcases exists_outcome_of_reply built with ⟨o, taken, answered, state⟩
  rcases freeze_cases taken with ⟨d', found', ⟨e, _, _, rfl⟩ | ⟨m, _, outcome, rfl⟩⟩
  · cases answered
  · cases answered
    rcases Draft.exists_toMethod_of_freeze outcome with ⟨view, rfl⟩
    rw [found] at found'
    cases found'
    refine ⟨rfl, ?_⟩
    rw [state]
    exact OrderedMap.find?_insert_self s.methods as _

end Drafts

theorem holdsCurrent {s : State} {name : String} {signature : Signature}
    (named : s.signature? name = some signature) : HoldsCurrent s name signature := by
  rcases Option.map_eq_some_iff.1 named with ⟨d, found, rfl⟩
  exact
    { returns := fun _ _ _ result => signature?_step_returns found result
      constructor := signature?_step_constructor found
      frozen := fun as => signature?_step_freeze found as
      built := fun _ _ replied => signature_of_built found replied }

/-! ## The law -/

/-- In every state between two steps a reference is valid exactly if its target is sustained, or
deferred for a member that was replaced in a table; everything it answers follows from whether it
is valid.  In a run that adds no token twice to one table only what is sustained counts.
References, declaring types, generic parameters, constraints and rosters do not count, nor does a
return type that was overwritten. -/
theorem isValid_iff_sustained (steps : List Step) :
    let s := (State.empty.run steps).1
    (∀ r, s.Refers r →
        ∃ t, HasType s.ledger t ∧ r = .of t
          ∧ (s.isValid r = true ↔ s.Sustained t.id ∨ s.Deferred t.id)
          ∧ (State.AddsOnce steps → (s.isValid r = true ↔ s.Sustained t.id))
          ∧ s.upgrade r = (if s.isValid r then some t else none)
          ∧ (∀ what, s.resolve r what
              = if s.isValid r then .ok t else .error (.typeMissing what))
          ∧ s.tokenOf? r = (if s.isValid r then some t.token else none)
          ∧ s.fullNameOf? r = (if s.isValid r then some t.fullName else none))
      ∧ ∀ name signature, s.signature? name = some signature → HoldsCurrent s name signature := by
  intro s
  have h : Consistent s [] := consistent_run steps
  refine ⟨?_, fun name signature named => holdsCurrent named⟩
  intro r refers
  rcases h.target_of_refers refers with ⟨t, known, rfl⟩
  exact ⟨t, known, rfl, h.isLive_iff t.id,
    fun once => h.isLive_iff_sustained (retired_of_addsOnce once) t.id, upgrade_of_hasType known,
    resolve_of_hasType known, tokenOf?_of_hasType known, fullNameOf?_of_hasType known⟩

/-- A type whose table lists a method that takes the type itself outlives every name. -/
theorem isValid_iff_sustained_of_cycle :
    let steps : List Step :=
      [.type "T" (.named .null .classType "N" "T"), .ref "r" (.stored "T") .borrowed,
        .parameter "p" (.stored "T") .null 0 1 none,
        .draft "d" ⟨0x06000001⟩ "M" ⟨6⟩ (.stored ["p"]), .freeze "d" "m", .addMethod "T" "m",
        .drop .method "m", .drop .parameter "p", .drop .type "T"]
    let s := (State.empty.run steps).1
    s.handles = [] ∧ s.Refers ⟨0⟩ ∧ State.AddsOnce steps ∧ s.isValid ⟨0⟩ = true
      ∧ s.Sustained 0 := by
  intro steps s
  have refers : s.Refers ⟨0⟩ := .named "r" rfl
  have once : State.AddsOnce steps := by decide
  have valid : s.isValid ⟨0⟩ = true := by decide
  rcases (isValid_iff_sustained steps).1 ⟨0⟩ refers with ⟨t, -, target, -, law, -⟩
  have id : t.id = 0 := (congrArg WeakRef.target target).symm
  exact ⟨by decide, refers, once, valid, id ▸ (law once).1 valid⟩

end Session
end CallableMembers
