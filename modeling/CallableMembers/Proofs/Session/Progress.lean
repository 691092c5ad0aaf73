import CallableMembers.Proofs.Member.DraftHistory
import CallableMembers.Proofs.Session.Evaluation
import CallableMembers.Proofs.Session.Queries

/-!
# Progress — every run keeps a session consistent

Each step takes a consistent session to a consistent one that comes after it; so does, by
induction, every run.  Between two steps no hold is loose.
-/

namespace CallableMembers
namespace Session

open CallableMembers.Flags CallableMembers.Generics CallableMembers.Member CallableMembers.Ownership CallableMembers.Types

variable {s : State} {o : Outcome}

theorem Consistent.refl {loose : List ObjectId} (h : Consistent s loose) : Moves s s loose :=
  ⟨h, .refl s⟩

/-- A query changes nothing. -/
theorem Consistent.query {st : Step} (h : Consistent s []) (asks : st.asks = true)
    (taken : s.step? st = some o) : Moves s o.state [] := by
  rw [(State.outcome_of_asks asks taken).1]
  exact h.refl

/-! ## Outcomes of steps -/

theorem state_step {st : Step} (taken : s.step? st = some o) : (s.step st).1 = o.state := by
  simp only [State.step, taken]

/-- The reply of a step that succeeds is that of its outcome. -/
theorem exists_outcome_of_reply {st : Step} {reply : Reply} (replied : (s.step st).2.reply = .ok reply) :
    ∃ o, s.step? st = some o ∧ o.reply = .ok reply ∧ (s.step st).1 = o.state := by
  unfold State.step at replied
  cases taken : s.step? st with
  | none =>
      rw [taken] at replied
      cases replied
  | some o =>
      simp only [taken] at replied
      cases result : o.reply with
      | error e =>
          rw [result] at replied
          cases replied
      | ok reply' =>
          rw [result] at replied
          cases replied
          exact ⟨o, rfl, result, state_step taken⟩

/-! ## What drafts start with -/

theorem mem_values_of_mapM {ν : Type} {m : Names ν} {names : List String} {xs : List ν}
    (found : names.mapM m.find? = some xs) : ∀ x ∈ xs, x ∈ m.values := by
  induction names generalizing xs with
  | nil =>
      cases found
      simp
  | cons name names ih =>
      rw [List.mapM_cons] at found
      rcases Option.bind_eq_some_iff.1 found with ⟨y, first, found⟩
      rcases Option.bind_eq_some_iff.1 found with ⟨ys, rest, found⟩
      cases found
      intro x member
      rcases List.mem_cons.1 member with rfl | member
      · exact OrderedMap.mem_values_of_find? first
      · exact ih rest x member

theorem map_type_ofTypes (firstId : ObjectId) (ts : List TypeDesc) :
    (Parameter.ofTypes firstId ts).map Parameter.type = ts := by
  apply List.ext_getElem?
  intro i
  cases typeAt : ts[i]? <;> simp [Parameter.ofTypes, typeAt, Parameter.ofType]

theorem id_of_ofTypes {firstId : ObjectId} {ts : List TypeDesc} {i : Nat} {p : Parameter}
    (found : (Parameter.ofTypes firstId ts)[i]? = some p) : p.id = firstId + i := by
  rw [Parameter.ofTypes, List.getElem?_mapIdx] at found
  rcases Option.map_eq_some_iff.1 found with ⟨t, -, rfl⟩
  rfl

/-- A new draft knows its parameters and nothing else. -/
theorem hasDraft_start {l : Ledger Node} {ps : List Parameter}
    (known : ∀ p ∈ ps, HasParameter l p) (token : Token) (memberName : String)
    (attributes : Attributes) : HasDraft l (.start token memberName attributes ps) where
  signature :=
    { parameters := known
      returnType := fun t returned => by cases returned }
  declaring r declared := by cases declared

theorem holds_start (token : Token) (memberName : String) (attributes : Attributes)
    (ps : List Parameter) :
    (Draft.start token memberName attributes ps).signature.holds = ps.map Parameter.id := by
  simp [Signature.holds, Draft.start, Role.returnType?]

/-! ## Steps that may find nothing to take -/

theorem upgradeRef_cases {name refName : String} (taken : s.upgradeRef name refName = some o) :
    o = .ok s (.flag false)
      ∨ ∃ r t, s.refs.find? refName = some r ∧ s.upgrade r = some t
        ∧ o = .ok ((s.retain t.id).storeType name t) (.flag true) := by
  rcases Option.bind_eq_some_iff.1 taken with ⟨r, found, answered⟩
  cases upgraded : s.upgrade r with
  | none =>
      rw [upgraded] at answered
      exact .inl (Option.some.inj answered).symm
  | some t =>
      rw [upgraded] at answered
      exact .inr ⟨r, t, found, upgraded, (Option.some.inj answered).symm⟩

theorem takeParameter_cases {name : String} {index : Nat} {as : String}
    (taken : s.takeParameter name index as = some o) :
    o = .ok s (.flag false)
      ∨ ∃ m p, s.methods.find? name = some m ∧ m.parameters[index]? = some p
        ∧ o = .ok ((s.retain p.id).storeParameter as p) (.flag true) := by
  rcases Option.bind_eq_some_iff.1 taken with ⟨m, found, answered⟩
  cases entry : m.parameters[index]? with
  | none =>
      rw [entry] at answered
      exact .inl (Option.some.inj answered).symm
  | some p =>
      rw [entry] at answered
      exact .inr ⟨m, p, found, entry, (Option.some.inj answered).symm⟩

theorem takeMethod_cases {name : String} {token : Token} {as : String}
    (taken : s.takeMethod name token as = some o) :
    o = .ok s (.flag false)
      ∨ ∃ t m, s.types.find? name = some t ∧ (s.members t).find? token = some m
        ∧ o = .ok ((s.retain m.id).storeMethod as m) (.flag true) := by
  rcases Option.bind_eq_some_iff.1 taken with ⟨t, found, answered⟩
  cases entry : (s.members t).find? token with
  | none =>
      rw [entry] at answered
      exact .inl (Option.some.inj answered).symm
  | some m =>
      rw [entry] at answered
      exact .inr ⟨t, m, found, entry, (Option.some.inj answered).symm⟩

namespace Consistent

/-! ## Types and references -/

theorem type {name : String} {e : TypeExpr} (h : Consistent s []) (taken : s.type name e = some o) :
    Moves s o.state [] := by
  rcases Option.bind_eq_some_iff.1 taken with ⟨⟨t, s₁⟩, result, answered⟩
  cases answered
  have evaluated := h.evaluate result
  exact evaluated.moves.trans (evaluated.moves.consistent.storeType evaluated.known name)

theorem sameType {name : String} {e : TypeExpr} (h : Consistent s [])
    (taken : s.sameType name e = some o) : Moves s o.state [] := by
  rcases Option.bind_eq_some_iff.1 taken with ⟨t, -, taken⟩
  rcases Option.bind_eq_some_iff.1 taken with ⟨⟨other, s₁⟩, result, answered⟩
  cases answered
  have evaluated := h.evaluate result
  exact evaluated.moves.trans evaluated.moves.consistent.release

theorem ref {name : String} {e : TypeExpr} {passing : Passing} (h : Consistent s [])
    (taken : s.ref name e passing = some o) : Moves s o.state [] := by
  rcases Option.bind_eq_some_iff.1 taken with ⟨⟨t, s₁⟩, result, answered⟩
  cases answered
  have evaluated := h.evaluate result
  have targets : ∀ r ∈ (s₁.refs.insert name (.of t)).values, HasTarget s₁.ledger r :=
    OrderedMap.forall_values_insert evaluated.moves.consistent.coherent.refs
      ⟨t, evaluated.known, rfl⟩ name
  have named := evaluated.moves.consistent.nameRef targets
  exact (evaluated.moves.trans named).trans named.consistent.release

theorem upgradeRef {name refName : String} (h : Consistent s [])
    (taken : s.upgradeRef name refName = some o) : Moves s o.state [] := by
  rcases upgradeRef_cases taken with rfl | ⟨r, t, -, upgraded, rfl⟩
  · exact h.refl
  · -- The reference leads to a live type, so there is something to hold.
    rcases h.coherent.objects.of_upgrade upgraded with ⟨live, known, same⟩
    have retained := h.retain live
    exact retained.trans
      (retained.consistent.storeType (retained.evolves.ledger.hasType known) name)

theorem drop (h : Consistent s []) (kind : NameKind) (name : String) :
    Moves s (s.drop kind name).1 [] := by
  cases kind with
  | type =>
      cases found : s.types.find? name with
      | none => simpa only [State.drop, found] using h.refl
      | some t => simpa only [State.drop, found] using h.dropType found
  | ref =>
      exact h.nameRef (OrderedMap.forall_values_erase h.coherent.refs name)
  | parameter =>
      cases found : s.parameters.find? name with
      | none => simpa only [State.drop, found] using h.refl
      | some p => simpa only [State.drop, found] using h.dropParameter found
  | generic => exact h.nameGenerics _
  | roster => exact h.nameRosters _
  | draft =>
      cases found : s.drafts.find? name with
      | none => simpa only [State.drop, found] using h.refl
      | some d =>
          have forgotten := h.forgetDraft found
          simpa only [State.drop, found] using forgotten.trans forgotten.consistent.releaseAll
  | method =>
      cases found : s.methods.find? name with
      | none => simpa only [State.drop, found] using h.refl
      | some m => simpa only [State.drop, found] using h.dropMethod found

/-! ## Parameters and generic parameters -/

theorem parameter {name : String} {e : TypeExpr} {token : Token} {flags : UInt16}
    {position : UInt32} {parameterName? : Option String} (h : Consistent s [])
    (taken : s.parameter name e token flags position parameterName? = some o) :
    Moves s o.state [] := by
  rcases Option.bind_eq_some_iff.1 taken with ⟨⟨t, s₁⟩, result, answered⟩
  cases answered
  have evaluated := h.evaluate result
  let p : Parameter := ⟨s₁.ledger.nextId, token, flags, position, parameterName?, t⟩
  have made : Moves s₁ (s₁.add (.parameter p)) [p.id] :=
    evaluated.moves.consistent.add rfl evaluated.known
  have here : HasParameter (s₁.add (.parameter p)).ledger p := by
    simp [HasParameter, State.add, Ledger.object?_add, p]
  exact (evaluated.moves.trans made).trans (made.consistent.storeParameter here name)

theorem constrain {name : String} {e : TypeExpr} (h : Consistent s [])
    (taken : s.constrain name e = some o) : Moves s o.state [] := by
  rcases Option.bind_eq_some_iff.1 taken with ⟨p, -, taken⟩
  rcases Option.bind_eq_some_iff.1 taken with ⟨⟨t, s₁⟩, result, answered⟩
  cases answered
  have evaluated := h.evaluate result
  -- A constraint holds nothing, so the type is given up at once.
  have constrained := evaluated.moves.consistent.addConstraint evaluated.known p
  exact (evaluated.moves.trans constrained).trans constrained.consistent.release

theorem sort {names : List String} {policy : GapPolicy} (h : Consistent s [])
    (taken : s.sort names policy = some o) : Moves s o.state [] := by
  rcases Option.bind_eq_some_iff.1 taken with ⟨ps, -, answered⟩
  cases answered
  exact h.refl

theorem register {name : String} {names : List String} (h : Consistent s [])
    (taken : s.register name names = some o) : Moves s o.state [] := by
  rcases Option.bind_eq_some_iff.1 taken with ⟨r, -, taken⟩
  rcases Option.bind_eq_some_iff.1 taken with ⟨ps, -, answered⟩
  cases answered
  exact h.nameRosters _

theorem setPolicy {name : String} {policy : GapPolicy} (h : Consistent s [])
    (taken : s.setPolicy name policy = some o) : Moves s o.state [] := by
  rcases Option.bind_eq_some_iff.1 taken with ⟨r, -, answered⟩
  cases answered
  exact h.nameRosters _

theorem sorted {name : String} (h : Consistent s []) (taken : s.sorted name = some o) :
    Moves s o.state [] := by
  rcases Option.bind_eq_some_iff.1 taken with ⟨r, -, answered⟩
  cases answered
  exact h.nameRosters _

/-! ## Drafts -/

/-- Named parameters are held once more for the draft. -/
theorem holdParameters {names : List String} {ps : List Parameter} (h : Consistent s [])
    (found : names.mapM s.parameters.find? = some ps) :
    Moves s (s.retainAll (ps.map Parameter.id)) (ps.map Parameter.id ++ [])
      ∧ ∀ p ∈ ps, HasParameter (s.retainAll (ps.map Parameter.id)).ledger p := by
  have members := mem_values_of_mapM found
  have live : ∀ i ∈ ps.map Parameter.id, s.ledger.isLive i = true := by
    intro i listed
    rcases List.mem_map.1 listed with ⟨p, member, rfl⟩
    rcases OrderedMap.mem_values_iff.1 (members p member) with ⟨name, named⟩
    exact (h.parameter_of_find? named).2
  have retained := h.retainAll live
  exact ⟨retained, fun p member =>
    retained.evolves.ledger.hasParameter (h.coherent.parameters p (members p member))⟩

/-- Parameters that are made for types take over the holds on these. -/
theorem makeParameters {ts : List TypeDesc} (h : Consistent s (ts.map TypeDesc.id ++ []))
    (known : ∀ t ∈ ts, HasType s.ledger t) :
    let ps := Parameter.ofTypes s.ledger.nextId ts
    Moves s (s.addAll (ps.map .parameter)) (ps.map Parameter.id ++ [])
      ∧ ∀ p ∈ ps, HasParameter (s.addAll (ps.map .parameter)).ledger p := by
  intro ps
  have types : ps.map Parameter.type = ts := map_type_ofTypes s.ledger.nextId ts
  have ids : ps.map (fun p => p.type.id) = ts.map TypeDesc.id := by
    rw [← types, List.map_map]
    rfl
  have known' : ∀ p ∈ ps, HasType s.ledger p.type := by
    intro p member
    apply known
    rw [← types]
    exact List.mem_map.2 ⟨p, member, rfl⟩
  have pending : Consistent s (ps.map (fun p => p.type.id) ++ []) := by
    rw [ids]
    exact h
  exact pending.addParameters (fun i p => id_of_ofTypes) known'

/-- A draft that starts has loose holds on its parameters, which are all it holds. -/
theorem startDraft {token : Token} {memberName : String} {attributes : Attributes}
    {source : ParameterSource} {d : Draft} {s' : State} (h : Consistent s [])
    (started : s.startDraft token memberName attributes source = some (d, s')) :
    Moves s s' (d.signature.holds ++ []) ∧ HasDraft s'.ledger d := by
  cases source with
  | stored names =>
      rcases Option.bind_eq_some_iff.1 started with ⟨ps, found, answered⟩
      cases answered
      have ⟨moves, known⟩ := h.holdParameters found
      rw [holds_start]
      exact ⟨moves, hasDraft_start known token memberName attributes⟩
  | ofTypes types =>
      rcases Option.bind_eq_some_iff.1 started with ⟨⟨ts, s₁⟩, result, answered⟩
      cases answered
      have ⟨evaluated, types, _⟩ := h.evaluateAll result
      have ⟨moves, known⟩ := evaluated.consistent.makeParameters types
      rw [Draft.startOfTypes, holds_start]
      exact ⟨evaluated.trans moves, hasDraft_start known token memberName attributes⟩

theorem draft {name : String} {token : Token} {memberName : String} {attributes : Attributes}
    {source : ParameterSource} (h : Consistent s [])
    (taken : s.draft name token memberName attributes source = some o) : Moves s o.state [] := by
  rcases Option.bind_eq_some_iff.1 taken with ⟨⟨d, s₁⟩, started, answered⟩
  cases answered
  have ⟨moves, known⟩ := h.startDraft started
  exact moves.trans (moves.consistent.storeDraft known name)

/-- A draft changes under its name: it takes over loose holds and gives up others. -/
theorem changeDraft {name : String} {old new : Draft} {taken given loose : List ObjectId}
    (h : Consistent s (taken ++ loose)) (found : s.drafts.find? name = some old)
    (known : HasDraft s.ledger new)
    (exchange : ∀ i, new.signature.holds.count i + given.count i
      = old.signature.holds.count i + taken.count i) :
    Moves s (s.updateDraft name new) (given ++ loose) := by
  refine h.rename rfl rfl ?_
    { h.coherent with drafts := OrderedMap.forall_values_insert h.coherent.drafts known name }
  intro i
  have moved := count_flatMap_insert (fun d : Draft => d.signature.holds) s.drafts name i new
  have balance := exchange i
  simp only [found, Option.toList_some, List.flatMap_singleton] at moved
  simp only [State.updateDraft, List.count_append, count_roots]
  omega

/-- The draft changes in a way that concerns no object. -/
theorem retouchDraft {name : String} {old new : Draft} {loose : List ObjectId}
    (h : Consistent s loose) (found : s.drafts.find? name = some old)
    (signature : new.signature = old.signature) (declaring : new.declaring? = old.declaring?) :
    Moves s (s.updateDraft name new) loose := by
  have before := h.draft_of_find? found
  have known : HasDraft s.ledger new :=
    ⟨signature ▸ before.signature, declaring ▸ before.declaring⟩
  have pending : Consistent s ([] ++ loose) := h
  have changed : Moves s (s.updateDraft name new) ([] ++ loose) :=
    pending.changeDraft found known fun i => by rw [signature]
  exact changed

/-- The changes that concern no object. -/
def Inert : Draft.Change → Prop
  | .implementation _ | .options _ | .generic _ => True
  | .declaredBy _ | .returns _ | .constructor => False

theorem inert_foldl (d : Draft) {changes : List Draft.Change} (inert : ∀ c ∈ changes, Inert c) :
    (changes.foldl Draft.apply d).signature = d.signature
      ∧ (changes.foldl Draft.apply d).declaring? = d.declaring? := by
  induction changes generalizing d with
  | nil => exact ⟨rfl, rfl⟩
  | cons c changes ih =>
      have ⟨signature, declaring⟩ := ih (d.apply c) fun c' member =>
        inert c' (List.mem_cons_of_mem _ member)
      have first := inert c (List.mem_cons_self ..)
      rw [List.foldl_cons, signature, declaring]
      cases c with
      | implementation _ => exact ⟨rfl, rfl⟩
      | options _ => exact ⟨rfl, rfl⟩
      | generic _ => exact ⟨rfl, rfl⟩
      | declaredBy _ => cases first
      | returns _ => cases first
      | constructor => cases first

theorem amend {name : String} {changes : List Draft.Change} (h : Consistent s [])
    (inert : ∀ c ∈ changes, Inert c) (taken : s.amend name changes = some o) :
    Moves s o.state [] := by
  rcases Option.bind_eq_some_iff.1 taken with ⟨d, found, answered⟩
  cases answered
  have ⟨signature, declaring⟩ := inert_foldl d inert
  exact h.retouchDraft found signature declaring

theorem addGenerics {name : String} {names : List String} (h : Consistent s [])
    (taken : s.addGenerics name names = some o) : Moves s o.state [] := by
  rcases Option.bind_eq_some_iff.1 taken with ⟨ps, -, taken⟩
  refine h.amend ?_ taken
  intro c member
  rcases List.mem_map.1 member with ⟨p, -, rfl⟩
  trivial

theorem draftSorted {name : String} (h : Consistent s []) (taken : s.draftSorted name = some o) :
    Moves s o.state [] := by
  rcases Option.bind_eq_some_iff.1 taken with ⟨d, found, answered⟩
  cases answered
  exact h.retouchDraft found rfl rfl

theorem declaring {name : String} {e : TypeExpr} (h : Consistent s [])
    (taken : s.declaring name e = some o) : Moves s o.state [] := by
  rcases Option.bind_eq_some_iff.1 taken with ⟨d, found, taken⟩
  rcases Option.bind_eq_some_iff.1 taken with ⟨⟨t, s₁⟩, result, answered⟩
  cases answered
  have evaluated := h.evaluate result
  have found' : s₁.drafts.find? name = some d := by rw [evaluated.names]; exact found
  have before := evaluated.moves.consistent.draft_of_find? found'
  have known : HasDraft s₁.ledger (d.apply (.declaredBy t)) := by
    refine ⟨before.signature, ?_⟩
    intro r declared
    cases declared
    exact ⟨t, evaluated.known, rfl⟩
  -- The owner is only remembered; the hold on it stays loose and is given up.
  have pending : Consistent s₁ ([] ++ [t.id]) := evaluated.moves.consistent
  have changed : Moves s₁ (s₁.updateDraft name (d.apply (.declaredBy t))) ([] ++ [t.id]) :=
    pending.changeDraft found' known fun i => rfl
  exact (evaluated.moves.trans changed).trans changed.consistent.release

theorem count_holds_setRole (d : Draft) (role : Role) (i : ObjectId) :
    (d.setRole role).signature.holds.count i
        + (d.signature.role.returnType?.toList.map TypeDesc.id).count i
      = d.signature.holds.count i + (role.returnType?.toList.map TypeDesc.id).count i := by
  simp only [Signature.holds, Draft.setRole, List.count_append]
  omega

theorem returns {name : String} {e : TypeExpr} (h : Consistent s [])
    (taken : s.returns name e = some o) : Moves s o.state [] := by
  rcases Option.bind_eq_some_iff.1 taken with ⟨d, found, taken⟩
  rcases Option.bind_eq_some_iff.1 taken with ⟨⟨t, s₁⟩, result, answered⟩
  cases answered
  have evaluated := h.evaluate result
  have found' : s₁.drafts.find? name = some d := by rw [evaluated.names]; exact found
  have before := evaluated.moves.consistent.draft_of_find? found'
  have known : HasDraft s₁.ledger (d.apply (.returns t)) := by
    refine ⟨⟨before.signature.parameters, ?_⟩, before.declaring⟩
    intro t' returned
    cases returned
    exact evaluated.known
  -- The draft takes the loose hold, and the one on the old return type becomes loose.
  have pending : Consistent s₁ ([t.id] ++ []) := evaluated.moves.consistent
  have changed := pending.changeDraft found' known (count_holds_setRole d (.method (some t)))
  exact (evaluated.moves.trans changed).trans changed.consistent.releaseAll

theorem constructor {name : String} (h : Consistent s []) (taken : s.constructor name = some o) :
    Moves s o.state [] := by
  rcases Option.bind_eq_some_iff.1 taken with ⟨d, found, answered⟩
  cases answered
  have before := h.draft_of_find? found
  have known : HasDraft s.ledger (d.apply .constructor) :=
    ⟨⟨before.signature.parameters, fun t returned => by cases returned⟩, before.declaring⟩
  have pending : Consistent s ([] ++ []) := h
  have changed := pending.changeDraft found known (count_holds_setRole d .constructor)
  exact changed.trans changed.consistent.releaseAll

end Consistent

/-- The draft gives way to a new member that has no name yet. -/
def State.exchangeDraft (s : State) (name : String) (m : Method) : State :=
  State.add { s with drafts := s.drafts.erase name } (.method m)

/-- All that freezing can come to. -/
theorem freeze_cases {name as : String} (taken : s.freeze name as = some o) :
    ∃ d, s.drafts.find? name = some d
      ∧ ((∃ e events, (d.freeze s.ledger.nextId).outcome = .error e
            ∧ o = ⟨State.releaseAll { s with drafts := s.drafts.erase name } d.signature.holds,
                .error e, events⟩)
          ∨ ∃ m events, (d.freeze s.ledger.nextId).outcome = .ok m
            ∧ o = ⟨(s.exchangeDraft name m).storeMethod as m,
                .ok (.method ((s.exchangeDraft name m).methodView m)), events⟩) := by
  rcases Option.bind_eq_some_iff.1 taken with ⟨d, found, taken⟩
  refine ⟨d, found, ?_⟩
  cases outcome : (d.freeze s.ledger.nextId).outcome with
  | error e =>
      simp only [outcome] at taken
      cases taken
      exact .inl ⟨e, _, rfl, rfl⟩
  | ok m =>
      simp only [outcome] at taken
      cases taken
      exact .inr ⟨m, _, rfl, rfl⟩

theorem exists_freeze {name : String} {d : Draft} (found : s.drafts.find? name = some d)
    (as : String) : ∃ o, s.freeze name as = some o := by
  cases outcome : (d.freeze s.ledger.nextId).outcome with
  | error e => exact ⟨_, by simp [State.freeze, found, outcome]; rfl⟩
  | ok m => exact ⟨_, by simp [State.freeze, found, outcome]; rfl⟩

theorem hasMethod_add {m : Method} (id : m.id = s.ledger.nextId) :
    HasMethod (s.add (.method m)).ledger m := by
  simp only [HasMethod, State.add, Ledger.object?_add, if_pos id]

namespace Consistent

/-- The new member takes over the holds of the draft. -/
theorem exchangeDraft {name : String} {d : Draft} {m : Method} (h : Consistent s [])
    (found : s.drafts.find? name = some d) (made : (d.freeze s.ledger.nextId).outcome = .ok m) :
    Moves s (s.exchangeDraft name m) [m.id] ∧ HasMethod (s.exchangeDraft name m).ledger m := by
  have known := h.draft_of_find? found
  have forgotten := h.forgetDraft found
  rcases Draft.exists_toMethod_of_freeze made with ⟨view, rfl⟩
  have pending : Consistent { s with drafts := s.drafts.erase name }
      (Holder.holds (Node.method (d.toMethod s.ledger.nextId view)) ++ []) := forgotten.consistent
  have added := pending.add rfl ⟨known.signature, known.declaring⟩
  exact ⟨forgotten.trans added, hasMethod_add rfl⟩

/-- Without a member the holds of the draft are released. -/
theorem freeze {name as : String} (h : Consistent s []) (taken : s.freeze name as = some o) :
    Moves s o.state [] := by
  rcases freeze_cases taken with ⟨d, found, ⟨e, _, _, rfl⟩ | ⟨m, _, outcome, rfl⟩⟩
  · -- No member: the holds of the draft are given up.
    have forgotten := h.forgetDraft found
    exact forgotten.trans forgotten.consistent.releaseAll
  · have ⟨added, here⟩ := h.exchangeDraft found outcome
    exact added.trans (added.consistent.storeMethod here as)

/-! ## Methods and member tables -/

theorem takeParameter {name : String} {index : Nat} {as : String} (h : Consistent s [])
    (taken : s.takeParameter name index as = some o) : Moves s o.state [] := by
  rcases takeParameter_cases taken with rfl | ⟨m, p, found, entry, rfl⟩
  · exact h.refl
  · -- The member is held and holds the parameter, which is held once more.
    have ⟨made, alive⟩ :=
      h.parameter_of_method (h.method_of_find? found) (List.mem_of_getElem? entry)
    have retained := h.retain alive
    exact retained.trans
      (retained.consistent.storeParameter (retained.evolves.ledger.hasParameter made) as)

theorem addMethod {name methodName : String} (h : Consistent s [])
    (taken : s.addMethod name methodName = some o) : Moves s o.state [] := by
  rcases Option.bind_eq_some_iff.1 taken with ⟨t, found, taken⟩
  rcases Option.bind_eq_some_iff.1 taken with ⟨m, member, answered⟩
  cases answered
  have ⟨known, live⟩ := h.type_of_find? found
  have ⟨made, alive⟩ := h.method_of_find? member
  exact h.addMember known live made alive

/-- What stands in the table of a live type is live. -/
theorem method_of_members {loose : List ObjectId} {t : TypeDesc} {m : Method}
    (h : Consistent s loose) (known : HasType s.ledger t) (live : s.ledger.isLive t.id = true)
    (listed : m ∈ (s.members t).values) :
    HasMethod s.ledger m ∧ s.ledger.isLive m.id = true := by
  rcases known with ⟨members, found⟩
  rw [members_eq live found] at listed
  have edge : s.ledger.Edge t.id m.id := by
    refine ⟨_, found, List.mem_append_right _ ?_⟩
    exact List.mem_map.2 ⟨m, listed, rfl⟩
  exact ⟨(h.coherent.objects _ _ found).2.2 m listed, h.sound.live_of_edge live edge⟩

theorem takeMethod {name : String} {token : Token} {as : String} (h : Consistent s [])
    (taken : s.takeMethod name token as = some o) : Moves s o.state [] := by
  rcases takeMethod_cases taken with rfl | ⟨t, m, found, entry, rfl⟩
  · exact h.refl
  · have ⟨known, live⟩ := h.type_of_find? found
    have ⟨made, alive⟩ := h.method_of_members known live (OrderedMap.mem_values_of_find? entry)
    have retained := h.retain alive
    exact retained.trans
      (retained.consistent.storeMethod (retained.evolves.ledger.hasMethod made) as)

/-! ## All steps -/

theorem step? {st : Step} (h : Consistent s []) (taken : s.step? st = some o) :
    Moves s o.state [] := by
  cases st with
  | type name e => exact h.type taken
  | sameType name e => exact h.sameType taken
  | ref name e passing => exact h.ref taken
  | upgrade name refName => exact h.upgradeRef taken
  | drop kind name =>
      cases taken
      exact h.drop kind name
  | parameter name e token flags position parameterName? => exact h.parameter taken
  | generic name token number flags parameterName =>
      cases taken
      exact h.addGeneric _
  | constrain name e => exact h.constrain taken
  | sort names policy => exact h.sort taken
  | roster name policy =>
      cases taken
      exact h.nameRosters _
  | register name names => exact h.register taken
  | setPolicy name policy => exact h.setPolicy taken
  | sorted name => exact h.sorted taken
  | draft name token memberName attributes source => exact h.draft taken
  | declaring name e => exact h.declaring taken
  | implementation name word => exact h.amend (by simp [Inert]) taken
  | returns name e => exact h.returns taken
  | constructor name => exact h.constructor taken
  | options name options => exact h.amend (by simp [Inert]) taken
  | addGenerics name names => exact h.addGenerics taken
  | draftSorted name => exact h.draftSorted taken
  | freeze name as => exact h.freeze taken
  | takeParameter name index as => exact h.takeParameter taken
  | addMethod name methodName => exact h.addMethod taken
  | takeMethod name token as => exact h.takeMethod taken
  | reclaim index =>
      cases taken
      exact h.reclaim index
  -- All other steps are queries.
  | _ => exact h.query rfl taken

theorem step (h : Consistent s []) (st : Step) : Moves s (s.step st).1 [] := by
  -- A step that fails leaves the session as it was.
  unfold State.step
  cases taken : s.step? st with
  | none => exact h.refl
  | some o => exact h.step? taken

theorem run (h : Consistent s []) (steps : List Step) : Moves s (s.run steps).1 [] := by
  -- Between two steps nothing is loose, so one step starts where the one before ended.
  induction steps generalizing s with
  | nil => exact h.refl
  | cons st steps ih =>
      have first := h.step st
      exact first.trans (ih first.consistent)

end Consistent

theorem consistent_empty : Consistent .empty [] where
  sound := Ledger.sound_empty
  coherent :=
    { objects := wellPlaced_empty
      types := fun t member => by cases member
      parameters := fun p member => by cases member
      methods := fun m member => by cases member
      drafts := fun d member => by cases member
      refs := fun r member => by cases member
      constraints := fun rs listed => by cases listed
      retired := fun m member => by cases member }

/-- Every state that a session can come to is consistent. -/
theorem consistent_run (steps : List Step) : Consistent (State.empty.run steps).1 [] :=
  (consistent_empty.run steps).consistent

end Session
end CallableMembers
