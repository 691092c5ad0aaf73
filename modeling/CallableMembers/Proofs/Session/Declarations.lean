import CallableMembers.Proofs.Session.Progress

/-!
# Declarations — which type a draft was declared by last

The drafts of a session are started, declared, changed in other ways and used up, in any order
and under any names.  What the draft under a name remembers is the type of the last declaration
since it was started; no step but a declaration of this draft or the start of another one under
its name has a say in it.
-/

namespace CallableMembers
namespace Session

open CallableMembers.Flags CallableMembers.Member CallableMembers.Ownership CallableMembers.Types

/-! ## Declarations of a run -/

namespace State

/-- The step puts a new draft under the name. -/
def starts (s : State) (name : String) : Step → Bool
  | .draft other token memberName attributes source =>
      other == name && (s.startDraft token memberName attributes source).isSome
  | _ => false

/-- The type that the step declares the draft under the name by, if it does. -/
def declared? (s : State) (name : String) : Step → Option TypeDesc
  | .declaring other e =>
      if other = name then do
        let _ ← s.drafts.find? name
        let (t, _) ← s.evaluate e
        return t
      else none
  | _ => none

def ownersAfter (s : State) (name : String) (owners : List TypeDesc) (st : Step) : List TypeDesc :=
  if s.starts name st then [] else owners ++ (s.declared? name st).toList

/-- The types that the draft under the name was declared by since it was started, in order. -/
def owners (s : State) (name : String) (before : List TypeDesc) : List Step → List TypeDesc
  | [] => before
  | st :: rest => (s.step st).1.owners name (s.ownersAfter name before st) rest

end State

/-- The draft under the name, if there is one, remembers the last of these types. -/
structure Tracks (s : State) (name : String) (owners : List TypeDesc) : Prop where
  last : ∀ d, s.drafts.find? name = some d → d.declaring? = owners.getLast?.map WeakRef.of
  known : ∀ t ∈ owners, HasType s.ledger t

/-! ## Steps that declare nothing -/

/-- What stands under the name was there before, and has the same declaring type. -/
def KeepsOwner (name : String) (drafts drafts' : Names Draft) : Prop :=
  ∀ d', drafts'.find? name = some d' →
    ∃ d, drafts.find? name = some d ∧ d'.declaring? = d.declaring?

namespace KeepsOwner

variable {name other : String} {drafts : Names Draft}

theorem refl (name : String) (drafts : Names Draft) : KeepsOwner name drafts drafts :=
  fun d' found => ⟨d', found, rfl⟩

theorem erase (name other : String) (drafts : Names Draft) :
    KeepsOwner name drafts (drafts.erase other) := by
  intro d' found
  rw [OrderedMap.find?_erase] at found
  split at found
  · cases found
  · exact ⟨d', found, rfl⟩

theorem insert {d d' : Draft} (found : drafts.find? other = some d)
    (same : d'.declaring? = d.declaring?) : KeepsOwner name drafts (drafts.insert other d') := by
  intro d'' found'
  by_cases here : name = other
  · rw [here, OrderedMap.find?_insert_self] at found'
    cases found'
    exact ⟨d, here ▸ found, same⟩
  · rw [OrderedMap.find?_insert_of_ne drafts here] at found'
    exact ⟨d'', found', rfl⟩

theorem insert_of_ne (apart : name ≠ other) (d : Draft) :
    KeepsOwner name drafts (drafts.insert other d) := by
  intro d' found
  rw [OrderedMap.find?_insert_of_ne drafts apart] at found
  exact ⟨d', found, rfl⟩

end KeepsOwner

section Steps

variable {s : State} {o : Outcome} {name : String}

theorem KeepsOwner.query {st : Step} (asks : st.asks = true) (taken : s.step? st = some o) :
    KeepsOwner name s.drafts o.state.drafts := by
  rw [(State.outcome_of_asks asks taken).1]
  exact .refl name s.drafts

/-- A step that looks something up and leaves the drafts alone. -/
theorem KeepsOwner.lookup {α : Type} {found? : Option α} {answer : α → Outcome}
    (unchanged : ∀ x, (answer x).state.drafts = s.drafts)
    (taken : (found?.bind fun x => some (answer x)) = some o) :
    KeepsOwner name s.drafts o.state.drafts := by
  rcases Option.bind_eq_some_iff.1 taken with ⟨x, -, answered⟩
  cases answered
  rw [unchanged x]
  exact .refl name s.drafts

theorem Consistent.drafts_evaluate {e : TypeExpr} {t : TypeDesc} {s' : State} (h : Consistent s [])
    (result : s.evaluate e = some (t, s')) : s'.drafts = s.drafts := by
  rw [(h.evaluate result).names]

/-- A step that evaluates a type and stores no draft. -/
theorem KeepsOwner.evaluating {e : TypeExpr} {answer : TypeDesc × State → Outcome}
    (h : Consistent s []) (unchanged : ∀ r, (answer r).state.drafts = r.2.drafts)
    (taken : ((s.evaluate e).bind fun r => some (answer r)) = some o) :
    KeepsOwner name s.drafts o.state.drafts := by
  rcases Option.bind_eq_some_iff.1 taken with ⟨⟨t, s₁⟩, result, answered⟩
  cases answered
  rw [unchanged, h.drafts_evaluate result]
  exact .refl name s.drafts

theorem keepsOwner_upgradeRef {typeName refName : String}
    (taken : s.upgradeRef typeName refName = some o) :
    KeepsOwner name s.drafts o.state.drafts := by
  rcases upgradeRef_cases taken with rfl | ⟨r, t, -, -, rfl⟩
  · exact .refl name s.drafts
  · exact .refl name s.drafts

theorem keepsOwner_drop (s : State) (name : String) (kind : NameKind) (dropped : String) :
    KeepsOwner name s.drafts (s.drop kind dropped).1.drafts := by
  cases kind with
  | type => simp only [State.drop]; split <;> exact .refl name s.drafts
  | ref => exact .refl name s.drafts
  | parameter => simp only [State.drop]; split <;> exact .refl name s.drafts
  | generic => exact .refl name s.drafts
  | roster => exact .refl name s.drafts
  | draft =>
      simp only [State.drop]
      split
      · exact .erase name dropped s.drafts
      · exact .refl name s.drafts
  | method => simp only [State.drop]; split <;> exact .refl name s.drafts

theorem keepsOwner_amend {changed : String} {changes : List Draft.Change}
    (inert : ∀ c ∈ changes, Consistent.Inert c) (taken : s.amend changed changes = some o) :
    KeepsOwner name s.drafts o.state.drafts := by
  rcases Option.bind_eq_some_iff.1 taken with ⟨d, found, answered⟩
  cases answered
  exact .insert found (Consistent.inert_foldl d inert).2

theorem keepsOwner_addGenerics {changed : String} {names : List String}
    (taken : s.addGenerics changed names = some o) : KeepsOwner name s.drafts o.state.drafts := by
  rcases Option.bind_eq_some_iff.1 taken with ⟨ps, -, taken⟩
  refine keepsOwner_amend ?_ taken
  intro c member
  rcases List.mem_map.1 member with ⟨p, -, rfl⟩
  trivial

theorem keepsOwner_draftSorted {read : String} (taken : s.draftSorted read = some o) :
    KeepsOwner name s.drafts o.state.drafts := by
  rcases Option.bind_eq_some_iff.1 taken with ⟨d, found, answered⟩
  cases answered
  exact .insert found rfl

theorem Consistent.keepsOwner_returns {changed : String} {e : TypeExpr} (h : Consistent s [])
    (taken : s.returns changed e = some o) : KeepsOwner name s.drafts o.state.drafts := by
  rcases Option.bind_eq_some_iff.1 taken with ⟨d, found, taken⟩
  rcases Option.bind_eq_some_iff.1 taken with ⟨⟨t, s₁⟩, result, answered⟩
  cases answered
  rw [← h.drafts_evaluate result] at found ⊢
  exact .insert found rfl

theorem keepsOwner_constructor {changed : String} (taken : s.constructor changed = some o) :
    KeepsOwner name s.drafts o.state.drafts := by
  rcases Option.bind_eq_some_iff.1 taken with ⟨d, found, answered⟩
  cases answered
  exact .insert found rfl

theorem keepsOwner_freeze {frozen as : String} (taken : s.freeze frozen as = some o) :
    KeepsOwner name s.drafts o.state.drafts := by
  rcases freeze_cases taken with ⟨d, -, ⟨e, _, _, rfl⟩ | ⟨m, _, _, rfl⟩⟩
  · exact .erase name frozen s.drafts
  · exact .erase name frozen s.drafts

theorem keepsOwner_takeMethod {typeName : String} {token : Token} {as : String}
    (taken : s.takeMethod typeName token as = some o) :
    KeepsOwner name s.drafts o.state.drafts := by
  rcases takeMethod_cases taken with rfl | ⟨t, m, -, -, rfl⟩
  · exact .refl name s.drafts
  · exact .refl name s.drafts

theorem keepsOwner_takeParameter {methodName : String} {index : Nat} {as : String}
    (taken : s.takeParameter methodName index as = some o) :
    KeepsOwner name s.drafts o.state.drafts := by
  rcases takeParameter_cases taken with rfl | ⟨m, p, -, -, rfl⟩
  · exact .refl name s.drafts
  · exact .refl name s.drafts

theorem keepsOwner_reclaim (s : State) (name : String) (index : Nat) :
    KeepsOwner name s.drafts (s.reclaim index).1.drafts := by
  unfold State.reclaim
  split <;> exact .refl name s.drafts

theorem drafts_addAll (s : State) (nodes : List Node) : (s.addAll nodes).drafts = s.drafts := by
  induction nodes generalizing s with
  | nil => rfl
  | cons node nodes ih => exact ih (s.add node)

/-- A draft that starts is declared by no type, and the other drafts stay as they are. -/
theorem Consistent.fresh_of_startDraft {token : Token} {memberName : String}
    {attributes : Attributes} {source : ParameterSource} {d : Draft} {s' : State}
    (h : Consistent s [])
    (started : s.startDraft token memberName attributes source = some (d, s')) :
    d.declaring? = none ∧ s'.drafts = s.drafts := by
  cases source with
  | stored names =>
      rcases Option.bind_eq_some_iff.1 started with ⟨ps, found, answered⟩
      cases answered
      exact ⟨rfl, rfl⟩
  | ofTypes types =>
      rcases Option.bind_eq_some_iff.1 started with ⟨⟨ts, s₁⟩, result, answered⟩
      cases answered
      have ⟨_, _, names⟩ := h.evaluateAll result
      refine ⟨rfl, ?_⟩
      rw [drafts_addAll, names]

/-- Only a step that starts the draft or declares it changes what it remembers. -/
theorem Consistent.keepsOwner_step? {st : Step} (h : Consistent s [])
    (started : s.starts name st = false) (declared : s.declared? name st = none)
    (taken : s.step? st = some o) : KeepsOwner name s.drafts o.state.drafts := by
  cases st with
  | type _ _ => exact .evaluating h (fun _ => rfl) taken
  | sameType _ _ =>
      rcases Option.bind_eq_some_iff.1 taken with ⟨t, -, taken⟩
      exact .evaluating h (fun _ => rfl) taken
  | ref _ _ _ => exact .evaluating h (fun _ => rfl) taken
  | upgrade _ _ => exact keepsOwner_upgradeRef taken
  | drop kind dropped =>
      cases taken
      exact keepsOwner_drop s name kind dropped
  | parameter _ _ _ _ _ _ => exact .evaluating h (fun _ => rfl) taken
  | generic _ _ _ _ _ | roster _ _ =>
      cases taken
      exact .refl name s.drafts
  | constrain _ _ =>
      rcases Option.bind_eq_some_iff.1 taken with ⟨p, -, taken⟩
      exact .evaluating h (fun _ => rfl) taken
  | sort _ _ | setPolicy _ _ | sorted _ => exact .lookup (fun _ => rfl) taken
  | register _ _ =>
      rcases Option.bind_eq_some_iff.1 taken with ⟨r, -, taken⟩
      exact .lookup (fun _ => rfl) taken
  | draft other token memberName attributes source =>
      rcases Option.bind_eq_some_iff.1 taken with ⟨⟨d, s₁⟩, result, answered⟩
      cases answered
      have apart : name ≠ other := by
        rintro rfl
        simp [State.starts, result] at started
      rw [← (h.fresh_of_startDraft result).2]
      exact .insert_of_ne apart d
  | declaring other e =>
      rcases Option.bind_eq_some_iff.1 taken with ⟨d, found, taken⟩
      rcases Option.bind_eq_some_iff.1 taken with ⟨⟨t, s₁⟩, result, answered⟩
      cases answered
      have apart : name ≠ other := by
        rintro rfl
        simp [State.declared?, found, result] at declared
      rw [← h.drafts_evaluate result]
      exact .insert_of_ne apart _
  | implementation _ _ | options _ _ => exact keepsOwner_amend (by simp [Inert]) taken
  | returns _ _ => exact h.keepsOwner_returns taken
  | constructor _ => exact keepsOwner_constructor taken
  | addGenerics _ _ => exact keepsOwner_addGenerics taken
  | draftSorted _ => exact keepsOwner_draftSorted taken
  | freeze _ _ => exact keepsOwner_freeze taken
  | takeParameter _ _ _ => exact keepsOwner_takeParameter taken
  | addMethod _ _ =>
      rcases Option.bind_eq_some_iff.1 taken with ⟨t, -, taken⟩
      exact .lookup (fun _ => rfl) taken
  | takeMethod _ _ _ => exact keepsOwner_takeMethod taken
  | reclaim index =>
      cases taken
      exact keepsOwner_reclaim s name index
  -- All other steps are queries.
  | _ => exact .query rfl taken

theorem Consistent.keepsOwner_step {st : Step} (h : Consistent s [])
    (started : s.starts name st = false) (declared : s.declared? name st = none) :
    KeepsOwner name s.drafts (s.step st).1.drafts := by
  unfold State.step
  cases taken : s.step? st with
  | none => exact .refl name s.drafts
  | some o => exact h.keepsOwner_step? started declared taken

/-! ## The draft remembers the last declaration -/

theorem exists_of_starts {st : Step} (started : s.starts name st = true) :
    ∃ token memberName attributes source d s',
      st = .draft name token memberName attributes source
        ∧ s.startDraft token memberName attributes source = some (d, s') := by
  cases st with
  | draft other token memberName attributes source =>
      simp only [State.starts, Bool.and_eq_true, beq_iff_eq] at started
      rcases started with ⟨rfl, some⟩
      rcases Option.isSome_iff_exists.1 some with ⟨⟨d, s'⟩, result⟩
      exact ⟨token, memberName, attributes, source, d, s', rfl, result⟩
  | _ => cases started

theorem exists_of_declared? {st : Step} {t : TypeDesc} (declared : s.declared? name st = some t) :
    ∃ e d s', st = .declaring name e ∧ s.drafts.find? name = some d
      ∧ s.evaluate e = some (t, s') := by
  cases st with
  | declaring other e =>
      simp only [State.declared?] at declared
      split at declared
      · next same =>
          simp only [Option.bind_eq_bind, Option.bind_eq_some_iff] at declared
          rcases declared with ⟨d, found, ⟨t', s'⟩, result, answered⟩
          cases answered
          exact ⟨e, d, s', by rw [same], found, result⟩
      · cases declared
  | _ => cases declared

section Tracked

variable {owners : List TypeDesc}

theorem Tracks.keep {s' : State} (tracked : Tracks s name owners)
    (keeps : KeepsOwner name s.drafts s'.drafts) (develops : Develops s.ledger s'.ledger) :
    Tracks s' name owners := by
  refine ⟨?_, fun t listed => develops.hasType (tracked.known t listed)⟩
  intro d' found
  rcases keeps d' found with ⟨d, before, same⟩
  rw [same, tracked.last d before]

theorem Consistent.tracks_start {token : Token} {memberName : String} {attributes : Attributes}
    {source : ParameterSource} {d : Draft} {s' : State} (h : Consistent s [])
    (started : s.startDraft token memberName attributes source = some (d, s')) :
    Tracks (s.step (.draft name token memberName attributes source)).1 name [] := by
  have taken : s.step? (.draft name token memberName attributes source)
      = some (.ok (s'.storeDraft name d) (.draft d.isGeneric)) := by
    simp [State.step?, State.draft, started]
  rw [state_step taken]
  refine ⟨?_, by simp⟩
  intro d' found
  have here : (s'.drafts.insert name d).find? name = some d' := found
  rw [OrderedMap.find?_insert_self] at here
  cases here
  exact (h.fresh_of_startDraft started).1

theorem Consistent.tracks_declare {e : TypeExpr} {d : Draft} {t : TypeDesc} {s' : State}
    (h : Consistent s []) (tracked : Tracks s name owners)
    (found : s.drafts.find? name = some d) (result : s.evaluate e = some (t, s')) :
    Tracks (s.step (.declaring name e)).1 name (owners ++ [t]) := by
  have taken : s.step? (.declaring name e)
      = some (.ok ((s'.updateDraft name (d.apply (.declaredBy t))).release t.id)
          (.draft (d.apply (.declaredBy t)).isGeneric)) := by
    simp [State.step?, State.declaring, found, result]
  have develops : Develops s.ledger (s.step (.declaring name e)).1.ledger :=
    (h.step _).evolves.ledger
  rw [state_step taken] at develops ⊢
  refine ⟨?_, ?_⟩
  · intro d' found'
    have here : (s'.drafts.insert name (d.apply (.declaredBy t))).find? name = some d' := found'
    rw [OrderedMap.find?_insert_self] at here
    cases here
    simp [Draft.apply]
  · -- The hold on the type is given up, but its object stays in the ledger.
    intro t' listed
    rcases List.mem_append.1 listed with before | last
    · exact develops.hasType (tracked.known t' before)
    · rcases List.mem_singleton.1 last with rfl
      exact (develops_of_fades (Ledger.fades_releaseAll s'.ledger [t'.id])).hasType
        (h.evaluate result).known

theorem Consistent.tracks_step (h : Consistent s []) (tracked : Tracks s name owners) (st : Step) :
    Tracks (s.step st).1 name (s.ownersAfter name owners st) := by
  unfold State.ownersAfter
  cases started : s.starts name st with
  | true =>
      rcases exists_of_starts started with ⟨token, memberName, attributes, source, d, s', rfl, result⟩
      exact h.tracks_start result
  | false =>
      cases declared : s.declared? name st with
      | none =>
          rw [if_neg Bool.false_ne_true, Option.toList_none, List.append_nil]
          exact tracked.keep (h.keepsOwner_step started declared) (h.step st).evolves.ledger
      | some t =>
          rcases exists_of_declared? declared with ⟨e, d, s', rfl, found, result⟩
          exact h.tracks_declare tracked found result

theorem Consistent.tracks_run (h : Consistent s []) (tracked : Tracks s name owners)
    (steps : List Step) : Tracks (s.run steps).1 name (s.owners name owners steps) := by
  induction steps generalizing s owners with
  | nil => exact tracked
  | cons st steps ih => exact ih (h.step st).consistent (h.tracks_step tracked st)

end Tracked

end Steps

theorem tracks_empty (name : String) : Tracks .empty name [] where
  last d found := by cases found
  known t listed := by cases listed

/-- What the draft under a name remembers in a state of a session. -/
theorem tracks_run_empty (name : String) (steps : List Step) :
    Tracks (State.empty.run steps).1 name (State.empty.owners name [] steps) :=
  consistent_empty.tracks_run (tracks_empty name) steps

end Session
end CallableMembers
