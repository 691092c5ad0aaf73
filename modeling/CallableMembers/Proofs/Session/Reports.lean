import CallableMembers.Proofs.Member.DraftTrace
import CallableMembers.Proofs.Session.Queries

/-!
# Reports — what is reported, and nothing else

Sorting a list, reading a view by ordinal and freezing a draft are the only steps of a session
that report anything.  What a roster or a draft writes to the log depends on its history alone, and
so does whether its view is stale.  A line of the log has a level and a text.
-/

namespace CallableMembers
namespace Session

open CallableMembers.Flags CallableMembers.Generics CallableMembers.History CallableMembers.Member
open CallableMembers.Types

/-! ## Reports of steps -/

/-- What a step reports: the work on generic parameters that it asks for, and a frozen member. -/
def State.stepReports (s : State) : Step → List Event
  | .sort names policy => (names.mapM s.generics.find?).elim [] (arrangeEvents policy)
  | .sorted name => (s.rosters.find? name).elim [] fun r => r.read.events
  | .draftSorted name => (s.drafts.find? name).elim [] fun d => d.roster.read.events
  | .freeze name _ => (s.drafts.find? name).elim [] fun d => (d.freeze s.ledger.nextId).events
  | _ => []

def Silent (taken : Option Outcome) : Prop :=
  ∀ o, taken = some o → o.events = []

theorem silent_some {o : Outcome} (nothing : o.events = []) : Silent (some o) := by
  rintro o' ⟨⟩
  exact nothing

theorem Silent.bind {α : Type} {found? : Option α} {answer : α → Option Outcome}
    (each : ∀ x, Silent (answer x)) : Silent (found?.bind answer) := by
  intro o taken
  rcases Option.bind_eq_some_iff.1 taken with ⟨x, -, answered⟩
  exact each x o answered

variable {s : State}

/-- Looking something up and answering from it reports nothing. -/
theorem silent_lookup {α : Type} {found? : Option α} {answer : α → Outcome}
    (nothing : ∀ x, (answer x).events = []) : Silent (found?.bind fun x => some (answer x)) :=
  .bind fun x => silent_some (nothing x)

theorem silent_upgradeRef (name refName : String) : Silent (s.upgradeRef name refName) := by
  refine Silent.bind fun r => ?_
  cases s.upgrade r <;> exact silent_some rfl

theorem silent_takeMethod (name : String) (token : Token) (as : String) :
    Silent (s.takeMethod name token as) := by
  refine Silent.bind fun t => ?_
  cases (s.members t).find? token <;> exact silent_some rfl

theorem silent_takeParameter (name : String) (index : Nat) (as : String) :
    Silent (s.takeParameter name index as) := by
  refine Silent.bind fun m => ?_
  cases m.parameters[index]? <;> exact silent_some rfl

/-- A step answers with the events of its outcome, if it has one. -/
theorem events_step (st : Step) :
    (s.step st).2.events = ((s.step? st).map Outcome.events).getD [] := by
  unfold State.step
  cases s.step? st <;> rfl

theorem events_step_of_silent {st : Step} (silent : Silent (s.step? st)) :
    (s.step st).2.events = [] := by
  rw [events_step]
  cases taken : s.step? st with
  | none => rfl
  | some o => exact silent o taken

/-- A step that looks something up reports what it answers with. -/
theorem events_step_of_lookup {α : Type} (s : State) (st : Step) {found? : Option α}
    {answer : α → Outcome} (taken : s.step? st = found?.bind fun x => some (answer x)) :
    (s.step st).2.events = found?.elim [] fun x => (answer x).events := by
  rw [events_step, taken]
  cases found? <;> rfl

theorem events_step_sort (names : List String) (policy : GapPolicy) :
    (s.step (.sort names policy)).2.events
      = (names.mapM s.generics.find?).elim [] (arrangeEvents policy) := by
  cases found : names.mapM s.generics.find? with
  | none =>
      rw [events_step]
      simp [State.step?, State.sort, found]
  | some ps =>
      rw [s.step_sort found]
      rfl

theorem events_step_freeze (name as : String) :
    (s.step (.freeze name as)).2.events
      = (s.drafts.find? name).elim [] fun d => (d.freeze s.ledger.nextId).events := by
  rw [events_step]
  cases found : s.drafts.find? name with
  | none => simp [State.step?, State.freeze, found]
  | some d =>
      -- With a member or without one, the events are those of freezing the draft.
      cases outcome : (d.freeze s.ledger.nextId).outcome <;>
        simp [State.step?, State.freeze, found, outcome]

/-- By kinds of steps: those that report, those that may find nothing to take, the other changes
and the queries. -/
theorem events_step_eq (s : State) (st : Step) : (s.step st).2.events = s.stepReports st := by
  cases st with
  | sort names policy => exact events_step_sort names policy
  | sorted name => exact events_step_of_lookup s (.sorted name) rfl
  | draftSorted name => exact events_step_of_lookup s (.draftSorted name) rfl
  | freeze name as => exact events_step_freeze name as
  | upgrade name refName => exact events_step_of_silent (silent_upgradeRef name refName)
  | takeMethod name token as => exact events_step_of_silent (silent_takeMethod name token as)
  | takeParameter name index as =>
      exact events_step_of_silent (silent_takeParameter name index as)
  | drop | generic | roster | reclaim => exact events_step_of_silent (silent_some rfl)
  | sameType | constrain | register | declaring | returns | addGenerics | addMethod =>
      exact events_step_of_silent (.bind fun _ => silent_lookup fun _ => rfl)
  | type | ref | parameter | setPolicy | draft | implementation | constructor | options =>
      exact events_step_of_silent (silent_lookup fun _ => rfl)
  | _ => exact (s.step_of_asks rfl).2

/-! ## What is written over a history -/

/-- Whether the view of a roster is stale, and all lines that the roster has written, are told by
the calls made so far and the views they returned.  The same holds of a draft, which on freezing
writes what a peek would write, nothing at all for a foreign token, and last the member that it
yields.  No other step of a session reports anything. -/
theorem reports_of_history :
    (∀ (start : GapPolicy) (calls : List Roster.Call),
        let r := Roster.withPolicy start
        ((r.after calls).stale = true ↔ Roster.Unread start calls)
          ∧ ∀ lines, Trace (Roster.Due start) calls lines ↔ lines = (r.log calls).map Event.line)
      ∧ (∀ (token : Token) (name : String) (attributes : Attributes) (parameters : List Parameter)
          (calls : List Draft.Call) (id : ObjectId),
          let d := Draft.start token name attributes parameters
          let frozen := (d.after calls).freeze id
          ((d.after calls).roster.stale = true ↔ Draft.Unread calls)
            ∧ (∀ lines, Trace (Draft.Due d) calls lines ↔ lines = (d.log calls).map Event.line)
            ∧ Draft.FreezeDue d calls frozen.outcome (frozen.events.map Event.line))
      ∧ ∀ (s : State) (st : Step), (s.step st).2.events = s.stepReports st := by
  refine ⟨?_, ?_, events_step_eq⟩
  · intro start calls r
    exact ⟨Roster.stale_after_iff start calls, fun lines => Roster.trace_iff_log start calls⟩
  · intro token name attributes parameters calls id d frozen
    exact ⟨Draft.stale_after_iff token name attributes parameters calls,
      fun lines => Draft.trace_iff_log token name attributes parameters calls,
      Draft.freezeDue_freeze token name attributes parameters calls id⟩

end Session
end CallableMembers
