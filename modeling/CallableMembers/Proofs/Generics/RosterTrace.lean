import CallableMembers.Proofs.Generics.RosterReports
import CallableMembers.Proofs.History

/-!
# RosterTrace — staleness and the log told by the history

A view is stale exactly if, since it was last read with success, a parameter was registered or the
policy changed, even if it was changed back.  What a roster has written to the log follows: each
read of a stale view writes a line about the rebuild and warns of what the view it returns lacks,
and no other call writes anything.
-/

namespace CallableMembers
namespace Generics

open CallableMembers.History

/-! ## What a read writes -/

/-- The line about the rebuild of a view of `count` registered parameters. -/
def rebuildLine (count : Nat) : Line :=
  ⟨.debug, "Rebuilding sorted view of " ++ toString count ++ " generic parameters"⟩

/-- The warning about a view that lacks `missing` of `count` registered parameters. -/
def lossLine (missing count : Nat) : Line :=
  ⟨.warn, toString missing ++ " of " ++ toString count
    ++ " generic parameter ordinals are unclaimed, skipping them"⟩

/-- What a rebuild that comes to this view has to write: how many parameters are registered, then,
under the lenient policy, how many of them the view lacks if it lacks any. -/
inductive RebuildDue (inForce : GapPolicy) (ps : List GenericParameter) :
    Except MemberError (List GenericParameter) → List Line → Prop where
  | refused (e : MemberError) : RebuildDue inForce ps (.error e) [rebuildLine ps.length]
  | complete {view : List GenericParameter} :
      ¬ (inForce = .lenient ∧ view.length < ps.length) →
        RebuildDue inForce ps (.ok view) [rebuildLine ps.length]
  | lossy {view : List GenericParameter} :
      inForce = .lenient → view.length < ps.length →
        RebuildDue inForce ps (.ok view)
          [rebuildLine ps.length, lossLine (ps.length - view.length) ps.length]

/-- What is due from a read that returns this view: a rebuild if the view was outdated, else
nothing. -/
inductive ReadDue (outdated : Prop) (inForce : GapPolicy) (ps : List GenericParameter)
    (view : Except MemberError (List GenericParameter)) : List Line → Prop where
  | cached : ¬ outdated → ReadDue outdated inForce ps view []
  | rebuilt {lines : List Line} :
      outdated → RebuildDue inForce ps view lines → ReadDue outdated inForce ps view lines

section Due

variable {outdated : Prop} {inForce : GapPolicy} {ps : List GenericParameter}
  {view : Except MemberError (List GenericParameter)} {lines lines' : List Line}

theorem RebuildDue.unique (due : RebuildDue inForce ps view lines)
    (due' : RebuildDue inForce ps view lines') : lines' = lines := by
  cases due with
  | refused e =>
      cases due'
      rfl
  | complete none =>
      cases due' with
      | complete _ => rfl
      | lossy lenient short => exact absurd ⟨lenient, short⟩ none
  | lossy lenient short =>
      cases due' with
      | complete none => exact absurd ⟨lenient, short⟩ none
      | lossy _ _ => rfl

theorem ReadDue.unique (due : ReadDue outdated inForce ps view lines)
    (due' : ReadDue outdated inForce ps view lines') : lines' = lines := by
  cases due with
  | cached fresh =>
      cases due' with
      | cached _ => rfl
      | rebuilt stale _ => exact absurd stale fresh
  | rebuilt stale rebuild =>
      cases due' with
      | cached fresh => exact absurd stale fresh
      | rebuilt _ rebuild' => exact rebuild.unique rebuild'

/-- The events of a rebuild are written as they should be, whatever it comes to. -/
theorem rebuildDue_arrange (inForce : GapPolicy) (ps : List GenericParameter) :
    RebuildDue inForce ps (arrange inForce ps)
      ((Event.rebuilding ps.length :: arrangeEvents inForce ps).map Event.line) := by
  cases arranged : arrange inForce ps with
  | error e =>
      rw [arrangeEvents_of_error arranged]
      exact .refused e
  | ok view =>
      rw [arrangeEvents_of_arrange arranged]
      by_cases short : view.length < ps.length
      · rw [if_pos short]
        exact .lossy (lenient_of_loss arranged short) short
      · rw [if_neg short]
        exact .complete fun lossy => short lossy.2

end Due

namespace Roster

/-- A rebuild is reported before it is known what it comes to. -/
theorem events_read_of_stale {r : Roster} (stale : r.stale = true) :
    r.read.events = .rebuilding r.params.length :: arrangeEvents r.policy r.params := by
  cases rebuilt : arrange r.policy r.params <;> simp [read, stale, rebuilt]

theorem readDue_read (r : Roster) :
    ReadDue (r.stale = true) r.policy r.params r.read.view (r.read.events.map Event.line) := by
  by_cases stale : r.stale = true
  · have rebuilt := rebuildDue_arrange r.policy r.params
    rw [view_read_of_stale stale, events_read_of_stale stale]
    exact .rebuilt stale rebuilt
  · have cached : r.read.events = [] := by simp [read, stale]
    rw [cached]
    exact .cached stale

/-! ## Staleness told by the history -/

/-- The call registers a parameter, or sets a policy other than the one in force by then. -/
def Alteration (start : GapPolicy) (before : List Call) (c : Call) : Prop :=
  c.Alters (policyInForce start before)

/-- The call asks for the view, and what is registered by then can be arranged. -/
def Answer (start : GapPolicy) (before : List Call) (c : Call) : Prop :=
  c = .read ∧ ∃ view, arrange (policyInForce start before) (registered before) = .ok view

/-- An alteration that no successful read came after. -/
def Unread (start : GapPolicy) (calls : List Call) : Prop :=
  Outstanding (Alteration start) (Answer start) calls

/-- A call makes the view stale, or it leaves a stale view unread. -/
theorem stale_perform_iff (r : Roster) (c : Call) :
    (r.perform c).stale = true
      ↔ c.Alters r.policy
        ∨ (r.stale = true ∧ ¬ (c = .read ∧ ∃ view, r.read.view = .ok view)) := by
  cases c with
  | register p => exact iff_of_true rfl (.inl (.register p))
  | setPolicy policy =>
      by_cases same : r.policy = policy
      · subst same
        have quiet : ¬ Call.Alters r.policy (.setPolicy r.policy) := by
          intro alters
          cases alters with
          | setPolicy other => exact other rfl
        simp [perform, setPolicy, quiet]
      · have alters : Call.Alters r.policy (.setPolicy policy) := .setPolicy (Ne.symm same)
        exact iff_of_true (stale_perform_of_alters alters) (.inl alters)
  | read =>
      have quiet : ¬ Call.Alters r.policy .read := by rintro ⟨⟩
      cases answered : r.read.view with
      | ok view => simp [perform, quiet, stale_read_of_ok answered]
      | error e => simp [perform, quiet, roster_read_of_error answered]

variable (start : GapPolicy) (calls : List Call)

/-- What stands in the roster after a history. -/
theorem policy_after_withPolicy :
    ((withPolicy start).after calls).policy = policyInForce start calls :=
  policy_after (withPolicy start) calls

theorem params_after_withPolicy : ((withPolicy start).after calls).params = registered calls :=
  params_after (withPolicy start) calls

/-- The reads that succeed are those that find something to arrange, cached or not. -/
theorem answer_iff (c : Call) :
    Answer start calls c
      ↔ c = .read ∧ ∃ view, ((withPolicy start).after calls).read.view = .ok view := by
  have current : ((withPolicy start).after calls).Current := (current_withPolicy start).after calls
  rw [Answer, current.view_read, policy_after_withPolicy, params_after_withPolicy]

/-- The view is stale exactly as long as an alteration is unread. -/
theorem stale_after_iff : ((withPolicy start).after calls).stale = true ↔ Unread start calls := by
  refine flag_iff_outstanding (fun calls => ((withPolicy start).after calls).stale = true)
    Bool.false_ne_true (fun calls c => ?_) calls
  calc
    ((withPolicy start).after (calls ++ [c])).stale = true
        ↔ (((withPolicy start).after calls).perform c).stale = true := by rw [after_append]; rfl
    _ ↔ _ := by
      rw [stale_perform_iff, policy_after_withPolicy, ← answer_iff]
      rfl

/-- A policy that is set and set back leaves the view stale. -/
example : ((withPolicy .strict).after [.setPolicy .lenient, .setPolicy .strict]).stale = true :=
  rfl

/-! ## The trace -/

/-- What is due from a call after the calls before it; from a read, given the view it returns. -/
def Due (start : GapPolicy) (before : List Call) : Call → List Line → Prop
  | .read, lines =>
      ReadDue (Unread start before) (policyInForce start before) (registered before)
        ((withPolicy start).after before).read.view lines
  | _, lines => lines = []

theorem due_reported (c : Call) :
    Due start calls c ((((withPolicy start).after calls).reported c).map Event.line) := by
  cases c with
  | read =>
      have due := readDue_read ((withPolicy start).after calls)
      rw [stale_after_iff, policy_after_withPolicy, params_after_withPolicy] at due
      exact due
  | register p => rfl
  | setPolicy policy => rfl

theorem due_unique {c : Call} {lines lines' : List Line} (due : Due start calls c lines)
    (due' : Due start calls c lines') : lines' = lines := by
  cases c with
  | read => exact ReadDue.unique due due'
  | register p => exact due'.trans due.symm
  | setPolicy policy => exact due'.trans due.symm

/-- What a roster has written is the one trace of its history. -/
theorem trace_iff_log {lines : List Line} :
    Trace (Due start) calls lines ↔ lines = ((withPolicy start).log calls).map Event.line := by
  let r := withPolicy start
  refine trace_iff_eq (fun calls => (r.log calls).map Event.line) rfl fun calls c =>
    ⟨((r.after calls).reported c).map Event.line, ?_, ?_⟩
  · rw [log_append, List.map_append]
    simp [Roster.log]
  · have due := due_reported start calls c
    exact ⟨due, fun _ due' => due_unique start calls due due'⟩

/-- A refused view stays stale, so the next read reports the work again. -/
example :
    let p : GenericParameter := ⟨0, .null, 1, 0, "T"⟩
    (withPolicy .strict).log [.register p, .read, .read] = [.rebuilding 1, .rebuilding 1] := by
  decide

end Roster
end Generics
end CallableMembers
