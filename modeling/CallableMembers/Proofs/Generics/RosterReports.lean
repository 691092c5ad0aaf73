import CallableMembers.Proofs.Generics.RosterHistory
import CallableMembers.Proofs.Generics.Slots

/-!
# RosterReports — what a roster reports along a history of calls

Nothing but a read reports anything, and a read only while the view is stale.  A lenient view that
leaves parameters out is therefore warned of once: by the read that rebuilds it.  Reads of the
cached view add nothing, and so do strict rebuilds, whether they fail or not.  The invariant
behind it is `Roster.Warned`.
-/

namespace CallableMembers

namespace Event

/-- The events of a log that are worth a warning. -/
def warnings (log : List Event) : List Event :=
  log.filter fun e => e.level == .warn

@[simp] theorem warnings_nil : warnings [] = [] := rfl

@[simp] theorem warnings_rebuilding_cons (count : Nat) (log : List Event) :
    warnings (.rebuilding count :: log) = warnings log := rfl

@[simp] theorem warnings_append (before later : List Event) :
    warnings (before ++ later) = warnings before ++ warnings later :=
  List.filter_append before later

end Event

namespace Generics

@[simp] theorem warnings_arrangeEvents (policy : GapPolicy) (ps : List GenericParameter) :
    Event.warnings (arrangeEvents policy ps) = arrangeEvents policy ps := by
  cases policy with
  | strict => rfl
  | lenient =>
      unfold arrangeEvents
      by_cases none : missingCount ps = 0
      · simp [none]
      · simp [none, Event.warnings, Event.level]

namespace Roster

/-! ## The log of a history -/

/-- What a call reports. -/
def reported (r : Roster) : Call → List Event
  | .read => r.read.events
  | _ => []

def log (r : Roster) : List Call → List Event
  | [] => []
  | c :: calls => r.reported c ++ (r.perform c).log calls

@[simp] theorem log_cons (r : Roster) (c : Call) (calls : List Call) :
    r.log (c :: calls) = r.reported c ++ (r.perform c).log calls := rfl

theorem log_append (r : Roster) (before later : List Call) :
    r.log (before ++ later) = r.log before ++ (r.after before).log later := by
  induction before generalizing r with
  | nil => rfl
  | cons c before ih =>
      rw [List.cons_append, log_cons, log_cons, ih, after_cons, List.append_assoc]

/-! ## Calls that make the view stale -/

/-- The call registers a parameter, or sets another policy than the one in force. -/
inductive Call.Alters (inForce : GapPolicy) : Call → Prop where
  | register (p : GenericParameter) : Alters inForce (.register p)
  | setPolicy {policy : GapPolicy} : policy ≠ inForce → Alters inForce (.setPolicy policy)

theorem stale_perform_of_alters {r : Roster} {c : Call} (alters : c.Alters r.policy) :
    (r.perform c).stale = true := by
  cases alters with
  | register p => rfl
  | setPolicy other => simp [perform, setPolicy, Ne.symm other]

theorem policy_perform_of_not_alters {r : Roster} {c : Call} (quiet : ¬ c.Alters r.policy) :
    (r.perform c).policy = r.policy := by
  rw [policy_perform]
  cases c with
  | register p => rfl
  | read => rfl
  | setPolicy policy =>
      by_cases same : policy = r.policy
      · simp [Call.policy?, same]
      · exact absurd (.setPolicy same) quiet

theorem policy_after_of_quiet {r : Roster} {calls : List Call}
    (quiet : ∀ c ∈ calls, ¬ c.Alters r.policy) : (r.after calls).policy = r.policy := by
  induction calls generalizing r with
  | nil => rfl
  | cons c calls ih =>
      have kept := policy_perform_of_not_alters (quiet c (List.mem_cons_self ..))
      rw [after_cons, ih, kept]
      rw [kept]
      exact fun c' member => quiet c' (List.mem_cons_of_mem _ member)

theorem stale_read_of_ok {r : Roster} {view : List GenericParameter}
    (answered : r.read.view = .ok view) : r.read.roster.stale = false := by
  by_cases stale : r.stale
  · cases rebuilt : arrange r.policy r.params with
    | error e => simp [read, stale, rebuilt] at answered
    | ok view => simp [read, stale, rebuilt]
  · simp [read, stale]

/-! ## Each loss is warned of once -/

/-- The log holds the warning of the cached view, if the view is up to date and needs one. -/
def Warned (r : Roster) (log : List Event) : Prop :=
  Event.warnings log = if r.stale then [] else arrangeEvents r.policy r.params

theorem warned_of_stale {r : Roster} (stale : r.stale = true) : r.Warned [] := by
  simp [Warned, stale]

theorem warned_empty : empty.Warned [] := rfl

theorem Warned.read {r : Roster} {log : List Event} (h : r.Warned log) :
    r.read.roster.Warned (log ++ r.read.events) := by
  unfold Warned at *
  by_cases stale : r.stale
  · cases rebuilt : arrange r.policy r.params with
    | error e =>
        -- A refusal is a strict one, so there is nothing to warn of.
        have silent := arrangeEvents_of_error rebuilt
        simpa [Roster.read, stale, rebuilt, silent] using h
    | ok view =>
        -- The rebuild brings its own warning, and there was none before.
        rw [if_pos stale] at h
        simp [Roster.read, stale, rebuilt, h]
  · -- A read of the cache reports nothing.
    simpa [Roster.read, stale] using h

theorem Warned.perform {r : Roster} {log : List Event} (h : r.Warned log) {c : Call}
    (quiet : ¬ c.Alters r.policy) : (r.perform c).Warned (log ++ r.reported c) := by
  cases c with
  | register p => exact absurd (.register p) quiet
  | read => exact h.read
  | setPolicy policy =>
      by_cases same : r.policy = policy
      · simpa [Roster.perform, Roster.setPolicy, same, reported] using h
      · exact absurd (.setPolicy (Ne.symm same)) quiet

/-- As long as no call makes the view stale, the warning comes once or not at all. -/
theorem Warned.after {r : Roster} {log : List Event} (h : r.Warned log) {calls : List Call}
    (quiet : ∀ c ∈ calls, ¬ c.Alters r.policy) : (r.after calls).Warned (log ++ r.log calls) := by
  induction calls generalizing r log with
  | nil => simpa [Roster.log] using h
  | cons c calls ih =>
      have first := quiet c (List.mem_cons_self ..)
      rw [after_cons, log_cons, ← List.append_assoc]
      refine ih (h.perform first) fun c' member => ?_
      rw [policy_perform_of_not_alters first]
      exact quiet c' (List.mem_cons_of_mem _ member)

/-- Once the view has been read, the warnings are those of its arrangement. -/
theorem Warned.of_read_ok {r : Roster} {log : List Event} {view : List GenericParameter}
    (h : r.Warned log) (answered : r.read.view = .ok view) :
    Event.warnings (log ++ r.read.events) = arrangeEvents r.policy r.params := by
  have warned := h.read
  rw [Warned, stale_read_of_ok answered, policy_read, params_read] at warned
  exact warned

end Roster
end Generics
end CallableMembers
