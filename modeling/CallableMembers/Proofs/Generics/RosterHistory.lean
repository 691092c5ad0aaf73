import CallableMembers.Generics.Roster

/-!
# RosterHistory — what a roster answers after any history of calls

A roster keeps a cached view next to the parameters and the policy.  Nothing of the cache shows:
the view that is read is the arrangement of everything registered so far under the policy in
force.  The invariant behind it is `Roster.Current`.  A reading that fails leaves no trace.
-/

namespace CallableMembers
namespace Generics

namespace Reading

def succeeded (reading : Reading) : Bool :=
  reading.view.isOk

end Reading

namespace Roster

/-! ## Histories of calls -/

inductive Call where
  | register (p : GenericParameter)
  | setPolicy (policy : GapPolicy)
  | read
  deriving DecidableEq, Repr

namespace Call

def parameter? : Call → Option GenericParameter
  | .register p => some p
  | _ => none

def policy? : Call → Option GapPolicy
  | .setPolicy policy => some policy
  | _ => none

end Call

/-- The parameters registered in a history, in order. -/
def registered (calls : List Call) : List GenericParameter :=
  calls.filterMap Call.parameter?

/-- The policy set last, or the one at the start. -/
def policyInForce (start : GapPolicy) (calls : List Call) : GapPolicy :=
  (calls.filterMap Call.policy?).getLast?.getD start

def perform (r : Roster) : Call → Roster
  | .register p => r.register p
  | .setPolicy policy => r.setPolicy policy
  | .read => r.read.roster

def after (r : Roster) (calls : List Call) : Roster :=
  calls.foldl perform r

/-- What the reads of a history yield, in order. -/
def readings (r : Roster) : List Call → List Reading
  | [] => []
  | .register p :: rest => (r.register p).readings rest
  | .setPolicy policy :: rest => (r.setPolicy policy).readings rest
  | .read :: rest => r.read :: r.read.roster.readings rest

/-- The history without the reads that fail. -/
def withoutFailures (r : Roster) : List Call → List Call
  | [] => []
  | .register p :: rest => .register p :: (r.register p).withoutFailures rest
  | .setPolicy policy :: rest => .setPolicy policy :: (r.setPolicy policy).withoutFailures rest
  | .read :: rest =>
      if r.read.succeeded then .read :: r.read.roster.withoutFailures rest
      else r.read.roster.withoutFailures rest

@[simp] theorem after_nil (r : Roster) : r.after [] = r := rfl

@[simp] theorem after_cons (r : Roster) (c : Call) (calls : List Call) :
    r.after (c :: calls) = (r.perform c).after calls := rfl

theorem after_append (r : Roster) (before later : List Call) :
    r.after (before ++ later) = (r.after before).after later := by
  simp [after, List.foldl_append]

/-! ## The roster mirrors its history -/

@[simp] theorem params_perform (r : Roster) (c : Call) :
    (r.perform c).params = r.params ++ c.parameter?.toList := by
  cases c with
  | register p => rfl
  | setPolicy policy => simp [perform, Call.parameter?]
  | read => simp [perform, Call.parameter?]

@[simp] theorem policy_perform (r : Roster) (c : Call) :
    (r.perform c).policy = c.policy?.getD r.policy := by
  cases c with
  | register p => rfl
  | setPolicy policy => simp [perform, Call.policy?]
  | read => simp [perform, Call.policy?]

theorem params_after (r : Roster) (calls : List Call) :
    (r.after calls).params = r.params ++ registered calls := by
  induction calls generalizing r with
  | nil => simp [registered]
  | cons c calls ih =>
      rw [after_cons, ih, params_perform]
      cases h : c.parameter? <;> simp [registered, h]

theorem policy_after (r : Roster) (calls : List Call) :
    (r.after calls).policy = policyInForce r.policy calls := by
  induction calls generalizing r with
  | nil => rfl
  | cons c calls ih =>
      rw [after_cons, ih, policy_perform]
      cases h : c.policy? with
      | none => simp [policyInForce, h]
      | some policy => simp [policyInForce, h, List.getLast?_cons]

/-! ## The cache -/

/-- A view that is not stale is the one a rebuild would give. -/
def Current (r : Roster) : Prop :=
  r.stale = false → arrange r.policy r.params = .ok r.view

theorem current_withPolicy (policy : GapPolicy) : (withPolicy policy).Current := by
  intro _
  cases policy <;> rfl

theorem Current.perform {r : Roster} (h : r.Current) (c : Call) : (r.perform c).Current := by
  cases c with
  | register p =>
      -- A registration marks the cache as stale, so there is nothing to show.
      intro fresh
      cases fresh
  | setPolicy policy =>
      -- The cache survives only if the policy is the one in force.
      by_cases same : r.policy = policy
      · simpa [Roster.perform, setPolicy, same] using h
      · intro fresh
        simp [Roster.perform, setPolicy, same] at fresh
  | read =>
      intro fresh
      by_cases stale : r.stale
      · cases rebuilt : arrange r.policy r.params with
        | error e =>
            -- A failed rebuild keeps the old cache, and keeps it marked.
            simp [Roster.perform, read, stale, rebuilt] at fresh
        | ok view => simp [Roster.perform, read, stale, rebuilt]
      · simpa [Roster.perform, read, stale] using h (by simpa using stale)

theorem Current.after {r : Roster} (h : r.Current) (calls : List Call) :
    (r.after calls).Current := by
  induction calls generalizing r with
  | nil => exact h
  | cons c calls ih => exact ih (h.perform c)

/-- A stale view is rebuilt, with or without success. -/
theorem view_read_of_stale {r : Roster} (stale : r.stale = true) :
    r.read.view = arrange r.policy r.params := by
  cases rebuilt : arrange r.policy r.params <;> simp [read, stale, rebuilt]

/-- Rebuilt or cached, the view is the arrangement of what is registered. -/
theorem Current.view_read {r : Roster} (h : r.Current) :
    r.read.view = arrange r.policy r.params := by
  by_cases stale : r.stale
  · exact view_read_of_stale stale
  · have cached := h (by simpa using stale)
    simp [read, stale, cached]

/-! ## Reads that fail -/

/-- Only a rebuild can fail, and it then changes nothing. -/
theorem roster_read_of_error {r : Roster} {e : MemberError} (failed : r.read.view = .error e) :
    r.read.roster = r := by
  by_cases stale : r.stale
  · cases rebuilt : arrange r.policy r.params with
    | error e => simp [read, stale, rebuilt]
    | ok view => simp [read, stale, rebuilt] at failed
  · simp [read, stale]

theorem roster_read_of_not_succeeded {r : Roster} (failed : r.read.succeeded = false) :
    r.read.roster = r := by
  cases h : r.read.view with
  | error e => exact roster_read_of_error h
  | ok view => simp [Reading.succeeded, h, Except.isOk, Except.toBool] at failed

/-- A call that cannot make a failing read succeed: another read, or the policy in force again. -/
def Call.Idle (r : Roster) (c : Call) : Prop :=
  c = .read ∨ c = .setPolicy r.policy

theorem perform_of_idle {r : Roster} {e : MemberError} (failed : r.read.view = .error e) {c : Call}
    (idle : c.Idle r) : r.perform c = r := by
  rcases idle with rfl | rfl
  · exact roster_read_of_error failed
  · simp [perform, setPolicy]

theorem after_of_idle {r : Roster} {e : MemberError} (failed : r.read.view = .error e)
    {calls : List Call} (idle : ∀ c ∈ calls, c.Idle r) : r.after calls = r := by
  induction calls with
  | nil => rfl
  | cons c calls ih =>
      have first := perform_of_idle failed (idle c (List.mem_cons_self ..))
      rw [after_cons, first]
      exact ih fun c' member => idle c' (List.mem_cons_of_mem _ member)

theorem after_withoutFailures (r : Roster) (calls : List Call) :
    r.after (r.withoutFailures calls) = r.after calls := by
  induction calls generalizing r with
  | nil => rfl
  | cons c calls ih =>
      cases c with
      | register p => exact ih (r.register p)
      | setPolicy policy => exact ih (r.setPolicy policy)
      | read =>
          by_cases ok : r.read.succeeded
          · simpa [withoutFailures, ok, perform] using ih r.read.roster
          · have untouched := roster_read_of_not_succeeded (by simpa using ok)
            have rest := ih r.read.roster
            rw [untouched] at rest
            simpa [withoutFailures, ok, untouched, perform] using rest

theorem readings_withoutFailures (r : Roster) (calls : List Call) :
    r.readings (r.withoutFailures calls) = (r.readings calls).filter Reading.succeeded := by
  -- A read that fails hands on the roster it got, so the rest of the history is the same.
  induction calls generalizing r with
  | nil => rfl
  | cons c calls ih =>
      cases c with
      | register p => exact ih (r.register p)
      | setPolicy policy => exact ih (r.setPolicy policy)
      | read =>
          by_cases ok : r.read.succeeded
          · simpa [withoutFailures, readings, ok] using ih r.read.roster
          · have untouched := roster_read_of_not_succeeded (by simpa using ok)
            have rest := ih r.read.roster
            rw [untouched] at rest
            simpa [withoutFailures, readings, ok, untouched] using rest

/-! ## The cached view is never stale -/

/-- After any history the view read is the arrangement of everything registered under the policy
set last.  A read that fails changes nothing, fails in the same way as long as nothing is
registered and the policy stays, and could as well be left out of the history: the roster and
all readings that succeed are the same without it. -/
theorem read_after_history (policy : GapPolicy) (calls : List Call) :
    let start := withPolicy policy
    let r := start.after calls
    r.read.view = arrange (policyInForce policy calls) (registered calls)
      ∧ (∀ e, r.read.view = .error e →
          r.read.roster = r
            ∧ ∀ idle : List Call, (∀ c ∈ idle, c.Idle r) → (r.after idle).read = r.read)
      ∧ start.after (start.withoutFailures calls) = r
      ∧ start.readings (start.withoutFailures calls)
          = (start.readings calls).filter Reading.succeeded := by
  intro start r
  -- The invariant says what a read yields; the history says from which list and policy.
  have current : r.Current := (current_withPolicy policy).after calls
  have params : r.params = registered calls := params_after start calls
  have inForce : r.policy = policyInForce policy calls := policy_after start calls
  refine ⟨?_, ?_, after_withoutFailures start calls, readings_withoutFailures start calls⟩
  · rw [current.view_read, params, inForce]
  · intro e failed
    refine ⟨roster_read_of_error failed, ?_⟩
    intro idle quiet
    rw [after_of_idle failed quiet]

/-- One parameter with ordinal 1 leaves slot 0 empty, however often the strict view is read. -/
theorem read_after_history_of_gap :
    let r := (withPolicy .strict).after [.register ⟨0, .null, 1, 0, "U"⟩]
    r.read.view = .error (.unclaimedOrdinal 0 1)
      ∧ (∀ c ∈ [Call.read, .setPolicy .strict, .read], c.Idle r)
      ∧ (r.after [.read, .setPolicy .strict, .read]).read = r.read := by
  intro r
  have failed : r.read.view = .error (.unclaimedOrdinal 0 1) := rfl
  have quiet : ∀ c ∈ [Call.read, .setPolicy .strict, .read], c.Idle r := by
    simp [Call.Idle, r, after, perform, register, withPolicy]
  have law := read_after_history .strict [.register ⟨0, .null, 1, 0, "U"⟩]
  exact ⟨failed, quiet, (law.2.1 _ failed).2 _ quiet⟩

end Roster
end Generics
end CallableMembers
