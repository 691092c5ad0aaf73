import CallableMembers.Proofs.Generics.RosterReports
import CallableMembers.Proofs.Member.DraftHistory
import Mathlib.Data.List.Induction

/-!
# DraftReports — no generic parameter is lost in silence

A frozen member whose view by ordinal is shorter than its list of generic parameters has been
warned of, once and with exact numbers, since the list or the policy last changed.  The warning
may be older than the freezing: a peek that builds the view brings it, and freezing then reads
the cache.
-/

namespace CallableMembers
namespace Member

open CallableMembers.Flags CallableMembers.Generics CallableMembers.Types

namespace Draft

theorem after_append (d : Draft) (before later : List Call) :
    d.after (before ++ later) = (d.after before).after later := by
  simp [after, List.foldl_append]

/-! ## The log of a history -/

/-- What a call reports. -/
def reported (d : Draft) : Call → List Event
  | .change _ => []
  | .peek => d.read.2.events

def log (d : Draft) : List Call → List Event
  | [] => []
  | c :: calls => d.reported c ++ (d.perform c).log calls

@[simp] theorem log_cons (d : Draft) (c : Call) (calls : List Call) :
    d.log (c :: calls) = d.reported c ++ (d.perform c).log calls := rfl

/-- Only the roster of a draft reports anything. -/
theorem log_eq (d : Draft) (calls : List Call) :
    d.log calls = d.roster.log (calls.filterMap Call.onRoster?) := by
  induction calls generalizing d with
  | nil => rfl
  | cons c calls ih =>
      rw [log_cons, ih]
      rcases c with ⟨_ | _ | _ | _ | _ | _⟩ | _ <;> rfl

theorem log_append (d : Draft) (before later : List Call) :
    d.log (before ++ later) = d.log before ++ (d.after before).log later := by
  simp only [log_eq, List.filterMap_append, Roster.log_append, roster_after]

/-! ## The last alteration -/

/-- The call adds a generic parameter, or brings options with another policy than the one in
force. -/
inductive Call.Alters (inForce : GapPolicy) : Call → Prop where
  | generic (p : GenericParameter) : Alters inForce (.change (.generic p))
  | options {options : FreezeOptions} :
      options.gaps ≠ inForce → Alters inForce (.change (.options options))

/-- The history falls into a part that ends with its last alteration and a part without one; the
first part is empty if nothing is altered at all. -/
structure LastAlteration (calls before later : List Call) : Prop where
  split : calls = before ++ later
  altered : before = []
    ∨ ∃ earlier c, before = earlier ++ [c] ∧ c.Alters (settings earlier).options.gaps
  quiet : ∀ c ∈ later, ¬ c.Alters (settings before).options.gaps

theorem alters_iff {inForce : GapPolicy} {c : Call} :
    c.Alters inForce ↔ ∃ c', c.onRoster? = some c' ∧ c'.Alters inForce := by
  constructor
  · intro alters
    cases alters with
    | generic p => exact ⟨_, rfl, .register p⟩
    | options other => exact ⟨_, rfl, .setPolicy other⟩
  · rintro ⟨c', same, alters⟩
    rcases c with ⟨_ | _ | _ | _ | options | p⟩ | _
    case change.options =>
      cases same
      cases alters with
      | setPolicy other => exact .options other
    case change.generic => exact .generic p
    case peek =>
      cases same
      cases alters
    all_goals cases same

theorem quiet_onRoster {inForce : GapPolicy} {calls : List Call}
    (quiet : ∀ c ∈ calls, ¬ c.Alters inForce) :
    ∀ c' ∈ calls.filterMap Call.onRoster?, ¬ c'.Alters inForce := by
  intro c' listed alters
  rcases List.mem_filterMap.1 listed with ⟨c, member, same⟩
  exact quiet c member (alters_iff.2 ⟨c', same, alters⟩)

section Start

variable (token : Token) (name : String) (attributes : Attributes) (parameters : List Parameter)

/-- The policy of the roster is that of the last options. -/
theorem policy_after_start (calls : List Call) :
    ((start token name attributes parameters).after calls).roster.policy
      = (settings calls).options.gaps := by
  rw [roster_after, Roster.policy_after]
  exact policyInForce_onRoster calls

theorem gaps_of_quiet {before later : List Call}
    (quiet : ∀ c ∈ later, ¬ c.Alters (settings before).options.gaps) :
    (settings (before ++ later)).options.gaps = (settings before).options.gaps := by
  -- Seen from the roster of any draft: calls that alter nothing keep its policy.
  have inForce := policy_after_start .null "" ⟨0⟩ []
  rw [← inForce] at quiet
  rw [← inForce, ← inForce, after_append, roster_after]
  exact Roster.policy_after_of_quiet (quiet_onRoster quiet)

/-- Every history has a last alteration, or none. -/
theorem exists_lastAlteration (calls : List Call) :
    ∃ before later, LastAlteration calls before later := by
  induction calls using List.reverseRecOn with
  | nil => exact ⟨[], [], rfl, .inl rfl, by simp⟩
  | append_singleton calls c ih =>
      by_cases alters : c.Alters (settings calls).options.gaps
      · exact ⟨calls ++ [c], [], by simp, .inr ⟨calls, c, rfl, alters⟩, by simp⟩
      · -- The last call alters nothing, so the cut stays where it was.
        rcases ih with ⟨before, later, rfl, altered, quiet⟩
        rw [gaps_of_quiet quiet] at alters
        refine ⟨before, later ++ [c], List.append_assoc .., altered, ?_⟩
        intro c' member
        rcases List.mem_append.1 member with member | last
        · exact quiet c' member
        · rwa [List.mem_singleton.1 last]

/-- Right after an alteration no view is up to date, so none has been warned of. -/
theorem warned_of_altered {before : List Call}
    (altered : before = []
      ∨ ∃ earlier c, before = earlier ++ [c] ∧ c.Alters (settings earlier).options.gaps) :
    ((start token name attributes parameters).after before).roster.Warned [] := by
  rcases altered with rfl | ⟨earlier, c, rfl, alters⟩
  · exact Roster.warned_empty
  · rcases alters_iff.1 alters with ⟨c', same, alters'⟩
    have last : ∀ d : Draft, (d.perform c).roster = d.roster.perform c' := by
      intro d
      rw [roster_perform, same]
      rfl
    rw [← policy_after_start token name attributes parameters] at alters'
    rw [after_append, after_cons, after_nil, last]
    exact Roster.warned_of_stale (Roster.stale_perform_of_alters alters')

/-! ## Freezing -/

/-- A draft that yields a member reads its view and reports the member last. -/
theorem freeze_of_ok {d : Draft} {id : ObjectId} {m : Method} (made : (d.freeze id).outcome = .ok m) :
    d.roster.read.view = .ok m.genericView ∧ m.generics = d.roster.params
      ∧ (d.freeze id).events = d.roster.read.events
          ++ [.frozen d.token d.name d.signature.parameters.length d.roster.params.length] := by
  unfold freeze at *
  split at made
  · next callable =>
      cases view : d.roster.read.view with
      | error e =>
          simp only [view] at made
          cases made
      | ok arranged =>
          simp only [view] at made
          cases made
          simp [callable, view, toMethod]
  · cases made

/-- Since the last alteration, the log of a history that ends with freezing holds exactly the
warning that the arrangement calls for. -/
theorem warnings_since_alteration {calls before later : List Call} {id : ObjectId} {m : Method}
    (cut : LastAlteration calls before later)
    (made : (((start token name attributes parameters).after calls).freeze id).outcome = .ok m) :
    Event.warnings
        (((start token name attributes parameters).after before).log later
          ++ (((start token name attributes parameters).after calls).freeze id).events)
      = arrangeEvents (settings calls).options.gaps m.generics := by
  have ⟨answered, listed, events⟩ := freeze_of_ok made
  have inForce := policy_after_start token name attributes parameters
  have start' := warned_of_altered token name attributes parameters cut.altered
  have quiet := cut.quiet
  rw [← inForce before] at quiet
  -- The roster goes from the last alteration to the freezing without another one.
  have warned := start'.after (quiet_onRoster quiet)
  rw [← roster_after, ← after_append, ← cut.split, List.nil_append, ← log_eq] at warned
  rw [events, ← List.append_assoc, Event.warnings_append, warned.of_read_ok answered, inForce, listed]
  exact List.append_nil _

/-- Whatever the history of a draft that freezes into a member, the log since the generic
parameters or their policy last changed holds one warning if the view of the member is shorter
than the list of the generic parameters added, and none otherwise.  The warning carries the exact
numbers, and the options set last are lenient then. -/
theorem warned_of_every_loss (id : ObjectId) (calls : List Call) {m : Method}
    (made : (((start token name attributes parameters).after calls).freeze id).outcome = .ok m) :
    let d := start token name attributes parameters
    m.generics = calls.filterMap Call.generic?
      ∧ m.genericView.length ≤ m.generics.length
      ∧ (∃ before later, LastAlteration calls before later)
      ∧ ∀ before later, LastAlteration calls before later →
          ∃ recent, d.log calls ++ ((d.after calls).freeze id).events = d.log before ++ recent
            ∧ (m.genericView.length < m.generics.length →
                (settings calls).options.gaps = .lenient
                  ∧ Event.warnings recent
                      = [.skipped (m.generics.length - m.genericView.length) m.generics.length])
            ∧ (m.genericView.length = m.generics.length → Event.warnings recent = []) := by
  intro d
  have ⟨answered, listed, _⟩ := freeze_of_ok made
  have generics : m.generics = (settings calls).generics :=
    listed.trans (generics_after_start token name attributes parameters calls)
  -- The view is the arrangement of everything added under the policy set last.
  have arranged : arrange (settings calls).options.gaps m.generics = .ok m.genericView := by
    rw [generics, ← view_after_start token name attributes parameters calls]
    exact answered
  have lengths := missingCount_of_arrange arranged
  refine ⟨generics, by omega, exists_lastAlteration calls, ?_⟩
  intro before later cut
  have recent := warnings_since_alteration token name attributes parameters cut made
  rw [arrangeEvents_of_arrange arranged] at recent
  refine ⟨(d.after before).log later ++ ((d.after calls).freeze id).events, ?_, ?_, ?_⟩
  · have logs := log_append d before later
    rw [← cut.split] at logs
    rw [logs, List.append_assoc]
  · intro lossy
    rw [recent, if_pos lossy]
    exact ⟨lenient_of_loss arranged lossy, rfl⟩
  · intro complete
    rw [recent, if_neg (by omega)]

end Start

/-- A peek under lenient options warns of the loss; freezing reads the cache and does not. -/
theorem warned_of_every_loss_of_peek :
    let u : GenericParameter := ⟨0, .null, 1, 0, "U"⟩
    let before : List Call := [.change (.generic u), .peek, .change (.options .lenient)]
    let later : List Call := [.peek, .change (.options .lenient), .peek]
    let d := start ⟨0x06000001⟩ "M" ⟨6⟩ []
    ∃ m, ((d.after (before ++ later)).freeze 0).outcome = .ok m
      ∧ LastAlteration (before ++ later) before later
      ∧ m.generics = [u] ∧ m.genericView = []
      ∧ ((d.after (before ++ later)).freeze 0).events = [.frozen ⟨0x06000001⟩ "M" 0 1]
      ∧ ∃ recent,
          d.log (before ++ later) ++ ((d.after (before ++ later)).freeze 0).events
              = d.log before ++ recent
            ∧ Event.warnings recent = [.skipped 1 1] := by
  intro u before later d
  let m : Method := (d.after (before ++ later)).toMethod 0 []
  have made : ((d.after (before ++ later)).freeze 0).outcome = .ok m := by
    rw [outcome_freeze, if_pos (by decide)]
    rfl
  have cut : LastAlteration (before ++ later) before later := by
    refine ⟨rfl, .inr ⟨[.change (.generic u), .peek], _, rfl, .options (by decide)⟩, ?_⟩
    intro c member alters
    cases alters with
    | generic p => simp [later] at member
    | @options o other =>
        have same : o = .lenient := by simpa [later] using member
        exact other (congrArg FreezeOptions.gaps same)
  rcases (warned_of_every_loss _ _ _ _ 0 _ made).2.2.2 before later cut with
    ⟨recent, whole, loss, -⟩
  have warned : Event.warnings recent = [.skipped 1 1] := (loss (by decide)).2
  exact ⟨m, made, cut, rfl, rfl, by decide, recent, whole, warned⟩

end Draft
end Member
end CallableMembers
