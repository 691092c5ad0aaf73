import CallableMembers.Proofs.Generics.RosterTrace
import CallableMembers.Proofs.Member.DraftReports

/-!
# DraftTrace — what a draft writes to the log, told by its history

The view of a draft is stale exactly if, since it was last read with success, a generic parameter
was added or options with another policy were set.  Peeks write what reading the view writes in
that state, and so does freezing, which writes a line about the frozen member in addition.
-/

namespace CallableMembers
namespace Member

open CallableMembers.Flags CallableMembers.Generics CallableMembers.History CallableMembers.Types

namespace Draft

/-! ## Staleness told by the history -/

/-- The call adds a generic parameter, or sets options with a policy other than the one in force
by then. -/
def Alteration (before : List Call) (c : Call) : Prop :=
  c.Alters (settings before).options.gaps

/-- The call asks for the view, and what has been added by then can be arranged. -/
def Answer (before : List Call) (c : Call) : Prop :=
  c = .peek
    ∧ ∃ view, arrange (settings before).options.gaps (settings before).generics = .ok view

/-- An alteration that no successful peek came after. -/
def Unread (calls : List Call) : Prop :=
  Outstanding Alteration Answer calls

theorem onRoster?_eq_read_iff {c : Call} : c.onRoster? = some .read ↔ c = .peek := by
  rcases c with ⟨_ | _ | _ | _ | _ | _⟩ | _ <;> simp [Call.onRoster?]

/-- A call makes the view stale, or it leaves a stale view unread. -/
theorem stale_perform_iff (d : Draft) (c : Call) :
    (d.perform c).roster.stale = true
      ↔ c.Alters d.roster.policy
        ∨ (d.roster.stale = true ∧ ¬ (c = .peek ∧ ∃ view, d.roster.read.view = .ok view)) := by
  rw [alters_iff, ← onRoster?_eq_read_iff, roster_perform]
  cases asked : c.onRoster? with
  | none => simp
  | some c' => simpa using Roster.stale_perform_iff d.roster c'

section Start

variable (token : Token) (name : String) (attributes : Attributes) (parameters : List Parameter)
  (calls : List Call)

theorem answer_iff (c : Call) :
    Answer calls c
      ↔ c = .peek
        ∧ ∃ view,
            ((start token name attributes parameters).after calls).roster.read.view = .ok view := by
  rw [Answer, view_after_start]

/-- The view is stale exactly as long as an alteration is unread. -/
theorem stale_after_iff :
    ((start token name attributes parameters).after calls).roster.stale = true ↔ Unread calls := by
  let d := start token name attributes parameters
  refine flag_iff_outstanding (fun calls => (d.after calls).roster.stale = true)
    Bool.false_ne_true (fun calls c => ?_) calls
  calc
    (d.after (calls ++ [c])).roster.stale = true
        ↔ ((d.after calls).perform c).roster.stale = true := by rw [after_append]; rfl
    _ ↔ _ := by
      rw [stale_perform_iff, policy_after_start, ← answer_iff]
      rfl

/-! ## The trace -/

/-- What is due from a call after the calls before it; from a peek, given the view it returns. -/
def Due (d : Draft) (before : List Call) : Call → List Line → Prop
  | .peek, lines =>
      ReadDue (Unread before) (settings before).options.gaps (settings before).generics
        (d.after before).read.2.view lines
  | .change _, lines => lines = []

theorem due_read :
    let d := start token name attributes parameters
    Due d calls .peek ((d.after calls).roster.read.events.map Event.line) := by
  intro d
  have due := Roster.readDue_read (d.after calls).roster
  rw [stale_after_iff, policy_after_start, generics_after_start] at due
  exact due

theorem due_reported (c : Call) :
    let d := start token name attributes parameters
    Due d calls c (((d.after calls).reported c).map Event.line) := by
  cases c with
  | peek => exact due_read token name attributes parameters calls
  | change c => rfl

theorem due_unique {d : Draft} {c : Call} {lines lines' : List Line} (due : Due d calls c lines)
    (due' : Due d calls c lines') : lines' = lines := by
  cases c with
  | peek => exact ReadDue.unique due due'
  | change c => exact due'.trans due.symm

/-- What a draft has written is the one trace of its history. -/
theorem trace_iff_log {lines : List Line} :
    let d := start token name attributes parameters
    Trace (Due d) calls lines ↔ lines = (d.log calls).map Event.line := by
  intro d
  refine trace_iff_eq (fun calls => (d.log calls).map Event.line) rfl fun calls c =>
    ⟨((d.after calls).reported c).map Event.line, ?_, ?_⟩
  · rw [log_append, List.map_append]
    simp [log]
  · have due := due_reported token name attributes parameters calls c
    exact ⟨due, fun _ due' => due_unique calls due due'⟩

/-! ## Freezing -/

/-- The line about a frozen member. -/
def frozenLine (token : Token) (name : String) (parameters generics : Nat) : Line :=
  ⟨.debug, "Frozen member " ++ token.display ++ " '" ++ name ++ "' - " ++ toString parameters
    ++ " parameters, " ++ toString generics ++ " generic parameters"⟩

/-- What is due from freezing with an outcome: nothing for a foreign token, otherwise what a peek
writes that returns the view of the member, or the error, and last the member if there is one. -/
inductive FreezeDue (d : Draft) (before : List Call) :
    Except MemberError Method → List Line → Prop where
  | foreign (e : MemberError) :
      d.token.table ≠ Token.Table.methodDef → d.token.table ≠ Token.Table.memberRef →
        FreezeDue d before (.error e) []
  | refused (e : MemberError) {lines : List Line} :
      d.token.table = Token.Table.methodDef ∨ d.token.table = Token.Table.memberRef →
        (d.after before).read.2.view = .error e → Due d before .peek lines →
          FreezeDue d before (.error e) lines
  | made (m : Method) {lines : List Line} :
      d.token.table = Token.Table.methodDef ∨ d.token.table = Token.Table.memberRef →
        (d.after before).read.2.view = .ok m.genericView → Due d before .peek lines →
          FreezeDue d before (.ok m)
            (lines ++ [frozenLine d.token d.name d.signature.parameters.length
              (settings before).generics.length])

/-- What freezing comes to and what it reports, told by what a peek answers in that state. -/
theorem freezing_cases (d : Draft) (id : ObjectId) :
    (¬ d.token.isCallable = true ∧ d.freeze id = ⟨.error (.foreignToken d.name d.token), []⟩)
      ∨ d.token.isCallable = true
        ∧ ((∃ e, d.read.2.view = .error e ∧ d.freeze id = ⟨.error e, d.roster.read.events⟩)
          ∨ ∃ m, d.read.2.view = .ok m.genericView
            ∧ d.freeze id = ⟨.ok m, d.roster.read.events
              ++ [.frozen d.token d.name d.signature.parameters.length d.roster.params.length]⟩) := by
  by_cases callable : d.token.isCallable = true
  · refine .inr ⟨callable, ?_⟩
    cases view : d.roster.read.view with
    | error e => exact .inl ⟨e, view, by simp [freeze, callable, view]⟩
    | ok arranged =>
        exact .inr ⟨d.toMethod id arranged, view, by simp [freeze, callable, view]⟩
  · exact .inl ⟨callable, by simp [freeze, callable]⟩

theorem freezeDue_freeze (id : ObjectId) :
    let d := start token name attributes parameters
    FreezeDue d calls ((d.after calls).freeze id).outcome
      (((d.after calls).freeze id).events.map Event.line) := by
  intro d
  have origin : SameOrigin d (d.after calls) := sameOrigin_after d calls
  have due : Due d calls .peek ((d.after calls).roster.read.events.map Event.line) :=
    due_read token name attributes parameters calls
  have generics : (d.after calls).roster.params = (settings calls).generics :=
    generics_after_start token name attributes parameters calls
  have table := isCallable_iff d.token
  rcases (d.after calls).freezing_cases id with
    ⟨foreign, same⟩ | ⟨callable, ⟨e, view, same⟩ | ⟨m, view, same⟩⟩
  · have apart := not_or.1 (mt table.2 (origin.token ▸ foreign))
    rw [same]
    exact .foreign _ apart.1 apart.2
  · rw [same]
    exact .refused e (table.1 (origin.token ▸ callable)) view due
  · rw [same, List.map_append, generics, origin.token, origin.name,
      origin.parameters]
    exact .made m (table.1 (origin.token ▸ callable)) view due

end Start

end Draft
end Member
end CallableMembers
