import CallableMembers.Generics.Arrangement

/-!
# Roster — the generic parameters registered so far, with a cached view by ordinal

Parameters are kept in the order they were registered.  The view is arranged when it is asked
for and kept until the next change: a registration, or a switch to a different policy.  A view
that cannot be arranged leaves the roster as it was.
-/

namespace CallableMembers
namespace Generics

structure Roster where
  params : List GenericParameter
  view : List GenericParameter
  stale : Bool
  policy : GapPolicy
  deriving DecidableEq, Repr

/-- What asking for the view yields: the roster afterwards, the view, and what was reported. -/
structure Reading where
  roster : Roster
  view : Except MemberError (List GenericParameter)
  events : List Event

namespace Roster

/-! ## Construction and changes -/

/-- An empty roster has an up-to-date view. -/
def withPolicy (policy : GapPolicy) : Roster :=
  ⟨[], [], false, policy⟩

def empty : Roster :=
  withPolicy .strict

def register (r : Roster) (p : GenericParameter) : Roster :=
  { r with params := r.params ++ [p], stale := true }

def registerAll (r : Roster) (ps : List GenericParameter) : Roster :=
  ps.foldl register r

/-- Setting the policy in force again changes nothing. -/
def setPolicy (r : Roster) (policy : GapPolicy) : Roster :=
  if r.policy = policy then r else { r with policy := policy, stale := true }

/-! ## Queries -/

def isGeneric (r : Roster) : Bool :=
  !r.params.isEmpty

/-- The view by ordinal.  A rebuild is reported before the arrangement is tried. -/
def read (r : Roster) : Reading :=
  if r.stale then
    let events := .rebuilding r.params.length :: arrangeEvents r.policy r.params
    match arrange r.policy r.params with
    | .error e => ⟨r, .error e, events⟩
    | .ok view => ⟨{ r with view := view, stale := false }, .ok view, events⟩
  else
    ⟨r, .ok r.view, []⟩

/-! ## What stays -/

@[simp] theorem params_registerAll (r : Roster) (ps : List GenericParameter) :
    (r.registerAll ps).params = r.params ++ ps := by
  induction ps generalizing r with
  | nil => simp [registerAll]
  | cons p ps ih =>
      have step : r.registerAll (p :: ps) = (r.register p).registerAll ps := rfl
      rw [step, ih]
      simp [register]

@[simp] theorem params_setPolicy (r : Roster) (policy : GapPolicy) :
    (r.setPolicy policy).params = r.params := by
  unfold setPolicy
  split <;> rfl

@[simp] theorem policy_setPolicy (r : Roster) (policy : GapPolicy) :
    (r.setPolicy policy).policy = policy := by
  unfold setPolicy
  split
  · next same => exact same
  · rfl

@[simp] theorem params_read (r : Roster) : r.read.roster.params = r.params := by
  unfold read
  split
  · cases arrange r.policy r.params <;> rfl
  · rfl

@[simp] theorem policy_read (r : Roster) : r.read.roster.policy = r.policy := by
  unfold read
  split
  · cases arrange r.policy r.params <;> rfl
  · rfl

end Roster
end Generics
end CallableMembers
