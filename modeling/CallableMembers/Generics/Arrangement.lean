import CallableMembers.Event
import CallableMembers.FreezeOptions
import CallableMembers.Generics.Parameter
import CallableMembers.MemberError

/-!
# Arrangement — generic parameters in the order of their ordinals

A list of `n` parameters opens the slots `0 … n - 1`.  Every slot is filled by a pass over the
whole list, in which the last parameter that declares its number stays; numbers from `n` on have
no slot.  The strict policy refuses a list that leaves a slot empty, the lenient policy leaves
empty slots out and says how many there were.
-/

namespace CallableMembers
namespace Generics

/-! ## Slots -/

/-- A pass for slot `k`: whoever declares the ordinal takes the slot from the one who had it. -/
def fill (ps : List GenericParameter) (k : Nat) : Option GenericParameter :=
  ps.foldl (fun slot p => if p.ordinal = k then some p else slot) none

def slots (ps : List GenericParameter) : List (Option GenericParameter) :=
  (List.range ps.length).map (fill ps)

/-- The occupied slots, in order. -/
def claimed (ps : List GenericParameter) : List GenericParameter :=
  (slots ps).filterMap id

def missingCount (ps : List GenericParameter) : Nat :=
  (slots ps).countP Option.isNone

def firstUnclaimed? (ps : List GenericParameter) : Option Nat :=
  (slots ps).findIdx? Option.isNone

@[simp] theorem length_slots (ps : List GenericParameter) : (slots ps).length = ps.length := by
  simp [slots]

/-- Every slot is either occupied or missing. -/
theorem length_claimed_add_missingCount (ps : List GenericParameter) :
    (claimed ps).length + missingCount ps = ps.length := by
  rw [← length_slots ps]
  unfold claimed missingCount
  induction slots ps with
  | nil => rfl
  | cons slot rest ih =>
      cases slot with
      | none =>
          have skipped : (none :: rest).filterMap id = rest.filterMap id :=
            List.filterMap_cons_none rfl
          rw [skipped, List.countP_cons_of_pos rfl, List.length_cons]
          omega
      | some p =>
          have kept : (some p :: rest).filterMap id = p :: rest.filterMap id :=
            List.filterMap_cons_some rfl
          rw [kept, List.countP_cons_of_neg Bool.false_ne_true, List.length_cons, List.length_cons]
          omega

/-! ## Arrangement under a policy -/

/-- The error of a strict arrangement; an ordinal beyond 32 bits is reported as the largest. -/
def unclaimedError (ps : List GenericParameter) (ordinal : Nat) : MemberError :=
  .unclaimedOrdinal (UInt32.ofNatClamp ordinal) ps.length

def arrange (policy : GapPolicy) (ps : List GenericParameter) :
    Except MemberError (List GenericParameter) :=
  match policy with
  | .strict =>
      match firstUnclaimed? ps with
      | some ordinal => .error (unclaimedError ps ordinal)
      | none => .ok (claimed ps)
  | .lenient => .ok (claimed ps)

/-- What an arrangement reports: a lenient one the slots it left out, if any. -/
def arrangeEvents (policy : GapPolicy) (ps : List GenericParameter) : List Event :=
  match policy with
  | .strict => []
  | .lenient =>
      if missingCount ps = 0 then [] else [.skipped (missingCount ps) ps.length]

end Generics
end CallableMembers
