import CallableMembers.Ownership.ObjectId

/-!
# Ledger — who is still held

The ledger has an entry for every object ever made, at the place given by its identity, with the
number of its holders: the handles of the caller and the objects that hold it.  An object without
holders is released; with it go its own holds, which may release further objects.  Released
objects keep their entry and never come back, so identities stay unique.  Objects that hold each
other in a cycle are never released.
-/

namespace CallableMembers
namespace Ownership

/-- Objects that hold other objects, each as often as it is listed. -/
class Holder (α : Type) where
  holds : α → List ObjectId

structure Entry (α : Type) where
  holders : Nat
  object : α

/-- A released object has given up its own holds. -/
def Entry.activeHolds {α : Type} [Holder α] (e : Entry α) : List ObjectId :=
  if e.holders = 0 then [] else Holder.holds e.object

structure Ledger (α : Type) where
  entries : List (Entry α)

namespace Ledger

variable {α : Type}

def empty : Ledger α := ⟨[]⟩

/-! ## Reading -/

/-- The identity that the next object gets. -/
def nextId (l : Ledger α) : ObjectId :=
  l.entries.length

def holders (l : Ledger α) (i : ObjectId) : Nat :=
  match l.entries[i]? with
  | some e => e.holders
  | none => 0

def isLive (l : Ledger α) (i : ObjectId) : Bool :=
  l.holders i != 0

/-- A released object cannot be read. -/
def find? (l : Ledger α) (i : ObjectId) : Option α :=
  if l.isLive i then l.entries[i]?.map Entry.object else none

/-! ## Making, holding and changing -/

/-- A new object has one holder, the caller, and takes over the caller's holds on whatever it
holds itself. -/
def add (l : Ledger α) (x : α) : Ledger α :=
  ⟨l.entries ++ [⟨1, x⟩]⟩

def setHolders (l : Ledger α) (i : ObjectId) (n : Nat) : Ledger α :=
  ⟨l.entries.modify i fun e => { e with holders := n }⟩

/-- One more holder; only a live object can be held. -/
def retain (l : Ledger α) (i : ObjectId) : Ledger α :=
  if l.isLive i then l.setHolders i (l.holders i + 1) else l

def retainAll (l : Ledger α) (ids : List ObjectId) : Ledger α :=
  ids.foldl retain l

/-- The object changes in place; its holders do not. -/
def replace (l : Ledger α) (i : ObjectId) (x : α) : Ledger α :=
  ⟨l.entries.modify i fun e => { e with object := x }⟩

/-! ## Holders after a change -/

@[simp] theorem holders_empty (i : ObjectId) : (empty : Ledger α).holders i = 0 := rfl

@[simp] theorem nextId_add (l : Ledger α) (x : α) : (l.add x).nextId = l.nextId + 1 := by
  simp [nextId, add]

@[simp] theorem nextId_setHolders (l : Ledger α) (i : ObjectId) (n : Nat) :
    (l.setHolders i n).nextId = l.nextId := by
  simp [nextId, setHolders]

@[simp] theorem nextId_replace (l : Ledger α) (i : ObjectId) (x : α) :
    (l.replace i x).nextId = l.nextId := by
  simp [nextId, replace]

/-- An identity that was not given out has no holder. -/
theorem holders_of_nextId_le (l : Ledger α) {i : ObjectId} (h : l.nextId ≤ i) :
    l.holders i = 0 := by
  simp [holders, List.getElem?_eq_none h]

theorem lt_nextId_of_isLive {l : Ledger α} {i : ObjectId} (h : l.isLive i) : i < l.nextId := by
  apply Nat.lt_of_not_le
  intro le
  simp [isLive, l.holders_of_nextId_le le] at h

theorem holders_add (l : Ledger α) (x : α) (i : ObjectId) :
    (l.add x).holders i = if i = l.nextId then 1 else l.holders i := by
  by_cases h : i = l.nextId
  · simp [holders, add, nextId, h]
  · by_cases below : i < l.entries.length
    · simp [holders, add, h, List.getElem?_append_left below]
    · have above : l.nextId < i := Nat.lt_of_le_of_ne (Nat.le_of_not_lt below) (Ne.symm h)
      rw [if_neg h, holders_of_nextId_le l (Nat.le_of_lt above)]
      exact holders_of_nextId_le _ (by rw [nextId_add]; exact above)

theorem holders_setHolders (l : Ledger α) (i j : ObjectId) (n : Nat) :
    (l.setHolders i n).holders j = if j = i ∧ j < l.nextId then n else l.holders j := by
  simp only [holders, setHolders, nextId, List.getElem?_modify]
  by_cases below : j < l.entries.length
  · by_cases same : i = j
    · simp [same, below]
    · have other : j ≠ i := fun h => same h.symm
      simp [same, other, below]
  · simp [below]

theorem holders_retain (l : Ledger α) (i j : ObjectId) :
    (l.retain i).holders j = if j = i ∧ l.isLive i then l.holders j + 1 else l.holders j := by
  unfold retain
  split
  · next live =>
      rw [holders_setHolders]
      by_cases same : j = i
      · subst same
        simp [live, lt_nextId_of_isLive live]
      · simp [same]
  · next dead => simp [dead]

@[simp] theorem holders_replace (l : Ledger α) (i j : ObjectId) (x : α) :
    (l.replace i x).holders j = l.holders j := by
  simp only [holders, replace, List.getElem?_modify]
  by_cases below : j < l.entries.length
  · by_cases same : i = j <;> simp [same, below]
  · simp [below]

/-! ## Releasing -/

variable [Holder α]

/-- All holds that live objects have on others. -/
def liveHolds (l : Ledger α) : List ObjectId :=
  l.entries.flatMap Entry.activeHolds

/-- Gives up the pending holds one after the other.  The last hold of an object puts the object's
own holds in front.  Each round uses up one unit of the bound. -/
def settle : Nat → List ObjectId → Ledger α → Ledger α
  | 0, _, l => l
  | _ + 1, [], l => l
  | bound + 1, i :: pending, l =>
      match l.entries[i]? with
      | none => settle bound pending l
      | some e =>
          if e.holders = 1 then
            settle bound (Holder.holds e.object ++ pending) (l.setHolders i 0)
          else
            settle bound pending (l.setHolders i (e.holders - 1))

/-- A round takes one hold off the list and may move holds from the ledger to the list, so the
bound is met: it counts both. -/
def releaseAll (l : Ledger α) (ids : List ObjectId) : Ledger α :=
  settle (ids.length + l.liveHolds.length) ids l

def release (l : Ledger α) (i : ObjectId) : Ledger α :=
  l.releaseAll [i]

end Ledger
end Ownership
end CallableMembers
