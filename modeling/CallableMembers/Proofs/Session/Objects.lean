import CallableMembers.Proofs.MapValues
import CallableMembers.Proofs.Ownership.Accounting
import CallableMembers.Session.State

/-!
# Objects — types, parameters and methods in the ledger of a session

An object stands in the ledger under its own identity and refers to objects that stand there as
well.  As a session goes on objects are added and released; of an object that is there, nothing
ever changes but the member table of a type.
-/

namespace CallableMembers
namespace Session

open CallableMembers.Member CallableMembers.Ownership CallableMembers.Types

namespace Node

def id : Node → ObjectId
  | .type t _ => t.id
  | .parameter p => p.id
  | .method m => m.id

/-- The object apart from its member table, if it has one. -/
def bare : Node → Node
  | .type t _ => .type t .empty
  | node => node

end Node

variable {l l' l'' : Ledger Node}

/-! ## Being in the ledger -/

def HasType (l : Ledger Node) (t : TypeDesc) : Prop :=
  ∃ members, l.object? t.id = some (.type t members)

def HasParameter (l : Ledger Node) (p : Parameter) : Prop :=
  l.object? p.id = some (.parameter p)

def HasMethod (l : Ledger Node) (m : Method) : Prop :=
  l.object? m.id = some (.method m)

def HasTarget (l : Ledger Node) (r : WeakRef) : Prop :=
  ∃ t, HasType l t ∧ r = .of t

structure HasSignature (l : Ledger Node) (signature : Signature) : Prop where
  parameters : ∀ p ∈ signature.parameters, HasParameter l p
  returnType : ∀ t, signature.role.returnType? = some t → HasType l t

/-- Everything that the object refers to is in the ledger. -/
def InPlace (l : Ledger Node) : Node → Prop
  | .type t members =>
      (∀ element, t.element? = some element → HasType l element)
        ∧ ∀ m ∈ members.values, HasMethod l m
  | .parameter p => HasType l p.type
  | .method m => HasSignature l m.signature ∧ ∀ r, m.declaring? = some r → HasTarget l r

def WellPlaced (l : Ledger Node) : Prop :=
  ∀ i node, l.object? i = some node → node.id = i ∧ InPlace l node

theorem HasType.element {t element : TypeDesc} (placed : WellPlaced l) (known : HasType l t)
    (inner : t.element? = some element) : HasType l element := by
  rcases known with ⟨members, found⟩
  exact (placed _ _ found).2.1 element inner

/-! ## Later ledgers -/

/-- Objects stay what they are apart from member tables, and none comes back. -/
structure Develops (l l' : Ledger Node) : Prop where
  objects : ∀ i node, l.object? i = some node →
    ∃ node', l'.object? i = some node' ∧ node'.bare = node.bare
  gone : ∀ i, i < l.nextId → l'.isLive i = true → l.isLive i = true
  nextId_le : l.nextId ≤ l'.nextId

theorem Develops.refl (l : Ledger Node) : Develops l l :=
  ⟨fun _ node found => ⟨node, found, rfl⟩, fun _ _ live => live, Nat.le_refl _⟩

theorem Develops.trans (first : Develops l l') (second : Develops l' l'') : Develops l l'' := by
  refine ⟨?_, ?_, Nat.le_trans first.nextId_le second.nextId_le⟩
  · intro i node found
    rcases first.objects i node found with ⟨node', found', same⟩
    rcases second.objects i node' found' with ⟨node'', found'', same'⟩
    exact ⟨node'', found'', same'.trans same⟩
  · intro i made live
    exact first.gone i made (second.gone i (Nat.lt_of_lt_of_le made first.nextId_le) live)

theorem develops_of_fades (fades : Ledger.Fades l l') : Develops l l' := by
  refine ⟨?_, fun i _ live => fades.live i live, Nat.le_of_eq fades.nextId.symm⟩
  intro i node found
  exact ⟨node, (fades.objects i).trans found, rfl⟩

theorem develops_add (l : Ledger Node) (node : Node) : Develops l (l.add node) := by
  refine ⟨?_, ?_, ?_⟩
  · intro i old found
    have made := Ledger.lt_nextId_of_object? found
    exact ⟨old, by rwa [Ledger.object?_add, if_neg (Nat.ne_of_lt made)], rfl⟩
  · intro i made live
    rwa [Ledger.isLive_iff, Ledger.holders_add, if_neg (Nat.ne_of_lt made), ← Ledger.isLive_iff]
      at live
  · rw [Ledger.nextId_add]
    exact Nat.le_succ _

theorem develops_replace {t : TypeDesc} (known : HasType l t) (members : MemberTable) :
    Develops l (l.replace t.id (.type t members)) := by
  refine ⟨?_, ?_, Nat.le_of_eq (Ledger.nextId_replace l _ _).symm⟩
  · intro i old found
    rw [Ledger.object?_replace]
    by_cases same : i = t.id
    · -- Only the member table differs, and `bare` leaves it out.
      rcases known with ⟨before, known⟩
      subst same
      rw [known] at found
      cases found
      exact ⟨.type t members, by simp [known], rfl⟩
    · exact ⟨old, by rw [if_neg same, found], rfl⟩
  · intro i _ live
    rwa [Ledger.isLive_iff, Ledger.holders_replace, ← Ledger.isLive_iff] at live

namespace Develops

theorem hasType {t : TypeDesc} (h : Develops l l') (known : HasType l t) : HasType l' t := by
  rcases known with ⟨members, found⟩
  rcases h.objects _ _ found with ⟨node', found', same⟩
  -- An object keeps its kind, so the other kinds cannot stand here.
  cases node' with
  | type t' members' =>
      cases same
      exact ⟨members', found'⟩
  | parameter p => cases same
  | method m => cases same

theorem hasParameter {p : Parameter} (h : Develops l l') (known : HasParameter l p) :
    HasParameter l' p := by
  rcases h.objects _ _ known with ⟨node', found', same⟩
  cases node' with
  | type t members => cases same
  | parameter p' =>
      cases same
      exact found'
  | method m => cases same

theorem hasMethod {m : Method} (h : Develops l l') (known : HasMethod l m) : HasMethod l' m := by
  rcases h.objects _ _ known with ⟨node', found', same⟩
  cases node' with
  | type t members => cases same
  | parameter p => cases same
  | method m' =>
      cases same
      exact found'

theorem hasTarget {r : WeakRef} (h : Develops l l') (known : HasTarget l r) : HasTarget l' r := by
  rcases known with ⟨t, known, rfl⟩
  exact ⟨t, h.hasType known, rfl⟩

theorem hasSignature {signature : Signature} (h : Develops l l') (known : HasSignature l signature) :
    HasSignature l' signature :=
  ⟨fun p member => h.hasParameter (known.parameters p member),
    fun t returned => h.hasType (known.returnType t returned)⟩

theorem inPlace {node : Node} (h : Develops l l') (known : InPlace l node) : InPlace l' node := by
  cases node with
  | type t members =>
      exact ⟨fun element inner => h.hasType (known.1 element inner),
        fun m member => h.hasMethod (known.2 m member)⟩
  | parameter p => exact h.hasType known
  | method m =>
      exact ⟨h.hasSignature known.1, fun r declared => h.hasTarget (known.2 r declared)⟩

end Develops

/-! ## Objects stay well placed -/

theorem wellPlaced_empty : WellPlaced .empty := by
  intro i node found
  simp [Ledger.object?, Ledger.empty] at found

theorem WellPlaced.fades (placed : WellPlaced l) (fades : Ledger.Fades l l') : WellPlaced l' := by
  intro i node found
  rw [fades.objects] at found
  exact ⟨(placed i node found).1, (develops_of_fades fades).inPlace (placed i node found).2⟩

theorem WellPlaced.add {node : Node} (placed : WellPlaced l) (id : node.id = l.nextId)
    (own : InPlace l node) : WellPlaced (l.add node) := by
  intro i other found
  rw [Ledger.object?_add] at found
  split at found
  · next new =>
      cases found
      exact ⟨id.trans new.symm, (develops_add l node).inPlace own⟩
  · exact ⟨(placed i other found).1, (develops_add l node).inPlace (placed i other found).2⟩

theorem WellPlaced.replace {t : TypeDesc} {members : MemberTable} (placed : WellPlaced l)
    (known : HasType l t) (listed : ∀ m ∈ members.values, HasMethod l m) :
    WellPlaced (l.replace t.id (.type t members)) := by
  have later := develops_replace known members
  intro i node found
  rw [Ledger.object?_replace] at found
  split at found
  · next same =>
      rcases known with ⟨before, made⟩
      rw [same, made] at found
      cases found
      exact ⟨same.symm, fun element inner => later.hasType ((placed _ _ made).2.1 element inner),
        fun m member => later.hasMethod (listed m member)⟩
  · exact ⟨(placed i node found).1, later.inPlace (placed i node found).2⟩

/-! ## Edges of the objects -/

theorem edge_of_element {t element : TypeDesc} (known : HasType l t)
    (inner : t.element? = some element) : l.Edge t.id element.id := by
  rcases known with ⟨members, found⟩
  exact ⟨_, found, by simp [Holder.holds, inner]⟩

/-- A reference that can be upgraded leads to a live type, which is its target. -/
theorem WellPlaced.of_upgrade {s : State} {r : WeakRef} {t : TypeDesc} (placed : WellPlaced s.ledger)
    (upgraded : s.upgrade r = some t) :
    s.ledger.isLive t.id = true ∧ HasType s.ledger t ∧ r = .of t := by
  unfold State.upgrade at upgraded
  split at upgraded
  · next members read =>
      cases upgraded
      have ⟨live, found⟩ := Ledger.find?_eq_some_iff.1 read
      have same : t.id = r.target := (placed _ _ found).1
      exact ⟨same ▸ live, ⟨members, same ▸ found⟩, by rw [WeakRef.of, same]⟩
  · cases upgraded

theorem upgrade_of_hasType {s : State} {t : TypeDesc} (known : HasType s.ledger t) :
    s.upgrade (.of t) = if s.isValid (.of t) then some t else none := by
  rcases known with ⟨members, found⟩
  have target : (WeakRef.of t).target = t.id := rfl
  unfold State.upgrade State.isValid
  rw [target]
  by_cases live : s.ledger.isLive t.id = true
  · have read : s.ledger.find? t.id = some (.type t members) :=
      Ledger.find?_eq_some_iff.2 ⟨live, found⟩
    simp only [read, live, if_true]
  · have read : s.ledger.find? t.id = none := by
      simp only [Ledger.find?, if_neg live]
    simp only [read, if_neg live]

/-! ## What references answer -/

section Answers

variable {s : State} {t : TypeDesc} (known : HasType s.ledger t)

include known

theorem resolve_of_hasType (what : String) :
    s.resolve (.of t) what
      = if s.isValid (.of t) then .ok t else .error (.typeMissing what) := by
  unfold State.resolve
  cases valid : s.isValid (.of t) <;> simp [upgrade_of_hasType known, valid]

theorem tokenOf?_of_hasType :
    s.tokenOf? (.of t) = if s.isValid (.of t) then some t.token else none := by
  unfold State.tokenOf?
  cases valid : s.isValid (.of t) <;> simp [upgrade_of_hasType known, valid]

theorem fullNameOf?_of_hasType :
    s.fullNameOf? (.of t) = if s.isValid (.of t) then some t.fullName else none := by
  unfold State.fullNameOf?
  cases valid : s.isValid (.of t) <;> simp [upgrade_of_hasType known, valid]

end Answers

end Session
end CallableMembers
