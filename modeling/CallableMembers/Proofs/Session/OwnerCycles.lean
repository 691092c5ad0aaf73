import CallableMembers.Proofs.Session.Lifetime
import CallableMembers.Proofs.Session.MemberTables
import CallableMembers.Proofs.Types.Shape
import Mathlib.Data.List.Flatten

/-!
# OwnerCycles — what is left when the caller has let go of everything

A member knows its owner weakly, but it holds the types of its signature, and the owner holds the
member.  Elements and signatures always lead to simpler objects, so a cycle of holds must pass
through a member table; where members are only added to the type that declares them, this is the
table of a type whose own member leads back to it.  Without handles, and without members that were
replaced in a table, exactly the types behind such owners are left.
-/

namespace CallableMembers

/-- A cycle cannot go down all the way, so it has an edge of the kind that need not. -/
theorem exists_edge_of_cycle {α : Type} {r special : α → α → Prop} (rank : α → Nat)
    (down : ∀ i j, r i j → special i j ∨ rank j < rank i) {i : α}
    (cycle : Relation.TransGen r i i) :
    ∃ a b, special a b ∧ Relation.ReflTransGen r i a ∧ Relation.ReflTransGen r b i := by
  -- Along a path, either such an edge has been met or the rank is lower than at its start.
  have along : ∀ j, Relation.TransGen r i j →
      rank j < rank i ∨ ∃ a b, special a b ∧ Relation.ReflTransGen r i a
        ∧ Relation.ReflTransGen r b j := by
    intro j path
    induction path with
    | single edge =>
        rcases down _ _ edge with met | lower
        · exact .inr ⟨_, _, met, .refl, .refl⟩
        · exact .inl lower
    | tail path edge ih =>
        rcases ih with lower | ⟨a, b, met, before, after⟩
        · rcases down _ _ edge with met | lower'
          · exact .inr ⟨_, _, met, path.to_reflTransGen, .refl⟩
          · exact .inl (Nat.lt_trans lower' lower)
        · exact .inr ⟨a, b, met, before, after.tail edge⟩
  exact (along i cycle).resolve_left (Nat.lt_irrefl _)

namespace Member

/-- The types a signature is made of: those of its parameters, then the return type. -/
def Signature.types (signature : Signature) : List Types.TypeDesc :=
  signature.parameters.map Types.Parameter.type ++ signature.role.returnType?.toList

end Member

namespace Session

open CallableMembers.Member CallableMembers.Ownership CallableMembers.Types

namespace State

/-! ## Types that use types -/

/-- The type is made of the other one, or lists a member whose signature is. -/
inductive Uses (s : State) : ObjectId → ObjectId → Prop where
  | element {t element : TypeDesc} {members : MemberTable} :
      s.ledger.object? t.id = some (.type t members) → t.element? = some element →
        Uses s t.id element.id
  | signature {t used : TypeDesc} {members : MemberTable} {token : Token} {m : Method} :
      s.ledger.object? t.id = some (.type t members) → members.find? token = some m →
        used ∈ m.signature.types → Uses s t.id used.id

/-- The type lists the member, which it declares, and the signature of the member leads back to
the type. -/
structure LeadsBack (s : State) (owner : TypeDesc) (m : Method) : Prop where
  listed : ∃ members token, s.ledger.object? owner.id = some (.type owner members)
    ∧ members.find? token = some m
  declared : m.declaring? = some (.of owner)
  back : ∃ t ∈ m.signature.types, Relation.ReflTransGen s.Uses t.id owner.id

/-- Members are listed by the types that declare them only. -/
def ListsOwn (s : State) : Prop :=
  ∀ (t : TypeDesc) members token m, s.ledger.object? t.id = some (.type t members) →
    members.find? token = some m → m.declaring? = some (.of t)

end State

/-! ## Strong edges go down, but for member tables -/

/-- Bounds how far the object is from named types, if nothing is followed but elements and
signatures: all wrappers of its types count, and the steps through members and parameters. -/
def Node.rank : Node → Nat
  | .type t _ => t.shape.wrappers.length
  | .parameter p => p.type.shape.wrappers.length + 1
  | .method m => (m.signature.types.flatMap fun t => t.shape.wrappers).length + 2

def State.rank (s : State) (i : ObjectId) : Nat :=
  ((s.ledger.object? i).map Node.rank).getD 0

/-- The first object is a type and lists the second, which is a member. -/
def State.ListsMember (s : State) (i j : ObjectId) : Prop :=
  ∃ (t : TypeDesc) (members : MemberTable) (token : Token) (m : Method),
    i = t.id ∧ j = m.id ∧ s.ledger.object? t.id = some (.type t members)
      ∧ members.find? token = some m

section Edges

variable {s : State}

theorem rank_of_object? {i : ObjectId} {node : Node} (found : s.ledger.object? i = some node) :
    s.rank i = node.rank := by
  rw [State.rank, found]
  rfl

theorem rank_of_hasType {t : TypeDesc} (known : HasType s.ledger t) :
    s.rank t.id = t.shape.wrappers.length := by
  rcases known with ⟨members, found⟩
  exact rank_of_object? found

theorem length_wrappers_lt_rank {m : Method} {t : TypeDesc} (used : t ∈ m.signature.types) :
    t.shape.wrappers.length + 1 < (Node.method m).rank := by
  have part := (List.singleton_sublist.2 used).flatMap fun t => t.shape.wrappers
  rw [List.flatMap_singleton] at part
  exact Nat.succ_lt_succ (Nat.lt_succ_of_le part.length_le)

theorem parameter_mem_types {m : Method} {p : Parameter} (member : p ∈ m.parameters) :
    p.type ∈ m.signature.types :=
  List.mem_append_left _ (List.mem_map_of_mem member)

theorem return_mem_types {m : Method} {t : TypeDesc} (returned : m.returnType? = some t) :
    t ∈ m.signature.types :=
  List.mem_append_right _ (Option.mem_toList.2 returned)

theorem WellPlaced.method_of_listed (placed : WellPlaced s.ledger) {t : TypeDesc}
    {members : MemberTable} {token : Token} {m : Method}
    (found : s.ledger.object? t.id = some (.type t members))
    (listed : members.find? token = some m) : HasMethod s.ledger m :=
  (placed _ _ found).2.2 m (OrderedMap.mem_values_of_find? listed)

theorem WellPlaced.lists_or_lower (placed : WellPlaced s.ledger) {i j : ObjectId}
    (strong : s.Strong i j) : s.ListsMember i j ∨ s.rank j < s.rank i := by
  cases strong with
  | @element t element members found inner =>
      right
      rw [rank_of_hasType ((placed _ _ found).2.1 element inner), rank_of_hasType ⟨members, found⟩]
      cases t with
      | named id token flavor namespaceName name => cases inner
      | constructed id wrapper element' =>
          cases inner
          exact Nat.lt_succ_self _
  | member found listed => exact .inl ⟨_, _, _, _, rfl, rfl, found, listed⟩
  | @parameterType p found =>
      right
      rw [rank_of_hasType (placed _ _ found).2, rank_of_object? found]
      exact Nat.lt_succ_self _
  | @methodParameter m p found member =>
      right
      rw [rank_of_object? ((placed _ _ found).2.1.parameters p member), rank_of_object? found]
      exact length_wrappers_lt_rank (parameter_mem_types member)
  | @methodReturn m t found returned =>
      right
      rw [rank_of_hasType ((placed _ _ found).2.1.returnType t returned), rank_of_object? found]
      exact Nat.lt_of_succ_lt (length_wrappers_lt_rank (return_mem_types returned))

/-! ## Paths between types -/

/-- The types that an object holds at once, or is itself. -/
def Node.types : Node → List TypeDesc
  | .type t _ => [t]
  | .parameter p => [p.type]
  | .method m => m.signature.types

/-- A path of strong edges to a type passes parameters and members by, from type to type. -/
theorem WellPlaced.exists_uses_of_path (placed : WellPlaced s.ledger) {i : ObjectId} {node : Node}
    {last : TypeDesc} (known : HasType s.ledger last)
    (path : Relation.ReflTransGen s.Strong i last.id) (found : s.ledger.object? i = some node) :
    ∃ t ∈ node.types, Relation.ReflTransGen s.Uses t.id last.id := by
  induction path using Relation.ReflTransGen.head_induction_on generalizing node with
  | refl =>
      rcases known with ⟨members, known⟩
      rw [known] at found
      cases found
      exact ⟨last, List.mem_singleton.2 rfl, .refl⟩
  | head edge _ ih =>
      -- What the edge leads to is in the ledger, so the path from there is taken care of.
      cases edge with
      | @element t element members here inner =>
          rw [here] at found
          cases found
          rcases (placed _ _ here).2.1 element inner with ⟨_, next⟩
          rcases ih next with ⟨t', same, rest⟩
          rcases List.mem_singleton.1 same with rfl
          exact ⟨t, List.mem_singleton.2 rfl, .head (.element here inner) rest⟩
      | @member t members token m here listed =>
          rw [here] at found
          cases found
          have next := placed.method_of_listed here listed
          rcases ih next with ⟨t', used, rest⟩
          exact ⟨t, List.mem_singleton.2 rfl, .head (.signature here listed used) rest⟩
      | @parameterType p here =>
          rw [here] at found
          cases found
          rcases (placed _ _ here).2 with ⟨_, next⟩
          rcases ih next with ⟨t', same, rest⟩
          exact ⟨t', same, rest⟩
      | @methodParameter m p here member =>
          rw [here] at found
          cases found
          rcases ih ((placed _ _ here).2.1.parameters p member) with ⟨t', same, rest⟩
          rcases List.mem_singleton.1 same with rfl
          exact ⟨p.type, parameter_mem_types member, rest⟩
      | @methodReturn m t here returned =>
          rw [here] at found
          cases found
          rcases (placed _ _ here).2.1.returnType t returned with ⟨_, next⟩
          rcases ih next with ⟨t', same, rest⟩
          rcases List.mem_singleton.1 same with rfl
          exact ⟨t', return_mem_types returned, rest⟩

theorem WellPlaced.uses_of_path (placed : WellPlaced s.ledger) {first last : TypeDesc}
    (start : HasType s.ledger first) (known : HasType s.ledger last)
    (path : Relation.ReflTransGen s.Strong first.id last.id) :
    Relation.ReflTransGen s.Uses first.id last.id := by
  rcases start with ⟨_, found⟩
  rcases placed.exists_uses_of_path known path found with ⟨t, same, rest⟩
  rcases List.mem_singleton.1 same with rfl
  exact rest

/-- A member holds the types of its signature, those of parameters through the parameters. -/
theorem WellPlaced.path_of_types (placed : WellPlaced s.ledger) {m : Method} {t : TypeDesc}
    (known : HasMethod s.ledger m) (used : t ∈ m.signature.types) :
    Relation.ReflTransGen s.Strong m.id t.id := by
  rcases List.mem_append.1 used with taken | returned
  · rcases List.mem_map.1 taken with ⟨p, member, rfl⟩
    have here : HasParameter s.ledger p := (placed _ _ known).2.1.parameters p member
    exact .tail (.single (.methodParameter known member)) (.parameterType here)
  · exact .single (.methodReturn known (Option.mem_toList.1 returned))

theorem WellPlaced.path_of_uses (placed : WellPlaced s.ledger) {i j : ObjectId}
    (path : Relation.ReflTransGen s.Uses i j) : Relation.ReflTransGen s.Strong i j := by
  induction path with
  | refl => exact .refl
  | tail _ edge ih =>
      cases edge with
      | element found inner => exact ih.tail (.element found inner)
      | signature found listed used =>
          have known := placed.method_of_listed found listed
          exact (ih.tail (.member found listed)).trans (placed.path_of_types known used)

/-! ## Cycles -/

theorem WellPlaced.cycle_of_leadsBack (placed : WellPlaced s.ledger) {owner : TypeDesc} {m : Method}
    (leads : s.LeadsBack owner m) : Relation.TransGen s.Strong owner.id owner.id := by
  rcases leads.listed with ⟨members, token, found, listed⟩
  rcases leads.back with ⟨t, used, back⟩
  have known := placed.method_of_listed found listed
  have first : s.Strong owner.id m.id := .member found listed
  exact .head' first ((placed.path_of_types known used).trans (placed.path_of_uses back))

/-- Every cycle passes through the table of an owner to which one of its members leads back. -/
theorem WellPlaced.exists_leadsBack_of_cycle (placed : WellPlaced s.ledger) (own : s.ListsOwn)
    {i : ObjectId} (cycle : Relation.TransGen s.Strong i i) :
    ∃ owner m, s.LeadsBack owner m ∧ HasType s.ledger owner
      ∧ Relation.ReflTransGen s.Strong owner.id i := by
  rcases exists_edge_of_cycle s.rank (fun _ _ => placed.lists_or_lower) cycle with
    ⟨_, _, ⟨owner, members, token, m, rfl, rfl, found, listed⟩, before, after⟩
  have known := placed.method_of_listed found listed
  -- From the member the cycle goes on to where it started and back to the owner.
  rcases placed.exists_uses_of_path ⟨members, found⟩ (after.trans before) known with
    ⟨t, used, back⟩
  exact ⟨owner, m, ⟨⟨members, token, found, listed⟩, own owner members token m found listed,
    t, used, back⟩, ⟨members, found⟩, .head (.member found listed) after⟩

end Edges

namespace Consistent

variable {s : State}

/-- Where the caller holds nothing and nothing is retired, an object lives on behind an owner cycle
or not at all. -/
theorem exists_leadsBack_of_live (h : Consistent s []) (own : s.ListsOwn) (dropped : s.handles = [])
    (none : s.retired = []) {i : ObjectId} (live : s.ledger.isLive i = true) :
    ∃ owner m, s.LeadsBack owner m ∧ HasType s.ledger owner
      ∧ Relation.ReflTransGen s.Strong owner.id i := by
  rcases (h.isLive_iff_sustained none i).1 live with ⟨j, handle | cycle, path⟩
  · rw [handle_iff, dropped] at handle
    cases handle
  · rcases h.coherent.objects.exists_leadsBack_of_cycle own cycle with
      ⟨owner, m, leads, known, before⟩
    exact ⟨owner, m, leads, known, before.trans path⟩

theorem live_of_leadsBack (h : Consistent s []) {owner : TypeDesc} {m : Method} {i : ObjectId}
    (leads : s.LeadsBack owner m) (path : Relation.ReflTransGen s.Uses owner.id i) :
    s.ledger.isLive i = true := by
  have placed := h.coherent.objects
  exact (h.isLive_iff i).2
    (.inl ⟨owner.id, .inr (placed.cycle_of_leadsBack leads), placed.path_of_uses path⟩)

end Consistent

/-! ## References and owners of a run -/

namespace State

/-- The reference exists in some state of the run, though not always in the last one. -/
def RefersDuring (steps : List Step) (r : WeakRef) : Prop :=
  ∃ earlier later, steps = earlier ++ later ∧ (empty.run earlier).1.Refers r

theorem run_append (s : State) (earlier later : List Step) :
    (s.run (earlier ++ later)).1 = ((s.run earlier).1.run later).1 := by
  induction earlier generalizing s with
  | nil => rfl
  | cons st earlier ih => exact ih (s.step st).1

end State

/-- Targets stay in the ledger, so a reference of an earlier state still has one. -/
theorem hasTarget_of_refersDuring {steps : List Step} {r : WeakRef}
    (refers : State.RefersDuring steps r) : HasTarget (State.empty.run steps).1.ledger r := by
  rcases refers with ⟨earlier, later, rfl, refers⟩
  have before := consistent_run earlier
  rw [State.run_append]
  exact (before.run later).evolves.ledger.hasTarget (before.target_of_refers refers)

/-- What a table lists was added to it. -/
theorem listsOwn_run {steps : List Step}
    (owned : ∀ a ∈ State.empty.additions steps, a.2.declaring? = some ⟨a.1⟩) :
    (State.empty.run steps).1.ListsOwn := by
  intro t members token m found listed
  have table : members
      = MemberTable.addAll .empty (addedTo t.id (State.empty.additions steps)) := by
    rw [← tableAt_of_object? found]
    exact (gains_run_empty steps).tables t.id
  rw [table, (MemberTable.lists_addAll _).find?] at listed
  have added := mem_addedTo_iff.1 (MemberTable.mem_of_lastWith listed).1
  exact owned (t.id, m) added

/-! ## The law -/

/-- Let members be added only to the types that declare them, and no token twice to one table.
When the caller holds nothing any more, a reference that ever existed is valid exactly if its
target is used, at first hand or further on, by an owner to which one of its own members leads
back.  Anything at all is left exactly if there is such an owner. -/
theorem kept_by_owner_cycles (steps : List Step)
    (owned : ∀ a ∈ State.empty.additions steps, a.2.declaring? = some ⟨a.1⟩)
    (once : ((State.empty.additions steps).map fun a => (a.1, a.2.token)).Nodup)
    (dropped : (State.empty.run steps).1.handles = []) :
    let s := (State.empty.run steps).1
    (∀ r, State.RefersDuring steps r →
        (s.isValid r = true
          ↔ ∃ owner m, s.LeadsBack owner m ∧ Relation.ReflTransGen s.Uses owner.id r.target))
      ∧ ((∃ i, s.ledger.isLive i = true) ↔ ∃ owner m, s.LeadsBack owner m) := by
  intro s
  have h : Consistent s [] := consistent_run steps
  have own : s.ListsOwn := listsOwn_run owned
  have none : s.retired = [] := retired_of_addsOnce once
  refine ⟨fun r refers => ⟨fun valid => ?_, ?_⟩, ⟨?_, ?_⟩⟩
  · rcases hasTarget_of_refersDuring refers with ⟨t, known, rfl⟩
    rcases h.exists_leadsBack_of_live own dropped none valid with ⟨owner, m, leads, start, path⟩
    exact ⟨owner, m, leads, h.coherent.objects.uses_of_path start known path⟩
  · rintro ⟨owner, m, leads, path⟩
    exact h.live_of_leadsBack leads path
  · rintro ⟨i, live⟩
    rcases h.exists_leadsBack_of_live own dropped none live with ⟨owner, m, leads, -⟩
    exact ⟨owner, m, leads⟩
  · rintro ⟨owner, m, leads⟩
    exact ⟨owner.id, h.live_of_leadsBack leads .refl⟩

/-- Of two owners, one with a member that returns it and one whose member takes another type, only
the first is left, with the member. -/
theorem kept_by_owner_cycles_of_two_owners :
    let steps : List Step :=
      [.type "T" (.named .null .classType "N" "T"), .ref "t" (.stored "T") .borrowed,
        .draft "d" ⟨0x06000001⟩ "Self" ⟨6⟩ (.stored []), .declaring "d" (.stored "T"),
        .returns "d" (.stored "T"), .freeze "d" "m", .addMethod "T" "m",
        .type "U" (.named .null .classType "N" "U"), .ref "u" (.stored "U") .borrowed,
        .draft "e" ⟨0x06000002⟩ "Take" ⟨6⟩ (.ofTypes [.named .null .i4 "" "int"]),
        .declaring "e" (.stored "U"), .freeze "e" "n", .addMethod "U" "n",
        .drop .method "m", .drop .method "n", .drop .type "T", .drop .type "U"]
    let s := (State.empty.run steps).1
    (∀ a ∈ State.empty.additions steps, a.2.declaring? = some ⟨a.1⟩)
      ∧ ((State.empty.additions steps).map fun a => (a.1, a.2.token)).Nodup ∧ s.handles = []
      ∧ State.RefersDuring steps ⟨0⟩ ∧ s.isValid ⟨0⟩ = true ∧ (∃ owner m, s.LeadsBack owner m)
      ∧ State.RefersDuring steps ⟨2⟩ ∧ s.isValid ⟨2⟩ = false
      ∧ ¬ ∃ owner m, s.LeadsBack owner m ∧ Relation.ReflTransGen s.Uses owner.id 2 := by
  intro steps s
  have owned : ∀ a ∈ State.empty.additions steps, a.2.declaring? = some ⟨a.1⟩ := by decide
  have once : ((State.empty.additions steps).map fun a => (a.1, a.2.token)).Nodup := by decide
  have dropped : s.handles = [] := by decide
  have kept : State.RefersDuring steps ⟨0⟩ := ⟨steps, [], rfl, .named "t" (by decide)⟩
  have released : State.RefersDuring steps ⟨2⟩ := ⟨steps, [], rfl, .named "u" (by decide)⟩
  have valid : s.isValid ⟨0⟩ = true := by decide
  have invalid : s.isValid ⟨2⟩ = false := by decide
  have law := kept_by_owner_cycles steps owned once dropped
  refine ⟨owned, once, dropped, kept, valid, law.2.1 ⟨0, valid⟩, released, invalid, ?_⟩
  intro behind
  rw [(law.1 ⟨2⟩ released).2 behind] at invalid
  cases invalid

/-- That members know their owners weakly does not release every type: one that lists a member
which returns it stays, although the member was added once, to its own owner, and the caller holds
nothing. -/
theorem owner_kept_by_return :
    let steps : List Step :=
      [.type "T" (.named ⟨0x02000001⟩ .classType "N" "T"), .ref "t" (.stored "T") .borrowed,
        .draft "d" ⟨0x06000001⟩ "Self" ⟨6⟩ (.ofTypes []), .declaring "d" (.stored "T"),
        .returns "d" (.stored "T"), .freeze "d" "m", .addMethod "T" "m", .drop .method "m",
        .drop .type "T"]
    let s := (State.empty.run steps).1
    (∀ a ∈ State.empty.additions steps, a.2.declaring? = some ⟨a.1⟩)
      ∧ ((State.empty.additions steps).map fun a => (a.1, a.2.token)).Nodup
      ∧ s.handles = [] ∧ s.Refers ⟨0⟩ ∧ s.isValid ⟨0⟩ = true := by
  intro steps s
  exact ⟨by decide, by decide, by decide, .named "t" (by decide), by decide⟩

end Session
end CallableMembers
