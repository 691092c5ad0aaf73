import CallableMembers.Proofs.Session.Consistency

/-!
# Evaluation — operations that make or look up objects

Evaluating a type yields a type of the ledger with one loose hold on it and leaves the names
alone.  The parameters of a new draft take over the holds on their types, and a member table
takes over a hold on the member that is added, while one that it replaces is retired.
-/

namespace CallableMembers
namespace Session

open CallableMembers.Member CallableMembers.Ownership CallableMembers.Types

theorem Moves.congr {s s' : State} {loose loose' : List ObjectId} (h : Moves s s' loose)
    (same : ∀ i, loose'.count i = loose.count i) : Moves s s' loose' :=
  ⟨h.consistent.congr same, h.evolves⟩

/-- The second state differs in the ledger only. -/
def SameNames (s s' : State) : Prop :=
  s' = { s with ledger := s'.ledger }

theorem SameNames.trans {s s' s'' : State} (first : SameNames s s') (second : SameNames s' s'') :
    SameNames s s'' := by
  unfold SameNames at *
  rw [second, first]

/-! ## Objects behind names -/

namespace Consistent

variable {s : State} {loose : List ObjectId}

theorem type_of_find? {name : String} {t : TypeDesc} (h : Consistent s loose)
    (found : s.types.find? name = some t) :
    HasType s.ledger t ∧ s.ledger.isLive t.id = true := by
  have member := OrderedMap.mem_values_of_find? found
  refine ⟨h.coherent.types t member, h.live_of_handle ?_⟩
  simp only [State.handles, List.mem_append, List.mem_map]
  exact .inl (.inl (.inl ⟨t, member, rfl⟩))

theorem parameter_of_find? {name : String} {p : Parameter} (h : Consistent s loose)
    (found : s.parameters.find? name = some p) :
    HasParameter s.ledger p ∧ s.ledger.isLive p.id = true := by
  have member := OrderedMap.mem_values_of_find? found
  refine ⟨h.coherent.parameters p member, h.live_of_handle ?_⟩
  simp only [State.handles, List.mem_append, List.mem_map]
  exact .inl (.inl (.inr ⟨p, member, rfl⟩))

theorem method_of_find? {name : String} {m : Method} (h : Consistent s loose)
    (found : s.methods.find? name = some m) :
    HasMethod s.ledger m ∧ s.ledger.isLive m.id = true := by
  have member := OrderedMap.mem_values_of_find? found
  refine ⟨h.coherent.methods m member, h.live_of_handle ?_⟩
  simp only [State.handles, List.mem_append, List.mem_map]
  exact .inl (.inr ⟨m, member, rfl⟩)

theorem draft_of_find? {name : String} {d : Draft} (h : Consistent s loose)
    (found : s.drafts.find? name = some d) : HasDraft s.ledger d :=
  h.coherent.drafts d (OrderedMap.mem_values_of_find? found)

/-! ## Objects behind objects -/

theorem type_of_parameter {p : Parameter} (h : Consistent s loose)
    (held : HasParameter s.ledger p ∧ s.ledger.isLive p.id = true) :
    HasType s.ledger p.type ∧ s.ledger.isLive p.type.id = true := by
  have edge : s.ledger.Edge p.id p.type.id := ⟨_, held.1, List.mem_singleton.2 rfl⟩
  exact ⟨(h.coherent.objects _ _ held.1).2, h.sound.live_of_edge held.2 edge⟩

theorem parameter_of_method {m : Method} {p : Parameter} (h : Consistent s loose)
    (held : HasMethod s.ledger m ∧ s.ledger.isLive m.id = true) (member : p ∈ m.parameters) :
    HasParameter s.ledger p ∧ s.ledger.isLive p.id = true := by
  have edge : s.ledger.Edge m.id p.id :=
    ⟨_, held.1, List.mem_append_left _ (List.mem_map_of_mem member)⟩
  exact ⟨(h.coherent.objects _ _ held.1).2.1.parameters p member,
    h.sound.live_of_edge held.2 edge⟩

theorem return_of_method {m : Method} {t : TypeDesc} (h : Consistent s loose)
    (held : HasMethod s.ledger m ∧ s.ledger.isLive m.id = true) (returned : m.returnType? = some t) :
    HasType s.ledger t ∧ s.ledger.isLive t.id = true := by
  have edge : s.ledger.Edge m.id t.id :=
    ⟨_, held.1, List.mem_append_right _ (List.mem_map_of_mem (Option.mem_toList.2 returned))⟩
  exact ⟨(h.coherent.objects _ _ held.1).2.1.returnType t returned,
    h.sound.live_of_edge held.2 edge⟩

/-! ## Types -/

/-- What `evaluate` promises for its result. -/
structure Evaluated (s s' : State) (t : TypeDesc) (loose : List ObjectId) : Prop where
  moves : Moves s s' (t.id :: loose)
  known : HasType s'.ledger t
  names : SameNames s s'

/-- A live type that something leads to is held once more. -/
theorem evaluateHeld {t : TypeDesc} (h : Consistent s loose)
    (held : HasType s.ledger t ∧ s.ledger.isLive t.id = true) :
    Evaluated s (s.retain t.id) t loose := by
  have moves := h.retain held.2
  exact ⟨moves, moves.evolves.ledger.hasType held.1, rfl⟩

/-- A type that is made takes over the loose hold on its element, if it has one. -/
theorem evaluateMade {t : TypeDesc}
    (h : Consistent s (t.element?.toList.map TypeDesc.id ++ loose))
    (id : t.id = s.ledger.nextId)
    (inner : ∀ element, t.element? = some element → HasType s.ledger element) :
    Evaluated s (s.add (.type t .empty)) t loose := by
  have holds : Holder.holds (Node.type t .empty) = t.element?.toList.map TypeDesc.id := by
    simp [Holder.holds, OrderedMap.empty, OrderedMap.values]
  -- A new type has no members, so it holds its element at most.
  have none : ∀ m ∈ (OrderedMap.empty : MemberTable).values, HasMethod s.ledger m := by
    intro m member
    cases member
  rw [← holds] at h
  refine ⟨h.add id ⟨inner, none⟩, ⟨.empty, ?_⟩, rfl⟩
  simp only [State.add, Ledger.object?_add, if_pos id]

theorem evaluateElement {outer t : TypeDesc} (h : Consistent s (outer.id :: loose))
    (known : HasType s.ledger outer) (inner : outer.element? = some t) :
    Evaluated s ((s.retain t.id).release outer.id) t loose := by
  have alive : s.ledger.isLive t.id = true :=
    h.sound.live_of_edge (h.live_of_loose (List.mem_cons_self ..)) (edge_of_element known inner)
  -- The element is held before the outer type is given up, which may be the last to hold it.
  have retained := h.retain alive
  have moves := retained.trans retained.consistent.swap.release
  exact ⟨moves, moves.evolves.ledger.hasType (known.element h.coherent.objects inner), rfl⟩

theorem evaluate {e : TypeExpr} {t : TypeDesc} {s' : State} (h : Consistent s loose)
    (result : s.evaluate e = some (t, s')) : Evaluated s s' t loose := by
  -- The state goes through the expression from the inside out, so the element comes first.
  induction e generalizing t s' with
  | stored name =>
      simp only [State.evaluate, Option.bind_eq_bind, Option.bind_eq_some_iff] at result
      rcases result with ⟨t, found, result⟩
      cases result
      exact h.evaluateHeld (h.type_of_find? found)
  | typeOf parameter =>
      simp only [State.evaluate, Option.bind_eq_bind, Option.bind_eq_some_iff] at result
      rcases result with ⟨p, found, result⟩
      cases result
      exact h.evaluateHeld (h.type_of_parameter (h.parameter_of_find? found))
  | returnOf method =>
      simp only [State.evaluate, Option.bind_eq_bind, Option.bind_eq_some_iff] at result
      rcases result with ⟨m, found, t, returned, result⟩
      cases result
      exact h.evaluateHeld (h.return_of_method (h.method_of_find? found) returned)
  | ownerOf method =>
      simp only [State.evaluate, Option.bind_eq_bind, Option.bind_eq_some_iff] at result
      rcases result with ⟨m, -, r, -, t, upgraded, result⟩
      cases result
      -- An owner that resolves is alive, though the member does not hold it.
      have ⟨live, known, _⟩ := h.coherent.objects.of_upgrade upgraded
      exact h.evaluateHeld ⟨known, live⟩
  | named token flavor namespaceName name =>
      cases result
      exact evaluateMade h rfl (fun element inner => by cases inner)
  | constructed wrapper element ih =>
      simp only [State.evaluate, Option.bind_eq_bind, Option.bind_eq_some_iff] at result
      rcases result with ⟨⟨inner, s₁⟩, first, result⟩
      cases result
      have evaluated := ih first
      have made := evaluateMade (t := .constructed s₁.ledger.nextId wrapper inner)
        evaluated.moves.consistent rfl fun element same => by cases same; exact evaluated.known
      exact ⟨evaluated.moves.trans made.moves, made.known, evaluated.names.trans made.names⟩
  | elementOf type ih =>
      simp only [State.evaluate, Option.bind_eq_bind, Option.bind_eq_some_iff] at result
      rcases result with ⟨⟨outer, s₁⟩, first, t, inner, result⟩
      cases result
      have evaluated := ih first
      have element := evaluated.moves.consistent.evaluateElement evaluated.known inner
      exact ⟨evaluated.moves.trans element.moves, element.known,
        evaluated.names.trans element.names⟩

theorem evaluateAll {es : List TypeExpr} {ts : List TypeDesc} {s' : State}
    (h : Consistent s loose) (result : s.evaluateAll es = some (ts, s')) :
    Moves s s' (ts.map TypeDesc.id ++ loose) ∧ (∀ t ∈ ts, HasType s'.ledger t)
      ∧ SameNames s s' := by
  induction es generalizing s loose ts s' with
  | nil =>
      cases result
      exact ⟨⟨h, .refl s⟩, by simp, rfl⟩
  | cons e es ih =>
      simp only [State.evaluateAll, Option.bind_eq_bind, Option.bind_eq_some_iff] at result
      rcases result with ⟨⟨t, s₁⟩, first, ⟨ts, s₂⟩, second, result⟩
      cases result
      have one := h.evaluate first
      have ⟨moves, known, names⟩ := ih one.moves.consistent second
      refine ⟨(one.moves.trans moves).congr ?_, ?_, one.names.trans names⟩
      · intro i
        simp only [List.map_cons, List.cons_append, List.count_append, List.count_cons]
        omega
      · intro t' member
        rcases List.mem_cons.1 member with rfl | member
        · exact moves.evolves.ledger.hasType one.known
        · exact known t' member

/-! ## Parameters -/

/-- New parameters, with consecutive identities, take over the loose holds on their types. -/
theorem addParameters {ps : List Parameter}
    (h : Consistent s (ps.map (fun p => p.type.id) ++ loose))
    (ids : ∀ i p, ps[i]? = some p → p.id = s.ledger.nextId + i)
    (known : ∀ p ∈ ps, HasType s.ledger p.type) :
    Moves s (s.addAll (ps.map .parameter)) (ps.map Parameter.id ++ loose)
      ∧ ∀ p ∈ ps, HasParameter (s.addAll (ps.map .parameter)).ledger p := by
  induction ps generalizing s loose with
  | nil => exact ⟨⟨h, .refl s⟩, by simp⟩
  | cons p ps ih =>
      have id : p.id = s.ledger.nextId := ids 0 p rfl
      have pending : Consistent s
          (Holder.holds (Node.parameter p) ++ (ps.map (fun p => p.type.id) ++ loose)) := h
      have made := pending.add id (known p (List.mem_cons_self ..))
      -- The new parameter is loose now; the holds on the types still to come are as well.
      have rest : Consistent (s.add (.parameter p))
          (ps.map (fun p => p.type.id) ++ (p.id :: loose)) := by
        refine made.consistent.congr fun i => ?_
        simp only [Node.id, List.count_append, List.count_cons]
        omega
      have later : ∀ i q, ps[i]? = some q → q.id = (s.add (.parameter p)).ledger.nextId + i := by
        intro i q found
        calc
          q.id = s.ledger.nextId + (i + 1) := ids (i + 1) q (by simpa using found)
          _ = s.ledger.nextId + 1 + i := by rw [Nat.add_assoc, Nat.add_comm 1 i]
          _ = (s.add (.parameter p)).ledger.nextId + i := by rw [State.add, Ledger.nextId_add]
      have ⟨moves, present⟩ := ih rest later fun q member =>
        made.evolves.ledger.hasType (known q (List.mem_cons_of_mem _ member))
      refine ⟨(made.trans moves).congr ?_, ?_⟩
      · intro i
        simp only [List.map_cons, List.cons_append, List.count_append, List.count_cons]
        omega
      · intro q member
        rcases List.mem_cons.1 member with rfl | member
        · have here : HasParameter (s.add (.parameter q)).ledger q := by
            simp only [HasParameter, State.add, Ledger.object?_add, if_pos id]
          exact moves.evolves.ledger.hasParameter here
        · exact present q member

/-! ## Member tables -/

theorem members_eq {t : TypeDesc} {members : MemberTable} (live : s.ledger.isLive t.id = true)
    (found : s.ledger.object? t.id = some (.type t members)) : s.members t = members := by
  have read : s.ledger.find? t.id = some (.type t members) :=
    Ledger.find?_eq_some_iff.2 ⟨live, found⟩
  simp [State.members, read]

/-- The table of a live type changes: it takes over loose holds on members and gives up others. -/
theorem setMembers {t : TypeDesc} {before after : MemberTable} {taken given : List ObjectId}
    (h : Consistent s (taken ++ loose)) (live : s.ledger.isLive t.id = true)
    (found : s.ledger.object? t.id = some (.type t before))
    (listed : ∀ m ∈ after.values, HasMethod s.ledger m)
    (exchange : ∀ i, (after.values.map Method.id).count i + given.count i
      = (before.values.map Method.id).count i + taken.count i) :
    Moves s (s.setMembers t after) (given ++ loose) := by
  have known : HasType s.ledger t := ⟨before, found⟩
  have develops := develops_replace known after
  -- The element is held by both tables alike.
  have holds : ∀ i, (Holder.holds (Node.type t after)).count i + given.count i
      = (Holder.holds (Node.type t before)).count i + taken.count i := by
    intro i
    have balance := exchange i
    simp only [Holder.holds, List.count_append]
    omega
  have sound : s.ledger.Sound (taken ++ (loose ++ s.roots)) := by
    rw [← List.append_assoc]
    exact h.sound
  have replaced : (s.setMembers t after).ledger.Sound ((given ++ loose) ++ s.roots) := by
    rw [List.append_assoc]
    exact sound.replace live found holds
  exact ⟨⟨replaced, h.coherent.withLedger develops (h.coherent.objects.replace known listed)⟩,
    .ofLedger develops⟩

/-- The table takes over a hold on the new member; the one on a member it replaces is passed on to
the retired members. -/
theorem addMember {t : TypeDesc} {m : Method} (h : Consistent s loose)
    (known : HasType s.ledger t) (live : s.ledger.isLive t.id = true)
    (member : HasMethod s.ledger m) (alive : s.ledger.isLive m.id = true) :
    Moves s (s.addMember t m) loose := by
  rcases known with ⟨before, found⟩
  have table : s.members t = before := members_eq live found
  have retained := h.retain alive
  have pending : Consistent (s.retain m.id) ([m.id] ++ loose) := retained.consistent
  have live' : (s.retain m.id).ledger.isLive t.id = true := Ledger.isLive_retain live m.id
  have found' : (s.retain m.id).ledger.object? t.id = some (.type t before) :=
    ((Ledger.fades_retain s.ledger m.id).objects t.id).trans found
  have listed : ∀ m' ∈ (before.add m).values, HasMethod (s.retain m.id).ledger m' :=
    OrderedMap.forall_values_insert (pending.coherent.objects _ _ found').2.2
      (retained.evolves.ledger.hasMethod member) m.token
  -- The table gains the new member and loses the one that had its token.
  have set := pending.setMembers live' found' listed fun i =>
    (count_map_insert before m.token i Method.id m).trans (Nat.add_comm _ _)
  -- What is retired stood in the table before, so it is a member of the ledger.
  have replaced : ∀ old ∈ (before.find? m.token).toList,
      HasMethod ((s.retain m.id).setMembers t (before.add m)).ledger old := by
    intro old taken
    have stood := OrderedMap.mem_values_of_find? (Option.mem_toList.1 taken)
    exact set.evolves.ledger.hasMethod ((pending.coherent.objects _ _ found').2.2 old stood)
  have moves := (retained.trans set).trans (set.consistent.retire replaced)
  simpa only [State.addMember, table] using moves

end Consistent
end Session
end CallableMembers
