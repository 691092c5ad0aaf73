import CallableMembers.Proofs.Session.Progress
import CallableMembers.Proofs.Types.Nesting

/-!
# NestedTypes — describing a type by wrappers around another one

Evaluating a nest of wrappers evaluates what is inside and then makes one new object for each
wrapper.  What exists by then stays as it is, the inner type among it.
-/

namespace CallableMembers
namespace Ownership
namespace Ledger

variable {α : Type}

theorem find?_add_of_lt (l : Ledger α) (x : α) {i : ObjectId} (old : i < l.nextId) :
    (l.add x).find? i = l.find? i := by
  have entry : (l.add x).entries[i]? = l.entries[i]? := List.getElem?_append_left old
  simp [find?, isLive, holders_add, Nat.ne_of_lt old, entry]

end Ledger
end Ownership

namespace Session

open CallableMembers.Ownership CallableMembers.Types

/-! ## New objects -/

/-- New objects leave those that exist as they are. -/
theorem find?_addAll_of_lt (s : State) (nodes : List Node) {i : ObjectId}
    (old : i < s.ledger.nextId) : (s.addAll nodes).ledger.find? i = s.ledger.find? i := by
  induction nodes generalizing s with
  | nil => rfl
  | cons node rest ih =>
      have later : i < (s.add node).ledger.nextId := by
        rw [State.add, Ledger.nextId_add]
        exact Nat.lt_succ_of_lt old
      calc
        ((s.add node).addAll rest).ledger.find? i = (s.add node).ledger.find? i := ih _ later
        _ = s.ledger.find? i := s.ledger.find?_add_of_lt node old

/-- A reference to a type that exists reads what it read before. -/
theorem upgrade_addAll_of_lt (s : State) (nodes : List Node) {t : TypeDesc}
    (old : t.id < s.ledger.nextId) : (s.addAll nodes).upgrade (.of t) = s.upgrade (.of t) := by
  have target : (WeakRef.of t).target = t.id := rfl
  simp only [State.upgrade, target, find?_addAll_of_lt s nodes old]

/-! ## Nests of wrappers -/

variable {s s₁ : State} {e : TypeExpr} {b : TypeDesc}

/-- The wrappers with the identities that they get when the given one is the next. -/
def layersFrom (next : ObjectId) (ws : List Wrapper) : List (ObjectId × Wrapper) :=
  (List.range' next ws.length).zip ws

theorem map_fst_layersFrom (next : ObjectId) (ws : List Wrapper) :
    (layersFrom next ws).map Prod.fst = List.range' next ws.length :=
  List.map_fst_zip (by simp)

theorem map_snd_layersFrom (next : ObjectId) (ws : List Wrapper) :
    (layersFrom next ws).map Prod.snd = ws :=
  List.map_snd_zip (by simp)

/-- The type is what the wrappers make of the inner type, and the stages are the new objects. -/
theorem evaluate_nest (evaluated : s.evaluate e = some (b, s₁)) (ws : List Wrapper) :
    let layers := layersFrom s₁.ledger.nextId ws
    s.evaluate (e.nest ws)
      = some (b.wrap layers, s₁.addAll ((b.stages layers).map fun u => .type u .empty)) := by
  induction ws generalizing e b s₁ with
  | nil => exact evaluated
  | cons w ws ih =>
      let u : TypeDesc := .constructed s₁.ledger.nextId w b
      have inner : s.evaluate (.constructed w e) = some (u, s₁.add (.type u .empty)) := by
        simp [State.evaluate, evaluated, u]
      -- The other wrappers are put around the new type, which is the last object by then.
      have outer := ih inner
      simp only [State.add, Ledger.nextId_add] at outer
      exact outer

/-- Evaluated in any session, a nest of wrappers yields a type that reads as the inner type followed
by the marks of the wrappers, in the namespace of the inner type and without a token of its own.
One step down for each wrapper, the outermost first, passes the objects made for them and ends at
the inner type, which is the object that it was. -/
theorem nested_type_of_run (before : List Step)
    (evaluated : (State.empty.run before).1.evaluate e = some (b, s₁)) (ws : List Wrapper) :
    ∃ (t : TypeDesc) (passed : List TypeDesc),
      let s₂ := s₁.addAll (passed.reverse.map fun u => .type u .empty)
      (State.empty.run before).1.evaluate (e.nest ws) = some (t, s₂)
        ∧ t.fullName = b.fullName ++ String.ofList (ws.flatMap Wrapper.marks)
        ∧ t.display = t.fullName
        ∧ t.namespaceName = b.namespaceName
        ∧ (ws ≠ [] → t.token = .null)
        ∧ t.Descends passed b
        ∧ passed.map TypeDesc.flavor = (ws.map Wrapper.flavor).reverse
        ∧ t.flavorChain = (ws.map Wrapper.flavor).reverse ++ b.flavorChain
        ∧ passed.map TypeDesc.id = (List.range' s₁.ledger.nextId ws.length).reverse
        ∧ b.id < s₁.ledger.nextId
        ∧ s₂.upgrade (.of b) = some b := by
  let layers := layersFrom s₁.ledger.nextId ws
  have wrappers : layers.map Prod.snd = ws := map_snd_layersFrom ..
  have ids : layers.map Prod.fst = List.range' s₁.ledger.nextId ws.length := map_fst_layersFrom ..
  have descends : (b.wrap layers).Descends (b.stages layers).reverse b := b.descends_wrap layers
  have flavors :
      (b.stages layers).reverse.map TypeDesc.flavor = (ws.map Wrapper.flavor).reverse := by
    rw [List.map_reverse, b.map_flavor_stages, wrappers]
  have inner : Consistent.Evaluated _ s₁ b [] := (consistent_run before).evaluate evaluated
  have live : s₁.ledger.isLive b.id = true :=
    inner.moves.consistent.live_of_loose (List.mem_cons_self ..)
  have old : b.id < s₁.ledger.nextId := Ledger.lt_nextId_of_isLive live
  refine ⟨b.wrap layers, (b.stages layers).reverse, ?_, ?_, TypeDesc.display_eq_fullName _,
    b.namespaceName_wrap layers, ?_, descends, flavors, ?_, ?_, old, ?_⟩
  · rw [List.reverse_reverse]
    exact evaluate_nest evaluated ws
  · rw [b.fullName_wrap, wrappers]
  · intro wrapped
    have layered : layers ≠ [] := fun empty => wrapped (by rw [← wrappers, empty, List.map_nil])
    rw [b.token_wrap, if_neg layered]
  · rw [descends.flavorChain_eq, flavors]
  · rw [List.map_reverse, b.map_id_stages, ids]
  · have valid : s₁.isValid (.of b) = true := live
    rw [upgrade_addAll_of_lt s₁ _ old, upgrade_of_hasType inner.known, if_pos valid]

/-- An array of rank zero reads like one of a single dimension, and its flavor keeps the rank. -/
theorem nested_type_of_run_of_arrays :
    let before : List Step := [.type "I" (.named .null .i4 "System" "Int32")]
    let b : TypeDesc := .named 0 .null .i4 "System" "Int32"
    let ws : List Wrapper := [.vector, .array 0, .array 3, .byRef]
    let s := (State.empty.run before).1
    s.evaluate (.stored "I") = some (b, s.retain 0)
      ∧ ∃ t passed s₂, s.evaluate ((TypeExpr.stored "I").nest ws) = some (t, s₂)
        ∧ t.fullName = "System.Int32[][][,,]&"
        ∧ t.display = t.fullName
        ∧ t.namespaceName = "System"
        ∧ t.token = .null
        ∧ t.Descends passed b
        ∧ passed.map TypeDesc.flavor = [.byRef, .array 3, .array 0, .array 1]
        ∧ t.flavorChain = [.byRef, .array 3, .array 0, .array 1, .i4]
        ∧ passed.map TypeDesc.id = [4, 3, 2, 1]
        ∧ s₂.upgrade (.of b) = some b := by
  intro before b ws s
  have evaluated : s.evaluate (.stored "I") = some (b, s.retain 0) := rfl
  rcases nested_type_of_run before evaluated ws with
    ⟨t, passed, evaluated', reads, shown, inside, apart, descends, flavors, chain, ids, -, kept⟩
  refine ⟨evaluated, t, passed, _, evaluated', ?_, shown, inside, apart (by decide), descends,
    flavors, chain, ids, kept⟩
  rw [reads]
  decide

end Session
end CallableMembers
