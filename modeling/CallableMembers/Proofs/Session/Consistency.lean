import CallableMembers.Proofs.Session.Objects
import CallableMembers.Session.Run
import Mathlib.Data.List.Perm.Basic

/-!
# Consistency — a session whose holds add up

In a consistent session the ledger is sound for the holds of the caller and those on retired
members, and every name leads to objects of the ledger.  In the middle of a step there are holds
without a name, such as the one on a type that has just been evaluated; they are listed as loose.
Each operation that steps are made of moves holds between names, objects, retired members and the
loose ones.
-/

namespace CallableMembers
namespace Session

open CallableMembers.Generics CallableMembers.Member CallableMembers.Ownership CallableMembers.Types

structure HasDraft (l : Ledger Node) (d : Draft) : Prop where
  signature : HasSignature l d.signature
  declaring : ∀ r, d.declaring? = some r → HasTarget l r

theorem Develops.hasDraft {l l' : Ledger Node} {d : Draft} (h : Develops l l')
    (known : HasDraft l d) : HasDraft l' d :=
  ⟨h.hasSignature known.signature, fun r declared => h.hasTarget (known.declaring r declared)⟩

/-- Every name leads to objects of the ledger. -/
structure Coherent (s : State) : Prop where
  objects : WellPlaced s.ledger
  types : ∀ t ∈ s.types.values, HasType s.ledger t
  parameters : ∀ p ∈ s.parameters.values, HasParameter s.ledger p
  methods : ∀ m ∈ s.methods.values, HasMethod s.ledger m
  drafts : ∀ d ∈ s.drafts.values, HasDraft s.ledger d
  refs : ∀ r ∈ s.refs.values, HasTarget s.ledger r
  constraints : ∀ rs ∈ s.constraints, ∀ r ∈ rs, HasTarget s.ledger r
  retired : ∀ m ∈ s.retired, HasMethod s.ledger m

structure Consistent (s : State) (loose : List ObjectId) : Prop where
  sound : s.ledger.Sound (loose ++ s.roots)
  coherent : Coherent s

/-- Objects develop, and constraints are only appended. -/
structure Evolves (s s' : State) : Prop where
  ledger : Develops s.ledger s'.ledger
  constraints : ∀ (i : Nat) (rs : List WeakRef), s.constraints[i]? = some rs →
    ∃ more, s'.constraints[i]? = some (rs ++ more)

/-- The second state comes after the first and is consistent with these loose holds. -/
structure Moves (s s' : State) (loose : List ObjectId) : Prop where
  consistent : Consistent s' loose
  evolves : Evolves s s'

theorem Evolves.refl (s : State) : Evolves s s :=
  ⟨.refl s.ledger, fun _ rs found => ⟨[], by simpa using found⟩⟩

theorem Evolves.trans {s s' s'' : State} (first : Evolves s s') (second : Evolves s' s'') :
    Evolves s s'' := by
  refine ⟨first.ledger.trans second.ledger, ?_⟩
  intro i rs found
  rcases first.constraints i rs found with ⟨more, found'⟩
  rcases second.constraints i _ found' with ⟨further, found''⟩
  exact ⟨more ++ further, by rw [found'', List.append_assoc]⟩

theorem Moves.trans {s s' s'' : State} {loose loose' : List ObjectId} (first : Moves s s' loose)
    (second : Moves s' s'' loose') : Moves s s'' loose' :=
  ⟨second.consistent, first.evolves.trans second.evolves⟩

/-- Only the ledger changes, and its objects develop. -/
theorem Evolves.ofLedger {s : State} {l : Ledger Node} (develops : Develops s.ledger l) :
    Evolves s { s with ledger := l } :=
  ⟨develops, (Evolves.refl s).constraints⟩

namespace Coherent

variable {s : State}

theorem withLedger {l : Ledger Node} (h : Coherent s) (develops : Develops s.ledger l)
    (placed : WellPlaced l) : Coherent { s with ledger := l } where
  objects := placed
  types t member := develops.hasType (h.types t member)
  parameters p member := develops.hasParameter (h.parameters p member)
  methods m member := develops.hasMethod (h.methods m member)
  drafts d member := develops.hasDraft (h.drafts d member)
  refs r member := develops.hasTarget (h.refs r member)
  constraints rs listed r member := develops.hasTarget (h.constraints rs listed r member)
  retired m member := develops.hasMethod (h.retired m member)

theorem fades {l : Ledger Node} (h : Coherent s) (fades : Ledger.Fades s.ledger l) :
    Coherent { s with ledger := l } :=
  h.withLedger (develops_of_fades fades) (h.objects.fades fades)

theorem target_of_constraintsOf {p : GenericParameter} {r : WeakRef} (h : Coherent s)
    (listed : r ∈ s.constraintsOf p) : HasTarget s.ledger r := by
  unfold State.constraintsOf at listed
  rw [List.getD_eq_getElem?_getD] at listed
  cases found : s.constraints[p.id]? with
  | none =>
      rw [found] at listed
      cases listed
  | some rs =>
      rw [found] at listed
      exact h.constraints rs (List.mem_of_getElem? found) r listed

end Coherent

namespace Consistent

variable {s : State} {loose : List ObjectId}

/-- Only the number of loose holds on each object matters. -/
theorem congr {loose' : List ObjectId} (h : Consistent s loose)
    (same : ∀ i, loose'.count i = loose.count i) : Consistent s loose' :=
  ⟨h.sound.congr fun i => by rw [List.count_append, List.count_append, same], h.coherent⟩

theorem swap {i j : ObjectId} (h : Consistent s (i :: j :: loose)) :
    Consistent s (j :: i :: loose) :=
  h.congr fun k => (List.Perm.swap i j loose).count_eq k

theorem live_of_loose {i : ObjectId} (h : Consistent s loose) (member : i ∈ loose) :
    s.ledger.isLive i = true :=
  h.sound.live_of_root (List.mem_append_left _ member)

theorem live_of_handle {i : ObjectId} (h : Consistent s loose) (handle : i ∈ s.handles) :
    s.ledger.isLive i = true :=
  h.sound.live_of_root (List.mem_append_right _ (List.mem_append_left _ handle))

/-! ## Holding and releasing -/

theorem retain {i : ObjectId} (h : Consistent s loose) (live : s.ledger.isLive i = true) :
    Moves s (s.retain i) (i :: loose) where
  consistent := ⟨h.sound.retain live, h.coherent.fades (Ledger.fades_retain s.ledger i)⟩
  evolves := .ofLedger (develops_of_fades (Ledger.fades_retain s.ledger i))

theorem retainAll {ids : List ObjectId} (h : Consistent s loose)
    (live : ∀ i ∈ ids, s.ledger.isLive i = true) : Moves s (s.retainAll ids) (ids ++ loose) where
  consistent := by
    refine ⟨?_, h.coherent.fades (Ledger.fades_retainAll s.ledger ids)⟩
    have sound := h.sound.retainAll live
    rw [← List.append_assoc] at sound
    exact sound
  evolves := .ofLedger (develops_of_fades (Ledger.fades_retainAll s.ledger ids))

theorem releaseAll {ids : List ObjectId} (h : Consistent s (ids ++ loose)) :
    Moves s (s.releaseAll ids) loose where
  consistent := by
    have sound := h.sound
    rw [List.append_assoc] at sound
    exact ⟨sound.releaseAll, h.coherent.fades (Ledger.fades_releaseAll s.ledger ids)⟩
  evolves := .ofLedger (develops_of_fades (Ledger.fades_releaseAll s.ledger ids))

theorem release {i : ObjectId} (h : Consistent s (i :: loose)) : Moves s (s.release i) loose := by
  have pending : Consistent s ([i] ++ loose) := h
  exact pending.releaseAll

/-- A new object takes over the loose holds on what it holds. -/
theorem add {node : Node} (h : Consistent s (Holder.holds node ++ loose))
    (id : node.id = s.ledger.nextId) (own : InPlace s.ledger node) :
    Moves s (s.add node) (node.id :: loose) where
  consistent := by
    have sound := h.sound
    rw [List.append_assoc] at sound
    refine ⟨?_, h.coherent.withLedger (develops_add s.ledger node) (h.coherent.objects.add id own)⟩
    rw [id]
    exact sound.add
  evolves := .ofLedger (develops_add s.ledger node)

/-- Names or retired members change; their holds move between them and the loose ones. -/
theorem rename {s' : State} {loose' : List ObjectId} (h : Consistent s loose)
    (ledger : s'.ledger = s.ledger) (constraints : s'.constraints = s.constraints)
    (holds : ∀ i, (loose' ++ s'.roots).count i = (loose ++ s.roots).count i)
    (coherent : Coherent s') : Moves s s' loose' := by
  refine ⟨⟨?_, coherent⟩, ?_, ?_⟩
  · rw [ledger]
    exact h.sound.congr holds
  · rw [ledger]
    exact .refl s.ledger
  · rw [constraints]
    exact (Evolves.refl s).constraints

end Consistent

/-! ## Names and their holds -/

section Names

variable {κ ν : Type} [Ord κ] [Std.TransOrd κ] (holds : ν → List ObjectId) (m : OrderedMap κ ν)
  (name : κ) (i : ObjectId)

theorem count_flatMap_insert (x : ν) :
    ((m.insert name x).values.flatMap holds).count i
        + ((m.find? name).toList.flatMap holds).count i
      = (holds x).count i + (m.values.flatMap holds).count i := by
  have moved := ((m.values_insert_perm name x).flatMap_right holds).count_eq i
  simpa only [List.flatMap_append, List.flatMap_cons, List.count_append] using moved

theorem count_flatMap_erase :
    ((m.erase name).values.flatMap holds).count i
        + ((m.find? name).toList.flatMap holds).count i
      = (m.values.flatMap holds).count i := by
  have moved := ((m.values_erase_perm name).flatMap_right holds).count_eq i
  simpa only [List.flatMap_append, List.count_append] using moved

theorem count_map_insert (id : ν → ObjectId) (x : ν) :
    ((m.insert name x).values.map id).count i + ((m.find? name).toList.map id).count i
      = [id x].count i + (m.values.map id).count i := by
  simpa only [List.map_eq_flatMap] using count_flatMap_insert (fun x => [id x]) m name i x

end Names

theorem count_roots (s : State) (i : ObjectId) :
    s.roots.count i
      = (s.types.values.map TypeDesc.id).count i + (s.parameters.values.map Parameter.id).count i
        + (s.methods.values.map Method.id).count i
        + (s.drafts.values.flatMap fun d => d.signature.holds).count i
        + (s.retired.map Method.id).count i := by
  simp only [State.roots, State.handles, List.count_append]

namespace Consistent

variable {s : State} {loose : List ObjectId}

/-! ## Storing -/

section Storing

variable {ν : Type} {names : Names ν} {name : String} {x : ν} {s' : State}

/-- A name takes over the loose holds on a value; those on the value it had before are loose. -/
theorem giveName (holds : ν → List ObjectId) (h : Consistent s (holds x ++ loose))
    (ledger : s'.ledger = s.ledger) (constraints : s'.constraints = s.constraints)
    (roots : ∀ i, s'.roots.count i + (names.values.flatMap holds).count i
      = s.roots.count i + ((names.insert name x).values.flatMap holds).count i)
    (coherent : Coherent s') :
    Moves s s' ((names.find? name).toList.flatMap holds ++ loose) := by
  refine h.rename ledger constraints ?_ coherent
  intro i
  have moved := count_flatMap_insert holds names name i x
  have balance := roots i
  simp only [List.count_append]
  omega

/-- A name is forgotten; the holds on its value are loose. -/
theorem takeName (holds : ν → List ObjectId) (h : Consistent s loose)
    (found : names.find? name = some x) (ledger : s'.ledger = s.ledger)
    (constraints : s'.constraints = s.constraints)
    (roots : ∀ i, s'.roots.count i + (names.values.flatMap holds).count i
      = s.roots.count i + ((names.erase name).values.flatMap holds).count i)
    (coherent : Coherent s') : Moves s s' (holds x ++ loose) := by
  refine h.rename ledger constraints ?_ coherent
  intro i
  have moved := count_flatMap_erase holds names name i
  have balance := roots i
  simp only [found, Option.toList_some, List.flatMap_singleton] at moved
  simp only [List.count_append]
  omega

/-- An object is stored under a name, and the one that had the name is released. -/
theorem storeNamed (id : ν → ObjectId) (h : Consistent s (id x :: loose))
    (ledger : s'.ledger = s.ledger) (constraints : s'.constraints = s.constraints)
    (roots : ∀ i, s'.roots.count i + (names.values.map id).count i
      = s.roots.count i + ((names.insert name x).values.map id).count i)
    (coherent : Coherent s') :
    Moves s (s'.releaseAll ((names.find? name).toList.map id)) loose := by
  have pending : Consistent s ([id x] ++ loose) := h
  simp only [List.map_eq_flatMap] at roots ⊢
  have named := pending.giveName (fun x => [id x]) ledger constraints roots coherent
  exact named.trans named.consistent.releaseAll

/-- The name of an object is forgotten, and the object is released. -/
theorem dropNamed (id : ν → ObjectId) (h : Consistent s loose)
    (found : names.find? name = some x) (ledger : s'.ledger = s.ledger)
    (constraints : s'.constraints = s.constraints)
    (roots : ∀ i, s'.roots.count i + (names.values.map id).count i
      = s.roots.count i + ((names.erase name).values.map id).count i)
    (coherent : Coherent s') : Moves s (s'.release (id x)) loose := by
  simp only [List.map_eq_flatMap] at roots
  have forgotten := h.takeName (fun x => [id x]) found ledger constraints roots coherent
  exact forgotten.trans forgotten.consistent.releaseAll

end Storing

theorem storeType {t : TypeDesc} (h : Consistent s (t.id :: loose)) (known : HasType s.ledger t)
    (name : String) : Moves s (s.storeType name t) loose := by
  refine h.storeNamed TypeDesc.id rfl rfl ?_
    { h.coherent with types := OrderedMap.forall_values_insert h.coherent.types known name }
  intro i
  simp only [count_roots]
  omega

theorem storeParameter {p : Parameter} (h : Consistent s (p.id :: loose))
    (known : HasParameter s.ledger p) (name : String) :
    Moves s (s.storeParameter name p) loose := by
  refine h.storeNamed Parameter.id rfl rfl ?_
    { h.coherent with
      parameters := OrderedMap.forall_values_insert h.coherent.parameters known name }
  intro i
  simp only [count_roots]
  omega

theorem storeMethod {m : Method} (h : Consistent s (m.id :: loose)) (known : HasMethod s.ledger m)
    (name : String) : Moves s (s.storeMethod name m) loose := by
  refine h.storeNamed Method.id rfl rfl ?_
    { h.coherent with methods := OrderedMap.forall_values_insert h.coherent.methods known name }
  intro i
  simp only [count_roots]
  omega

/-- A draft takes over the loose holds on its signature. -/
theorem storeDraft {d : Draft} (h : Consistent s (d.signature.holds ++ loose))
    (known : HasDraft s.ledger d) (name : String) : Moves s (s.storeDraft name d) loose := by
  have coherent : Coherent (s.updateDraft name d) :=
    { h.coherent with drafts := OrderedMap.forall_values_insert h.coherent.drafts known name }
  have named : Moves s (s.updateDraft name d)
      (((s.drafts.find? name).toList.flatMap fun old => old.signature.holds) ++ loose) := by
    refine h.giveName (fun d : Draft => d.signature.holds) rfl rfl ?_ coherent
    intro i
    simp only [State.updateDraft, count_roots]
    omega
  exact named.trans named.consistent.releaseAll

/-! ## Forgetting -/

theorem dropType {name : String} {t : TypeDesc} (h : Consistent s loose)
    (found : s.types.find? name = some t) :
    Moves s ({ s with types := s.types.erase name }.release t.id) loose := by
  refine h.dropNamed TypeDesc.id found rfl rfl ?_
    { h.coherent with types := OrderedMap.forall_values_erase h.coherent.types name }
  intro i
  simp only [count_roots]
  omega

theorem dropParameter {name : String} {p : Parameter} (h : Consistent s loose)
    (found : s.parameters.find? name = some p) :
    Moves s ({ s with parameters := s.parameters.erase name }.release p.id) loose := by
  refine h.dropNamed Parameter.id found rfl rfl ?_
    { h.coherent with
      parameters := OrderedMap.forall_values_erase h.coherent.parameters name }
  intro i
  simp only [count_roots]
  omega

theorem dropMethod {name : String} {m : Method} (h : Consistent s loose)
    (found : s.methods.find? name = some m) :
    Moves s ({ s with methods := s.methods.erase name }.release m.id) loose := by
  refine h.dropNamed Method.id found rfl rfl ?_
    { h.coherent with methods := OrderedMap.forall_values_erase h.coherent.methods name }
  intro i
  simp only [count_roots]
  omega

theorem forgetDraft {name : String} {d : Draft} (h : Consistent s loose)
    (found : s.drafts.find? name = some d) :
    Moves s { s with drafts := s.drafts.erase name } (d.signature.holds ++ loose) := by
  have coherent : Coherent { s with drafts := s.drafts.erase name } :=
    { h.coherent with drafts := OrderedMap.forall_values_erase h.coherent.drafts name }
  refine h.takeName (fun d : Draft => d.signature.holds) found rfl rfl ?_ coherent
  intro i
  simp only [count_roots]
  omega

/-! ## Retired members -/

/-- Members that are retired take over the loose holds on them. -/
theorem retire {ms : List Method} (h : Consistent s (ms.map Method.id ++ loose))
    (known : ∀ m ∈ ms, HasMethod s.ledger m) : Moves s (s.retire ms) loose := by
  refine h.rename rfl rfl ?_ { h.coherent with retired := ?_ }
  · intro i
    simp only [State.retire, count_roots, List.map_append, List.count_append]
    omega
  · intro m member
    rcases List.mem_append.1 member with earlier | new
    · exact h.coherent.retired m earlier
    · exact known m new

/-- The hold on a retired member becomes loose, and the member is released. -/
theorem reclaim (h : Consistent s loose) (index : Nat) : Moves s (s.reclaim index).1 loose := by
  unfold State.reclaim
  cases found : s.retired[index]? with
  | none => exact ⟨h, .refl s⟩
  | some m =>
      rcases List.getElem?_eq_some_iff.1 found with ⟨inside, rfl⟩
      have taken := (List.getElem_cons_eraseIdx_perm inside).map Method.id
      have forgotten : Moves s { s with retired := s.retired.eraseIdx index }
          (s.retired[index].id :: loose) := by
        refine h.rename rfl rfl ?_ { h.coherent with retired := ?_ }
        · intro i
          have moved := taken.count_eq i
          simp only [List.map_cons, List.count_cons] at moved
          simp only [count_roots, List.count_append, List.count_cons]
          omega
        · exact fun m member => h.coherent.retired m (List.mem_of_mem_eraseIdx member)
      exact forgotten.trans forgotten.consistent.release

/-! ## Names that hold nothing -/

theorem nameRef {refs : Names WeakRef} (h : Consistent s loose)
    (known : ∀ r ∈ refs.values, HasTarget s.ledger r) : Moves s { s with refs := refs } loose :=
  h.rename rfl rfl (fun _ => rfl) { h.coherent with refs := known }

theorem nameGenerics (h : Consistent s loose) (generics : Names GenericParameter) :
    Moves s { s with generics := generics } loose :=
  h.rename rfl rfl (fun _ => rfl) { h.coherent with }

theorem nameRosters (h : Consistent s loose) (rosters : Names Roster) :
    Moves s { s with rosters := rosters } loose :=
  h.rename rfl rfl (fun _ => rfl) { h.coherent with }

/-! ## Constraints -/

theorem addGeneric (h : Consistent s loose) (generics : Names GenericParameter) :
    Moves s { s with generics := generics, constraints := s.constraints ++ [[]] } loose := by
  refine ⟨⟨h.sound, { h.coherent with constraints := ?_ }⟩, .refl s.ledger, ?_⟩
  · intro rs listed r member
    rcases List.mem_append.1 listed with listed | fresh
    · exact h.coherent.constraints rs listed r member
    · rw [List.mem_singleton.1 fresh] at member
      cases member
  · intro i rs found
    have inside := (List.getElem?_eq_some_iff.1 found).1
    exact ⟨[], by rw [List.getElem?_append_left inside, found, List.append_nil]⟩

theorem addConstraint {t : TypeDesc} (h : Consistent s loose) (known : HasType s.ledger t)
    (p : GenericParameter) : Moves s (s.addConstraint p t) loose := by
  refine ⟨⟨h.sound, { h.coherent with constraints := ?_ }⟩, .refl s.ledger, ?_⟩
  · intro rs listed r member
    rcases List.getElem?_of_mem listed with ⟨i, found⟩
    rw [State.addConstraint, List.getElem?_modify] at found
    rcases Option.map_eq_some_iff.1 found with ⟨old, before, rfl⟩
    have earlier := h.coherent.constraints old (List.mem_of_getElem? before)
    by_cases same : p.id = i
    · rw [if_pos same] at member
      rcases List.mem_append.1 member with member | fresh
      · exact earlier r member
      · exact ⟨t, known, List.mem_singleton.1 fresh⟩
    · rw [if_neg same] at member
      exact earlier r member
  · intro i rs found
    simp only [State.addConstraint, List.getElem?_modify, found]
    by_cases same : p.id = i
    · exact ⟨[.of t], by simp [same]⟩
    · exact ⟨[], by simp [same]⟩

end Consistent

end Session
end CallableMembers
