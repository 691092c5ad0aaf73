import CallableMembers.Proofs.Session.Declarations
import CallableMembers.Proofs.Session.Frozen
import CallableMembers.Proofs.Session.Lifetime

/-!
# DeclaringType — how long a member knows the type that declares it

A member remembers the type that its draft was declared by last, and remembers it weakly.  It
resolves to this very type as long as the type is alive, and to none from then on, whatever is
made, stored or declared later.  Asking holds the type for a moment and leaves no trace.

A type is alive as long as anything holds it.  That may be a member that was replaced in a table
and is still to be reclaimed, so the end of a type may come later than its last holder is dropped.
-/

namespace CallableMembers
namespace Session

open CallableMembers.Member CallableMembers.Ownership CallableMembers.Types

/-! ## What a member answers about its owner -/

/-- All queries lead to the owner itself, and the session answers so under every name that the
member or a reference to the owner has. -/
structure ShowsOwner (s : State) (m : Method) (owner : TypeDesc) : Prop where
  resolved : s.resolveDeclaring m = .ok (some owner)
  valid : s.isValid (.of owner) = true
  upgraded : s.upgrade (.of owner) = some owner
  token : s.tokenOf? (.of owner) = some owner.token
  fullName : s.fullNameOf? (.of owner) = some owner.fullName
  declaring : ∀ name, s.methods.find? name = some m →
    s.step (.resolveDeclaring name)
      = (s, ⟨.ok (.type? (some ⟨owner, (s.members owner).size⟩)), []⟩)
  info : ∀ name, s.methods.find? name = some m →
    ∃ view : MethodView, s.step (.methodInfo name) = (s, ⟨.ok (.method view), []⟩)
      ∧ view.method = m
      ∧ view.declaring? = some ⟨true, some owner.token, some owner.fullName⟩
      ∧ view.resolved = .ok (some owner)
  reference : ∀ name, s.refs.find? name = some (.of owner) →
    s.step (.refInfo name)
        = (s, ⟨.ok (.ref ⟨true, some owner.token, some owner.fullName⟩), []⟩)
      ∧ ∀ what, s.step (.resolve name what)
          = (s, ⟨.ok (.type ⟨owner, (s.members owner).size⟩), []⟩)
  /-- However many handles are given out, nothing else comes to life or dies; when they are all
  given back, the session is what it was. -/
  handles : ∀ count : Nat,
    let ids := List.replicate count owner.id
    (∀ i, (s.retainAll ids).ledger.isLive i = s.ledger.isLive i)
      ∧ (s.retainAll ids).releaseAll ids = s

/-- All queries agree that the owner is gone, and so do the answers of the session. -/
structure MissesOwner (s : State) (m : Method) (owner : TypeDesc) : Prop where
  resolved : s.resolveDeclaring m = .error (.typeMissing "declaring type")
  invalid : s.isValid (.of owner) = false
  upgraded : s.upgrade (.of owner) = none
  token : s.tokenOf? (.of owner) = none
  fullName : s.fullNameOf? (.of owner) = none
  declaring : ∀ name, s.methods.find? name = some m →
    s.step (.resolveDeclaring name)
      = (s, ⟨.error (.failed (.typeMissing "declaring type")), []⟩)
  info : ∀ name, s.methods.find? name = some m →
    ∃ view : MethodView, s.step (.methodInfo name) = (s, ⟨.ok (.method view), []⟩)
      ∧ view.method = m ∧ view.declaring? = some .gone
      ∧ view.resolved = .error (.typeMissing "declaring type")
  reference : ∀ name, s.refs.find? name = some (.of owner) →
    s.step (.refInfo name) = (s, ⟨.ok (.ref .gone), []⟩)
      ∧ ∀ what, s.step (.resolve name what) = (s, ⟨.error (.failed (.typeMissing what)), []⟩)

/-- The member never had an owner, which is no error. -/
structure LacksOwner (s : State) (m : Method) : Prop where
  resolved : s.resolveDeclaring m = .ok none
  declaring : ∀ name, s.methods.find? name = some m →
    s.step (.resolveDeclaring name) = (s, ⟨.ok (.type? none), []⟩)
  info : ∀ name, s.methods.find? name = some m →
    ∃ view : MethodView, s.step (.methodInfo name) = (s, ⟨.ok (.method view), []⟩)
      ∧ view.method = m ∧ view.declaring? = none ∧ view.resolved = .ok none

namespace State

/-! ## Handles -/

variable {s : State} {ids : List ObjectId}

theorem isLive_retainAll (live : ∀ i ∈ ids, s.ledger.isLive i = true) (i : ObjectId) :
    (s.retainAll ids).ledger.isLive i = s.ledger.isLive i := by
  rw [Bool.eq_iff_iff, Ledger.isLive_iff, Ledger.isLive_iff, retainAll,
    Ledger.holders_retainAll live]
  constructor
  · intro held
    by_contra none
    have member : i ∈ ids := List.count_pos_iff.1 (by omega)
    exact none (Ledger.isLive_iff.1 (live i member))
  · intro held
    omega

theorem releaseAll_retainAll (live : ∀ i ∈ ids, s.ledger.isLive i = true) :
    (s.retainAll ids).releaseAll ids = s :=
  congrArg (fun ledger => { s with ledger := ledger }) (Ledger.releaseAll_retainAll live)

end State

/-! ## Owners of a state -/

section Owner

variable {s : State} {m : Method} {owner : TypeDesc}

theorem showsOwner (known : HasType s.ledger owner)
    (declared : m.declaring? = some (.of owner)) (live : s.ledger.isLive owner.id = true) :
    ShowsOwner s m owner := by
  have valid : s.isValid (.of owner) = true := live
  have upgraded : s.upgrade (.of owner) = some owner := by
    rw [upgrade_of_hasType known, if_pos valid]
  have resolved : s.resolveDeclaring m = .ok (some owner) := by
    simp only [State.resolveDeclaring, declared, resolve_of_hasType known, valid, if_true]
    rfl
  have shown : s.refView (.of owner) = ⟨true, some owner.token, some owner.fullName⟩ := by
    rw [refView_of_hasType known, if_pos valid]
  have handled : ∀ count : Nat, ∀ i ∈ List.replicate count owner.id, s.ledger.isLive i = true := by
    intro count i listed
    rw [List.eq_of_mem_replicate listed]
    exact live
  refine ⟨resolved, valid, upgraded, ?_, ?_, ?_, ?_, ?_, fun count =>
    ⟨State.isLive_retainAll (handled count), State.releaseAll_retainAll (handled count)⟩⟩
  · rw [tokenOf?_of_hasType known, if_pos valid]
  · rw [fullNameOf?_of_hasType known, if_pos valid]
  · intro name found
    rw [s.step_resolveDeclaring, found, Option.map_some, declared]
    simp only [upgraded]
    rfl
  · intro name found
    refine ⟨s.methodView m, ?_, rfl, ?_, resolved⟩
    · rw [s.step_methodInfo, found]
      rfl
    · simp only [State.methodView, declared, Option.map_some, shown]
  · intro name found
    refine ⟨?_, fun what => ?_⟩
    · rw [s.step_refInfo, found, ← shown]
      rfl
    · rw [s.step_resolve, found, Option.map_some, upgraded]
      rfl

theorem missesOwner (known : HasType s.ledger owner)
    (declared : m.declaring? = some (.of owner)) (dead : s.ledger.isLive owner.id = false) :
    MissesOwner s m owner := by
  have invalid : s.isValid (.of owner) = false := dead
  have upgraded : s.upgrade (.of owner) = none := by
    rw [upgrade_of_hasType known, invalid]
    rfl
  have resolved : s.resolveDeclaring m = .error (.typeMissing "declaring type") := by
    simp only [State.resolveDeclaring, declared, resolve_of_hasType known, invalid]
    rfl
  have shown : s.refView (.of owner) = .gone := by
    rw [refView_of_hasType known, invalid]
    rfl
  refine ⟨resolved, invalid, upgraded, ?_, ?_, ?_, ?_, ?_⟩
  · rw [tokenOf?_of_hasType known, invalid]
    rfl
  · rw [fullNameOf?_of_hasType known, invalid]
    rfl
  · intro name found
    rw [s.step_resolveDeclaring, found, Option.map_some, declared]
    simp only [upgraded]
    rfl
  · intro name found
    refine ⟨s.methodView m, ?_, rfl, ?_, resolved⟩
    · rw [s.step_methodInfo, found]
      rfl
    · simp only [State.methodView, declared, Option.map_some, shown]
  · intro name found
    refine ⟨?_, fun what => ?_⟩
    · rw [s.step_refInfo, found, ← shown]
      rfl
    · rw [s.step_resolve, found, Option.map_some, upgraded]
      rfl

theorem lacksOwner (declared : m.declaring? = none) : LacksOwner s m := by
  have resolved : s.resolveDeclaring m = .ok none := by rw [State.resolveDeclaring, declared]
  refine ⟨resolved, ?_, ?_⟩
  · intro name found
    rw [s.step_resolveDeclaring, found, Option.map_some, declared]
    rfl
  · intro name found
    refine ⟨s.methodView m, ?_, rfl, ?_, resolved⟩
    · rw [s.step_methodInfo, found]
      rfl
    · simp only [State.methodView, declared, Option.map_none]

/-- An identity is given out once, so a type that was released stays so. -/
theorem Consistent.dead_run (h : Consistent s []) (known : HasType s.ledger owner)
    (dead : s.ledger.isLive owner.id = false) (steps : List Step) :
    (s.run steps).1.ledger.isLive owner.id = false := by
  rcases known with ⟨members, found⟩
  have made := Ledger.lt_nextId_of_object? found
  refine Bool.eq_false_of_not_eq_true fun live => ?_
  rw [(h.run steps).evolves.ledger.gone owner.id made live] at dead
  cases dead

/-- A member that was built remembers what its draft did. -/
theorem Tracks.declaring?_of_built {name as : String} {owners : List TypeDesc} {v : MethodView}
    (tracked : Tracks s name owners)
    (built : (s.step (.freeze name as)).2.reply = .ok (.method v)) :
    v.method.declaring? = owners.getLast?.map WeakRef.of := by
  rcases exists_outcome_of_reply built with ⟨o, taken, replied, -⟩
  rcases freeze_cases taken with ⟨d, found, ⟨e, _, _, rfl⟩ | ⟨m, _, outcome, rfl⟩⟩
  · cases replied
  · cases replied
    rcases Draft.exists_toMethod_of_freeze outcome with ⟨view, rfl⟩
    exact tracked.last d found

end Owner

/-! ## The law -/

/-- A member whose draft was never declared resolves to no type in any later state.  Otherwise it
answers for the type of the last declaration: in every state in which this type is alive it
resolves to the very same object, and from the first state in which it is not, it is missing for
good.  The reference to it says the same throughout, and no number of queries changes a thing.
The type is alive as long as it is sustained, or deferred for a member that was replaced. -/
theorem declaring_type_over_time (before later : List Step) {name as : String} {v : MethodView}
    (built : ((State.empty.run before).1.step (.freeze name as)).2.reply = .ok (.method v)) :
    let owner? := (State.empty.owners name [] before).getLast?
    let s := (((State.empty.run before).1.step (.freeze name as)).1.run later).1
    v.method.declaring? = owner?.map WeakRef.of
      ∧ (owner? = none → LacksOwner s v.method)
      ∧ (∀ owner, owner? = some owner →
          (s.ledger.isLive owner.id = true ↔ s.Sustained owner.id ∨ s.Deferred owner.id)
            ∧ (s.ledger.isLive owner.id = true → ShowsOwner s v.method owner)
            ∧ (s.ledger.isLive owner.id = false → ∀ further,
                (s.run further).1.ledger.isLive owner.id = false
                  ∧ MissesOwner (s.run further).1 v.method owner))
      ∧ ∀ queries : List Step, (∀ query ∈ queries, query.asks = true) → (s.run queries).1 = s := by
  intro owner? s
  have tracked := tracks_run_empty name before
  have declared := tracked.declaring?_of_built built
  have first : Moves _ _ [] := (consistent_run before).step (.freeze name as)
  have moves := first.trans (first.consistent.run later)
  refine ⟨declared, ?_, ?_, fun queries ask => s.run_of_asks ask⟩
  · intro none
    exact lacksOwner (declared.trans (congrArg _ none))
  · intro owner last
    have owned : v.method.declaring? = some (.of owner) := declared.trans (congrArg _ last)
    have listed : owner ∈ State.empty.owners name [] before := List.mem_of_getLast? last
    have known : HasType s.ledger owner := moves.evolves.ledger.hasType (tracked.known owner listed)
    refine ⟨moves.consistent.isLive_iff owner.id, showsOwner known owned, ?_⟩
    intro dead further
    have on := moves.consistent.run further
    have gone := moves.consistent.dead_run known dead further
    exact ⟨gone, missesOwner (on.evolves.ledger.hasType known) owned gone⟩

/-- Of two owners the last one counts.  When its name is dropped, a member of the other type still
returns it, which is then replaced: the owner shows until that member is reclaimed.  A type of the
same token and name that is made later does not bring it back. -/
theorem declaring_type_over_time_of_replacement :
    let owner : TypeDesc := .named 1 ⟨0x02000001⟩ .classType "N" "T"
    let before : List Step :=
      [.type "U" (.named ⟨0x02000002⟩ .classType "N" "U"),
        .type "T" (.named ⟨0x02000001⟩ .classType "N" "T"),
        .draft "d" ⟨0x06000001⟩ "M" ⟨6⟩ (.stored []), .declaring "d" (.stored "U"),
        .declaring "d" (.stored "T")]
    let replace : List Step :=
      [.draft "e" ⟨0x06000002⟩ "First" ⟨6⟩ (.stored []), .returns "e" (.stored "T"),
        .freeze "e" "first", .addMethod "U" "first", .drop .method "first", .drop .type "T",
        .draft "e" ⟨0x06000002⟩ "Second" ⟨6⟩ (.stored []), .freeze "e" "second",
        .addMethod "U" "second"]
    let reclaim : List Step :=
      replace ++ [.reclaim 0, .type "T" (.named ⟨0x02000001⟩ .classType "N" "T")]
    ∃ v s replaced reclaimed,
      ((State.empty.run before).1.step (.freeze "d" "m")).2.reply = .ok (.method v)
      ∧ s = ((State.empty.run before).1.step (.freeze "d" "m")).1
      ∧ replaced = (s.run replace).1
      ∧ reclaimed = (s.run reclaim).1
      ∧ (State.empty.owners "d" [] before).getLast? = some owner
      ∧ v.method.declaring? = some (.of owner)
      ∧ replaced.ledger.isLive owner.id = true ∧ ShowsOwner replaced v.method owner
      ∧ replaced.step (.resolveDeclaring "m") = (replaced, ⟨.ok (.type? (some ⟨owner, 0⟩)), []⟩)
      ∧ reclaimed.ledger.isLive owner.id = false
      ∧ (∀ further, MissesOwner (reclaimed.run further).1 v.method owner)
      ∧ reclaimed.step (.resolveDeclaring "m")
          = (reclaimed, ⟨.error (.failed (.typeMissing "declaring type")), []⟩)
      ∧ (∀ query ∈ [Step.methodInfo "m", .resolveDeclaring "m"], query.asks = true)
      ∧ (replaced.run [.methodInfo "m", .resolveDeclaring "m"]).1 = replaced := by
  intro owner before replace reclaim
  let m : Method :=
    { id := 2
      token := ⟨0x06000001⟩
      name := "M"
      declaring? := some (.of owner)
      attributes := ⟨6⟩
      convention := ⟨0x0021⟩
      implementation := ⟨0⟩
      signature := ⟨[], .method none⟩
      generics := []
      genericView := [] }
  have answered : ∃ v,
      ((State.empty.run before).1.step (.freeze "d" "m")).2.reply = .ok (.method v)
        ∧ v.method = m := ⟨_, rfl, rfl⟩
  rcases answered with ⟨v, answered, same⟩
  have last : (State.empty.owners "d" [] before).getLast? = some owner := by decide
  have live : (((State.empty.run before).1.step (.freeze "d" "m")).1.run
      replace).1.ledger.isLive owner.id = true := by decide
  have dead : (((State.empty.run before).1.step (.freeze "d" "m")).1.run
      reclaim).1.ledger.isLive owner.id = false := by decide
  have ⟨declared, _, early, queries⟩ := declaring_type_over_time before replace answered
  have late := (declaring_type_over_time before reclaim answered).2.2.1 owner last
  have shows := (early owner last).2.1 live
  have misses := late.2.2 dead
  have named : (((State.empty.run before).1.step (.freeze "d" "m")).1.run
      replace).1.methods.find? "m" = some v.method := by
    rw [same]
    decide
  have named' : (((State.empty.run before).1.step (.freeze "d" "m")).1.run
      reclaim).1.methods.find? "m" = some v.method := by
    rw [same]
    decide
  have ask : ∀ query ∈ [Step.methodInfo "m", .resolveDeclaring "m"], query.asks = true := by
    decide
  -- Both answers are put into the form of the statement first; left to unification, comparing
  -- them would run the session.
  have empty : ((((State.empty.run before).1.step (.freeze "d" "m")).1.run
      replace).1.members owner).size = 0 := by decide
  have asked := shows.declaring "m" named
  rw [empty] at asked
  have missed := (misses []).2
  simp only [State.run] at missed
  exact ⟨v, _, _, _, answered, rfl, rfl, rfl, last, declared.trans (by rw [last]; rfl), live, shows,
    asked, dead, fun further => (misses further).2,
    missed.declaring "m" named', ask, queries _ ask⟩

end Session
end CallableMembers
