import CallableMembers.Proofs.Member.MemberTable
import CallableMembers.Proofs.Session.Progress

/-!
# MemberTables — the tables of a session after any run

A run adds members to types, in some order and with whatever else in between.  The table of a type
is made by the additions to this type alone; no other step of the run touches it.  Members come
from drafts, so only tokens that can be called ever get into a table.  What is retired was replaced
by one of the additions, so nothing is where no token is added twice to one table.
-/

namespace CallableMembers
namespace Session

open CallableMembers.Flags CallableMembers.Member CallableMembers.Ownership CallableMembers.Types

/-! ## Additions of a run -/

/-- An addition: the type whose table it goes to, and the member. -/
abbrev Addition := ObjectId × Method

/-- The members that were added to one type, in order. -/
def addedTo (i : ObjectId) (additions : List Addition) : List Method :=
  (additions.filter fun a => a.1 = i).map Prod.snd

theorem addedTo_append (i : ObjectId) (first second : List Addition) :
    addedTo i (first ++ second) = addedTo i first ++ addedTo i second := by
  rw [addedTo, List.filter_append, List.map_append]
  rfl

theorem mem_addedTo_iff {i : ObjectId} {additions : List Addition} {m : Method} :
    m ∈ addedTo i additions ↔ (i, m) ∈ additions := by
  simp [addedTo]

namespace State

/-- The addition that a step makes, if it is one and knows its names. -/
def addition? (s : State) : Step → Option Addition
  | .addMethod name methodName => do
      let t ← s.types.find? name
      let m ← s.methods.find? methodName
      return (t.id, m)
  | _ => none

/-- All additions of a run, in order. -/
def additions (s : State) : List Step → List Addition
  | [] => []
  | st :: rest => (s.addition? st).toList ++ (s.step st).1.additions rest

/-- No token is added twice to one table in a session that takes these steps. -/
def AddsOnce (steps : List Step) : Prop :=
  ((empty.additions steps).map fun a => (a.1, a.2.token)).Nodup

instance (steps : List Step) : Decidable (AddsOnce steps) :=
  inferInstanceAs (Decidable (List.Nodup _))

end State

/-! ## Tables in the ledger -/

/-- The table of a type, released or not; other objects have an empty one. -/
def tableAt (l : Ledger Node) (i : ObjectId) : MemberTable :=
  match l.object? i with
  | some (.type _ members) => members
  | _ => .empty

/-- Only members that can be called have been made. -/
def OnlyCallable (l : Ledger Node) : Prop :=
  ∀ i m, l.object? i = some (.method m) → m.token.isCallable = true

theorem tableAt_of_object? {l : Ledger Node} {i : ObjectId} {t : TypeDesc} {members : MemberTable}
    (found : l.object? i = some (.type t members)) : tableAt l i = members := by
  rw [tableAt, found]

theorem members_eq_tableAt {s : State} {t : TypeDesc} (known : HasType s.ledger t)
    (live : s.ledger.isLive t.id = true) : s.members t = tableAt s.ledger t.id := by
  rcases known with ⟨members, found⟩
  rw [Consistent.members_eq live found, tableAt_of_object? found]

/-- The member stood in a table in which one of the additions, made in order from these tables on,
puts another one under its token. -/
def ReplacedBy (l : Ledger Node) (additions : List Addition) (m : Method) : Prop :=
  ∃ before i added after, additions = before ++ (i, added) :: after
    ∧ ((tableAt l i).addAll (addedTo i before)).find? added.token = some m

/-- The second state comes after the first, and in between just these additions were made. -/
structure Gains (s s' : State) (additions : List Addition) : Prop where
  tables : ∀ i, tableAt s'.ledger i = (tableAt s.ledger i).addAll (addedTo i additions)
  callable : OnlyCallable s.ledger → OnlyCallable s'.ledger
  retired : ∀ m ∈ s'.retired, m ∈ s.retired ∨ ReplacedBy s.ledger additions m

namespace Gains

variable {s s' s'' : State}

theorem refl (s : State) : Gains s s [] :=
  ⟨fun _ => rfl, id, fun _ member => .inl member⟩

theorem trans {first second : List Addition} (h : Gains s s' first) (h' : Gains s' s'' second) :
    Gains s s'' (first ++ second) := by
  refine ⟨fun i => ?_, fun before => h'.callable (h.callable before), ?_⟩
  · rw [h'.tables, h.tables, addedTo_append, MemberTable.addAll_append]
  · intro m member
    rcases h'.retired m member with member | ⟨before, i, added, after, split, stood⟩
    · rcases h.retired m member with member | ⟨before, i, added, after, rfl, stood⟩
      · exact .inl member
      · exact .inr ⟨before, i, added, after ++ second, by simp, stood⟩
    · -- What the second additions find is what the first ones left.
      rw [h.tables, ← MemberTable.addAll_append, ← addedTo_append] at stood
      exact .inr ⟨first ++ before, i, added, after, by rw [split, List.append_assoc], stood⟩

theorem of_fades_of_subset (fades : Ledger.Fades s.ledger s'.ledger)
    (retired : s'.retired ⊆ s.retired) : Gains s s' [] := by
  refine ⟨?_, ?_, fun m member => .inl (retired member)⟩
  · intro i
    have same : tableAt s'.ledger i = tableAt s.ledger i := by rw [tableAt, tableAt, fades.objects]
    exact same
  · intro before i m found
    exact before i m ((fades.objects i).symm.trans found)

/-- Taking holds and giving them up gains nothing. -/
theorem of_fades (fades : Ledger.Fades s.ledger s'.ledger) (same : s'.retired = s.retired) :
    Gains s s' [] :=
  .of_fades_of_subset fades (same ▸ List.Subset.refl _)

/-- A new object comes without a table of its own. -/
theorem add (s : State) {node : Node}
    (bare : ∀ t members, node = .type t members → members = .empty)
    (callable : ∀ m, node = .method m → m.token.isCallable = true) : Gains s (s.add node) [] := by
  refine ⟨?_, ?_, fun m member => .inl member⟩
  · intro i
    have same : tableAt (s.add node).ledger i = tableAt s.ledger i := by
      unfold tableAt State.add
      rw [Ledger.object?_add]
      by_cases new : i = s.ledger.nextId
      · have unused : s.ledger.object? i = none := by
          cases found : s.ledger.object? i with
          | none => rfl
          | some old => exact absurd (Ledger.lt_nextId_of_object? found) (by simp [new])
        rw [if_pos new, unused]
        cases node with
        | type t members => exact bare t members rfl
        | parameter p => rfl
        | method m => rfl
      · rw [if_neg new]
    exact same
  · intro before i m found
    rw [State.add, Ledger.object?_add] at found
    split at found
    · exact callable m (Option.some.inj found)
    · exact before i m found

theorem setMembers {t : TypeDesc} (known : HasType s.ledger t) (m : Method) :
    Gains s (s.setMembers t ((tableAt s.ledger t.id).add m)) [(t.id, m)] := by
  rcases known with ⟨members, known⟩
  refine ⟨?_, ?_, fun m member => .inl member⟩
  · intro i
    unfold tableAt State.setMembers
    rw [Ledger.object?_replace]
    by_cases same : i = t.id
    · have added : addedTo i [(t.id, m)] = [m] := by simp [addedTo, same]
      rw [if_pos same, added, same, known]
      rfl
    · have none : addedTo i [(t.id, m)] = [] := by
        simpa [addedTo] using fun h : t.id = i => same h.symm
      rw [if_neg same, none]
      rfl
  · intro before i m' found
    rw [State.setMembers, Ledger.object?_replace] at found
    split at found
    · rcases Option.map_eq_some_iff.1 found with ⟨old, -, other⟩
      cases other
    · exact before i m' found

end Gains

/-! ## Evaluating and making gains nothing -/

section Making

variable {s s' : State}

theorem gains_evaluate {e : TypeExpr} {t : TypeDesc} (result : s.evaluate e = some (t, s')) :
    Gains s s' [] := by
  induction e generalizing t s' with
  | stored name =>
      simp only [State.evaluate, Option.bind_eq_bind, Option.bind_eq_some_iff] at result
      rcases result with ⟨t, found, result⟩
      cases result
      exact .of_fades (Ledger.fades_retain _ _) rfl
  | typeOf parameter =>
      simp only [State.evaluate, Option.bind_eq_bind, Option.bind_eq_some_iff] at result
      rcases result with ⟨p, found, result⟩
      cases result
      exact .of_fades (Ledger.fades_retain _ _) rfl
  | returnOf method =>
      simp only [State.evaluate, Option.bind_eq_bind, Option.bind_eq_some_iff] at result
      rcases result with ⟨m, found, t, returned, result⟩
      cases result
      exact .of_fades (Ledger.fades_retain _ _) rfl
  | ownerOf method =>
      simp only [State.evaluate, Option.bind_eq_bind, Option.bind_eq_some_iff] at result
      rcases result with ⟨m, found, r, declared, t, upgraded, result⟩
      cases result
      exact .of_fades (Ledger.fades_retain _ _) rfl
  | named token flavor namespaceName name =>
      cases result
      exact .add s (fun _ _ same => by cases same; rfl) (fun _ other => by cases other)
  | constructed wrapper element ih =>
      simp only [State.evaluate, Option.bind_eq_bind, Option.bind_eq_some_iff] at result
      rcases result with ⟨⟨inner, s₁⟩, first, result⟩
      cases result
      exact (ih first).trans
        (.add s₁ (fun _ _ same => by cases same; rfl) (fun _ other => by cases other))
  | elementOf type ih =>
      simp only [State.evaluate, Option.bind_eq_bind, Option.bind_eq_some_iff] at result
      rcases result with ⟨⟨outer, s₁⟩, first, t, inner, result⟩
      cases result
      have fades := (Ledger.fades_retain s₁.ledger t.id).trans (Ledger.fades_releaseAll _ [outer.id])
      exact (ih first).trans (.of_fades fades rfl)

theorem gains_evaluateAll {es : List TypeExpr} {ts : List TypeDesc}
    (result : s.evaluateAll es = some (ts, s')) : Gains s s' [] := by
  induction es generalizing s ts s' with
  | nil =>
      cases result
      exact .refl _
  | cons e es ih =>
      simp only [State.evaluateAll, Option.bind_eq_bind, Option.bind_eq_some_iff] at result
      rcases result with ⟨⟨t, s₁⟩, first, ⟨ts, s₂⟩, second, result⟩
      cases result
      exact (gains_evaluate first).trans (ih second)

theorem gains_addParameters (s : State) (ps : List Parameter) :
    Gains s (s.addAll (ps.map .parameter)) [] := by
  induction ps generalizing s with
  | nil => exact .refl _
  | cons p ps ih =>
      have first : Gains s (s.add (.parameter p)) [] :=
        .add s (fun _ _ other => by cases other) (fun _ other => by cases other)
      exact first.trans (ih (s.add (.parameter p)))

theorem gains_startDraft {token : Token} {memberName : String} {attributes : Attributes}
    {source : ParameterSource} {d : Draft}
    (started : s.startDraft token memberName attributes source = some (d, s')) :
    Gains s s' [] := by
  cases source with
  | stored names =>
      rcases Option.bind_eq_some_iff.1 started with ⟨ps, found, answered⟩
      cases answered
      exact .of_fades (Ledger.fades_retainAll _ _) rfl
  | ofTypes types =>
      rcases Option.bind_eq_some_iff.1 started with ⟨⟨ts, s₁⟩, result, answered⟩
      cases answered
      exact (gains_evaluateAll result).trans (gains_addParameters s₁ _)

/-- What comes out of a draft can be called. -/
theorem isCallable_of_freeze {d : Draft} {id : ObjectId} {m : Method}
    (made : (d.freeze id).outcome = .ok m) : m.token.isCallable = true := by
  rcases Draft.exists_toMethod_of_freeze made with ⟨view, rfl⟩
  rw [Draft.outcome_freeze] at made
  split at made
  · next callable => exact (Draft.isCallable_iff d.token).2 callable
  · cases made

end Making

/-! ## Steps -/

section Steps

variable {s : State} {o : Outcome}

theorem Gains.query {st : Step} (asks : st.asks = true) (taken : s.step? st = some o) :
    Gains s o.state [] := by
  rw [(State.outcome_of_asks asks taken).1]
  exact .refl s

/-- A step that looks something up and leaves the ledger and the retired members alone. -/
theorem Gains.lookup {α : Type} {found? : Option α} {answer : α → Outcome}
    (ledger : ∀ x, (answer x).state.ledger = s.ledger)
    (retired : ∀ x, (answer x).state.retired = s.retired)
    (taken : (found?.bind fun x => some (answer x)) = some o) :
    Gains s o.state [] := by
  rcases Option.bind_eq_some_iff.1 taken with ⟨x, -, answered⟩
  cases answered
  refine .of_fades ?_ (retired x)
  rw [ledger x]
  exact .refl s.ledger

/-- A step that evaluates a type and then holds or releases objects. -/
theorem Gains.evaluating {e : TypeExpr} {answer : TypeDesc × State → Outcome}
    (fades : ∀ r, Ledger.Fades r.2.ledger (answer r).state.ledger)
    (retired : ∀ r, (answer r).state.retired = r.2.retired)
    (taken : ((s.evaluate e).bind fun r => some (answer r)) = some o) :
    Gains s o.state [] := by
  rcases Option.bind_eq_some_iff.1 taken with ⟨⟨t, s₁⟩, result, answered⟩
  cases answered
  exact (gains_evaluate result).trans (.of_fades (fades (t, s₁)) (retired (t, s₁)))

theorem gains_upgradeRef {name refName : String} (taken : s.upgradeRef name refName = some o) :
    Gains s o.state [] := by
  rcases upgradeRef_cases taken with rfl | ⟨r, t, -, -, rfl⟩
  · exact .refl s
  · exact .of_fades ((Ledger.fades_retain _ _).trans (Ledger.fades_releaseAll _ _)) rfl

theorem gains_drop (s : State) (kind : NameKind) (name : String) :
    Gains s (s.drop kind name).1 [] := by
  cases kind with
  | type =>
      cases found : s.types.find? name with
      | none => simpa only [State.drop, found] using .refl s
      | some t =>
          simpa only [State.drop, found] using .of_fades (Ledger.fades_releaseAll _ _) rfl
  | ref | generic | roster => exact .of_fades (.refl s.ledger) rfl
  | parameter =>
      cases found : s.parameters.find? name with
      | none => simpa only [State.drop, found] using .refl s
      | some p =>
          simpa only [State.drop, found] using .of_fades (Ledger.fades_releaseAll _ _) rfl
  | draft =>
      cases found : s.drafts.find? name with
      | none => simpa only [State.drop, found] using .refl s
      | some d =>
          simpa only [State.drop, found] using .of_fades (Ledger.fades_releaseAll _ _) rfl
  | method =>
      cases found : s.methods.find? name with
      | none => simpa only [State.drop, found] using .refl s
      | some m =>
          simpa only [State.drop, found] using .of_fades (Ledger.fades_releaseAll _ _) rfl

theorem gains_parameter {name : String} {e : TypeExpr} {token : Token} {flags : UInt16}
    {position : UInt32} {parameterName? : Option String}
    (taken : s.parameter name e token flags position parameterName? = some o) :
    Gains s o.state [] := by
  rcases Option.bind_eq_some_iff.1 taken with ⟨⟨t, s₁⟩, result, answered⟩
  cases answered
  let p : Parameter := ⟨s₁.ledger.nextId, token, flags, position, parameterName?, t⟩
  have made : Gains s₁ (s₁.add (.parameter p)) [] :=
    .add s₁ (fun _ _ other => by cases other) (fun _ other => by cases other)
  exact ((gains_evaluate result).trans made).trans
    (.of_fades (Ledger.fades_releaseAll _ _) rfl)

theorem gains_register {name : String} {names : List String}
    (taken : s.register name names = some o) : Gains s o.state [] := by
  rcases Option.bind_eq_some_iff.1 taken with ⟨r, -, taken⟩
  exact .lookup (fun _ => rfl) (fun _ => rfl) taken

theorem gains_draft {name : String} {token : Token} {memberName : String}
    {attributes : Attributes} {source : ParameterSource}
    (taken : s.draft name token memberName attributes source = some o) :
    Gains s o.state [] := by
  rcases Option.bind_eq_some_iff.1 taken with ⟨⟨d, s₁⟩, started, answered⟩
  cases answered
  exact (gains_startDraft started).trans (.of_fades (Ledger.fades_releaseAll _ _) rfl)

theorem gains_addGenerics {name : String} {names : List String}
    (taken : s.addGenerics name names = some o) : Gains s o.state [] := by
  rcases Option.bind_eq_some_iff.1 taken with ⟨ps, -, taken⟩
  exact .lookup (fun _ => rfl) (fun _ => rfl) taken

theorem gains_freeze {name as : String} (taken : s.freeze name as = some o) :
    Gains s o.state [] := by
  rcases freeze_cases taken with ⟨d, found, ⟨e, _, _, rfl⟩ | ⟨m, _, outcome, rfl⟩⟩
  · exact .of_fades (Ledger.fades_releaseAll _ _) rfl
  · have forgotten : Gains s { s with drafts := s.drafts.erase name } [] :=
      .of_fades (.refl s.ledger) rfl
    have made : Gains { s with drafts := s.drafts.erase name } (s.exchangeDraft name m) [] :=
      .add _ (fun _ _ other => by cases other)
        (fun _ same => by cases same; exact isCallable_of_freeze outcome)
    exact (forgotten.trans made).trans (.of_fades (Ledger.fades_releaseAll _ _) rfl)

theorem gains_takeMethod {name : String} {token : Token} {as : String}
    (taken : s.takeMethod name token as = some o) : Gains s o.state [] := by
  rcases takeMethod_cases taken with rfl | ⟨t, m, -, -, rfl⟩
  · exact .refl s
  · exact .of_fades ((Ledger.fades_retain _ _).trans (Ledger.fades_releaseAll _ _)) rfl

theorem gains_takeParameter {name : String} {index : Nat} {as : String}
    (taken : s.takeParameter name index as = some o) : Gains s o.state [] := by
  rcases takeParameter_cases taken with rfl | ⟨m, p, -, -, rfl⟩
  · exact .refl s
  · exact .of_fades ((Ledger.fades_retain _ _).trans (Ledger.fades_releaseAll _ _)) rfl

theorem gains_reclaim (s : State) (index : Nat) : Gains s (s.reclaim index).1 [] := by
  unfold State.reclaim
  cases s.retired[index]? with
  | none => exact .refl s
  | some m =>
      exact .of_fades_of_subset (Ledger.fades_releaseAll _ _) fun _ member =>
        List.mem_of_mem_eraseIdx member

/-- The one step that gains something.  The table before it finds what is retired. -/
theorem gains_addMember {t : TypeDesc} (known : HasType s.ledger t)
    (live : s.ledger.isLive t.id = true) (m : Method) :
    Gains s (s.addMember t m) [(t.id, m)] := by
  have held : Ledger.Fades s.ledger (s.retain m.id).ledger := Ledger.fades_retain _ _
  have retained : Gains s (s.retain m.id) [] := .of_fades held rfl
  have before : s.members t = tableAt (s.retain m.id).ledger t.id := by
    rw [members_eq_tableAt known live]
    exact (retained.tables t.id).symm
  have set := Gains.setMembers ((develops_of_fades held).hasType known) m
  rw [← before] at set
  have gained := retained.trans set
  refine ⟨gained.tables, gained.callable, ?_⟩
  intro m' member
  rcases List.mem_append.1 member with earlier | new
  · exact .inl earlier
  · rw [members_eq_tableAt known live] at new
    exact .inr ⟨[], t.id, m, [], rfl, Option.mem_toList.1 new⟩

theorem Consistent.gains_step? {st : Step} (h : Consistent s []) (taken : s.step? st = some o) :
    Gains s o.state (s.addition? st).toList := by
  cases st with
  | type name e => exact .evaluating (fun _ => Ledger.fades_releaseAll _ _) (fun _ => rfl) taken
  | sameType name e =>
      rcases Option.bind_eq_some_iff.1 taken with ⟨t, -, taken⟩
      exact .evaluating (fun _ => Ledger.fades_releaseAll _ _) (fun _ => rfl) taken
  | ref name e passing =>
      exact .evaluating (fun _ => Ledger.fades_releaseAll _ _) (fun _ => rfl) taken
  | upgrade name refName => exact gains_upgradeRef taken
  | drop kind name =>
      cases taken
      exact gains_drop s kind name
  | parameter name e token flags position parameterName? => exact gains_parameter taken
  | generic name token number flags parameterName =>
      cases taken
      exact .of_fades (.refl s.ledger) rfl
  | constrain name e =>
      rcases Option.bind_eq_some_iff.1 taken with ⟨p, -, taken⟩
      exact .evaluating (fun _ => Ledger.fades_releaseAll _ _) (fun _ => rfl) taken
  | sort names policy => exact .lookup (fun _ => rfl) (fun _ => rfl) taken
  | roster name policy =>
      cases taken
      exact .of_fades (.refl s.ledger) rfl
  | register name names => exact gains_register taken
  | setPolicy name policy => exact .lookup (fun _ => rfl) (fun _ => rfl) taken
  | sorted name => exact .lookup (fun _ => rfl) (fun _ => rfl) taken
  | draft name token memberName attributes source => exact gains_draft taken
  | declaring name e =>
      rcases Option.bind_eq_some_iff.1 taken with ⟨d, -, taken⟩
      exact .evaluating (fun _ => Ledger.fades_releaseAll _ _) (fun _ => rfl) taken
  | implementation name word => exact .lookup (fun _ => rfl) (fun _ => rfl) taken
  | returns name e =>
      rcases Option.bind_eq_some_iff.1 taken with ⟨d, -, taken⟩
      exact .evaluating (fun _ => Ledger.fades_releaseAll _ _) (fun _ => rfl) taken
  | constructor name =>
      rcases Option.bind_eq_some_iff.1 taken with ⟨d, -, answered⟩
      cases answered
      exact .of_fades (Ledger.fades_releaseAll _ _) rfl
  | options name options => exact .lookup (fun _ => rfl) (fun _ => rfl) taken
  | addGenerics name names => exact gains_addGenerics taken
  | draftSorted name => exact .lookup (fun _ => rfl) (fun _ => rfl) taken
  | freeze name as => exact gains_freeze taken
  | takeParameter name index as => exact gains_takeParameter taken
  | addMethod name methodName =>
      rcases Option.bind_eq_some_iff.1 taken with ⟨t, found, taken⟩
      rcases Option.bind_eq_some_iff.1 taken with ⟨m, member, answered⟩
      cases answered
      have addition : s.addition? (.addMethod name methodName) = some (t.id, m) := by
        simp [State.addition?, found, member]
      have ⟨known, live⟩ := h.type_of_find? found
      rw [addition]
      exact gains_addMember known live m
  | takeMethod name token as => exact gains_takeMethod taken
  | reclaim index =>
      cases taken
      exact gains_reclaim s index
  -- All other steps are queries.
  | _ => exact .query rfl taken

theorem Consistent.gains_step (h : Consistent s []) (st : Step) :
    Gains s (s.step st).1 (s.addition? st).toList := by
  unfold State.step
  cases taken : s.step? st with
  | none =>
      -- A step that fails for want of a name adds nothing.
      have none : s.addition? st = none := by
        cases st with
        | addMethod name methodName =>
            cases found : s.types.find? name with
            | none => simp [State.addition?, found]
            | some t =>
                cases member : s.methods.find? methodName with
                | none => simp [State.addition?, member]
                | some m => simp [State.step?, State.addMethod, found, member] at taken
        | _ => rfl
      rw [none]
      exact .refl _
  | some o => exact h.gains_step? taken

/-- The tables after a run are those before it with the additions of the run made. -/
theorem Consistent.gains_run (h : Consistent s []) (steps : List Step) :
    Gains s (s.run steps).1 (s.additions steps) := by
  induction steps generalizing s with
  | nil => exact .refl _
  | cons st steps ih => exact (h.gains_step st).trans (ih (h.step st).consistent)

end Steps

theorem gains_run_empty (steps : List Step) :
    Gains .empty (State.empty.run steps).1 (State.empty.additions steps) :=
  consistent_empty.gains_run steps

theorem onlyCallable_run (steps : List Step) : OnlyCallable (State.empty.run steps).1.ledger := by
  refine (gains_run_empty steps).callable ?_
  intro i m found
  cases found

/-- Where no token is added twice to one table, no member is ever replaced. -/
theorem retired_of_addsOnce {steps : List Step} (once : State.AddsOnce steps) :
    (State.empty.run steps).1.retired = [] := by
  refine List.eq_nil_iff_forall_not_mem.2 fun m member => ?_
  rcases (gains_run_empty steps).retired m member with none | ⟨before, i, added, after, split, stood⟩
  · cases none
  · -- What was replaced had been added to the same table under the same token.
    have last : MemberTable.lastWith added.token (addedTo i before) = some m := by
      rw [← (MemberTable.lists_addAll (addedTo i before)).find?]
      exact stood
    have ⟨earlier, token⟩ := MemberTable.mem_of_lastWith last
    have twice : (i, added.token) ∈ before.map fun a => (a.1, a.2.token) :=
      List.mem_map.2 ⟨(i, m), mem_addedTo_iff.1 earlier, by rw [token]⟩
    rw [State.AddsOnce, split, List.map_append] at once
    exact (List.nodup_append.1 once).2.2 _ twice _ (List.mem_cons_self ..) rfl

/-- The table of a live type is the one that the additions to this type lead to. -/
theorem members_after_run (steps : List Step) {t : TypeDesc}
    (known : HasType (State.empty.run steps).1.ledger t)
    (live : (State.empty.run steps).1.ledger.isLive t.id = true) :
    (State.empty.run steps).1.members t
      = MemberTable.addAll .empty (addedTo t.id (State.empty.additions steps)) := by
  rw [members_eq_tableAt known live]
  exact (gains_run_empty steps).tables t.id

/-- What is listed in a table can be called. -/
theorem isCallable_of_members {steps : List Step} {t : TypeDesc}
    (known : HasType (State.empty.run steps).1.ledger t)
    (live : (State.empty.run steps).1.ledger.isLive t.id = true)
    (filed : ∀ e ∈ ((State.empty.run steps).1.members t).entries, e.2.token = e.1) :
    ∀ token ∈ ((State.empty.run steps).1.members t).keys, token.isCallable = true := by
  intro token listed
  rcases List.mem_map.1 listed with ⟨e, member, rfl⟩
  have made := (consistent_run steps).method_of_members known live (List.mem_map_of_mem member)
  rw [← filed e member]
  exact onlyCallable_run steps _ _ made.1

/-! ## The law -/

theorem lists_after_run (steps : List Step) {t : TypeDesc}
    (known : HasType (State.empty.run steps).1.ledger t)
    (live : (State.empty.run steps).1.ledger.isLive t.id = true) :
    ((State.empty.run steps).1.members t).Lists (addedTo t.id (State.empty.additions steps)) := by
  rw [members_after_run steps known live]
  exact MemberTable.lists_addAll _

/-- A member is named by the names that lead to this very member, as identities are given out
once. -/
theorem Consistent.mem_namesOf_iff {s : State} {m : Method} (h : Consistent s [])
    (made : HasMethod s.ledger m) {name : String} :
    name ∈ s.namesOf m ↔ s.methods.find? name = some m := by
  rw [State.mem_namesOf_iff]
  constructor
  · rintro ⟨m', found, same⟩
    have made' : s.ledger.object? m'.id = some (.method m') := (h.method_of_find? found).1
    rw [same, made] at made'
    cases made'
    exact found
  · intro found
    exact ⟨m, found, rfl⟩

/-- In every state between two steps the table of every type that is still there lists what was
added to this type, under each token the very member that was added last, in the order of tables
and rows, definitions first.  This is what the session answers with, for the whole table and for a
token, there with all names of the very member found.  Adding a member to one type leaves all other
tables alone. -/
theorem tables_follow_additions (steps : List Step) :
    let s := (State.empty.run steps).1
    (∀ t, HasType s.ledger t → s.ledger.isLive t.id = true →
        (s.members t).Lists (addedTo t.id (State.empty.additions steps))
          ∧ (∀ token ∈ (s.members t).keys, token.isCallable = true)
          ∧ (s.members t).DefinitionsFirst)
      ∧ (∀ name t, s.types.find? name = some t →
          s.step (.members name) = (s, ⟨.ok (.members (s.members t)), []⟩)
            ∧ ∀ token,
                let last? := MemberTable.lastWith token
                  (addedTo t.id (State.empty.additions steps))
                s.step (.find name token)
                    = (s, ⟨.ok (.found (last?.map fun m => (m, s.namesOf m))), []⟩)
                  ∧ ∀ m, last? = some m →
                      ∀ as, as ∈ s.namesOf m ↔ s.methods.find? as = some m)
      ∧ ∀ name methodName target other, s.types.find? name = some target →
          HasType s.ledger other → other.id ≠ target.id →
          (s.step (.addMethod name methodName)).1.ledger.isLive other.id = true →
            (s.step (.addMethod name methodName)).1.members other = s.members other := by
  intro s
  have h : Consistent s [] := consistent_run steps
  refine ⟨?_, ?_, ?_⟩
  · intro t known live
    have lists := lists_after_run steps known live
    have callable := isCallable_of_members known live fun e member => (lists.filed e member).1
    exact ⟨lists, callable, MemberTable.definitionsFirst_of_callable callable⟩
  · intro name t found
    -- A type that has a name is held under it.
    have ⟨known, live⟩ := h.type_of_find? found
    constructor
    · rw [s.step_members, found]
      rfl
    · intro token last?
      have last : (s.members t).find? token = last? := (lists_after_run steps known live).find? token
      refine ⟨?_, fun m some as => ?_⟩
      · rw [s.step_find, found, Option.map_some, last]
        rfl
      · have listed := OrderedMap.mem_values_of_find? (last.trans some)
        exact h.mem_namesOf_iff (h.method_of_members known live listed).1
  · intro name methodName target other found known apart live
    have moves := h.step (.addMethod name methodName)
    rcases known with ⟨members, made⟩
    have before : s.ledger.isLive other.id = true :=
      moves.evolves.ledger.gone other.id (Ledger.lt_nextId_of_object? made) live
    -- Whether or not there is a member to add, it does not go to the other type.
    have untouched : addedTo other.id (s.addition? (.addMethod name methodName)).toList = [] := by
      cases member : s.methods.find? methodName with
      | none => simp [State.addition?, member, addedTo]
      | some m =>
          simpa [State.addition?, found, member, addedTo] using fun same => apart same.symm
    rw [members_eq_tableAt (moves.evolves.ledger.hasType ⟨members, made⟩) live,
      members_eq_tableAt ⟨members, made⟩ before,
      (h.gains_step (.addMethod name methodName)).tables, untouched]
    rfl

/-- A reference is added before two definitions of one token, the second of which stays, and the
reference is in two tables. -/
theorem tables_follow_additions_of_replacement :
    let steps : List Step :=
      [.type "T" (.named .null .classType "N" "T"), .type "U" (.named .null .classType "N" "U"),
        .draft "d" ⟨0x0A000001⟩ "A" ⟨6⟩ (.stored []), .freeze "d" "a",
        .draft "d" ⟨0x06000002⟩ "B" ⟨6⟩ (.stored []), .freeze "d" "b",
        .draft "d" ⟨0x06000002⟩ "C" ⟨6⟩ (.stored []), .freeze "d" "c",
        .addMethod "T" "a", .addMethod "U" "a", .addMethod "T" "b", .addMethod "T" "c"]
    let s := (State.empty.run steps).1
    let t : TypeDesc := .named 0 .null .classType "N" "T"
    let u : TypeDesc := .named 1 .null .classType "N" "U"
    let later := (s.step (.addMethod "T" "b")).1
    (HasType s.ledger t ∧ s.ledger.isLive t.id = true
        ∧ (s.members t).Lists (addedTo t.id (State.empty.additions steps))
        ∧ (s.members t).DefinitionsFirst
        ∧ (s.members t).keys = [⟨0x06000002⟩, ⟨0x0A000001⟩]
        ∧ ((s.members t).find? ⟨0x06000002⟩).map Method.name = some "C")
      ∧ s.types.find? "T" = some t
      ∧ s.step (.members "T") = (s, ⟨.ok (.members (s.members t)), []⟩)
      ∧ (∀ token,
          let last? := MemberTable.lastWith token (addedTo t.id (State.empty.additions steps))
          s.step (.find "T" token)
              = (s, ⟨.ok (.found (last?.map fun m => (m, s.namesOf m))), []⟩)
            ∧ ∀ m, last? = some m → ∀ as, as ∈ s.namesOf m ↔ s.methods.find? as = some m)
      ∧ HasType s.ledger u ∧ u.id ≠ t.id
      ∧ later.ledger.isLive u.id = true ∧ later.members u = s.members u := by
  intro steps s t u later
  have known : HasType s.ledger t := ⟨_, rfl⟩
  have other : HasType s.ledger u := ⟨_, rfl⟩
  have live : s.ledger.isLive t.id = true := by decide
  have found : s.types.find? "T" = some t := by decide
  have apart : u.id ≠ t.id := by decide
  have kept : later.ledger.isLive u.id = true := by decide
  have law := tables_follow_additions steps
  have ⟨lists, _, first⟩ := law.1 t known live
  have ⟨table, members⟩ := law.2.1 "T" t found
  exact ⟨⟨known, live, lists, first, by decide, by decide⟩, found, table, members, other, apart,
    kept, law.2.2 "T" "b" t u found other apart kept⟩

end Session
end CallableMembers
