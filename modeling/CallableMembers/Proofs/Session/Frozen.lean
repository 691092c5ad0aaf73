import CallableMembers.Proofs.Session.Progress
import Mathlib.Data.List.Forall2

/-!
# Frozen — a member stays what it was when it was built

However a session goes on, a member that is still held answers as it did when it was frozen: the
very objects of its signature are alive and unchanged, down to the last element of every type.
All that can be seen to change is that references fade and that constraints are appended.
-/

namespace CallableMembers
namespace Session

open CallableMembers.Generics CallableMembers.Member CallableMembers.Ownership CallableMembers.Types

/-! ## How views may change -/

/-- What a reference shows when its target is gone. -/
def RefView.gone : RefView :=
  ⟨false, none, none⟩

def RefView.Fades (before after : RefView) : Prop :=
  after = before ∨ after = .gone

/-- Constraints are appended at the end; those that were there may fade. -/
structure GenericView.Grows (before after : GenericView) : Prop where
  parameter : after.parameter = before.parameter
  constraints : ∃ kept added, after.constraints = kept ++ added
    ∧ List.Forall₂ RefView.Fades before.constraints kept

structure MethodView.Keeps (before after : MethodView) : Prop where
  method : after.method = before.method
  declaring : (after.declaring? = before.declaring? ∧ after.resolved = before.resolved)
    ∨ ((∃ r, before.declaring? = some r) ∧ after.declaring? = some .gone
        ∧ after.resolved = .error (.typeMissing "declaring type"))
  generics : List.Forall₂ GenericView.Grows before.generics after.generics
  sorted : after.sorted = before.sorted

/-! ## Members that are held, and what stands behind them -/

/-- The type and its elements, down to the named type at the end. -/
def elementChain : TypeDesc → List TypeDesc
  | .named id token flavor namespaceName name => [.named id token flavor namespaceName name]
  | .constructed id wrapper element => .constructed id wrapper element :: elementChain element

namespace State

/-- The member is held under a name, or by the table of a type that is alive. -/
inductive HoldsMethod (s : State) : Method → Prop where
  | named (name : String) {m : Method} : s.methods.find? name = some m → HoldsMethod s m
  | listed (t : TypeDesc) (token : Token) {members : MemberTable} {m : Method} :
      s.ledger.find? t.id = some (.type t members) → members.find? token = some m →
        HoldsMethod s m

/-- The type can be read from the ledger, and so can all of its elements. -/
def Stands (s : State) (t : TypeDesc) : Prop :=
  ∀ link ∈ elementChain t, ∃ members, s.ledger.find? link.id = some (.type link members)

/-- Every object that the queries of the member touch can be read from the ledger. -/
structure Intact (s : State) (m : Method) : Prop where
  method : s.ledger.find? m.id = some (.method m)
  parameters : ∀ p ∈ m.parameters,
    s.ledger.find? p.id = some (.parameter p) ∧ s.Stands p.type
  returnType : ∀ t, m.returnType? = some t → s.Stands t

end State

/-! ## A held member stands -/

namespace Consistent

variable {s : State} {loose : List ObjectId}

theorem stands {t : TypeDesc} (h : Consistent s loose) (known : HasType s.ledger t)
    (live : s.ledger.isLive t.id = true) : s.Stands t := by
  induction t with
  | named id token flavor namespaceName name =>
      intro link listed
      rcases List.mem_singleton.1 listed with rfl
      rcases known with ⟨members, found⟩
      exact ⟨members, Ledger.find?_eq_some_iff.2 ⟨live, found⟩⟩
  | constructed id wrapper element ih =>
      -- The type holds its element, so liveness goes down the chain.
      have alive : s.ledger.isLive element.id = true :=
        h.sound.live_of_edge live (edge_of_element known rfl)
      have rest : s.Stands element := ih (known.element h.coherent.objects rfl) alive
      intro link listed
      rcases List.mem_cons.1 listed with rfl | below
      · rcases known with ⟨members, found⟩
        exact ⟨members, Ledger.find?_eq_some_iff.2 ⟨live, found⟩⟩
      · exact rest link below

theorem intact {m : Method} (h : Consistent s loose) (known : HasMethod s.ledger m)
    (live : s.ledger.isLive m.id = true) : s.Intact m := by
  have own : HasSignature s.ledger m.signature := (h.coherent.objects _ _ known).2.1
  refine ⟨Ledger.find?_eq_some_iff.2 ⟨live, known⟩, ?_, ?_⟩
  · intro p member
    have here : HasParameter s.ledger p := own.parameters p member
    have held : p.id ∈ m.signature.holds :=
      List.mem_append_left _ (List.mem_map.2 ⟨p, member, rfl⟩)
    have alive : s.ledger.isLive p.id = true := h.sound.live_of_edge live ⟨_, known, held⟩
    have typeKnown : HasType s.ledger p.type := (h.coherent.objects _ _ here).2
    have typeAlive : s.ledger.isLive p.type.id = true :=
      h.sound.live_of_edge alive ⟨_, here, List.mem_singleton.2 rfl⟩
    exact ⟨Ledger.find?_eq_some_iff.2 ⟨alive, here⟩, h.stands typeKnown typeAlive⟩
  · intro t returned
    have held : t.id ∈ m.signature.holds :=
      List.mem_append_right _ (List.mem_map.2 ⟨t, Option.mem_toList.2 returned, rfl⟩)
    have alive : s.ledger.isLive t.id = true := h.sound.live_of_edge live ⟨_, known, held⟩
    exact h.stands (own.returnType t returned) alive

theorem method_of_holds {m : Method} (h : Consistent s loose) (held : s.HoldsMethod m) :
    HasMethod s.ledger m ∧ s.ledger.isLive m.id = true := by
  cases held with
  | named name found => exact h.method_of_find? found
  | listed t token read listed =>
      have ⟨live, found⟩ := Ledger.find?_eq_some_iff.1 read
      have member := OrderedMap.mem_values_of_find? listed
      rw [← members_eq live found] at member
      exact h.method_of_members ⟨_, found⟩ live member

end Consistent

/-! ## Views of a later state -/

theorem refView_of_hasType {s : State} {t : TypeDesc} (known : HasType s.ledger t) :
    s.refView (.of t)
      = if s.isValid (.of t) then ⟨true, some t.token, some t.fullName⟩ else .gone := by
  unfold State.refView
  rw [tokenOf?_of_hasType known, fullNameOf?_of_hasType known]
  cases s.isValid (.of t) <;> rfl

section Later

variable {s s' : State} (later : Evolves s s')

include later

/-- A reference either shows and resolves to the same type as before, or it is gone. -/
theorem ref_fades {r : WeakRef} (known : HasTarget s.ledger r) (what : String) :
    (s'.refView r = s.refView r ∧ s'.resolve r what = s.resolve r what)
      ∨ (s'.refView r = .gone ∧ s'.resolve r what = .error (.typeMissing what)) := by
  rcases known with ⟨t, known, rfl⟩
  have known' : HasType s'.ledger t := later.ledger.hasType known
  rw [refView_of_hasType known, refView_of_hasType known', resolve_of_hasType known,
    resolve_of_hasType known']
  cases valid' : s'.isValid (.of t) with
  | false => exact .inr ⟨rfl, rfl⟩
  | true =>
      -- What is alive now and was made before has been alive all along.
      rcases known with ⟨members, found⟩
      have valid : s.isValid (.of t) = true :=
        later.ledger.gone t.id (Ledger.lt_nextId_of_object? found) valid'
      rw [valid]
      exact .inl ⟨rfl, rfl⟩

theorem refView_fades {r : WeakRef} (known : HasTarget s.ledger r) :
    (s.refView r).Fades (s'.refView r) :=
  (ref_fades later known "").imp And.left And.left

theorem constraintsOf_grows (p : GenericParameter) :
    ∃ added, s'.constraintsOf p = s.constraintsOf p ++ added := by
  unfold State.constraintsOf
  rw [List.getD_eq_getElem?_getD, List.getD_eq_getElem?_getD]
  cases found : s.constraints[p.id]? with
  | none => exact ⟨_, rfl⟩
  | some rs =>
      rcases later.constraints p.id rs found with ⟨added, found'⟩
      rw [found']
      exact ⟨added, rfl⟩

theorem genericView_grows (coherent : Coherent s) (p : GenericParameter) :
    (s.genericView p).Grows (s'.genericView p) := by
  rcases constraintsOf_grows later p with ⟨added, appended⟩
  refine ⟨rfl, (s.constraintsOf p).map s'.refView, added.map s'.refView, ?_, ?_⟩
  · rw [State.genericView, appended, List.map_append]
  · -- The constraints that were there are still there, each seen from the later state.
    refine List.forall₂_map_left_iff.2 (List.forall₂_map_right_iff.2 ?_)
    refine List.forall₂_same.2 fun r listed => ?_
    exact refView_fades later (coherent.target_of_constraintsOf listed)

theorem methodView_keeps (coherent : Coherent s) {m : Method}
    (declared : ∀ r, m.declaring? = some r → HasTarget s.ledger r) :
    (s.methodView m).Keeps (s'.methodView m) := by
  refine ⟨rfl, ?_, ?_, rfl⟩
  · simp only [State.methodView, State.resolveDeclaring]
    cases declaring : m.declaring? with
    | none => exact .inl ⟨rfl, rfl⟩
    | some r =>
        rcases ref_fades later (declared r declaring) "declaring type" with
          ⟨view, resolved⟩ | ⟨view, resolved⟩
        · exact .inl ⟨congrArg some view, congrArg (Except.map some) resolved⟩
        · exact .inr ⟨⟨_, rfl⟩, congrArg some view, congrArg (Except.map some) resolved⟩
  · refine List.forall₂_map_left_iff.2 (List.forall₂_map_right_iff.2 ?_)
    exact List.forall₂_same.2 fun p _ => genericView_grows later coherent p

end Later

/-! ## Frozen means frozen -/

/-- The view that freezing answers with is that of a state in which the member is made and has
no name yet, and which the state after the step develops from. -/
theorem Consistent.view_of_freeze {s : State} {name as : String} {v : MethodView}
    (h : Consistent s []) (built : (s.step (.freeze name as)).2.reply = .ok (.method v)) :
    ∃ made : State, Coherent made ∧ HasMethod made.ledger v.method
      ∧ v = made.methodView v.method ∧ Moves made (s.step (.freeze name as)).1 [] := by
  -- Of the outcomes of freezing only one answers with a member.
  rcases exists_outcome_of_reply built with ⟨o, taken, replied, state⟩
  rcases freeze_cases taken with ⟨d, found, ⟨e, _, _, rfl⟩ | ⟨m, _, outcome, rfl⟩⟩
  · cases replied
  · cases replied
    have ⟨exchanged, here⟩ := h.exchangeDraft found outcome
    have stored : Moves (s.exchangeDraft name m) (s.step (.freeze name as)).1 [] := by
      rw [state]
      exact exchanged.consistent.storeMethod here as
    exact ⟨_, exchanged.consistent.coherent, here, rfl, stored⟩

/-- However a session goes on after a member was frozen, as long as the member is held it is the
very member that was shown then, all objects behind it stand, and of what it showed only the
declaring type and the constraints of its generic parameters have changed, in the ways allowed. -/
theorem frozen_after_run (before later : List Step) {name as : String} {v : MethodView}
    {m : Method}
    (built : ((State.empty.run before).1.step (.freeze name as)).2.reply = .ok (.method v))
    (held : (((State.empty.run before).1.step (.freeze name as)).1.run later).1.HoldsMethod m)
    (same : m.id = v.method.id) :
    let s := (((State.empty.run before).1.step (.freeze name as)).1.run later).1
    m = v.method ∧ s.Intact m ∧ v.Keeps (s.methodView m) := by
  intro s
  rcases (consistent_run before).view_of_freeze built with ⟨made, coherent, here, view, stored⟩
  have moves : Moves made s [] := stored.trans (stored.consistent.run later)
  have ⟨known, live⟩ := moves.consistent.method_of_holds held
  -- The member that was made still stands in the ledger.
  have known' : HasMethod s.ledger v.method := moves.evolves.ledger.hasMethod here
  -- An identity belongs to one object, so the member that is held is the one that was made.
  have unchanged : m = v.method := by
    have object : s.ledger.object? m.id = some (.method v.method) := by
      rw [same]
      exact known'
    rw [HasMethod, object] at known
    cases known
    rfl
  refine ⟨unchanged, moves.consistent.intact known live, ?_⟩
  rw [unchanged, view]
  exact methodView_keeps moves.evolves coherent (coherent.objects _ _ here).2.2

/-- The member outlives the names of its types; the type that declares it is gone, and so is the
last constraint that its generic parameter got. -/
theorem frozen_after_run_of_drops :
    let before : List Step :=
      [.type "I" (.named .null .i4 "" "int"), .type "T" (.named .null .classType "N" "T"),
        .generic "U" .null 0 0 "U",
        .draft "d" ⟨0x06000001⟩ "M" ⟨6⟩ (.ofTypes [.constructed .pointer (.stored "I")]),
        .declaring "d" (.stored "T"), .addGenerics "d" ["U"]]
    let later : List Step :=
      [.constrain "U" (.stored "I"), .constrain "U" (.stored "T"), .drop .type "T",
        .drop .type "I"]
    let built := (State.empty.run before).1.step (.freeze "d" "m")
    let s := (built.1.run later).1
    ∃ v m, built.2.reply = .ok (.method v) ∧ s.HoldsMethod m ∧ m.id = v.method.id
      ∧ (m = v.method ∧ s.Intact m ∧ v.Keeps (s.methodView m))
      ∧ m.declaring? = some ⟨1⟩ ∧ s.isValid ⟨1⟩ = false ∧ s.constraints = [[⟨0⟩, ⟨1⟩]] := by
  intro before later built s
  let m : Method :=
    { id := 4
      token := ⟨0x06000001⟩
      name := "M"
      declaring? := some ⟨1⟩
      attributes := ⟨6⟩
      convention := ⟨0x0021⟩
      implementation := ⟨0⟩
      signature := ⟨[⟨3, .null, 0, 0, none, .constructed 2 .pointer (.named 0 .null .i4 "" "int")⟩],
        .method none⟩
      generics := [⟨0, .null, 0, 0, "U"⟩]
      genericView := [⟨0, .null, 0, 0, "U"⟩] }
  have held : s.HoldsMethod m := .named "m" (by decide)
  have answered : ∃ v, built.2.reply = .ok (.method v) ∧ v.method.id = 4 := ⟨_, rfl, rfl⟩
  rcases answered with ⟨v, answered, id⟩
  exact ⟨v, m, answered, held, id.symm, frozen_after_run before later answered held id.symm, rfl,
    by decide, by decide⟩

end Session
end CallableMembers
