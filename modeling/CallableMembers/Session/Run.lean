import CallableMembers.Session.Step

/-!
# Run — taking steps

Every step is a function of the state that fails on an unknown name and otherwise yields the
state afterwards with an answer.  A failing step leaves the state as it was; a step that meets an
error of the library may still change it, as freezing uses up its draft either way.
-/

namespace CallableMembers
namespace Session

open CallableMembers.Flags CallableMembers.Generics CallableMembers.Member CallableMembers.Text CallableMembers.Types

structure Outcome where
  state : State
  reply : Except MemberError Reply
  events : List Event

namespace Outcome

/-- A reply without events. -/
def ok (s : State) (reply : Reply) : Outcome :=
  ⟨s, .ok reply, []⟩

end Outcome

namespace State

/-! ## Types and references -/

def type (s : State) (name : String) (e : TypeExpr) : Option Outcome := do
  let (t, s) ← s.evaluate e
  let s := s.storeType name t
  return .ok s (.type (s.typeView t))

def typeInfo (s : State) (name : String) : Option Outcome := do
  let t ← s.types.find? name
  return .ok s (.type (s.typeView t))

def typeText (s : State) (name : String) : Option Outcome := do
  let t ← s.types.find? name
  return .ok s (.text (t.debugTree (s.members t).size).indented)

/-- Types are compared as objects; a type that is only described is a new one. -/
def sameType (s : State) (name : String) (e : TypeExpr) : Option Outcome := do
  let t ← s.types.find? name
  let (other, s) ← s.evaluate e
  return .ok (s.release other.id) (.flag (t.id == other.id))

def elements (s : State) (name : String) : Option Outcome := do
  let t ← s.types.find? name
  return .ok s (.texts (t.flavorChain.map fun flavor => flavor.debugTree.inline))

def ref (s : State) (name : String) (e : TypeExpr) (passing : Passing) : Option Outcome := do
  let (t, held) ← s.evaluate e
  let r := WeakRef.of t
  let held := { held with refs := held.refs.insert name r }
  let released := held.release t.id
  let seen :=
    match passing with
    | .borrowed => held.refView r
    | .owned => released.refView r
  return .ok released (.ref seen)

def refInfo (s : State) (name : String) : Option Outcome := do
  let r ← s.refs.find? name
  return .ok s (.ref (s.refView r))

def refText (s : State) (name : String) : Option Outcome := do
  let r ← s.refs.find? name
  return .ok s (.text r.debugTree.inline)

def resolveRef (s : State) (name what : String) : Option Outcome := do
  let r ← s.refs.find? name
  return ⟨s, (s.resolve r what).map fun t => .type (s.typeView t), []⟩

def upgradeRef (s : State) (name refName : String) : Option Outcome := do
  let r ← s.refs.find? refName
  match s.upgrade r with
  | some t => return .ok ((s.retain t.id).storeType name t) (.flag true)
  | none => return .ok s (.flag false)

/-- Forgets a name and gives up what it held; says whether there was such a name. -/
def drop (s : State) (kind : NameKind) (name : String) : State × Bool :=
  match kind with
  | .type =>
      match s.types.find? name with
      | some t => ({ s with types := s.types.erase name }.release t.id, true)
      | none => (s, false)
  | .ref => ({ s with refs := s.refs.erase name }, s.refs.contains name)
  | .parameter =>
      match s.parameters.find? name with
      | some p => ({ s with parameters := s.parameters.erase name }.release p.id, true)
      | none => (s, false)
  | .generic => ({ s with generics := s.generics.erase name }, s.generics.contains name)
  | .roster => ({ s with rosters := s.rosters.erase name }, s.rosters.contains name)
  | .draft =>
      match s.drafts.find? name with
      | some d => ({ s with drafts := s.drafts.erase name }.releaseAll d.signature.holds, true)
      | none => (s, false)
  | .method =>
      match s.methods.find? name with
      | some m => ({ s with methods := s.methods.erase name }.release m.id, true)
      | none => (s, false)

/-! ## Parameters and generic parameters -/

def parameter (s : State) (name : String) (e : TypeExpr) (token : Token) (flags : UInt16)
    (position : UInt32) (parameterName? : Option String) : Option Outcome := do
  let (t, s) ← s.evaluate e
  let p : Parameter := ⟨s.ledger.nextId, token, flags, position, parameterName?, t⟩
  return .ok ((s.add (.parameter p)).storeParameter name p) (.parameter p)

def parameterInfo (s : State) (name : String) : Option Outcome := do
  let p ← s.parameters.find? name
  return .ok s (.parameter p)

def generic (s : State) (name : String) (token : Token) (number : UInt32) (flags : UInt16)
    (parameterName : String) : Outcome :=
  let p : GenericParameter := ⟨s.constraints.length, token, number, flags, parameterName⟩
  let s := { s with generics := s.generics.insert name p, constraints := s.constraints ++ [[]] }
  .ok s (.generic (s.genericView p))

def constrain (s : State) (name : String) (e : TypeExpr) : Option Outcome := do
  let p ← s.generics.find? name
  let (t, s) ← s.evaluate e
  let s := (s.addConstraint p t).release t.id
  return .ok s (.generic (s.genericView p))

def genericInfo (s : State) (name : String) : Option Outcome := do
  let p ← s.generics.find? name
  return .ok s (.generic (s.genericView p))

def sort (s : State) (names : List String) (policy : GapPolicy) : Option Outcome := do
  let ps ← names.mapM s.generics.find?
  return ⟨s, (arrange policy ps).map fun view => .placed (place ps view),
    arrangeEvents policy ps⟩

def roster (s : State) (name : String) (policy : GapPolicy) : Outcome :=
  let r := Roster.withPolicy policy
  .ok { s with rosters := s.rosters.insert name r } (.roster r)

def rosterInfo (s : State) (name : String) : Option Outcome := do
  let r ← s.rosters.find? name
  return .ok s (.roster r)

def register (s : State) (name : String) (names : List String) : Option Outcome := do
  let r ← s.rosters.find? name
  let ps ← names.mapM s.generics.find?
  let r := r.registerAll ps
  return .ok { s with rosters := s.rosters.insert name r } (.roster r)

def setPolicy (s : State) (name : String) (policy : GapPolicy) : Option Outcome := do
  let r ← s.rosters.find? name
  let r := r.setPolicy policy
  return .ok { s with rosters := s.rosters.insert name r } (.roster r)

def sorted (s : State) (name : String) : Option Outcome := do
  let r ← s.rosters.find? name
  let reading := r.read
  return ⟨{ s with rosters := s.rosters.insert name reading.roster },
    reading.view.map fun view => .placed (place r.params view), reading.events⟩

/-! ## Drafts -/

/-- A new draft with one hold on each of its parameters. -/
def startDraft (s : State) (token : Token) (memberName : String) (attributes : Attributes) :
    ParameterSource → Option (Draft × State)
  | .stored names => do
      let ps ← names.mapM s.parameters.find?
      return (.start token memberName attributes ps, s.retainAll (ps.map Parameter.id))
  | .ofTypes types => do
      let (ts, s) ← s.evaluateAll types
      let d := Draft.startOfTypes s.ledger.nextId token memberName attributes ts
      return (d, s.addAll (d.signature.parameters.map .parameter))

def draft (s : State) (name : String) (token : Token) (memberName : String)
    (attributes : Attributes) (source : ParameterSource) : Option Outcome := do
  let (d, s) ← s.startDraft token memberName attributes source
  return .ok (s.storeDraft name d) (.draft d.isGeneric)

/-- A change that touches no holds. -/
def amend (s : State) (name : String) (changes : List Draft.Change) : Option Outcome := do
  let d ← s.drafts.find? name
  let d := changes.foldl Draft.apply d
  return .ok (s.updateDraft name d) (.draft d.isGeneric)

def declaring (s : State) (name : String) (e : TypeExpr) : Option Outcome := do
  let d ← s.drafts.find? name
  let (t, s) ← s.evaluate e
  let d := d.apply (.declaredBy t)
  return .ok ((s.updateDraft name d).release t.id) (.draft d.isGeneric)

/-- The draft takes over the hold on the return type and gives up the one it had. -/
def returns (s : State) (name : String) (e : TypeExpr) : Option Outcome := do
  let d ← s.drafts.find? name
  let (t, s) ← s.evaluate e
  let changed := d.apply (.returns t)
  let before := d.signature.role.returnType?.toList.map TypeDesc.id
  return .ok ((s.updateDraft name changed).releaseAll before) (.draft changed.isGeneric)

def constructor (s : State) (name : String) : Option Outcome := do
  let d ← s.drafts.find? name
  let changed := d.apply .constructor
  let before := d.signature.role.returnType?.toList.map TypeDesc.id
  return .ok ((s.updateDraft name changed).releaseAll before) (.draft changed.isGeneric)

def addGenerics (s : State) (name : String) (names : List String) : Option Outcome := do
  let ps ← names.mapM s.generics.find?
  s.amend name (ps.map .generic)

def draftSorted (s : State) (name : String) : Option Outcome := do
  let d ← s.drafts.find? name
  let (d, reading) := d.read
  return ⟨s.updateDraft name d, reading.view.map .arranged, reading.events⟩

/-- Uses up the draft.  The member takes over its holds; without a member they are given up.  The
answer shows the new member while one that had its name is still held, so that a reference which
only the old member keeps valid is seen as valid. -/
def freeze (s : State) (name as : String) : Option Outcome := do
  let d ← s.drafts.find? name
  let frozen := d.freeze s.ledger.nextId
  let s := { s with drafts := s.drafts.erase name }
  match frozen.outcome with
  | .error e => return ⟨s.releaseAll d.signature.holds, .error e, frozen.events⟩
  | .ok m =>
      let made := s.add (.method m)
      return ⟨made.storeMethod as m, .ok (.method (made.methodView m)), frozen.events⟩

/-! ## Methods -/

def methodInfo (s : State) (name : String) : Option Outcome := do
  let m ← s.methods.find? name
  return .ok s (.method (s.methodView m))

def methodText (s : State) (name : String) : Option Outcome := do
  let m ← s.methods.find? name
  let tree := m.debugTree fun t => (s.members t).size
  return .ok s (.texts [tree.inline, tree.indented])

def methodParameter (s : State) (name : String) (index : Nat) : Option Outcome := do
  let m ← s.methods.find? name
  return .ok s (.parameter? m.parameters[index]?)

/-- The parameter is held under a name of its own from then on. -/
def takeParameter (s : State) (name : String) (index : Nat) (as : String) : Option Outcome := do
  let m ← s.methods.find? name
  match m.parameters[index]? with
  | some p => return .ok ((s.retain p.id).storeParameter as p) (.flag true)
  | none => return .ok s (.flag false)

/-- The list of parameters is a value: the member keeps its own whatever happens to a copy.
Shows the size of an emptied copy beside those of the member. -/
def emptyParameterCopy (s : State) (name : String) : Option Outcome := do
  let m ← s.methods.find? name
  let copy := m.parameters
  let emptied := copy.drop copy.length
  return .ok s (.sizes [emptied.length, m.parameters.length, m.parameters.length])

def resolveDeclaringOf (s : State) (name : String) : Option Outcome := do
  let m ← s.methods.find? name
  return ⟨s, (s.resolveDeclaring m).map fun t? => .type? (t?.map s.typeView), []⟩

/-! ## Member tables -/

def addMethod (s : State) (name methodName : String) : Option Outcome := do
  let t ← s.types.find? name
  let m ← s.methods.find? methodName
  let s := s.addMember t m
  return .ok s (.members (s.members t))

def membersOf (s : State) (name : String) : Option Outcome := do
  let t ← s.types.find? name
  return .ok s (.members (s.members t))

/-- The names under which the very object is stored. -/
def namesOf (s : State) (m : Method) : List String :=
  (s.methods.entries.filter fun entry => entry.2.id == m.id).map Prod.fst

def find (s : State) (name : String) (token : Token) : Option Outcome := do
  let t ← s.types.find? name
  return .ok s (.found (((s.members t).find? token).map fun m => (m, s.namesOf m)))

def takeMethod (s : State) (name : String) (token : Token) (as : String) : Option Outcome := do
  let t ← s.types.find? name
  match (s.members t).find? token with
  | some m => return .ok ((s.retain m.id).storeMethod as m) (.flag true)
  | none => return .ok s (.flag false)

/-- A retired member is given up; says whether there is one at that place. -/
def reclaim (s : State) (index : Nat) : State × Bool :=
  match s.retired[index]? with
  | some m => ({ s with retired := s.retired.eraseIdx index }.release m.id, true)
  | none => (s, false)

/-! ## All steps -/

/-- Fails on an unknown name. -/
def step? (s : State) : Step → Option Outcome
  | .type name e => s.type name e
  | .typeInfo name => s.typeInfo name
  | .typeText name => s.typeText name
  | .sameType name e => s.sameType name e
  | .elements name => s.elements name
  | .ref name e passing => s.ref name e passing
  | .refInfo name => s.refInfo name
  | .refText name => s.refText name
  | .resolve name what => s.resolveRef name what
  | .upgrade name refName => s.upgradeRef name refName
  | .drop kind name =>
      let (s, dropped) := s.drop kind name
      some (.ok s (.flag dropped))
  | .parameter name e token flags position parameterName? =>
      s.parameter name e token flags position parameterName?
  | .parameterInfo name => s.parameterInfo name
  | .generic name token number flags parameterName =>
      some (s.generic name token number flags parameterName)
  | .constrain name e => s.constrain name e
  | .genericInfo name => s.genericInfo name
  | .sort names policy => s.sort names policy
  | .roster name policy => some (s.roster name policy)
  | .rosterInfo name => s.rosterInfo name
  | .register name names => s.register name names
  | .setPolicy name policy => s.setPolicy name policy
  | .sorted name => s.sorted name
  | .draft name token memberName attributes source =>
      s.draft name token memberName attributes source
  | .declaring name e => s.declaring name e
  | .implementation name word => s.amend name [.implementation word]
  | .returns name e => s.returns name e
  | .constructor name => s.constructor name
  | .options name options => s.amend name [.options options]
  | .addGenerics name names => s.addGenerics name names
  | .draftSorted name => s.draftSorted name
  | .freeze name as => s.freeze name as
  | .methodInfo name => s.methodInfo name
  | .methodText name => s.methodText name
  | .methodParameter name index => s.methodParameter name index
  | .takeParameter name index as => s.takeParameter name index as
  | .emptyParameterCopy name => s.emptyParameterCopy name
  | .resolveDeclaring name => s.resolveDeclaringOf name
  | .addMethod name methodName => s.addMethod name methodName
  | .members name => s.membersOf name
  | .find name token => s.find name token
  | .takeMethod name token as => s.takeMethod name token as
  | .reclaim index =>
      let (s, reclaimed) := s.reclaim index
      some (.ok s (.flag reclaimed))

def step (s : State) (st : Step) : State × Answer :=
  match s.step? st with
  | none => (s, ⟨.error .noSuch, []⟩)
  | some o => (o.state, ⟨o.reply.mapError .failed, o.events⟩)

/-- The state after a run of steps, and the answer to each. -/
def run (s : State) : List Step → State × List Answer
  | [] => (s, [])
  | st :: rest =>
      let (s, answer) := s.step st
      let (s, answers) := s.run rest
      (s, answer :: answers)

end State
end Session
end CallableMembers
