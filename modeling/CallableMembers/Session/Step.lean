import CallableMembers.Session.View

/-!
# Step — what can be asked of a session, and what it answers

A step names the objects it works on.  An answer carries a reply or a refusal, and the events
reported on the way.
-/

namespace CallableMembers
namespace Session

open CallableMembers.Flags CallableMembers.Generics CallableMembers.Member CallableMembers.Types

/-! ## Steps -/

/-- The kinds of names; each kind has names of its own. -/
inductive NameKind where
  | type
  | ref
  | parameter
  | generic
  | roster
  | draft
  | method
  deriving DecidableEq, Repr

/-- Does the maker of a reference keep the type until the reference has been looked at? -/
inductive Passing where
  | borrowed
  | owned
  deriving DecidableEq, Repr

/-- Where the parameters of a draft come from. -/
inductive ParameterSource where
  | stored (names : List String)
  | ofTypes (types : List TypeExpr)
  deriving DecidableEq, Repr

inductive Step where
  -- types and references
  | type (name : String) (type : TypeExpr)
  | typeInfo (name : String)
  | typeText (name : String)
  | sameType (name : String) (type : TypeExpr)
  | elements (name : String)
  | ref (name : String) (type : TypeExpr) (passing : Passing)
  | refInfo (name : String)
  | refText (name : String)
  | resolve (name : String) (what : String)
  | upgrade (name : String) (ref : String)
  | drop (kind : NameKind) (name : String)
  -- parameters and generic parameters
  | parameter (name : String) (type : TypeExpr) (token : Token) (flags : UInt16)
      (position : UInt32) (parameterName? : Option String)
  | parameterInfo (name : String)
  | generic (name : String) (token : Token) (number : UInt32) (flags : UInt16)
      (parameterName : String)
  | constrain (name : String) (type : TypeExpr)
  | genericInfo (name : String)
  | sort (generics : List String) (policy : GapPolicy)
  | roster (name : String) (policy : GapPolicy)
  | rosterInfo (name : String)
  | register (name : String) (generics : List String)
  | setPolicy (name : String) (policy : GapPolicy)
  | sorted (name : String)
  -- drafts
  | draft (name : String) (token : Token) (memberName : String) (attributes : Attributes)
      (source : ParameterSource)
  | declaring (name : String) (type : TypeExpr)
  | implementation (name : String) (word : Implementation)
  | returns (name : String) (type : TypeExpr)
  | constructor (name : String)
  | options (name : String) (options : FreezeOptions)
  | addGenerics (name : String) (generics : List String)
  | draftSorted (name : String)
  | freeze (name : String) (as : String)
  -- methods
  | methodInfo (name : String)
  | methodText (name : String)
  | methodParameter (name : String) (index : Nat)
  | takeParameter (name : String) (index : Nat) (as : String)
  | emptyParameterCopy (name : String)
  | resolveDeclaring (name : String)
  -- member tables
  | addMethod (name : String) (method : String)
  | members (name : String)
  | find (name : String) (token : Token)
  | takeMethod (name : String) (token : Token) (as : String)
  /-- Not asked for by the caller: the place of a retired member whose time has come. -/
  | reclaim (index : Nat)
  deriving DecidableEq, Repr

/-! ## Answers -/

inductive Reply where
  | type (view : TypeView)
  | type? (view? : Option TypeView)
  | ref (view : RefView)
  | parameter (p : Parameter)
  | parameter? (p? : Option Parameter)
  | generic (view : GenericView)
  | placed (view : List Placed)
  | roster (r : Roster)
  | draft (isGeneric : Bool)
  | arranged (view : List GenericParameter)
  | method (view : MethodView)
  | text (text : String)
  | texts (texts : List String)
  | flag (value : Bool)
  | sizes (sizes : List Nat)
  | members (table : MemberTable)
  /-- The member found, with the names under which that very object is stored. -/
  | found (match? : Option (Method × List String))

inductive Refusal where
  /-- A name the step uses is not known; nothing has changed. -/
  | noSuch
  | failed (e : MemberError)

structure Answer where
  reply : Except Refusal Reply
  events : List Event

end Session
end CallableMembers
