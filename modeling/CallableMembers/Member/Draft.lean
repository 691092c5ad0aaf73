import CallableMembers.Generics.Roster
import CallableMembers.Member.Method

/-!
# Draft — a member before it is frozen

A draft starts with its parameters, which stay as they are; everything else can be changed any
number of times, and the last change of each kind counts.  Generic parameters are collected in a
roster whose policy follows the options of the draft.  Freezing checks the token first, then
arranges the generic parameters, and reports the new member last.
-/

namespace CallableMembers
namespace Member

open CallableMembers.Flags CallableMembers.Generics CallableMembers.Types

structure Draft where
  token : Token
  name : String
  attributes : Attributes
  signature : Signature
  declaring? : Option WeakRef
  implementation : Implementation
  roster : Roster
  options : FreezeOptions
  deriving DecidableEq, Repr

/-- What freezing yields: the member or the reason there is none, and what was reported. -/
structure Freezing where
  outcome : Except MemberError Method
  events : List Event

namespace Draft

/-! ## Construction -/

/-- A method without a return type, with strict options. -/
def start (token : Token) (name : String) (attributes : Attributes)
    (parameters : List Parameter) : Draft where
  token := token
  name := name
  attributes := attributes
  signature := ⟨parameters, .method none⟩
  declaring? := none
  implementation := .empty
  roster := .empty
  options := .strict

/-- Like `start`, with parameters that are given by their types only. -/
def startOfTypes (firstId : ObjectId) (token : Token) (name : String) (attributes : Attributes)
    (types : List TypeDesc) : Draft :=
  start token name attributes (Parameter.ofTypes firstId types)

/-! ## Changes -/

inductive Change where
  | declaredBy (owner : TypeDesc)
  | implementation (word : Implementation)
  | returns (t : TypeDesc)
  | constructor
  | options (options : FreezeOptions)
  | generic (p : GenericParameter)
  deriving DecidableEq, Repr

def setRole (d : Draft) (role : Role) : Draft :=
  { d with signature := { d.signature with role := role } }

/-- The owner is remembered weakly; a return type replaces the one before it, and so does the
change to a constructor. -/
def apply (d : Draft) : Change → Draft
  | .declaredBy owner => { d with declaring? := some (.of owner) }
  | .implementation word => { d with implementation := word }
  | .returns t => d.setRole (.method (some t))
  | .constructor => d.setRole .constructor
  | .options options => { d with options := options, roster := d.roster.setPolicy options.gaps }
  | .generic p => { d with roster := d.roster.register p }

/-- Reading the view of the generic parameters may bring the roster up to date. -/
def read (d : Draft) : Draft × Reading :=
  let reading := d.roster.read
  ({ d with roster := reading.roster }, reading)

def isGeneric (d : Draft) : Bool :=
  d.roster.isGeneric

/-! ## Freezing -/

/-- The word that is stored: as read, unless a constructor is to be marked as a special name. -/
def storedAttributes (d : Draft) : Attributes :=
  if d.signature.role.isConstructor && d.options.markConstructors then
    d.attributes.markSpecialName
  else
    d.attributes

/-- The member with the identity `id`, given the arranged generic parameters. -/
def toMethod (d : Draft) (id : ObjectId) (view : List GenericParameter) : Method where
  id := id
  token := d.token
  name := d.name
  declaring? := d.declaring?
  attributes := d.storedAttributes
  convention := d.storedAttributes.convention
  implementation := d.implementation
  signature := d.signature
  generics := d.roster.params
  genericView := view

def freeze (d : Draft) (id : ObjectId) : Freezing :=
  if d.token.isCallable then
    let reading := d.roster.read
    match reading.view with
    | .error e => ⟨.error e, reading.events⟩
    | .ok view =>
        ⟨.ok (d.toMethod id view),
         reading.events
           ++ [.frozen d.token d.name d.signature.parameters.length d.roster.params.length]⟩
  else
    ⟨.error (.foreignToken d.name d.token), []⟩

end Draft
end Member
end CallableMembers
