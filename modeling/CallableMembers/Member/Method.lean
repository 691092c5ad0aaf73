import CallableMembers.Flags.Attributes
import CallableMembers.Flags.Implementation
import CallableMembers.Generics.Parameter
import CallableMembers.Member.Signature
import CallableMembers.OrderedMap

/-!
# Method — a frozen method or constructor

Everything about a frozen member is fixed; every query is a read.  The declaring type is known by
a weak reference only, while parameters and return type are held.
-/

namespace CallableMembers
namespace Member

open CallableMembers.Flags CallableMembers.Generics CallableMembers.Text CallableMembers.Types

/-- Two methods are the same object exactly if their identities are equal. -/
structure Method where
  id : ObjectId
  token : Token
  name : String
  declaring? : Option WeakRef
  attributes : Attributes
  convention : FlagSet .convention
  implementation : Implementation
  signature : Signature
  /-- In the order they were registered. -/
  generics : List GenericParameter
  /-- In the order of their ordinals. -/
  genericView : List GenericParameter
  deriving DecidableEq, Repr

namespace Method

/-! ## Queries -/

def returnType? (m : Method) : Option TypeDesc :=
  m.signature.role.returnType?

def isConstructor (m : Method) : Bool :=
  m.signature.role.isConstructor

def isGeneric (m : Method) : Bool :=
  !m.generics.isEmpty

def parameters (m : Method) : List Parameter :=
  m.signature.parameters

/-- The names of all predicates that hold: those of the attribute word, then the member's own. -/
def traits (m : Method) : List String :=
  m.attributes.traits
    ++ (if m.isConstructor then ["constructor"] else [])
    ++ (if m.isGeneric then ["generic"] else [])

/-! ## Text -/

/-- The words before the name.  A reserved accessibility has none, and neither has the return of
a constructor; an abstract member is not called virtual as well. -/
def modifierWords (m : Method) : List String :=
  (m.attributes.access?.toList.map Access.keyword)
    ++ (if m.attributes.isStatic then ["static"] else [])
    ++ (if m.attributes.isAbstract then ["abstract"]
        else if m.attributes.isVirtual then ["virtual"] else [])
    ++ (match m.signature.role with
        | .method none => ["void"]
        | .method (some t) => [t.fullName]
        | .constructor => [])

def display (m : Method) : String :=
  String.intercalate " " (m.modifierWords ++ [m.name ++ m.signature.parameterText])

/-- Debug text shows the return type, and with it how many members that type has. -/
def debugTree (m : Method) (memberCount : TypeDesc → Nat) : DebugTree :=
  let role : DebugTree :=
    match m.signature.role with
    | .method returnType? =>
        .record "Method"
          [("return_type", .optional (returnType?.map fun t => t.debugTree (memberCount t)))]
    | .constructor => .word "Constructor"
  .record "MethodBase"
    [("token", m.token.debugTree), ("name", .quoted m.name),
     ("flags", .word ("0x" ++ Hex.padded 4 m.attributes.word.toNat)),
     ("calling_convention", m.convention.debugTree), ("kind", role),
     ("params", .number m.parameters.length), ("generic_params", .number m.generics.length)]

end Method

/-! ## Member tables -/

/-- The members of a type, in the order of their tokens.  What is assumed of the map behind it is
said with `OrderedMap`. -/
abbrev MemberTable := OrderedMap Token Method

namespace MemberTable

/-- A member is filed under its own token; one that was filed there before is replaced. -/
def add (table : MemberTable) (m : Method) : MemberTable :=
  table.insert m.token m

end MemberTable
end Member
end CallableMembers
