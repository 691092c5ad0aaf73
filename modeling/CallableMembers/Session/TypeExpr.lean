import CallableMembers.Types.Descriptor

/-!
# TypeExpr — how a step names a type

A type is named by its place in the session, read off an object that leads to it, or described; a
description makes a new object every time it is evaluated, all else leads to an object that exists.
-/

namespace CallableMembers
namespace Session

open CallableMembers.Types

inductive TypeExpr where
  | stored (name : String)
  /-- The type of the parameter under a name. -/
  | typeOf (parameter : String)
  /-- The return type of the member under a name. -/
  | returnOf (method : String)
  /-- What the member under a name resolves its declaring type to. -/
  | ownerOf (method : String)
  | named (token : Token) (flavor : Flavor) (namespaceName name : String)
  | constructed (wrapper : Wrapper) (element : TypeExpr)
  | elementOf (type : TypeExpr)
  deriving DecidableEq, Repr

namespace TypeExpr

/-- The wrappers are applied in order, the first one innermost. -/
def nest (element : TypeExpr) (wrappers : List Wrapper) : TypeExpr :=
  wrappers.foldl (fun inner wrapper => .constructed wrapper inner) element

end TypeExpr
end Session
end CallableMembers
