import CallableMembers.Types.Descriptor

/-!
# Shape — what a type is built from

Whatever its names and identities, a type is a named type of some flavor with wrappers around it.
-/

namespace CallableMembers
namespace Types

/-- The flavor of the named type inside, and the wrappers around it, the outermost first. -/
structure Shape where
  base : Flavor
  wrappers : List Wrapper
  deriving DecidableEq, Repr

namespace TypeDesc

def shape : TypeDesc → Shape
  | .named _ _ flavor _ _ => ⟨flavor, []⟩
  | .constructed _ wrapper element => ⟨element.shape.base, wrapper :: element.shape.wrappers⟩

end TypeDesc
end Types
end CallableMembers
