import CallableMembers.Flags.FlagSet

/-!
# Implementation — the implementation word of a method

Three disjoint views: where the body comes from, whether it is managed, and further options.
-/

namespace CallableMembers
namespace Flags

structure Implementation where
  word : UInt16
  deriving DecidableEq, Repr

namespace Implementation

/-- The word of a method that sets nothing: managed code in the intermediate language. -/
def empty : Implementation := ⟨0⟩

def codeType (i : Implementation) : FlagSet .codeType :=
  .truncate (i.word &&& Field.codeType)

def management (i : Implementation) : FlagSet .management :=
  .truncate (i.word &&& Field.management)

def options (i : Implementation) : FlagSet .implOptions :=
  .truncate (i.word &&& ~~~(Field.codeType ||| Field.management))

end Implementation
end Flags
end CallableMembers
