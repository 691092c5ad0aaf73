import CallableMembers.Text.DebugTree

/-!
# FreezeOptions — how forgiving the freezing of a member is

Two independent settings: what happens when the ordinals of the generic parameters leave gaps,
and whether constructors get the special-name bits written into their stored attribute word.
-/

namespace CallableMembers

open CallableMembers.Text

inductive GapPolicy where
  /-- The first ordinal that nobody claims is an error. -/
  | strict
  /-- Ordinals that nobody claims are skipped. -/
  | lenient
  deriving DecidableEq, Repr

namespace GapPolicy

def label : GapPolicy → String
  | .strict => "Strict"
  | .lenient => "Lenient"

end GapPolicy

structure FreezeOptions where
  gaps : GapPolicy
  markConstructors : Bool
  deriving DecidableEq, Repr

namespace FreezeOptions

/-- Attribute words are kept as read. -/
def strict : FreezeOptions := ⟨.strict, false⟩

/-- Attribute words are kept as read. -/
def lenient : FreezeOptions := ⟨.lenient, false⟩

instance : Inhabited FreezeOptions := ⟨strict⟩

def withMarking (o : FreezeOptions) (mark : Bool) : FreezeOptions :=
  { o with markConstructors := mark }

def debugTree (o : FreezeOptions) : DebugTree :=
  .record "MemberConfig"
    [("ordinal_policy", .word o.gaps.label),
     ("persist_ctor_special_name", .truth o.markConstructors)]

end FreezeOptions
end CallableMembers
