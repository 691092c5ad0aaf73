import CallableMembers.Token

/-!
# Event — what is reported while members are frozen

Three things are reported: a view of generic parameters is rebuilt, a lenient view left ordinals
out, a member has been frozen.
-/

namespace CallableMembers

inductive Level where
  | debug
  | warn
  deriving DecidableEq, Repr

namespace Level

def label : Level → String
  | .debug => "DEBUG"
  | .warn => "WARN"

end Level

inductive Event where
  /-- A view of `count` registered parameters is about to be rebuilt. -/
  | rebuilding (count : Nat)
  /-- A lenient view leaves `missing` of `count` ordinals out. -/
  | skipped (missing count : Nat)
  /-- A member has been frozen with so many parameters and registered generic parameters. -/
  | frozen (token : Token) (name : String) (parameters generics : Nat)
  deriving DecidableEq, Repr

namespace Event

/-- Only a loss of generic parameters is worth a warning. -/
def level : Event → Level
  | .rebuilding _ => .debug
  | .skipped _ _ => .warn
  | .frozen _ _ _ _ => .debug

def message : Event → String
  | .rebuilding count =>
      "Rebuilding sorted view of " ++ toString count ++ " generic parameters"
  | .skipped missing count =>
      toString missing ++ " of " ++ toString count
        ++ " generic parameter ordinals are unclaimed, skipping them"
  | .frozen token name parameters generics =>
      "Frozen member " ++ token.display ++ " '" ++ name ++ "' - " ++ toString parameters
        ++ " parameters, " ++ toString generics ++ " generic parameters"

end Event

/-- A line of the log. -/
structure Line where
  level : Level
  text : String
  deriving DecidableEq, Repr

/-- What is written about an event. -/
def Event.line (e : Event) : Line :=
  ⟨e.level, e.message⟩

end CallableMembers
