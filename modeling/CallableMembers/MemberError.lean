import CallableMembers.Token

/-!
# MemberError — why a member, a view or a reference cannot be had

Attribute words are never refused, so the causes are few: inconsistent metadata, a token outside
the callable tables, an ordinal that no generic parameter claims, a type that no longer exists.
-/

namespace CallableMembers

open CallableMembers.Text

inductive MemberError where
  /-- Metadata found inconsistent at a known place. -/
  | inconsistent (message file : String) (line : UInt32)
  /-- A member whose token names no callable row. -/
  | foreignToken (name : String) (token : Token)
  /-- The first ordinal without a claimant among `count` parameters. -/
  | unclaimedOrdinal (ordinal : UInt32) (count : Nat)
  /-- The target of a weak reference is gone. -/
  | typeMissing (what : String)
  deriving DecidableEq, Repr

namespace MemberError

/-- The sentence that says what is inconsistent. -/
def foreignTokenMessage (name : String) (token : Token) : String :=
  "Member '" ++ name ++ "' has token " ++ token.display
    ++ " outside the MethodDef and MemberRef tables"

/-- A foreign token has no place in a file, so placeholders stand for it. -/
def display : MemberError → String
  | .inconsistent message file line =>
      "Malformed - " ++ file ++ ":" ++ toString line ++ ": " ++ message
  | .foreignToken name token =>
      "Malformed - <file>:<line>: " ++ foreignTokenMessage name token
  | .unclaimedOrdinal ordinal count =>
      "No generic parameter with ordinal " ++ toString ordinal ++ " among " ++ toString count
        ++ " registered parameters"
  | .typeMissing what => "Referenced type is no longer available - " ++ what

def debugTree : MemberError → DebugTree
  | .inconsistent message file line =>
      .record "Malformed"
        [("message", .quoted message), ("file", .quoted file), ("line", .number line.toNat)]
  | .foreignToken name token =>
      .record "Malformed"
        [("message", .quoted (foreignTokenMessage name token)), ("file", .word "<file>"),
         ("line", .word "<line>")]
  | .unclaimedOrdinal ordinal count =>
      .record "GenericParamOrdinal"
        [("ordinal", .number ordinal.toNat), ("count", .number count)]
  | .typeMissing what => .tuple "TypeMissing" [.quoted what]

end MemberError
end CallableMembers
