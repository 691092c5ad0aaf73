import CallableMembers.Text.Quoted

/-!
# DebugTree — the debug text of a value, on one line or indented

Debug text is a tree: a word, a named group of items in brackets, and a labelled item of such a
group.  `inline` writes it on one line; `indented` gives every item a line of its own, four
spaces deeper than its group and closed by a comma.  A word is never broken.
-/

namespace CallableMembers
namespace Text

inductive Brackets where
  | braces
  | parentheses
  deriving DecidableEq, Repr

namespace Brackets

/-- Braces keep a blank from the name before them. -/
def opening : Brackets → String
  | .braces => " \x7b"
  | .parentheses => "("

def closing : Brackets → String
  | .braces => "\x7d"
  | .parentheses => ")"

/-- What stands between a bracket and the items on one line. -/
def padding : Brackets → String
  | .braces => " "
  | .parentheses => ""

end Brackets

inductive DebugTree where
  | word (text : String)
  | labelled (label : String) (value : DebugTree)
  | group (name : String) (brackets : Brackets) (items : List DebugTree)
  deriving Repr

namespace DebugTree

/-! ## Building trees -/

def number (n : Nat) : DebugTree :=
  .word (toString n)

def quoted (text : String) : DebugTree :=
  .word (Quoted.quote text)

def truth (b : Bool) : DebugTree :=
  .word (toString b)

/-- Named fields in braces. -/
def record (name : String) (fields : List (String × DebugTree)) : DebugTree :=
  .group name .braces (fields.map fun field => .labelled field.1 field.2)

/-- Unnamed items in parentheses. -/
def tuple (name : String) (items : List DebugTree) : DebugTree :=
  .group name .parentheses items

/-- An absent value is the word `None`, a present one the only item of `Some`. -/
def optional : Option DebugTree → DebugTree
  | none => .word "None"
  | some value => tuple "Some" [value]

/-! ## Writing trees -/

mutual

def inline : DebugTree → String
  | .word text => text
  | .labelled label value => label ++ ": " ++ inline value
  | .group name brackets items =>
      name ++ brackets.opening ++ brackets.padding
        ++ String.intercalate ", " (inlineItems items)
        ++ brackets.padding ++ brackets.closing

def inlineItems : List DebugTree → List String
  | [] => []
  | item :: items => inline item :: inlineItems items

end

/-- The start of a line at the given depth. -/
def margin (depth : Nat) : String :=
  "".pushn ' ' (4 * depth)

mutual

/-- The text of a tree whose first line starts at `depth`. -/
def indentedAt (depth : Nat) : DebugTree → String
  | .word text => text
  | .labelled label value => label ++ ": " ++ indentedAt depth value
  | .group name brackets items =>
      name ++ brackets.opening ++ "\n"
        ++ indentedItems (depth + 1) items
        ++ margin depth ++ brackets.closing

def indentedItems (depth : Nat) : List DebugTree → String
  | [] => ""
  | item :: items =>
      margin depth ++ indentedAt depth item ++ ",\n" ++ indentedItems depth items

end

def indented (tree : DebugTree) : String :=
  indentedAt 0 tree

end DebugTree
end Text
end CallableMembers
