import CallableMembers.Text.Hex

/-!
# Quoted — a string as a literal in debug text

A literal stands between double quotes.  The quote, the backslash and the five control characters
with a name of their own are written as two characters, every other control character by its
code point, and all else as it is; an apostrophe needs no escape.
-/

namespace CallableMembers
namespace Text
namespace Quoted

/-- The control characters of Unicode: the two ranges of 32 code points each, and `DEL`. -/
def isControl (c : Char) : Bool :=
  c.toNat < 0x20 || (0x7f ≤ c.toNat && c.toNat < 0xa0)

def escape (c : Char) : String :=
  if c = '"' then "\\\""
  else if c = '\\' then "\\\\"
  else if c = '\n' then "\\n"
  else if c = '\r' then "\\r"
  else if c = '\t' then "\\t"
  else if c = '\x00' then "\\0"
  else if isControl c then "\\u\x7b" ++ Hex.compact c.toNat ++ "\x7d"
  else c.toString

/-- The literal that stands for `text`. -/
def quote (text : String) : String :=
  "\"" ++ String.join (text.toList.map escape) ++ "\""

end Quoted
end Text
end CallableMembers
