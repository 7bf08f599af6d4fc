import StakedCommittee.Bytes
import StakedCommittee.Text.Extending
import StakedCommittee.Text.Unprintable

/-! Quoted text for diagnostics. Quotes and backslashes are escaped, the usual control characters
have short escapes, and every other character that would not be seen on its own is written by its
code point. -/

namespace StakedCommittee.Text

/-- A character as it stands between quotes. -/
def quotedChar (c : Char) : String :=
  if c = '\x00' then "\\0"
  else if c = '\t' then "\\t"
  else if c = '\n' then "\\n"
  else if c = '\r' then "\\r"
  else if c = '"' then "\\\""
  else if c = '\\' then "\\\\"
  else if isExtending c || isUnprintable c then "\\u\x7b" ++ hexNumber c.toNat ++ "\x7d"
  else String.singleton c

/-- A text between quotes. -/
def quoted (s : String) : String :=
  "\"" ++ String.join (s.toList.map quotedChar) ++ "\""

end StakedCommittee.Text
