import Disasm.Text.Combining
import Disasm.Text.Ignorable
import Disasm.Text.Unprintable
/-!
# Quoted characters and texts

The form in which a character or a text is shown inside a message: between
quotes, with the quote, the backslash and every character that could not be
seen there escaped. Such are the characters without a mark of their own, those
that may be left undrawn, and the marks that would join the one before.
-/

namespace Disasm

namespace Text

/-- Whether a character is shown by its number: it cannot be seen, or not
apart from its neighbour. The marks of ASCII never are. -/
def isHidden (c : Char) : Bool :=
  !(decide (0x20 ≤ c.toNat) && decide (c.toNat < 0x7f)) &&
    (isCombining c || isIgnorable c || isUnprintable c)

/-- How `c` is written between two of the given quotes. -/
def escaped (quote c : Char) : String :=
  if c = quote ∨ c = '\\' then String.ofList ['\\', c]
  else if c = '\x00' then "\\0"
  else if c = '\t' then "\\t"
  else if c = '\n' then "\\n"
  else if c = '\r' then "\\r"
  else if isHidden c then
    "\\u\x7b" ++ String.ofList (Nat.toDigits 16 c.toNat) ++ "\x7d"
  else c.toString

/-- A character between apostrophes. -/
def quotedChar (c : Char) : String :=
  "'" ++ escaped '\'' c ++ "'"

/-- A text between quotation marks. -/
def quoted (text : String) : String :=
  "\"" ++ String.join (text.toList.map (escaped '"')) ++ "\""

end Text

end Disasm
