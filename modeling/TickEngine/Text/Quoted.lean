/-
  Quoted text.

  `quoted` writes a text between double quotes: quotes and backslashes behind
  a backslash, the usual letters for tab, line feed, carriage return and the
  null character, and other characters that do not show by themselves by their
  number.
-/
import TickEngine.Text.Unprintable

namespace TickEngine.Text

/-- The escape of a character by its number, in as many digits as it has. -/
def numbered (c : Char) : List Char :=
  "\\u\x7b".toList ++ Nat.toDigits 16 c.toNat ++ "\x7d".toList

/-- A character inside quotes. -/
def escape (c : Char) : List Char :=
  if c = '"' ∨ c = '\\' then ['\\', c]
  else if c = '\t' then ['\\', 't']
  else if c = '\n' then ['\\', 'n']
  else if c = '\r' then ['\\', 'r']
  else if c = '\x00' then ['\\', '0']
  else if isUnprintable c then numbered c
  else [c]

/-- The text between quotes. -/
def quoted (s : String) : String := String.ofList ('"' :: s.toList.flatMap escape ++ ['"'])

end TickEngine.Text
