import Intercept.Text.Hidden

/-!
# Intercept.Text.Quoted

Texts in quotes for messages that a person reads: a quote, a backslash and
everything that does not show by itself is escaped, so that the message stays
on one line and says exactly what it quotes.
-/

namespace Intercept.Text

private def lowerHex (n : Nat) : List Char := Nat.toDigits 16 n

/-- A character as it stands inside the quotes. -/
def escapeChar (c : Char) : List Char :=
  if c = '\x00' then ['\\', '0']
  else if c = '\t' then ['\\', 't']
  else if c = '\r' then ['\\', 'r']
  else if c = '\n' then ['\\', 'n']
  else if c = '"' then ['\\', '"']
  else if c = '\\' then ['\\', '\\']
  else if c.toNat < 32 ∨ c.toNat = 127 ∨ isHidden c then
    ['\\', 'u', '\x7b'] ++ lowerHex c.toNat ++ ['\x7d']
  else [c]

/-- A text in quotes. -/
def quoted (s : String) : String := String.ofList ('"' :: s.toList.flatMap escapeChar ++ ['"'])

end Intercept.Text
