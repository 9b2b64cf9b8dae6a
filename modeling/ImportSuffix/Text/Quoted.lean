import ImportSuffix.Text.Printable

/-!
# Quoted texts

A text between double quotes, with the quote, the backslash and every character
that is not printable escaped, and a list of such texts between brackets.
-/

namespace ImportSuffix.Quoted

/-- The hexadecimal digits of a number, in lower case and without leading
zeros. -/
def hex (n : Nat) : Text :=
  Nat.toDigits 16 n

def escape (c : Char) : Text :=
  if c = '"' then ['\\', '"']
  else if c = '\\' then ['\\', '\\']
  else if c = '\n' then ['\\', 'n']
  else if c = '\r' then ['\\', 'r']
  else if c = '\t' then ['\\', 't']
  else if c = '\x00' then ['\\', '0']
  else if isPrintable c then [c]
  else ['\\', 'u', '{'] ++ hex c.toNat ++ ['}']

def quote (text : Text) : Text :=
  '"' :: (text.flatMap escape ++ ['"'])

/-- Quoted texts between brackets, with a comma and a space between two. -/
def list (texts : List Text) : Text :=
  '[' :: ([',', ' '].intercalate (texts.map quote) ++ [']'])

end ImportSuffix.Quoted
