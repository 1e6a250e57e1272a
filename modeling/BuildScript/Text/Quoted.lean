import BuildScript.Text.Printable

/-!
# Quoted text

Text between quotes with everything escaped that cannot be seen: a few characters
have an escape of their own, other characters without a glyph are written by code
point. The quote that encloses the text is escaped too, the other one is not.
-/

namespace BuildScript.Text

def hexadecimal (n : Nat) : List Char :=
  Nat.toDigits 16 n

/-- A character as it is written between the given quotes. -/
def escaped (quote c : Char) : List Char :=
  if c = quote ∨ c = '\\' then ['\\', c]
  else if c = '\x00' then ['\\', '0']
  else if c = '\t' then ['\\', 't']
  else if c = '\n' then ['\\', 'n']
  else if c = '\r' then ['\\', 'r']
  else if isPrintable c then [c]
  else '\\' :: 'u' :: '{' :: (hexadecimal c.toNat ++ ['}'])

def quotedBy (quote : Char) (cs : List Char) : String :=
  String.ofList (quote :: (cs.flatMap (escaped quote) ++ [quote]))

def quotedString (text : String) : String :=
  quotedBy '"' text.toList

def quotedChar (c : Char) : String :=
  quotedBy '\x27' [c]

end BuildScript.Text
