/-!
# Character classes

The classes by which a script is split into tokens. Blanks are the characters with
the Unicode property `White_Space`, controls those of category `Cc`; both classes
reach beyond ASCII. Digits and punctuation are ASCII only.
-/

namespace BuildScript.Text

/-- Whether the character has the Unicode property `White_Space`. -/
def isBlank (c : Char) : Bool :=
  let code := c.toNat
  (0x9 ≤ code && code ≤ 0xD) || code == 0x20 || code == 0x85 || code == 0xA0 ||
    code == 0x1680 || (0x2000 ≤ code && code ≤ 0x200A) || code == 0x2028 ||
    code == 0x2029 || code == 0x202F || code == 0x205F || code == 0x3000

/-- Whether the character is a control character, Unicode category `Cc`. -/
def isControl (c : Char) : Bool :=
  let code := c.toNat
  code ≤ 0x1F || (0x7F ≤ code && code ≤ 0x9F)

/-- Whether the character is one of the 32 ASCII punctuation characters. -/
def isAsciiPunctuation (c : Char) : Bool :=
  let code := c.toNat
  (0x21 ≤ code && code ≤ 0x2F) || (0x3A ≤ code && code ≤ 0x40) ||
    (0x5B ≤ code && code ≤ 0x60) || (0x7B ≤ code && code ≤ 0x7E)

def isAsciiDigit (c : Char) : Bool :=
  let code := c.toNat
  0x30 ≤ code && code ≤ 0x39

def isIdentifierPart (c : Char) : Bool :=
  c == '_' || (!isControl c && !isBlank c && !isAsciiPunctuation c)

def isIdentifierStart (c : Char) : Bool :=
  c == '_' || (!isControl c && !isBlank c && !isAsciiPunctuation c && !isAsciiDigit c)

def isLineEnd (c : Char) : Bool :=
  c == '\n' || c == '\r'

end BuildScript.Text
