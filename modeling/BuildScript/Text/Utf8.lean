/-!
# Reading UTF-8

A byte sequence is checked against the UTF-8 encoding form from its start. The
first sequence that is not well formed is reported with its offset and with the
number of bytes that already rule it out, or as cut short when the input ends
inside it.
-/

namespace BuildScript.Text

inductive Utf8Fault where
  /-- The `count` bytes from `index` on begin no character. -/
  | invalid (count index : Nat)
  /-- The input ends inside the character that begins at `index`. -/
  | incomplete (index : Nat)
  deriving DecidableEq, Repr

def Utf8Fault.message : Utf8Fault → String
  | .invalid count index => s!"invalid utf-8 sequence of {count} bytes from index {index}"
  | .incomplete index => s!"incomplete utf-8 byte sequence from index {index}"

def isContinuation (byte : UInt8) : Bool :=
  0x80 ≤ byte && byte ≤ 0xBF

/-- Whether the byte may follow `lead` as the second byte of a longer character. -/
def isSecondByte (lead byte : UInt8) : Bool :=
  if lead == 0xE0 then 0xA0 ≤ byte && byte ≤ 0xBF
  else if lead == 0xED then 0x80 ≤ byte && byte ≤ 0x9F
  else if lead == 0xF0 then 0x90 ≤ byte && byte ≤ 0xBF
  else if lead == 0xF4 then 0x80 ≤ byte && byte ≤ 0x8F
  else isContinuation byte

/-- How many bytes follow the leading byte of a character, if it can lead one. -/
def followerCount? (lead : UInt8) : Option Nat :=
  if lead ≤ 0x7F then some 0
  else if 0xC2 ≤ lead && lead ≤ 0xDF then some 1
  else if 0xE0 ≤ lead && lead ≤ 0xEF then some 2
  else if 0xF0 ≤ lead && lead ≤ 0xF4 then some 3
  else none

/-- Where a reader stands between two bytes of a character. -/
structure Utf8Pending where
  /-- The offset of the character's first byte. -/
  start : Nat
  /-- How many bytes of the character were read. -/
  seen : Nat
  /-- How many bytes the character still needs. -/
  owed : Nat
  lead : UInt8
  deriving Repr

/-- The first fault of the bytes from offset `index` on, inside or between characters. -/
def utf8Fault? (index : Nat) : Option Utf8Pending → List UInt8 → Option Utf8Fault
  | none, [] => none
  | some pending, [] => some (.incomplete pending.start)
  | none, byte :: bytes =>
      match followerCount? byte with
      | none => some (.invalid 1 index)
      | some 0 => utf8Fault? (index + 1) none bytes
      | some (owed + 1) => utf8Fault? (index + 1) (some ⟨index, 1, owed + 1, byte⟩) bytes
  | some pending, byte :: bytes =>
      let fits :=
        if pending.seen == 1 then isSecondByte pending.lead byte else isContinuation byte
      if fits then
        if pending.owed ≤ 1 then utf8Fault? (index + 1) none bytes
        else
          utf8Fault? (index + 1)
            (some { pending with seen := pending.seen + 1, owed := pending.owed - 1 }) bytes
      else some (.invalid pending.seen pending.start)

def decodeUtf8 (bytes : ByteArray) : Except Utf8Fault String :=
  match utf8Fault? 0 none bytes.toList with
  | some fault => .error fault
  | none => .ok ((String.fromUTF8? bytes).getD "")

end BuildScript.Text
