import BuildScript.Text.Bytes
import BuildScript.Path

/-!
# Source files

A script's text with the path it was read from. A line ends at `\n`, at `\r\n` or at
a `\r` that no `\n` follows, and keeps its terminator; the text after the last
terminator is a line too, even when it is empty. The table of the lines is made in
one run over the text, and searched by halves for the line around an offset. A
location counts lines and columns from one, and columns count characters.
-/

namespace BuildScript

/--
A script's text and where it came from. Every reading of a text makes a file of its
own, told apart from others by its number.
-/
structure SourceFile where
  /-- The number of this reading. -/
  number : Nat
  /-- The path that diagnostics show. -/
  path : String
  /-- The name under which the text was given. -/
  identifier : String
  chars : List Char
  deriving DecidableEq, Repr

/-- A half-open range of byte offsets. -/
structure ByteRange where
  start : Nat
  stop : Nat
  deriving DecidableEq, Repr

def ByteRange.contains (range : ByteRange) (offset : Nat) : Bool :=
  range.start ≤ offset && offset < range.stop

/-- Whether the range lies before the offset, around it or behind it. -/
def ByteRange.order (offset : Nat) (range : ByteRange) : Ordering :=
  if range.contains offset then .eq
  else if offset < range.start then .gt
  else .lt

/-- Searches ordered ranges by halves, from the place `low` up to `high`. -/
def ByteRange.searchBetween (offset : Nat) (ranges : List ByteRange) (low high : Nat)
    (bound : high ≤ ranges.length) : Option Nat :=
  if goes : low < high then
    let middle := low + (high - low) / 2
    have inside : middle < ranges.length := by omega
    match ranges[middle].order offset with
    | .eq => some middle
    | .lt => searchBetween offset ranges (middle + 1) high bound
    | .gt => searchBetween offset ranges low middle (Nat.le_of_lt inside)
  else none
termination_by high - low

def ByteRange.search (offset : Nat) (ranges : List ByteRange) : Option Nat :=
  searchBetween offset ranges 0 ranges.length (Nat.le_refl _)

/-- A line and a column, both counted from one. -/
structure Location where
  line : Nat
  column : Nat
  deriving DecidableEq, Repr

namespace Text

/--
The byte ranges of the lines of a text that goes on at `offset`, in a line that began at
`start`. The `\n` of a `\r\n` is skipped, since the line has ended with the `\r`.
-/
def lineRangesFrom (start offset : Nat) (skip : Bool) : List Char → List ByteRange
  | [] => [⟨start, offset⟩]
  | c :: cs =>
      if skip then lineRangesFrom start (offset + c.utf8Size) false cs
      else if c = '\n' then ⟨start, offset + 1⟩ :: lineRangesFrom (offset + 1) (offset + 1) false cs
      else if c = '\r' then
        if cs.head? = some '\n' then
          ⟨start, offset + 2⟩ :: lineRangesFrom (offset + 2) (offset + 1) true cs
        else ⟨start, offset + 1⟩ :: lineRangesFrom (offset + 1) (offset + 1) false cs
      else lineRangesFrom start (offset + c.utf8Size) false cs

/-- The number of characters that start before the offset, `start` being the first one's. -/
def countBefore (start offset : Nat) : List Char → Nat
  | [] => 0
  | c :: cs => if start < offset then countBefore (start + c.utf8Size) offset cs + 1 else 0

end Text

namespace SourceFile

def ofText (number : Nat) (identifier content : String) : SourceFile :=
  ⟨number, identifier, identifier, content.toList⟩

def content (file : SourceFile) : String :=
  String.ofList file.chars

def byteLength (file : SourceFile) : Nat :=
  Text.byteLength file.chars

def lineRanges (file : SourceFile) : List ByteRange :=
  Text.lineRangesFrom 0 0 false file.chars

def lineCount (file : SourceFile) : Nat :=
  file.lineRanges.length

/-- The text of a line, counted from one. -/
def line? (file : SourceFile) : Nat → Option String
  | 0 => none
  | index + 1 =>
      (file.lineRanges[index]?).map fun range =>
        String.ofList (Text.slice range.start range.stop file.chars)

/-- The line and column of a byte offset at which a character of the text starts. -/
def location? (file : SourceFile) (offset : Nat) : Option Location :=
  if Text.isBoundary offset file.chars then
    match ByteRange.search offset file.lineRanges with
    | none => none
    | some index =>
        (file.lineRanges[index]?).map fun range =>
          ⟨index + 1,
            Text.countBefore range.start offset (Text.slice range.start range.stop file.chars) + 1⟩
  else none

/-- The file's path as seen from the working directory, if the path is absolute. -/
def relativePath? (file : SourceFile) (workingDirectory : String) : Option String :=
  Path.relativeTo? file.path workingDirectory

end SourceFile

/-! ## Spans -/

/-- A stretch of a source file, as byte offsets. -/
structure Span where
  file : SourceFile
  start : Nat
  stop : Nat
  deriving DecidableEq, Repr

namespace Span

/-- The span between two offsets, if both are boundaries and in order. -/
def make? (file : SourceFile) (start stop : Nat) : Option Span :=
  if start ≤ stop ∧ stop ≤ file.byteLength ∧ Text.isBoundary start file.chars ∧
      Text.isBoundary stop file.chars then
    some ⟨file, start, stop⟩
  else none

def chars (span : Span) : List Char :=
  Text.slice span.start span.stop span.file.chars

def text (span : Span) : String :=
  String.ofList span.chars

def location? (span : Span) : Option Location :=
  span.file.location? span.start

/-- The span from the start of one span to the stop of another in the same file. -/
def join? (first last : Span) : Option Span :=
  if first.file.number = last.file.number ∧ first.start ≤ last.stop then
    some ⟨first.file, first.start, last.stop⟩
  else none

/-- The order of two spans of one file: by start, then by stop. -/
def order (first second : Span) : Ordering :=
  (compare first.start second.start).then (compare first.stop second.stop)

end Span

end BuildScript
