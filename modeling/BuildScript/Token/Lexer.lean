import BuildScript.Error
import BuildScript.Text.Classes

/-!
# Splitting a script into tokens

A reader stands in a source file and takes one token after another. The first
character decides what a token is; blanks, identifiers, digits and line comments
then run as far as they can, strings and delimited comments to where they close.
A string or comment that never closes ends the reading.
-/

namespace BuildScript

/-- A delimited text that never closes. -/
inductive LexicalFault where
  | unterminatedComment
  | unterminatedString
  deriving DecidableEq, Repr

/-- A token's kind and text, with the text that follows it. -/
structure Lexeme where
  kind : TokenKind
  text : List Char
  rest : List Char
  deriving DecidableEq, Repr

namespace Lexeme

/-- A character with the longest run of a class behind it. -/
def run (kind : TokenKind) (class? : Char → Bool) (c : Char) (cs : List Char) : Lexeme :=
  ⟨kind, c :: cs.takeWhile class?, cs.dropWhile class?⟩

/-- The kind of a word: a keyword if it is spelt like one. -/
def wordKind (word : List Char) : TokenKind :=
  match Keyword.ofSpelling? (String.ofList word) with
  | some keyword => .keyword keyword
  | none => .identifier

def word (c : Char) (cs : List Char) : Lexeme :=
  { run .identifier Text.isIdentifierPart c cs with
    kind := wordKind (c :: cs.takeWhile Text.isIdentifierPart) }

/-- What follows `/*`, cut behind the first `*/`. -/
def commentBody? : List Char → Option (List Char × List Char)
  | [] => none
  | '*' :: '/' :: cs => some (['*', '/'], cs)
  | c :: cs => (commentBody? cs).map fun (body, rest) => (c :: body, rest)

/--
What follows an opening quote, cut behind the closing one. A backslash takes the
character after it into the string, whatever it is.
-/
def stringBody? (quote : Char) (escaped : Bool) : List Char → Option (List Char × List Char)
  | [] => none
  | c :: cs =>
      if c = '\\' then
        (stringBody? quote (!escaped) cs).map fun (body, rest) => (c :: body, rest)
      else if c = quote ∧ escaped = false then some ([c], cs)
      else (stringBody? quote false cs).map fun (body, rest) => (c :: body, rest)

/-- The comment that a slash begins, or the slash alone. -/
def slash : List Char → Except LexicalFault Lexeme
  | '/' :: cs =>
      .ok ⟨.comment .line, '/' :: '/' :: cs.takeWhile (fun c => !Text.isLineEnd c),
        cs.dropWhile (fun c => !Text.isLineEnd c)⟩
  | '*' :: cs =>
      match commentBody? cs with
      | some (body, rest) => .ok ⟨.comment .delimited, '/' :: '*' :: body, rest⟩
      | none => .error .unterminatedComment
  | cs => .ok ⟨.punctuation '/', ['/'], cs⟩

def quoted (quote : Char) (cs : List Char) : Except LexicalFault Lexeme :=
  match stringBody? quote false cs with
  | some (body, rest) => .ok ⟨.stringLiteral, quote :: body, rest⟩
  | none => .error .unterminatedString

def first (c : Char) (cs : List Char) : Except LexicalFault Lexeme :=
  if Text.isBlank c then .ok (run .blanks Text.isBlank c cs)
  else if Text.isIdentifierStart c then .ok (word c cs)
  else if c = '/' then slash cs
  else if c = '"' ∨ c = '\x27' then quoted c cs
  else if Text.isAsciiDigit c then .ok (run .numeric Text.isAsciiDigit c cs)
  else .ok ⟨.punctuation c, [c], cs⟩

/-! ## A token takes a nonempty front of the text -/

theorem commentBody?_append {cs body rest : List Char}
    (found : commentBody? cs = some (body, rest)) : body ++ rest = cs := by
  fun_induction commentBody? cs generalizing body rest with
  | case1 => cases found
  | case2 cs => cases found; rfl
  | case3 c cs _ ih =>
      obtain ⟨⟨inner, after⟩, innerFound, same⟩ := Option.map_eq_some_iff.1 found
      cases same
      rw [List.cons_append, ih innerFound]

theorem stringBody?_append {quote : Char} {escaped : Bool} {cs body rest : List Char}
    (found : stringBody? quote escaped cs = some (body, rest)) : body ++ rest = cs := by
  fun_induction stringBody? quote escaped cs generalizing body rest with
  | case1 => cases found
  | case2 escaped cs ih =>
      obtain ⟨⟨inner, after⟩, innerFound, same⟩ := Option.map_eq_some_iff.1 found
      cases same
      rw [List.cons_append, ih innerFound]
  | case3 => cases found; rfl
  | case4 escaped c cs _ _ ih =>
      obtain ⟨⟨inner, after⟩, innerFound, same⟩ := Option.map_eq_some_iff.1 found
      cases same
      rw [List.cons_append, ih innerFound]

theorem slash_append {cs : List Char} {lexeme : Lexeme} (found : slash cs = .ok lexeme) :
    lexeme.text ++ lexeme.rest = '/' :: cs := by
  unfold slash at found
  split at found
  · cases found
    simp
  · split at found
    · rename_i body rest bodyFound
      cases found
      simp [commentBody?_append bodyFound]
    · cases found
  · cases found
    rfl

theorem quoted_append {quote : Char} {cs : List Char} {lexeme : Lexeme}
    (found : quoted quote cs = .ok lexeme) : lexeme.text ++ lexeme.rest = quote :: cs := by
  unfold quoted at found
  split at found
  · rename_i body rest bodyFound
    cases found
    simp [stringBody?_append bodyFound]
  · cases found

/-- A token and the text after it make up the text. -/
theorem first_append {c : Char} {cs : List Char} {lexeme : Lexeme}
    (found : first c cs = .ok lexeme) : lexeme.text ++ lexeme.rest = c :: cs := by
  unfold first at found
  split at found
  · cases found
    simp [run]
  · split at found
    · cases found
      simp [word, run]
    · split at found
      · rename_i isSlash
        rw [isSlash]
        exact slash_append found
      · split at found
        · exact quoted_append found
        · split at found
          · cases found
            simp [run]
          · cases found
            rfl

/-- A token has a first character. -/
theorem first_text_ne_nil {c : Char} {cs : List Char} {lexeme : Lexeme}
    (found : first c cs = .ok lexeme) : lexeme.text ≠ [] := by
  unfold first at found
  split at found
  · cases found
    simp [run]
  · split at found
    · cases found
      simp [word, run]
    · split at found
      · unfold slash at found
        split at found
        · cases found
          simp
        · split at found
          · cases found
            simp
          · cases found
        · cases found
          simp
      · split at found
        · unfold quoted at found
          split at found
          · cases found
            simp
          · cases found
        · split at found
          · cases found
            simp [run]
          · cases found
            simp

/-- The text after a token is shorter than the text with it. -/
theorem first_rest_length_lt {c : Char} {cs : List Char} {lexeme : Lexeme}
    (found : first c cs = .ok lexeme) : lexeme.rest.length < (c :: cs).length := by
  rw [← first_append found, List.length_append]
  have positive : 0 < lexeme.text.length :=
    List.length_pos_iff.2 (first_text_ne_nil found)
  omega

end Lexeme

/-! ## Reading a file -/

/-- A place in a source file, with the text from there on. -/
structure Reader where
  file : SourceFile
  offset : Nat
  rest : List Char
  deriving DecidableEq, Repr

inductive ReadingEnd where
  | endOfSource
  | fatal (error : LexicalError)
  deriving DecidableEq, Repr

def ReadingEnd.message : ReadingEnd → String
  | .endOfSource => "the iterator argument is at the end of the source code."
  | .fatal _ => "encountered a fatal lexical error that causes the process to stop."

def ReadingEnd.reports : ReadingEnd → List LexicalError
  | .endOfSource => []
  | .fatal error => [error]

/-- The error for a fault at the given place; its span covers the opening characters. -/
def LexicalFault.error (file : SourceFile) (offset : Nat) : LexicalFault → LexicalError
  | .unterminatedComment => .unterminatedComment ⟨file, offset, offset + 2⟩
  | .unterminatedString => .unterminatedString ⟨file, offset, offset + 1⟩

structure Lexing where
  tokens : List Token
  ending : ReadingEnd
  reader : Reader
  deriving DecidableEq, Repr

namespace Reader

def ofFile (file : SourceFile) : Reader :=
  ⟨file, 0, file.chars⟩

def peek? (reader : Reader) : Option (Nat × Char) :=
  reader.rest.head?.map fun c => (reader.offset, c)

def characters (reader : Reader) : List (Nat × Char) :=
  Text.withOffsets reader.offset reader.rest

def advance (reader : Reader) (text rest : List Char) : Reader :=
  ⟨reader.file, reader.offset + Text.byteLength text, rest⟩

def walk (class? : Char → Bool) (reader : Reader) : Reader :=
  reader.advance (reader.rest.takeWhile class?) (reader.rest.dropWhile class?)

def atEnd (reader : Reader) : Reader :=
  reader.advance reader.rest []

/-- The next token, and the reader behind it; behind a fault nothing is left. -/
def next (reader : Reader) : Except ReadingEnd Token × Reader :=
  match reader.rest with
  | [] => (.error .endOfSource, reader)
  | c :: cs =>
      match Lexeme.first c cs with
      | .error fault => (.error (.fatal (fault.error reader.file reader.offset)), reader.atEnd)
      | .ok lexeme =>
          (.ok ⟨lexeme.kind,
            ⟨reader.file, reader.offset, reader.offset + Text.byteLength lexeme.text⟩⟩,
            reader.advance lexeme.text lexeme.rest)

/-- Behind a token less text is left. -/
theorem next_rest_length_lt {reader after : Reader} {token : Token}
    (taken : reader.next = (.ok token, after)) : after.rest.length < reader.rest.length := by
  unfold next at taken
  split at taken
  · cases taken
  · rename_i c cs restEq
    split at taken
    · cases taken
    · rename_i lexeme found
      cases taken
      rw [restEq]
      exact Lexeme.first_rest_length_lt found

/-- All tokens up to the end of the file or to a fault. -/
def tokens (reader : Reader) : Lexing :=
  match _taken : reader.next with
  | (.error ending, after) => ⟨[], ending, after⟩
  | (.ok token, after) =>
      let lexing := after.tokens
      ⟨token :: lexing.tokens, lexing.ending, lexing.reader⟩
termination_by reader.rest.length
decreasing_by exact next_rest_length_lt ‹_›

end Reader

def SourceFile.lex (file : SourceFile) : Lexing :=
  (Reader.ofFile file).tokens

end BuildScript
