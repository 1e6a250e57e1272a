import BuildScript.Token.Lexer
import Mathlib.Data.List.Chain

/-!
# Lexing loses nothing

The tokens of a file lie side by side. The invariant of the reader is that it stands
behind a front of the text, with the bytes of that front as its offset; one step
moves the front over a whole token, and a whole reading is a chain of such steps.
From that chain follow where every token lies, that the texts of the tokens make up
the text, and what an unterminated string or comment is blamed for.
-/

namespace BuildScript

/-! ## Parts of a text -/

namespace Text

/-- The end of a part is a boundary. -/
theorem isBoundary_append (front back : List Char) :
    isBoundary (byteLength front) (front ++ back) = true := by
  induction front with
  | nil => cases back <;> rfl
  | cons c cs ih =>
      have positive : 0 < c.utf8Size := Char.utf8Size_pos c
      obtain ⟨rest, total⟩ : ∃ rest, c.utf8Size + byteLength cs = rest + 1 :=
        ⟨c.utf8Size + byteLength cs - 1, by omega⟩
      rw [byteLength_cons, total, List.cons_append, isBoundary]
      rw [show rest + 1 - c.utf8Size = byteLength cs by omega, ih, Bool.and_true]
      exact decide_eq_true (by omega)

/-- Only the empty text takes no bytes. -/
theorem byteLength_pos {cs : List Char} (nonempty : cs ≠ []) : 0 < byteLength cs := by
  cases cs with
  | nil => exact absurd rfl nonempty
  | cons c cs =>
      have positive : 0 < c.utf8Size := Char.utf8Size_pos c
      rw [byteLength_cons]
      omega

end Text

theorem Span.make?_eq_some_iff {file : SourceFile} {start stop : Nat} {span : Span} :
    Span.make? file start stop = some span ↔
      span = ⟨file, start, stop⟩ ∧ start ≤ stop ∧ stop ≤ file.byteLength ∧
        Text.isBoundary start file.chars = true ∧ Text.isBoundary stop file.chars = true := by
  rw [make?]
  split
  · rename_i fits
    constructor
    · intro same
      exact ⟨(Option.some.inj same).symm, fits⟩
    · rintro ⟨rfl, _⟩
      rfl
  · rename_i fails
    constructor
    · intro impossible
      cases impossible
    · rintro ⟨_, fits⟩
      exact absurd fits fails

/-- The span of a part of the text that stands behind the given front. -/
def SourceFile.part (file : SourceFile) (front middle : List Char) : Span :=
  ⟨file, Text.byteLength front, Text.byteLength front + Text.byteLength middle⟩

namespace SourceFile

variable {file : SourceFile} {front middle back : List Char}

@[simp]
theorem part_start : (file.part front middle).start = Text.byteLength front := rfl

@[simp]
theorem part_stop :
    (file.part front middle).stop = Text.byteLength front + Text.byteLength middle := rfl

@[simp]
theorem part_file : (file.part front middle).file = file := rfl

/-- The span of a part has the part's characters. -/
theorem part_chars (text : file.chars = front ++ (middle ++ back)) :
    (file.part front middle).chars = middle := by
  rw [Span.chars, part_file, part_start, part_stop, text, Text.slice_append]

/-- Both ends of a part are boundaries of the text. -/
theorem part_make? (text : file.chars = front ++ (middle ++ back)) :
    Span.make? file (file.part front middle).start (file.part front middle).stop =
      some (file.part front middle) := by
  have bound : Text.byteLength front + Text.byteLength middle ≤ file.byteLength := by
    rw [byteLength, text, Text.byteLength_append, Text.byteLength_append]
    omega
  have startBoundary : Text.isBoundary (Text.byteLength front) file.chars = true := by
    rw [text]
    exact Text.isBoundary_append front (middle ++ back)
  have stopBoundary :
      Text.isBoundary (Text.byteLength front + Text.byteLength middle) file.chars = true := by
    rw [text, ← List.append_assoc, ← Text.byteLength_append]
    exact Text.isBoundary_append (front ++ middle) back
  rw [part_start, part_stop, Span.make?,
    if_pos ⟨Nat.le_add_right _ _, bound, startBoundary, stopBoundary⟩]
  rfl

end SourceFile

/-! ## One step of the reader -/

/-- The reader has passed exactly the given front of its file's text. -/
structure Reader.Behind (reader : Reader) (front : List Char) : Prop where
  text : reader.file.chars = front ++ reader.rest
  offset : reader.offset = Text.byteLength front

namespace Reader.Behind

/-- A reader at the start of a file has passed nothing. -/
theorem ofFile (file : SourceFile) : (Reader.ofFile file).Behind [] :=
  ⟨rfl, rfl⟩

variable {reader : Reader} {front : List Char}

/-- Passing a piece of the text in front moves the reader behind that piece. -/
theorem advance (behind : reader.Behind front) {piece rest : List Char}
    (split : piece ++ rest = reader.rest) :
    (reader.advance piece rest).Behind (front ++ piece) := by
  refine ⟨?_, ?_⟩
  · change reader.file.chars = front ++ piece ++ rest
    rw [behind.text, ← split, List.append_assoc]
  · change reader.offset + Text.byteLength piece = Text.byteLength (front ++ piece)
    rw [behind.offset, Text.byteLength_append]

/-- A reader that skips to the end has passed the whole text. -/
theorem atEnd (behind : reader.Behind front) : reader.atEnd.Behind reader.file.chars := by
  have moved := behind.advance (List.append_nil reader.rest)
  rwa [← behind.text] at moved

end Reader.Behind

/-- The opening characters of a text that a fault leaves unterminated. -/
inductive LexicalFault.Opening : LexicalFault → List Char → Prop where
  | comment : Opening .unterminatedComment ['/', '*']
  | doubleQuote : Opening .unterminatedString ['"']
  | singleQuote : Opening .unterminatedString ['\x27']

namespace Lexeme

/-- What the first token of a text is, or which fault there is, by its first characters. -/
inductive Begins (c : Char) (cs : List Char) : Except LexicalFault Lexeme → Prop where
  | blanks (blank : Text.isBlank c = true) : Begins c cs (.ok (run .blanks Text.isBlank c cs))
  | word (solid : ¬Text.isBlank c = true) (start : Text.isIdentifierStart c = true) :
      Begins c cs (.ok (word c cs))
  | lineComment {line : List Char} (slash : c = '/') (text : cs = '/' :: line) :
      Begins c cs (.ok ⟨.comment .line, '/' :: '/' :: line.takeWhile (fun c => !Text.isLineEnd c),
        line.dropWhile (fun c => !Text.isLineEnd c)⟩)
  | delimitedComment {inside body rest : List Char} (slash : c = '/') (text : cs = '*' :: inside)
      (closed : commentBody? inside = some (body, rest)) :
      Begins c cs (.ok ⟨.comment .delimited, '/' :: '*' :: body, rest⟩)
  | unclosedComment {inside : List Char} (slash : c = '/') (text : cs = '*' :: inside)
      (unclosed : commentBody? inside = none) : Begins c cs (.error .unterminatedComment)
  | slash (slash : c = '/') (notLine : ∀ line, cs ≠ '/' :: line)
      (notDelimited : ∀ inside, cs ≠ '*' :: inside) :
      Begins c cs (.ok ⟨.punctuation '/', ['/'], cs⟩)
  | string {body rest : List Char} (quote : c = '"' ∨ c = '\x27')
      (closed : stringBody? c false cs = some (body, rest)) :
      Begins c cs (.ok ⟨.stringLiteral, c :: body, rest⟩)
  | unclosedString (quote : c = '"' ∨ c = '\x27') (unclosed : stringBody? c false cs = none) :
      Begins c cs (.error .unterminatedString)
  | number (digit : Text.isAsciiDigit c = true) :
      Begins c cs (.ok (run .numeric Text.isAsciiDigit c cs))
  | punctuation (solid : ¬Text.isBlank c = true) (notStart : ¬Text.isIdentifierStart c = true)
      (notSlash : c ≠ '/') (notQuote : ¬(c = '"' ∨ c = '\x27'))
      (notDigit : ¬Text.isAsciiDigit c = true) : Begins c cs (.ok ⟨.punctuation c, [c], cs⟩)

theorem slash_begins {c : Char} (isSlash : c = '/') (cs : List Char) :
    Begins c cs (slash cs) := by
  unfold slash
  split
  · exact .lineComment isSlash rfl
  · split
    · rename_i closed
      exact .delimitedComment isSlash rfl closed
    · rename_i unclosed
      exact .unclosedComment isSlash rfl unclosed
  · rename_i notLine notDelimited
    exact .slash isSlash notLine notDelimited

theorem quoted_begins {c : Char} (isQuote : c = '"' ∨ c = '\x27') (cs : List Char) :
    Begins c cs (quoted c cs) := by
  unfold quoted
  split
  · rename_i closed
    exact .string isQuote closed
  · rename_i unclosed
    exact .unclosedString isQuote unclosed

theorem first_begins (c : Char) (cs : List Char) : Begins c cs (first c cs) := by
  unfold first
  by_cases blank : Text.isBlank c = true
  · rw [if_pos blank]
    exact .blanks blank
  rw [if_neg blank]
  by_cases start : Text.isIdentifierStart c = true
  · rw [if_pos start]
    exact .word blank start
  rw [if_neg start]
  by_cases isSlash : c = '/'
  · rw [if_pos isSlash]
    exact slash_begins isSlash cs
  rw [if_neg isSlash]
  by_cases isQuote : c = '"' ∨ c = '\x27'
  · rw [if_pos isQuote]
    exact quoted_begins isQuote cs
  rw [if_neg isQuote]
  by_cases digit : Text.isAsciiDigit c = true
  · rw [if_pos digit]
    exact .number digit
  · rw [if_neg digit]
    exact .punctuation blank start isSlash isQuote digit

/-- A word is an identifier or a keyword. -/
theorem word_kind_cases (c : Char) (cs : List Char) :
    (word c cs).kind = .identifier ∨ ∃ keyword, (word c cs).kind = .keyword keyword := by
  rw [word, wordKind]
  split
  · exact .inr ⟨_, rfl⟩
  · exact .inl rfl

/-- A fault stands behind the characters that open the unterminated text. -/
theorem first_error_opening {c : Char} {cs : List Char} {fault : LexicalFault}
    (failed : first c cs = .error fault) :
    ∃ opening rest, fault.Opening opening ∧ c :: cs = opening ++ rest := by
  have begins := first_begins c cs
  rw [failed] at begins
  cases begins with
  | unclosedComment slash text unclosed =>
      subst slash text
      exact ⟨_, _, .comment, rfl⟩
  | unclosedString quote unclosed =>
      rcases quote with rfl | rfl
      · exact ⟨_, cs, .doubleQuote, rfl⟩
      · exact ⟨_, cs, .singleQuote, rfl⟩

end Lexeme

/-! ## A whole reading -/

/-- Tokens that a reader takes one after another on its way between two places of the text. -/
inductive SourceFile.Reads (file : SourceFile) : List Char → List Token → List Char → Prop where
  | done (front : List Char) : Reads file front [] front
  | token {front cs last : List Char} {c : Char} {lexeme : Lexeme} {tokens : List Token}
      (text : file.chars = front ++ c :: cs) (found : Lexeme.first c cs = .ok lexeme)
      (later : Reads file (front ++ lexeme.text) tokens last) :
      Reads file front (⟨lexeme.kind, file.part front lexeme.text⟩ :: tokens) last

inductive Reader.Ends (file : SourceFile) (front : List Char) : ReadingEnd → Prop where
  | endOfSource (text : file.chars = front) : Ends file front .endOfSource
  | fatal {fault : LexicalFault} {opening back : List Char} (opens : fault.Opening opening)
      (text : file.chars = front ++ (opening ++ back)) :
      Ends file front (.fatal (fault.error file (Text.byteLength front)))

/-- One step: the reader takes the token in front of it, or the reading ends. -/
theorem Reader.next_cases {reader after : Reader} {front : List Char}
    {taken : Except ReadingEnd Token} (behind : reader.Behind front)
    (step : reader.next = (taken, after)) :
    (∃ c cs lexeme, reader.file.chars = front ++ c :: cs ∧ Lexeme.first c cs = .ok lexeme ∧
      taken = .ok ⟨lexeme.kind, reader.file.part front lexeme.text⟩ ∧
      after.file = reader.file ∧ after.Behind (front ++ lexeme.text)) ∨
    (∃ ending, taken = .error ending ∧ Reader.Ends reader.file front ending ∧
      after.file = reader.file ∧ after.Behind reader.file.chars ∧ after.rest = []) := by
  unfold Reader.next at step
  split at step
  · rename_i empty
    cases step
    have whole : reader.file.chars = front := by
      rw [behind.text, empty, List.append_nil]
    exact .inr ⟨_, rfl, .endOfSource whole, rfl, whole ▸ behind, empty⟩
  · rename_i c cs restEq
    split at step
    · rename_i fault failed
      cases step
      obtain ⟨opening, back, opens, split⟩ := Lexeme.first_error_opening failed
      refine .inr ⟨_, rfl, ?_, rfl, behind.atEnd, rfl⟩
      rw [behind.offset]
      exact .fatal opens (by rw [behind.text, restEq, split])
    · rename_i lexeme found
      cases step
      refine .inl ⟨c, cs, lexeme, by rw [behind.text, restEq], found, ?_, rfl, ?_⟩
      · rw [behind.offset]
        rfl
      · exact behind.advance ((Lexeme.first_append found).trans restEq.symm)

theorem Reader.tokens_of_error {reader after : Reader} {ending : ReadingEnd}
    (step : reader.next = (.error ending, after)) : reader.tokens = ⟨[], ending, after⟩ := by
  rw [Reader.tokens]
  split
  · rename_i taken
    cases step.symm.trans taken
    rfl
  · rename_i taken
    cases step.symm.trans taken

theorem Reader.tokens_of_ok {reader after : Reader} {token : Token}
    (step : reader.next = (.ok token, after)) :
    reader.tokens = ⟨token :: after.tokens.tokens, after.tokens.ending, after.tokens.reader⟩ := by
  rw [Reader.tokens]
  split
  · rename_i taken
    cases step.symm.trans taken
  · rename_i taken
    cases step.symm.trans taken
    rfl

/-- A whole run: tokens are read one after another until the reading ends. -/
theorem Reader.tokens_reads (reader : Reader) {front : List Char} (behind : reader.Behind front) :
    ∃ last, reader.file.Reads front reader.tokens.tokens last ∧
      Reader.Ends reader.file last reader.tokens.ending ∧
      reader.tokens.reader.file = reader.file ∧
      reader.tokens.reader.Behind reader.file.chars ∧ reader.tokens.reader.rest = [] := by
  induction reader using Reader.tokens.induct generalizing front with
  | case1 reader ending after step =>
      rw [Reader.tokens_of_error step]
      rcases Reader.next_cases behind step with ⟨_, _, _, _, _, impossible, _⟩ | ⟨_, same, rest⟩
      · cases impossible
      · cases same
        exact ⟨front, .done front, rest⟩
  | case2 reader token after step ih =>
      rw [Reader.tokens_of_ok step]
      rcases Reader.next_cases behind step with
        ⟨c, cs, lexeme, text, found, same, fileEq, moved⟩ | ⟨_, impossible, _⟩
      · cases same
        obtain ⟨last, reads, rest⟩ := ih moved
        rw [fileEq] at reads rest
        exact ⟨last, .token text found reads, rest⟩
      · cases impossible

/-- The tokens of a file are read from its start on. -/
theorem SourceFile.lex_reads (file : SourceFile) :
    ∃ last, file.Reads [] file.lex.tokens last ∧ Reader.Ends file last file.lex.ending ∧
      file.lex.reader.file = file ∧ file.lex.reader.Behind file.chars ∧
      file.lex.reader.rest = [] :=
  Reader.tokens_reads (Reader.ofFile file) (Reader.Behind.ofFile file)

namespace SourceFile.Reads

variable {file : SourceFile} {front last : List Char} {tokens : List Token}

/-- Every token is the first one of some rest of the text. -/
theorem mem_cases (reads : file.Reads front tokens last) {token : Token} (mem : token ∈ tokens) :
    ∃ before c cs lexeme, file.chars = before ++ c :: cs ∧ Lexeme.first c cs = .ok lexeme ∧
      token = ⟨lexeme.kind, file.part before lexeme.text⟩ := by
  induction reads with
  | done => cases mem
  | @token front cs last c lexeme tokens text found later ih =>
      rcases List.mem_cons.1 mem with same | inLater
      · exact ⟨front, c, cs, lexeme, text, found, same⟩
      · exact ih inLater

/-- The texts of the tokens lie between the two places. -/
theorem texts (reads : file.Reads front tokens last) :
    front ++ tokens.flatMap (fun token => token.span.chars) = last := by
  induction reads with
  | done front => exact List.append_nil front
  | @token front cs last c lexeme tokens text found later ih =>
      have chars : (file.part front lexeme.text).chars = lexeme.text :=
        part_chars (by rw [text, ← Lexeme.first_append found])
      rw [List.flatMap_cons, chars, ← List.append_assoc]
      exact ih

/-- The first token starts where the reading starts. -/
theorem head_start (reads : file.Reads front tokens last) :
    ∀ token ∈ tokens.head?, token.span.start = Text.byteLength front := by
  intro token isHead
  cases reads with
  | done => cases isHead
  | token text found later =>
      cases isHead
      rfl

/-- The reading stops where the last token stops. -/
theorem getLast_stop (reads : file.Reads front tokens last) :
    (tokens.getLast?.map fun token => token.span.stop).getD (Text.byteLength front) =
      Text.byteLength last := by
  induction reads with
  | done => rfl
  | @token front cs last c lexeme tokens text found later ih =>
      rw [Text.byteLength_append] at ih
      rw [List.getLast?_cons, ← ih]
      cases tokens.getLast? <;> rfl

/-- Every token starts where the one before it stops. -/
theorem isChain (reads : file.Reads front tokens last) :
    tokens.IsChain fun before after => after.span.start = before.span.stop := by
  induction reads with
  | done => exact .nil
  | @token front cs last c lexeme tokens text found later ih =>
      refine List.isChain_cons.2 ⟨?_, ih⟩
      intro following isHead
      rw [later.head_start following isHead, Text.byteLength_append]
      rfl

/-- No token starts before the reading does. -/
theorem le_start (reads : file.Reads front tokens last) :
    ∀ token ∈ tokens, Text.byteLength front ≤ token.span.start := by
  induction reads with
  | done => simp
  | @token front cs last c lexeme tokens text found later ih =>
      refine List.forall_mem_cons.2 ⟨Nat.le_refl _, ?_⟩
      intro token mem
      have behind := ih token mem
      rw [Text.byteLength_append] at behind
      omega

/-- Every token lies before all later ones. -/
theorem pairwise (reads : file.Reads front tokens last) :
    tokens.Pairwise fun before after =>
      before.span.start < before.span.stop ∧ before.span.stop ≤ after.span.start := by
  induction reads with
  | done => exact .nil
  | @token front cs last c lexeme tokens text found later ih =>
      refine List.pairwise_cons.2 ⟨?_, ih⟩
      intro token mem
      have positive := Text.byteLength_pos (Lexeme.first_text_ne_nil found)
      have behind := later.le_start token mem
      rw [Text.byteLength_append] at behind
      exact ⟨Nat.lt_add_of_pos_right positive, behind⟩

end SourceFile.Reads

/-! ## What a lossless lexing is -/

/-- Where the last of the tokens stops, and zero if there is none. -/
def Lexing.stop (lexing : Lexing) : Nat :=
  (lexing.tokens.getLast?.map fun token => token.span.stop).getD 0

/-- The error covers just the characters that open an unterminated text at the offset. -/
def LexicalError.CoversOpening (file : SourceFile) (offset : Nat) : LexicalError → Prop
  | .unterminatedComment span =>
      span.start = offset ∧ span.text = "/*" ∧ Span.make? file span.start span.stop = some span
  | .unterminatedString span =>
      span.start = offset ∧ (span.text = "\"" ∨ span.text = "'") ∧
        Span.make? file span.start span.stop = some span
  | .undelimited _ _ => False

/-- The tokens of a lexing cover a front of the file's text, side by side. -/
structure Lexing.Lossless (file : SourceFile) (lexing : Lexing) : Prop where
  nonempty : ∀ token ∈ lexing.tokens, token.span.start < token.span.stop
  /-- Every span lies in the file, its ends on character boundaries. -/
  valid : ∀ token ∈ lexing.tokens,
    Span.make? file token.span.start token.span.stop = some token.span
  first : ∀ token ∈ lexing.tokens.head?, token.span.start = 0
  adjacent : lexing.tokens.IsChain fun before after => after.span.start = before.span.stop
  texts : (lexing.tokens.flatMap fun token => token.span.chars) <+: file.chars
  /-- A reading up to the end covers the whole text and reports nothing. -/
  complete : lexing.ending = .endOfSource →
    (lexing.tokens.flatMap fun token => token.span.chars) = file.chars ∧
      lexing.ending.reports = []
  /-- A fault is reported once, blamed on its opening characters, and leaves nothing to read. -/
  fault : ∀ error, lexing.ending = .fatal error →
    lexing.ending.reports = [error] ∧ error.CoversOpening file lexing.stop ∧
      lexing.reader.peek? = none ∧ lexing.reader.offset = file.byteLength

/-- The error of a fault covers just the opening characters. -/
theorem LexicalFault.Opening.coversOpening {fault : LexicalFault} {opening back : List Char}
    (opens : fault.Opening opening) {file : SourceFile} {front : List Char}
    (text : file.chars = front ++ (opening ++ back)) :
    (fault.error file (Text.byteLength front)).CoversOpening file (Text.byteLength front) := by
  have chars := SourceFile.part_chars text
  have valid := SourceFile.part_make? text
  cases opens with
  | comment => exact ⟨rfl, congrArg String.ofList chars, valid⟩
  | doubleQuote => exact ⟨rfl, .inl (congrArg String.ofList chars), valid⟩
  | singleQuote => exact ⟨rfl, .inr (congrArg String.ofList chars), valid⟩

/-- Lexing loses nothing of any file. -/
theorem SourceFile.lex_lossless (file : SourceFile) : file.lex.Lossless file := by
  obtain ⟨last, reads, ends, readerFile, behind, passed⟩ := file.lex_reads
  have stopEq : file.lex.stop = Text.byteLength last := reads.getLast_stop
  have textsEq : (file.lex.tokens.flatMap fun token => token.span.chars) = last := reads.texts
  have partOf : ∀ token ∈ file.lex.tokens, ∃ before piece back, piece ≠ [] ∧
      file.chars = before ++ (piece ++ back) ∧ token.span = file.part before piece := by
    intro token mem
    obtain ⟨before, c, cs, lexeme, text, found, same⟩ := reads.mem_cases mem
    exact ⟨before, lexeme.text, lexeme.rest, Lexeme.first_text_ne_nil found,
      by rw [Lexeme.first_append found, text], by rw [same]⟩
  refine ⟨?_, ?_, reads.head_start, reads.isChain, ?_, ?_, ?_⟩
  · intro token mem
    obtain ⟨before, piece, back, nonempty, text, same⟩ := partOf token mem
    have positive := Text.byteLength_pos nonempty
    rw [same, part_start, part_stop]
    omega
  · intro token mem
    obtain ⟨before, piece, back, nonempty, text, same⟩ := partOf token mem
    rw [same]
    exact part_make? text
  · rw [textsEq]
    generalize file.lex.ending = ending at ends
    cases ends with
    | endOfSource text => exact ⟨[], by rw [text, List.append_nil]⟩
    | fatal opens text => exact ⟨_, text.symm⟩
  · intro isEnd
    rw [isEnd] at ends
    cases ends with
    | endOfSource text => exact ⟨textsEq.trans text.symm, by rw [isEnd]; rfl⟩
  · intro error isFault
    rw [isFault] at ends
    cases ends with
    | fatal opens text =>
        refine ⟨by rw [isFault]; rfl, ?_, ?_, ?_⟩
        · rw [stopEq]
          exact opens.coversOpening text
        · rw [Reader.peek?, passed]
          rfl
        · rw [behind.offset]
          rfl

end BuildScript
