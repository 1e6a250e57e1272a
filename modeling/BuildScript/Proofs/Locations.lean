import BuildScript.Proofs.LineColumns
import BuildScript.Proofs.ReportOrder

/-!
# Every span has a place

A span that is not empty and lies in the file, its ends on character boundaries, starts with
a character, and so on a line and in a column. The spans of all tokens are of this kind, and
so are those of all lexical and syntax errors, which blame tokens or what opens an
unterminated text; a diagnostic about such a span shows the line and the column.
-/

namespace BuildScript

open Grammar (Parser Rule)
open TokenTree (flattenAll)

/-! ## Spans -/

/-- Every character of a file has a location. -/
theorem SourceFile.exists_location (file : SourceFile) {offset : Nat}
    (boundary : Text.isBoundary offset file.chars = true) (before : offset < file.byteLength) :
    ∃ location, file.location? offset = some location := by
  obtain ⟨_, _, _, _, starts⟩ := exists_startsAt boundary before
  exact ⟨_, starts.location?_eq⟩

/-- The span is a stretch of the file that is not empty, and it has a place to be shown. -/
structure SourceFile.HasSpan (file : SourceFile) (span : Span) : Prop where
  nonempty : span.start < span.stop
  /-- The span lies in the file, its ends on character boundaries. -/
  valid : Span.make? file span.start span.stop = some span
  located : ∃ location, span.location? = some location

namespace SourceFile.HasSpan

variable {file : SourceFile}

/-- A stretch that is not empty has a place. -/
theorem ofMake? {span : Span} (nonempty : span.start < span.stop)
    (valid : Span.make? file span.start span.stop = some span) : file.HasSpan span := by
  refine ⟨nonempty, valid, ?_⟩
  obtain ⟨same, _, bound, boundary, _⟩ := Span.make?_eq_some_iff.1 valid
  rw [Span.location?, same]
  exact file.exists_location boundary (Nat.lt_of_lt_of_le nonempty bound)

theorem ofPart {front middle back : List Char} (text : file.chars = front ++ (middle ++ back))
    (nonempty : middle ≠ []) : file.HasSpan (file.part front middle) := by
  have positive := Text.byteLength_pos nonempty
  exact ofMake? (Nat.lt_add_of_pos_right positive) (part_make? text)

theorem file_eq {span : Span} (has : file.HasSpan span) : span.file = file := by
  rw [(Span.make?_eq_some_iff.1 has.valid).1]

/-- From the start of one span to the stop of a later one. -/
theorem hull {first last : Span} (starts : file.HasSpan first) (stops : file.HasSpan last)
    (order : first.start < last.stop) : file.HasSpan ⟨file, first.start, last.stop⟩ := by
  obtain ⟨_, _, _, startBoundary, _⟩ := Span.make?_eq_some_iff.1 starts.valid
  obtain ⟨_, _, bound, _, stopBoundary⟩ := Span.make?_eq_some_iff.1 stops.valid
  apply ofMake? order
  exact Span.make?_eq_some_iff.2
    ⟨rfl, Nat.le_of_lt order, bound, startBoundary, stopBoundary⟩

end SourceFile.HasSpan

/-! ## Tokens -/

namespace SourceFile

variable {file : SourceFile}

theorem hasSpan_of_mem_lex {token : Token} (member : token ∈ file.lex.tokens) :
    file.HasSpan token.span := by
  obtain ⟨last, reads, _⟩ := file.lex_reads
  obtain ⟨before, c, cs, lexeme, text, found, rfl⟩ := reads.mem_cases member
  rw [← Lexeme.first_append found] at text
  exact .ofPart text (Lexeme.first_text_ne_nil found)

theorem hasSpan_of_mem_trees {token : Token} (member : token ∈ flattenAll file.trees.trees) :
    file.HasSpan token.span :=
  hasSpan_of_mem_lex (file.flattenAll_trees_prefix.subset member)

end SourceFile

/-! ## Diagnostics -/

def LexicalError.span : LexicalError → Span
  | .unterminatedComment span => span
  | .unterminatedString span => span
  | .undelimited opening _ => opening

def Error.span? : Error → Option Span
  | .lexical error => some error.span
  | .grammar error => error.blamed?.map Token.span
  | .semantic (.missingRepositoryUrl span) => some span
  | .io _ _ | .encoding _ | .step _ | .detached => none

theorem Nesting.mem_of_mem_openStack {tokens : List Token} {opener : Opener}
    (member : opener ∈ openStack [] 0 tokens) : opener.mark.toToken ∈ tokens :=
  List.mem_of_getElem? (((StackOf.nil []).run tokens).stands opener member)

namespace SourceFile

variable {file : SourceFile}

/-- A lexical error is about what opens a text or a group that never ends. -/
theorem hasSpan_of_mem_trees_reports {error : LexicalError} (member : error ∈ file.trees.reports) :
    file.HasSpan error.span := by
  rcases List.mem_append.1 member with atEnd | unclosed
  · obtain ⟨last, _, ends, _⟩ := file.lex_reads
    generalize file.lex.ending = ending at ends atEnd
    cases ends with
    | endOfSource text => cases atEnd
    | fatal opens text =>
        cases List.mem_singleton.1 atEnd
        cases opens with
        | comment => exact .ofPart text (List.cons_ne_nil _ _)
        | doubleQuote => exact .ofPart text (List.cons_ne_nil _ _)
        | singleQuote => exact .ofPart text (List.cons_ne_nil _ _)
  · rw [((Nesting.groups_ofTokens file.lex.tokens).follows 0).reported] at unclosed
    obtain ⟨opener, onStack, rfl⟩ := List.mem_map.1 unclosed
    exact hasSpan_of_mem_lex (Nesting.mem_of_mem_openStack onStack)

/-- A syntax error is about a token of the file's trees, or about the end of the script. -/
theorem hasSpan_of_mem_script_reports {error : SyntaxError}
    (member : error ∈ (Rule.script (Parser.ofTrees file.trees.trees)).2.reports) {token : Token}
    (blamed : error.blamed? = some token) : file.HasSpan token.span := by
  obtain ⟨errors, reports, orderly⟩ :=
    Rule.attempts_orderly (Parser.ofTrees file.trees.trees) rfl file.trees_ordered
  have among : error ∈ errors := by
    change error ∈ (Rule.attempts (Parser.ofTrees file.trees.trees)).2.reports at member
    rw [reports] at member
    exact member
  have within := (Parser.ofTrees file.trees.trees).continues_begun.within
    (orderly.within error among)
  exact hasSpan_of_mem_trees (within token blamed)

/-- Whatever is reported about a file while it is split and read has a place in it. -/
theorem hasSpan_of_mem_parse_reports {error : Error} (member : error ∈ file.parse.reports)
    {span : Span} (holds : error.span? = some span) : file.HasSpan span := by
  rw [parse] at member
  split at member
  · rw [Script.ofTrees_reports] at member
    obtain ⟨fault, among, rfl⟩ := List.mem_map.1 member
    obtain ⟨token, blamed, rfl⟩ := Option.map_eq_some_iff.1 holds
    exact hasSpan_of_mem_script_reports among blamed
  · obtain ⟨fault, among, rfl⟩ := List.mem_map.1 member
    cases holds
    exact hasSpan_of_mem_trees_reports among

theorem hasSpan_of_mem_tokenize_reports {error : Error} (member : error ∈ file.tokenize.reports)
    {span : Span} (holds : error.span? = some span) : file.HasSpan span := by
  obtain ⟨fault, among, rfl⟩ := List.mem_map.1 member
  cases holds
  exact hasSpan_of_mem_trees_reports among

end SourceFile

/-! ## Messages -/

/-- The message shows the path, the line and the column of a location, one after the other. -/
def Terminal.Shows (terminal : Terminal) (file : SourceFile) (location : Location)
    (message : String) : Prop :=
  ∃ before after, message = before ++ terminal.shownPath file ++
    s!":{location.line}:{location.column}" ++ "\n" ++ after

namespace Terminal

variable {terminal : Terminal} {file : SourceFile} {location : Location}

theorem Shows.prepend {message : String} (shows : terminal.Shows file location message)
    (front : String) : terminal.Shows file location (front ++ message) := by
  obtain ⟨before, after, rfl⟩ := shows
  exact ⟨front ++ before, after, by simp only [String.append_assoc]⟩

/-- A report about a span that has a place shows it. -/
theorem shows_report {span : Span} (located : span.location? = some location) (text : String)
    (hint : Option String) :
    terminal.Shows span.file location (terminal.report text span hint) := by
  have arrow : ∀ below, terminal.Shows span.file location
      (terminal.message .error text ++ "\n" ++ (terminal.paint "1;36" "-->" ++ " " ++
        terminal.shownPath span.file ++ s!":{location.line}:{location.column}" ++ "\n" ++
          span.text ++ below)) := by
    intro below
    refine ⟨terminal.message .error text ++ "\n" ++ terminal.paint "1;36" "-->" ++ " ",
      span.text ++ below, ?_⟩
    simp only [String.append_assoc]
  simp only [report, excerpt, located]
  exact arrow _

theorem shows_lexical {error : LexicalError} (located : error.span.location? = some location) :
    terminal.Shows error.span.file location (error.message terminal) := by
  cases error with
  | unterminatedComment span =>
      rw [LexicalError.message]
      exact shows_report located _ _
  | unterminatedString span =>
      rw [LexicalError.message]
      exact shows_report located _ _
  | undelimited opening delimiter =>
      rw [LexicalError.message]
      exact shows_report located _ _

theorem shows_syntax {error : SyntaxError} {token : Token} (blamed : error.blamed? = some token)
    (located : token.span.location? = some location) :
    terminal.Shows token.span.file location (error.message terminal) := by
  cases error with
  | unexpected expected found =>
      cases blamed
      rw [SyntaxError.message]
      exact shows_report located _ _
  | unknownRepository name alternatives =>
      cases blamed
      rw [SyntaxError.message]
      exact shows_report located _ _

/-- The message of a diagnostic shows where the span that it holds starts. -/
theorem shows_message {error : Error} {span : Span} (holds : error.span? = some span)
    (located : span.location? = some location) :
    terminal.Shows span.file location (error.message terminal) := by
  cases error with
  | lexical error =>
      cases holds
      exact (shows_lexical located).prepend "An error occurred while lexing the build script: "
  | grammar error =>
      obtain ⟨token, blamed, rfl⟩ := Option.map_eq_some_iff.1 holds
      exact shows_syntax blamed located
  | semantic error =>
      cases error
      cases holds
      exact shows_report located "custom repository does not declare a URL" _
  | io | encoding | step | detached => cases holds

end Terminal

end BuildScript
