import BuildScript.Message
import BuildScript.Text.Distance
import BuildScript.Text.Utf8
import BuildScript.TokenTree

/-!
# Errors

What can go wrong, from reading a file to writing the documents, and how each
failure is worded. A failure is a cause with the data that explains it; the words
are chosen in one place per kind of failure.
-/

namespace BuildScript

/-! ## Files -/

/-- Why a file could not be read or written. -/
inductive IoCause where
  /-- No text is remembered under the path. -/
  | unknownFile
  /-- The file or one of its directories does not exist. -/
  | noEntry
  /-- The last name of the target is `.` or `..`, which cannot be replaced. -/
  | busy
  | alreadyExists
  /-- A component that has to be a directory is none. -/
  | notDirectory
  | isDirectory
  | nameTooLong
  /-- The content is not UTF-8. -/
  | notText
  | nulInPath
  deriving DecidableEq, Repr

def IoCause.message : IoCause → String
  | .unknownFile => "file not found"
  | .noEntry => "No such file or directory (os error 2)"
  | .busy => "Device or resource busy (os error 16)"
  | .alreadyExists => "File exists (os error 17)"
  | .notDirectory => "Not a directory (os error 20)"
  | .isDirectory => "Is a directory (os error 21)"
  | .nameTooLong => "File name too long (os error 36)"
  | .notText => "stream did not contain valid UTF-8"
  | .nulInPath => "file name contained an unexpected NUL byte"

/-! ## Tokens -/

/-- Why a script cannot be split into token trees. -/
inductive LexicalError where
  /-- A `/*` comment is not closed; the span covers its start. -/
  | unterminatedComment (span : Span)
  /-- A string literal is not closed; the span covers its quote. -/
  | unterminatedString (span : Span)
  /-- A delimiter is not closed; the span covers it. -/
  | undelimited (opening : Span) (delimiter : Delimiter)
  deriving DecidableEq, Repr

def LexicalError.message (terminal : Terminal) : LexicalError → String
  | .unterminatedComment span =>
      terminal.report "found an unclosed `/*` comment" span none
  | .unterminatedString span =>
      terminal.report "found an unterminated string literal" span
        (some ("add a closing `" ++ span.text ++ "`"))
  | .undelimited opening delimiter =>
      terminal.report "found an undelimited delimiter" opening
        (some ("this `" ++ delimiter.opening.toString ++ "` is not closed by a matching `" ++
          delimiter.closing.toString ++ "`"))

/-! ## Grammar -/

/-- What the grammar asks for at some place. -/
inductive Expectation where
  | either (choices : List Expectation)
  | punctuation (mark : Char)
  | keyword (keyword : Keyword)
  | contextualKeyword (word : String)
  | identifier
  | stringLiteral
  | declaration
  | pluginEntry
  | repositoryEntry
  | dependencyEntry
  | taskStatement
  | expression
  deriving Repr

/-- The names of several choices as one phrase. -/
def Expectation.phrase : List String → String
  | [] => "end of file"
  | [only] => only
  | choices => ", ".intercalate choices.dropLast ++ ", or " ++ choices.getLastD ""

mutual

def Expectation.description : Expectation → String
  | .either choices => Expectation.phrase (Expectation.descriptions choices)
  | .punctuation mark => "a punctuation token `" ++ mark.toString ++ "`"
  | .keyword word => "a keyword token `" ++ word.spelling ++ "`"
  | .contextualKeyword word => "the identifier `" ++ word ++ "`"
  | .identifier => "an identifier token"
  | .stringLiteral => "a string literal"
  | .declaration => "a `plugins`, `repositories`, `dependencies` or `tasks.register` block"
  | .pluginEntry => "a plugin entry `id '<plugin>'`"
  | .repositoryEntry => "a repository entry"
  | .dependencyEntry => "a dependency entry `<configuration> '<coordinate>'`"
  | .taskStatement => "a task statement `<key> = <value>`"
  | .expression => "a string literal or a dotted identifier path"

def Expectation.descriptions : List Expectation → List String
  | [] => []
  | choice :: choices => choice.description :: Expectation.descriptions choices

end

/-- Why tokens do not form a script. -/
inductive SyntaxError where
  /-- Something else was expected at a token, or at the end of the script. -/
  | unexpected (expected : Expectation) (found : Option Token)
  /-- A repository has an unknown name; the alternatives are similar names. -/
  | unknownRepository (name : Span) (alternatives : List String)
  deriving Repr

def Token.description (token : Token) : String :=
  match token.kind with
  | .comment _ => "a comment token"
  | .identifier => "the identifier `" ++ token.text ++ "`"
  | .keyword keyword => "a keyword token `" ++ keyword.spelling ++ "`"
  | .blanks => "a white spaces token"
  | .punctuation mark => "a punctuation token `" ++ mark.toString ++ "`"
  | .numeric => "a numeric token"
  | .stringLiteral => "a string literal token"

def SyntaxError.advice : List String → String
  | [] =>
      "supported repositories are `mavenCentral()`, `jcenter()` and `maven \x7b url '...' \x7d`"
  | alternatives =>
      "did you mean " ++
        ", ".intercalate (alternatives.map fun name => "`" ++ name ++ "`") ++ "?"

def SyntaxError.message (terminal : Terminal) : SyntaxError → String
  | .unexpected expected none =>
      terminal.message .error ("expected " ++ expected.description ++ ", but found EOF")
  | .unexpected expected (some token) =>
      terminal.report
        ("expected " ++ expected.description ++ ", but found " ++ token.description)
        token.span none
  | .unknownRepository name alternatives =>
      terminal.report ("unsupported repository `" ++ name.text ++ "`") name
        (some (SyntaxError.advice alternatives))

/--
The repository keywords that a misspelt name may stand for, most similar first: those
that share more than three fifths with it or differ by fewer than three edits.
-/
def SyntaxError.alternatives (name : String) : List String :=
  let candidates := (Keyword.all.filter Keyword.isRepository).map Keyword.spelling
  let near := candidates.filter fun candidate =>
    (Text.similarity name.toList candidate.toList).isHigh ||
      Text.editDistance name.toList candidate.toList < 3
  near.mergeSort fun first second =>
    (Text.similarity name.toList first.toList).atLeast
      (Text.similarity name.toList second.toList)

/-! ## Meaning -/

inductive SemanticError where
  /-- A custom repository has no URL; the span covers the entry. -/
  | missingRepositoryUrl (span : Span)
  deriving DecidableEq, Repr

def SemanticError.message (terminal : Terminal) : SemanticError → String
  | .missingRepositoryUrl span =>
      terminal.report "custom repository does not declare a URL" span
        (some "add `url '<repository url>'` to the block")

/-! ## Every failure -/

/-- A step that failed as a whole; what went wrong in it was reported before. -/
inductive FailedStep where
  | tokenizing
  | parsing
  /-- The path of an output file names no file. -/
  | namingOutput
  deriving DecidableEq, Repr

def FailedStep.message : FailedStep → String
  | .tokenizing => "An error occurred while tokenizing the build script."
  | .parsing => "An error occurred while parsing the build script."
  | .namingOutput => "output path does not name a file"

inductive Error where
  | io (path : String) (cause : IoCause)
  | encoding (fault : Text.Utf8Fault)
  | lexical (error : LexicalError)
  | grammar (error : SyntaxError)
  | semantic (error : SemanticError)
  | step (failed : FailedStep)
  /-- A node has to be shown whose ends lie in different files: the run stops. -/
  | detached
  deriving Repr

namespace Error

def message (terminal : Terminal) : Error → String
  | .io path cause =>
      "An error occurred while working with Input/Output: " ++ path ++ ": " ++ cause.message
  | .encoding fault => fault.message
  | .lexical error =>
      "An error occurred while lexing the build script: " ++ error.message terminal
  | .grammar error => error.message terminal
  | .semantic error => error.message terminal
  | .step failed => "An error occurred: " ++ failed.message
  | .detached => "Invalid span"

/-- Whether the script's text is at fault. -/
def isSyntactic : Error → Bool
  | .lexical _ | .grammar _ | .step _ => true
  | _ => false

/-- Whether the script's meaning is at fault. -/
def isSemantic : Error → Bool
  | .semantic _ => true
  | _ => false

end Error

end BuildScript
