import BuildScript.Source

/-!
# Messages

How a diagnostic is laid out: a header with its severity, the message itself, and
the piece of source it is about, headed by an arrow with path, line and column.
-/

namespace BuildScript

structure Terminal where
  /-- Whether escape sequences for colours are written. -/
  colored : Bool
  /-- The directory from which absolute paths are seen. -/
  workingDirectory : String
  deriving DecidableEq, Repr

inductive Severity where
  | error
  | info
  | warning
  deriving DecidableEq, Repr

def Severity.header : Severity → String
  | .error => "[error]:"
  | .info => "[info]:"
  | .warning => "[warning]:"

def Severity.code : Severity → String
  | .error => "1;31"
  | .info => "1;32"
  | .warning => "1;33"

namespace Terminal

/-- The escape sequence that ends every style. -/
def reset : String := "\x1b[0m"

def start (code : String) : String := "\x1b[" ++ code ++ "m"

/-- The characters with `style` repeated after every reset among them. -/
def restyle (style : List Char) : List Char → List Char
  | [] => []
  | '\x1b' :: '[' :: '0' :: 'm' :: cs =>
      ['\x1b', '[', '0', 'm'] ++ style ++ restyle style cs
  | c :: cs => c :: restyle style cs

/-- The text in the given style, if the terminal shows colours. -/
def paint (terminal : Terminal) (code text : String) : String :=
  if terminal.colored then
    start code ++ String.ofList (restyle (start code).toList text.toList) ++ reset
  else text

def message (terminal : Terminal) (severity : Severity) (text : String) : String :=
  terminal.paint severity.code severity.header ++ " " ++ terminal.paint "1" text

def shownPath (terminal : Terminal) (file : SourceFile) : String :=
  (file.relativePath? terminal.workingDirectory).getD file.path

/-- A piece of source under its position, with a hint below if there is one. -/
def excerpt (terminal : Terminal) (span : Span) (hint : Option String) : String :=
  let position :=
    match span.location? with
    | some location => s!":{location.line}:{location.column}"
    | none => ""
  let below :=
    match hint with
    | some text => "\n\n" ++ text
    | none => ""
  terminal.paint "1;36" "-->" ++ " " ++ terminal.shownPath span.file ++ position ++ "\n" ++
    span.text ++ below

def report (terminal : Terminal) (text : String) (span : Span) (hint : Option String) : String :=
  terminal.message .error text ++ "\n" ++ terminal.excerpt span hint

end Terminal

end BuildScript
