import BuildScript.Data
import BuildScript.Text.Quoted
import BuildScript.TokenTree

/-!
# Dumps of token trees

Token trees as data, where every span carries its whole file, and as a line of text
for inspection. Trees that are read back from data have a file of their own for
every span: the content is the same, but no two spans share a file any more.
-/

namespace BuildScript

/-! ## Trees as data -/

def ByteRange.toData (range : ByteRange) : Data :=
  .record [("start", .ofNat range.start), ("end", .ofNat range.stop)]

def SourceFile.toData (file : SourceFile) : Data :=
  .record [
    ("path", .string file.path),
    ("identifier", .string file.identifier),
    ("content", .string file.content),
    ("lines", .list (file.lineRanges.map ByteRange.toData))]

def Span.toData (span : Span) : Data :=
  .record [
    ("start", .ofNat span.start),
    ("end", .ofNat span.stop),
    ("source_file", span.file.toData)]

def Keyword.tag : Keyword → String
  | .plugins => "Plugins"
  | .repositories => "Repositories"
  | .dependencies => "Dependencies"
  | .tasks => "Tasks"
  | .mavenCentral => "MavenCentral"
  | .jcenter => "JCenter"
  | .maven => "Maven"

def CommentKind.tag : CommentKind → String
  | .line => "Line"
  | .delimited => "Delimited"

def Delimiter.tag : Delimiter → String
  | .parenthesis => "Parenthesis"
  | .brace => "Brace"
  | .bracket => "Bracket"

def TokenKind.tag : TokenKind → String
  | .blanks => "WhiteSpaces"
  | .identifier => "Identifier"
  | .keyword _ => "Keyword"
  | .punctuation _ => "Punctuation"
  | .numeric => "Numeric"
  | .comment _ => "Comment"
  | .stringLiteral => "StringLiteral"

/-- What a token kind holds beside the span, by name. -/
def TokenKind.detail : TokenKind → List (String × Data)
  | .keyword word => [("keyword", .string word.tag)]
  | .punctuation mark => [("punctuation", .string mark.toString)]
  | .comment kind => [("kind", .string kind.tag)]
  | _ => []

def Token.toData (token : Token) : Data :=
  .record [(token.kind.tag, .record (("span", token.span.toData) :: token.kind.detail))]

def Punctuation.toData (punctuation : Punctuation) : Data :=
  .record [("span", punctuation.span.toData), ("punctuation", .string punctuation.mark.toString)]

namespace TokenTree

mutual

def toData : TokenTree → Data
  | .token leaf => .record [("Token", leaf.toData)]
  | .group delimiter opening trees closing =>
      .record [("Delimited", .record [
        ("open", opening.toData),
        ("token_stream", .record [("token_trees", .list (toDataAll trees))]),
        ("close", closing.toData),
        ("delimiter", .string delimiter.tag)])]

def toDataAll : List TokenTree → List Data
  | [] => []
  | tree :: trees => toData tree :: toDataAll trees

end

def scriptData (trees : List TokenTree) : Data :=
  .record [("token_trees", .list (toDataAll trees))]

end TokenTree

/-! ## Trees as text -/

/-- Named fields between braces after a name. -/
def inspectRecord (name : String) (fields : List (String × String)) : String :=
  name ++ " \x7b " ++
    ", ".intercalate (fields.map fun (field, value) => field ++ ": " ++ value) ++ " \x7d"

def ByteRange.inspect (range : ByteRange) : String :=
  toString range.start ++ ".." ++ toString range.stop

/-- A source file for inspection, without its content. -/
def SourceFile.inspect (file : SourceFile) : String :=
  inspectRecord "SourceFile" [
    ("path", Text.quotedString file.path),
    ("identifier", Text.quotedString file.identifier),
    ("lines", "[" ++ ", ".intercalate (file.lineRanges.map ByteRange.inspect) ++ "]")]

def Span.inspect (span : Span) : String :=
  inspectRecord "Span" [
    ("start", toString span.start),
    ("end", toString span.stop),
    ("content", Text.quotedString span.text)]

def TokenKind.inspectDetail : TokenKind → List (String × String)
  | .keyword word => [("keyword", word.tag)]
  | .punctuation mark => [("punctuation", Text.quotedChar mark)]
  | .comment kind => [("kind", kind.tag)]
  | _ => []

def Token.inspect (token : Token) : String :=
  token.kind.tag ++ "(" ++
    inspectRecord token.kind.tag (("span", token.span.inspect) :: token.kind.inspectDetail) ++ ")"

def Punctuation.inspect (punctuation : Punctuation) : String :=
  inspectRecord "Punctuation" [
    ("span", punctuation.span.inspect),
    ("punctuation", Text.quotedChar punctuation.mark)]

namespace TokenTree

mutual

def inspect : TokenTree → String
  | .token leaf => "Token(" ++ leaf.inspect ++ ")"
  | .group delimiter opening trees closing =>
      "Delimited(" ++
        inspectRecord "Delimited" [
          ("open", opening.inspect),
          ("token_stream", "[" ++ ", ".intercalate (inspectEach trees) ++ "]"),
          ("close", closing.inspect),
          ("delimiter", delimiter.tag)] ++
        ")"

def inspectEach : List TokenTree → List String
  | [] => []
  | tree :: trees => inspect tree :: inspectEach trees

end

def inspectScript (trees : List TokenTree) : String :=
  "[" ++ ", ".intercalate (inspectEach trees) ++ "]"

end TokenTree

/-! ## Trees read back -/

/-- The span with a copy of its file under another number. -/
def Span.renumber (number : Nat) (span : Span) : Span :=
  { span with file := { span.file with number := number } }

namespace TokenTree

mutual

/-- The tree with a new file for every span, numbered from `next`, and the next free number. -/
def revive (next : Nat) : TokenTree → TokenTree × Nat
  | .token leaf => (.token ⟨leaf.kind, leaf.span.renumber next⟩, next + 1)
  | .group delimiter opening trees closing =>
      let (inner, last) := reviveAll (next + 1) trees
      (.group delimiter ⟨opening.mark, opening.span.renumber next⟩ inner
        ⟨closing.mark, closing.span.renumber last⟩, last + 1)

def reviveAll (next : Nat) : List TokenTree → List TokenTree × Nat
  | [] => ([], next)
  | tree :: trees =>
      let (first, between) := revive next tree
      let (rest, last) := reviveAll between trees
      (first :: rest, last)

end

end TokenTree

end BuildScript
