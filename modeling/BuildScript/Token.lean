import BuildScript.Keyword
import BuildScript.Source

/-!
# Tokens

The pieces into which a script is split. Together the tokens of a script cover its
text: blanks and comments are tokens too, and only the grammar passes over them.
-/

namespace BuildScript

inductive CommentKind where
  /-- From `//` to the end of the line. -/
  | line
  /-- From `/*` to the next `*/`. -/
  | delimited
  deriving DecidableEq, Repr

inductive TokenKind where
  | blanks
  | identifier
  | keyword (keyword : Keyword)
  | punctuation (mark : Char)
  | numeric
  | comment (kind : CommentKind)
  | stringLiteral
  deriving DecidableEq, Repr

/-- Whether a token of the kind counts for the grammar. -/
def TokenKind.isSignificant : TokenKind → Bool
  | .blanks | .comment _ => false
  | _ => true

structure Token where
  kind : TokenKind
  span : Span
  deriving DecidableEq, Repr

namespace Token

def text (token : Token) : String :=
  token.span.text

def isSignificant (token : Token) : Bool :=
  token.kind.isSignificant

end Token

/-! ## Tokens of one kind -/

structure Identifier where
  span : Span
  deriving DecidableEq, Repr

structure KeywordToken where
  keyword : Keyword
  span : Span
  deriving DecidableEq, Repr

structure Punctuation where
  mark : Char
  span : Span
  deriving DecidableEq, Repr

structure StringLiteral where
  span : Span
  deriving DecidableEq, Repr

def Identifier.text (identifier : Identifier) : String :=
  identifier.span.text

def Identifier.toToken (identifier : Identifier) : Token :=
  ⟨.identifier, identifier.span⟩

def KeywordToken.toToken (token : KeywordToken) : Token :=
  ⟨.keyword token.keyword, token.span⟩

def Punctuation.toToken (punctuation : Punctuation) : Token :=
  ⟨.punctuation punctuation.mark, punctuation.span⟩

namespace StringLiteral

def toToken (literal : StringLiteral) : Token :=
  ⟨.stringLiteral, literal.span⟩

def quote (literal : StringLiteral) : Char :=
  literal.span.chars.headD '\x27'

/-- The text between the quotes, as it is written. -/
def content (literal : StringLiteral) : String :=
  (⟨literal.span.file, literal.span.start + 1, literal.span.stop - 1⟩ : Span).text

end StringLiteral

end BuildScript
