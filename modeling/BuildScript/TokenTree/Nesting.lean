import BuildScript.Token.Lexer

/-!
# Grouping tokens

Tokens are grouped from left to right. An opening delimiter begins a group, which
runs up to the first character that closes it at its own level; a closing character
of another kind is a plain token. A group that never closes is reported, and so is
every group around it, innermost first; it and all that follows it are left out.
-/

namespace BuildScript

namespace Token

def punctuation? (token : Token) : Option Punctuation :=
  match token.kind with
  | .punctuation mark => some ⟨mark, token.span⟩
  | _ => none

/-- The delimiter that the token opens, with the token as punctuation. -/
def opening? (token : Token) : Option (Delimiter × Punctuation) :=
  token.punctuation?.bind fun punctuation =>
    (Delimiter.ofOpening? punctuation.mark).map fun delimiter => (delimiter, punctuation)

def closing? (delimiter : Delimiter) (token : Token) : Option Punctuation :=
  token.punctuation?.filter fun punctuation => punctuation.mark == delimiter.closing

end Token

namespace Nesting

/-- How the reading of a group's inside ends, among at most `bound` tokens. -/
inductive GroupReading (bound : Nat) where
  /-- The group closes, and fewer than `bound` tokens follow. -/
  | closed (trees : List TokenTree) (closing : Punctuation) (rest : List Token)
      (shorter : rest.length < bound)
  /-- The tokens end before the group does. -/
  | unclosed (reports : List LexicalError)

def GroupReading.prepend {bound wider : Nat} (tree : TokenTree) (le : bound ≤ wider) :
    GroupReading bound → GroupReading wider
  | .closed trees closing rest shorter =>
      .closed (tree :: trees) closing rest (Nat.lt_of_lt_of_le shorter le)
  | .unclosed reports => .unclosed reports

def readGroup (delimiter : Delimiter) (opening : Punctuation) :
    (tokens : List Token) → GroupReading tokens.length
  | [] => .unclosed [.undelimited opening.span delimiter]
  | token :: tokens =>
      match token.closing? delimiter with
      | some closing => .closed [] closing tokens (Nat.lt_succ_self _)
      | none =>
          match token.opening? with
          | none =>
              (readGroup delimiter opening tokens).prepend (.token token) (Nat.le_succ _)
          | some (inner, innerOpening) =>
              match readGroup inner innerOpening tokens with
              | .unclosed reports =>
                  .unclosed (reports ++ [.undelimited opening.span delimiter])
              | .closed trees innerClosing rest shorter =>
                  (readGroup delimiter opening rest).prepend
                    (.group inner innerOpening trees innerClosing)
                    (Nat.le_of_lt (Nat.lt_succ_of_lt shorter))
termination_by tokens => tokens.length

/-- Trees with the reports of what was left out behind them. -/
structure Forest where
  trees : List TokenTree
  reports : List LexicalError
  deriving DecidableEq, Repr

def Forest.prepend (tree : TokenTree) (forest : Forest) : Forest :=
  ⟨tree :: forest.trees, forest.reports⟩

def ofTokens : List Token → Forest
  | [] => ⟨[], []⟩
  | token :: tokens =>
      match token.opening? with
      | none => (ofTokens tokens).prepend (.token token)
      | some (delimiter, opening) =>
          match readGroup delimiter opening tokens with
          | .unclosed reports => ⟨[], reports⟩
          | .closed trees closing rest _ =>
              (ofTokens rest).prepend (.group delimiter opening trees closing)
termination_by tokens => tokens.length

end Nesting

/-- The token trees of a file, with the lexical errors in the order they are reported. -/
def SourceFile.trees (file : SourceFile) : Nesting.Forest :=
  let lexing := file.lex
  let forest := Nesting.ofTokens lexing.tokens
  ⟨forest.trees, lexing.ending.reports ++ forest.reports⟩

end BuildScript
