import BuildScript.Token

/-!
# Token trees

Tokens grouped by matching delimiters. A tree is a single token or a group: what
stands between an opening delimiter and the closing one that matches it.
-/

namespace BuildScript

inductive Delimiter where
  | parenthesis
  | brace
  | bracket
  deriving DecidableEq, Repr

namespace Delimiter

def opening : Delimiter → Char
  | .parenthesis => '('
  | .brace => '{'
  | .bracket => '['

def closing : Delimiter → Char
  | .parenthesis => ')'
  | .brace => '}'
  | .bracket => ']'

def ofOpening? (mark : Char) : Option Delimiter :=
  if mark = '{' then some .brace
  else if mark = '[' then some .bracket
  else if mark = '(' then some .parenthesis
  else none

end Delimiter

/-- A token, or a group of trees between matching delimiters. -/
inductive TokenTree where
  | token (leaf : Token)
  | group (delimiter : Delimiter) (opening : Punctuation) (trees : List TokenTree)
      (closing : Punctuation)
  deriving Repr

namespace TokenTree

mutual

def decEq : (first second : TokenTree) → Decidable (first = second)
  | .token t, .token u =>
      if h : t = u then isTrue (by rw [h])
      else isFalse (by intro same; cases same; exact h rfl)
  | .token _, .group _ _ _ _ => isFalse (by intro same; cases same)
  | .group _ _ _ _, .token _ => isFalse (by intro same; cases same)
  | .group d o ts c, .group e p us f =>
      if h : d = e ∧ o = p ∧ c = f then
        match decEqList ts us with
        | isTrue same => isTrue (by rw [h.1, h.2.1, h.2.2, same])
        | isFalse differ => isFalse (by intro same; cases same; exact differ rfl)
      else isFalse (by intro same; cases same; exact h ⟨rfl, rfl, rfl⟩)

def decEqList : (first second : List TokenTree) → Decidable (first = second)
  | [], [] => isTrue rfl
  | [], _ :: _ => isFalse (by intro same; cases same)
  | _ :: _, [] => isFalse (by intro same; cases same)
  | t :: ts, u :: us =>
      match decEq t u with
      | isFalse differ => isFalse (by intro same; cases same; exact differ rfl)
      | isTrue head =>
          match decEqList ts us with
          | isTrue tail => isTrue (by rw [head, tail])
          | isFalse differ => isFalse (by intro same; cases same; exact differ rfl)

end

instance : DecidableEq TokenTree := decEq

def isSignificant : TokenTree → Bool
  | .token leaf => leaf.isSignificant
  | .group _ _ _ _ => true

/-- The span of a group, from its opening to its closing delimiter. -/
def groupSpan (opening closing : Punctuation) : Span :=
  (opening.span.join? closing.span).getD opening.span

def span : TokenTree → Span
  | .token leaf => leaf.span
  | .group _ opening _ closing => groupSpan opening closing

mutual

/-- The tokens of a tree, the delimiters of its groups among them. -/
def flatten : TokenTree → List Token
  | .token leaf => [leaf]
  | .group _ opening trees closing =>
      opening.toToken :: (flattenAll trees ++ [closing.toToken])

def flattenAll : List TokenTree → List Token
  | [] => []
  | tree :: trees => flatten tree ++ flattenAll trees

end

end TokenTree

end BuildScript
