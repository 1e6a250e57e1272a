import BuildScript.Grammar.Parser
import BuildScript.Script

/-!
# Elements of the grammar

The rules for single tokens, for the inside of a group and for blocks. A rule for a
token passes what it blames; the entry into a group leaves it where it is. Whatever
happens inside a group, the parser ends up behind it.
-/

namespace BuildScript.Grammar

/-- A node between two delimiters, missing when the inside could not be read. -/
structure Enclosed (α : Type) where
  opening : Punctuation
  inside : Option α
  closing : Punctuation
  deriving DecidableEq, Repr

namespace Rule

/-! ## Single tokens -/

def identifier : Rule Identifier := do
  match ← nextSignificant with
  | .atomic ⟨.identifier, span⟩ => pure ⟨span⟩
  | found => unexpected .identifier found

/-- A name: an identifier or a keyword. -/
def name : Rule Identifier := do
  match ← nextSignificant with
  | .atomic ⟨.identifier, span⟩ => pure ⟨span⟩
  | .atomic ⟨.keyword _, span⟩ => pure ⟨span⟩
  | found => unexpected .identifier found

def contextualKeyword (word : String) : Rule Identifier := do
  match ← nextSignificant with
  | .atomic ⟨.identifier, span⟩ =>
      if span.text = word then pure ⟨span⟩
      else unexpected (.contextualKeyword word) (.atomic ⟨.identifier, span⟩)
  | found => unexpected (.contextualKeyword word) found

def keyword (expected : Keyword) : Rule KeywordToken := do
  match ← nextSignificant with
  | .atomic ⟨.keyword word, span⟩ =>
      if word = expected then pure ⟨word, span⟩
      else unexpected (.keyword expected) (.atomic ⟨.keyword word, span⟩)
  | found => unexpected (.keyword expected) found

/-- A certain punctuation character, after blanks and comments if those may be skipped. -/
def punctuation (expected : Char) (skip : Bool) : Rule Punctuation := do
  match ← (if skip then nextSignificant else next) with
  | .atomic ⟨.punctuation mark, span⟩ =>
      if mark = expected then pure ⟨mark, span⟩
      else unexpected (.punctuation expected) (.atomic ⟨.punctuation mark, span⟩)
  | found => unexpected (.punctuation expected) found

def stringLiteral : Rule StringLiteral := do
  match ← nextSignificant with
  | .atomic ⟨.stringLiteral, span⟩ => pure ⟨span⟩
  | found => unexpected .stringLiteral found

def punctuation? (expected : Char) : Rule (Option Punctuation) := do
  match ← peekSignificant with
  | .atomic ⟨.punctuation mark, span⟩ =>
      if mark = expected then
        forward
        pure (some ⟨mark, span⟩)
      else pure none
  | _ => pure none

def stringLiteral? : Rule (Option StringLiteral) := do
  match ← peekSignificant with
  | .atomic ⟨.stringLiteral, span⟩ => do
      forward
      pure (some ⟨span⟩)
  | _ => pure none

/-! ## Groups -/

/--
The end of a group's reading: a node is kept only if nothing but blanks and comments
follows it in the group.
-/
def closeGroup {α : Type} (delimiter : Delimiter) (inside : Option α) : Rule α :=
  fun parser =>
    match inside with
    | none => (none, parser)
    | some node =>
        if parser.frame.isExhausted then (some node, parser)
        else
          let here := { parser with frame := parser.frame.toSignificant }
          unexpected (.punctuation delimiter.closing) here.frame.peek here

/-- The next tree that counts for the grammar, if it is a group with the given delimiter. -/
def groupAhead? (delimiter : Delimiter) (frame : Frame) :
    Option (Punctuation × List TokenTree × Punctuation) :=
  match frame.toSignificant.rest with
  | .group found opening trees closing :: _ =>
      if found = delimiter then some (opening, trees, closing) else none
  | _ => none

/-- The parser inside a group that comes next, the frame behind the group set aside. -/
def enter (trees : List TokenTree) (closing : Punctuation) (parser : Parser) : Parser :=
  ⟨⟨trees, 0, some closing⟩, parser.frame.toSignificant.forward :: parser.stack, parser.reports⟩

/-- The parser back in the frame that was set aside last. -/
def leave (parser : Parser) : Parser :=
  match parser.stack with
  | [] => parser
  | outer :: stack => { parser with frame := outer, stack := stack }

/-- Reads the inside of the next group, if it has the given delimiter. -/
def enclosed {α : Type} (delimiter : Delimiter) (inside : Rule α) : Rule (Enclosed α) :=
  fun parser =>
    match groupAhead? delimiter parser.frame with
    | some (opening, trees, closing) =>
        let (node, within) := inside (enter trees closing parser)
        let (kept, behind) := closeGroup delimiter node within
        (some ⟨opening, kept, closing⟩, leave behind)
    | none =>
        let here := { parser with frame := parser.frame.toSignificant }
        unexpected (.punctuation delimiter.opening) here.frame.peek here

def require {α : Type} (inside : Option α) : Rule α :=
  match inside with
  | some node => pure node
  | none => fail

/-- Nodes up to the end of the frame. Every node has to pass a tree. -/
def untilExhausted {α : Type} (entry : Rule α) (parser : Parser) : Option (List α) × Parser :=
  if parser.frame.isExhausted then (some [], parser)
  else
    match entry parser with
    | (none, after) => (none, after)
    | (some node, after) =>
        if after.frame.remaining < parser.frame.remaining then
          match untilExhausted entry after with
          | (some nodes, last) => (some (node :: nodes), last)
          | (none, last) => (none, last)
        else (none, after)
termination_by parser.frame.remaining

def block {α : Type} (entry : Rule α) : Rule (Block α) := do
  let group ← enclosed .brace (untilExhausted entry)
  let entries ← require group.inside
  pure ⟨group.opening, entries, group.closing⟩

end Rule

end BuildScript.Grammar
