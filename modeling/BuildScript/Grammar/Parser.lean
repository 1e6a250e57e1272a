import BuildScript.Error

/-!
# Parser state

A parser reads one list of token trees at a time: its frame. To read the inside of
a group it sets the outer frame aside on a stack and continues in a new one. A
rule of the grammar is a step of the parser that yields a node or fails; either
way the parser stays where the rule left it, with what the rule reported.
-/

namespace BuildScript.Grammar

inductive Reading where
  | atomic (leaf : Token)
  /-- A group, seen from outside by its opening delimiter. -/
  | opening (mark : Punctuation)
  /-- The end of a group, seen from inside by its closing delimiter. -/
  | closing (mark : Punctuation)
  | eof
  deriving DecidableEq, Repr

def Reading.token? : Reading → Option Token
  | .atomic leaf => some leaf
  | .opening mark => some mark.toToken
  | .closing mark => some mark.toToken
  | .eof => none

structure Frame where
  trees : List TokenTree
  /-- How many trees were passed. -/
  index : Nat
  /-- The delimiter that closes the list; none for a whole script. -/
  closing : Option Punctuation
  deriving DecidableEq, Repr

namespace Frame

def rest (frame : Frame) : List TokenTree :=
  frame.trees.drop frame.index

def remaining (frame : Frame) : Nat :=
  frame.trees.length - frame.index

def readingOf (closing : Option Punctuation) : List TokenTree → Reading
  | .token leaf :: _ => .atomic leaf
  | .group _ mark _ _ :: _ => .opening mark
  | [] =>
      match closing with
      | some mark => .closing mark
      | none => .eof

def peek (frame : Frame) : Reading :=
  readingOf frame.closing frame.rest

def isEnd (frame : Frame) : Bool :=
  frame.trees.length ≤ frame.index

/-- Whether nothing is left that counts for the grammar. -/
def isExhausted (frame : Frame) : Bool :=
  frame.rest.all fun tree => !tree.isSignificant

def advance (frame : Frame) (count : Nat) : Frame :=
  { frame with index := frame.index + count }

/-- The frame one tree further on, unless it is at its end. -/
def forward (frame : Frame) : Frame :=
  if frame.isEnd then frame else frame.advance 1

def toSignificant (frame : Frame) : Frame :=
  frame.advance (frame.rest.takeWhile fun tree => !tree.isSignificant).length

/-- The frame at the next tree whose reading satisfies the condition, or at its end. -/
def stopAt (wanted : Reading → Bool) (frame : Frame) : Frame :=
  frame.advance
    (frame.rest.takeWhile fun tree => !wanted (readingOf frame.closing [tree])).length

end Frame

structure Parser where
  frame : Frame
  /-- The frames set aside, innermost first. -/
  stack : List Frame
  /-- What was reported, in order. -/
  reports : List SyntaxError
  deriving Repr

def Parser.ofTrees (trees : List TokenTree) : Parser :=
  ⟨⟨trees, 0, none⟩, [], []⟩

/-- A step of a parser that yields a node or fails. -/
def Rule (α : Type) : Type :=
  Parser → Option α × Parser

namespace Rule

def yield {α : Type} (value : α) : Rule α :=
  fun parser => (some value, parser)

/-- A rule after another, which has to succeed. -/
def andThen {α β : Type} (first : Rule α) (next : α → Rule β) : Rule β :=
  fun parser =>
    match first parser with
    | (some value, after) => next value after
    | (none, after) => (none, after)

instance : Monad Rule where
  pure := yield
  bind := andThen

/-- Fails without a report. -/
def fail {α : Type} : Rule α :=
  fun parser => (none, parser)

def reject {α : Type} (error : SyntaxError) : Rule α :=
  fun parser => (none, { parser with reports := parser.reports ++ [error] })

def unexpected {α : Type} (expected : Expectation) (found : Reading) : Rule α :=
  reject (.unexpected expected found.token?)

def move (step : Frame → Frame) : Rule Unit :=
  fun parser => (some (), { parser with frame := step parser.frame })

def peek : Rule Reading :=
  fun parser => (some parser.frame.peek, parser)

def isExhausted : Rule Bool :=
  fun parser => (some parser.frame.isExhausted, parser)

def forward : Rule Unit :=
  move Frame.forward

def next : Rule Reading := do
  let found ← peek
  forward
  pure found

/-- Passes blanks and comments and reads what follows, without passing it. -/
def peekSignificant : Rule Reading := do
  move Frame.toSignificant
  peek

def nextSignificant : Rule Reading := do
  let found ← peekSignificant
  forward
  pure found

def stopAt (wanted : Reading → Bool) : Rule Reading := do
  move (Frame.stopAt wanted)
  peek

end Rule

end BuildScript.Grammar
