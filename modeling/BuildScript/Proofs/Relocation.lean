import BuildScript.Error
import BuildScript.Script

/-!
# Moving spans

A syntax tree, a token or an error with every span moved elsewhere and nothing else
changed. Two nodes are the same up to their places when both become one node once
every span is made to stand alone, as a whole file that holds its text and nothing
more.
-/

namespace BuildScript

/-- The span's text as a whole file of its own. -/
def Span.alone (span : Span) : Span :=
  ⟨⟨0, "", "", span.chars⟩, 0, Text.byteLength span.chars⟩

/-- A span that stands alone keeps its characters. -/
theorem Span.alone_chars (span : Span) : span.alone.chars = span.chars := by
  have whole := Text.takeBytes_append span.chars []
  rw [List.append_nil] at whole
  change Text.takeBytes (Text.byteLength span.chars - 0) (Text.dropBytes 0 span.chars) = span.chars
  rw [Text.dropBytes_zero, Nat.sub_zero, whole]

/-- A span that stands alone keeps its text. -/
theorem Span.alone_text (span : Span) : span.alone.text = span.text :=
  congrArg String.ofList span.alone_chars

/-- Spans with the same text become the same when they stand alone. -/
theorem Span.alone_eq_iff {first second : Span} :
    first.alone = second.alone ↔ first.text = second.text := by
  constructor
  · intro same
    rw [← first.alone_text, ← second.alone_text, same]
  · intro same
    have chars : first.chars = second.chars := String.ofList_injective same
    rw [alone, alone, chars]

/-! ## Tokens -/

section

variable (move : Span → Span)

def Token.relocate (token : Token) : Token :=
  ⟨token.kind, move token.span⟩

def Identifier.relocate (identifier : Identifier) : Identifier :=
  ⟨move identifier.span⟩

def KeywordToken.relocate (token : KeywordToken) : KeywordToken :=
  ⟨token.keyword, move token.span⟩

def Punctuation.relocate (punctuation : Punctuation) : Punctuation :=
  ⟨punctuation.mark, move punctuation.span⟩

def StringLiteral.relocate (literal : StringLiteral) : StringLiteral :=
  ⟨move literal.span⟩

/-! ## Nodes -/

/-- The block with its braces moved and its entries changed. -/
def Block.relocate {α : Type} (entry : α → α) (block : Block α) : Block α :=
  ⟨block.opening.relocate move, block.entries.map entry, block.closing.relocate move⟩

def IdentifierPath.relocate (path : IdentifierPath) : IdentifierPath :=
  ⟨path.first.relocate move,
    path.rest.map (Prod.map (Punctuation.relocate move) (Identifier.relocate move))⟩

def Expression.relocate : Expression → Expression
  | .string literal => .string (literal.relocate move)
  | .path identifiers => .path (identifiers.relocate move)

def TaskStatement.relocate (statement : TaskStatement) : TaskStatement :=
  ⟨statement.key.relocate move, statement.assignment.map (Punctuation.relocate move),
    statement.value.relocate move⟩

def PluginEntry.relocate (entry : PluginEntry) : PluginEntry :=
  ⟨entry.idWord.relocate move, entry.plugin.relocate move,
    entry.version.map (Prod.map (Identifier.relocate move) (StringLiteral.relocate move))⟩

def UrlStatement.relocate (statement : UrlStatement) : UrlStatement :=
  ⟨statement.urlWord.relocate move, statement.assignment.map (Punctuation.relocate move),
    statement.value.map (StringLiteral.relocate move)⟩

def WellKnownRepository.relocate (repository : WellKnownRepository) : WellKnownRepository :=
  ⟨repository.keyword.relocate move, repository.opening.relocate move,
    repository.closing.relocate move⟩

def CustomRepository.relocate (repository : CustomRepository) : CustomRepository :=
  ⟨repository.keyword.relocate move, repository.opening.relocate move,
    repository.url.map (UrlStatement.relocate move), repository.closing.relocate move⟩

def RepositoryEntry.relocate : RepositoryEntry → RepositoryEntry
  | .central repository => .central (repository.relocate move)
  | .secondaryIndex repository => .secondaryIndex (repository.relocate move)
  | .custom repository => .custom (repository.relocate move)

def DependencyEntry.relocate (entry : DependencyEntry) : DependencyEntry :=
  ⟨entry.configuration.relocate move,
    entry.parentheses.map (Prod.map (Punctuation.relocate move) (Punctuation.relocate move)),
    entry.coordinate.relocate move⟩

def TaskRegistration.relocateType (type : Option (Punctuation × Identifier)) :
    Option (Punctuation × Identifier) :=
  type.map (Prod.map (Punctuation.relocate move) (Identifier.relocate move))

def TaskRegistration.relocate (task : TaskRegistration) : TaskRegistration :=
  ⟨task.keyword.relocate move, task.dot.relocate move, task.registerWord.relocate move,
    task.opening.relocate move, task.name.relocate move, relocateType move task.type,
    task.closing.relocate move, task.block.relocate move (TaskStatement.relocate move)⟩

def Declaration.relocate : Declaration → Declaration
  | .plugins keyword block =>
      .plugins (keyword.relocate move) (block.relocate move (PluginEntry.relocate move))
  | .repositories keyword block =>
      .repositories (keyword.relocate move) (block.relocate move (RepositoryEntry.relocate move))
  | .dependencies keyword block =>
      .dependencies (keyword.relocate move) (block.relocate move (DependencyEntry.relocate move))
  | .task registration => .task (registration.relocate move)

def Script.relocate (script : Script) : Script :=
  ⟨script.declarations.map (Declaration.relocate move)⟩

/-! ## Errors -/

def LexicalError.relocate : LexicalError → LexicalError
  | .unterminatedComment span => .unterminatedComment (move span)
  | .unterminatedString span => .unterminatedString (move span)
  | .undelimited opening delimiter => .undelimited (move opening) delimiter

def SyntaxError.relocate : SyntaxError → SyntaxError
  | .unexpected expected found => .unexpected expected (found.map (Token.relocate move))
  | .unknownRepository name alternatives => .unknownRepository (move name) alternatives

end

/-! ## Spans that stay -/

@[simp]
theorem Identifier.relocate_id : Identifier.relocate id = id := rfl

@[simp]
theorem KeywordToken.relocate_id : KeywordToken.relocate id = id := rfl

@[simp]
theorem Punctuation.relocate_id : Punctuation.relocate id = id := rfl

@[simp]
theorem StringLiteral.relocate_id : StringLiteral.relocate id = id := rfl

@[simp]
theorem Block.relocate_id {α : Type} (block : Block α) : block.relocate id id = block := by
  simp [Block.relocate]

@[simp]
theorem IdentifierPath.relocate_id : IdentifierPath.relocate id = id := by
  funext path
  simp [IdentifierPath.relocate]

@[simp]
theorem Expression.relocate_id : Expression.relocate id = id := by
  funext expression
  cases expression <;> simp [Expression.relocate]

@[simp]
theorem TaskStatement.relocate_id : TaskStatement.relocate id = id := by
  funext statement
  simp [TaskStatement.relocate]

@[simp]
theorem PluginEntry.relocate_id : PluginEntry.relocate id = id := by
  funext entry
  simp [PluginEntry.relocate]

@[simp]
theorem UrlStatement.relocate_id : UrlStatement.relocate id = id := by
  funext statement
  simp [UrlStatement.relocate]

@[simp]
theorem WellKnownRepository.relocate_id : WellKnownRepository.relocate id = id := by
  funext repository
  simp [WellKnownRepository.relocate]

@[simp]
theorem CustomRepository.relocate_id : CustomRepository.relocate id = id := by
  funext repository
  simp [CustomRepository.relocate]

@[simp]
theorem RepositoryEntry.relocate_id : RepositoryEntry.relocate id = id := by
  funext entry
  cases entry <;> simp [RepositoryEntry.relocate]

@[simp]
theorem DependencyEntry.relocate_id : DependencyEntry.relocate id = id := by
  funext entry
  simp [DependencyEntry.relocate]

@[simp]
theorem TaskRegistration.relocate_id : TaskRegistration.relocate id = id := by
  funext task
  simp [TaskRegistration.relocate, TaskRegistration.relocateType]

@[simp]
theorem Declaration.relocate_id : Declaration.relocate id = id := by
  funext declaration
  cases declaration <;> simp [Declaration.relocate]

@[simp]
theorem Script.relocate_id : Script.relocate id = id := by
  funext script
  simp [Script.relocate]

end BuildScript
