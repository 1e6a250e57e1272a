import BuildScript.Token

/-!
# Scripts

The syntax tree of a build script: a list of declarations, each of which keeps
every token that it is made of. The span of a node runs from its first to its last
token. It is missing when those lie in different files; blocks and dotted paths
then have the span of their first token.
-/

namespace BuildScript

structure Block (α : Type) where
  opening : Punctuation
  entries : List α
  closing : Punctuation
  deriving DecidableEq, Repr

def Block.span {α : Type} (block : Block α) : Span :=
  (block.opening.span.join? block.closing.span).getD block.opening.span

/-! ## Task statements -/

structure IdentifierPath where
  first : Identifier
  rest : List (Punctuation × Identifier)
  deriving DecidableEq, Repr

namespace IdentifierPath

def elements (path : IdentifierPath) : List Identifier :=
  path.first :: path.rest.map Prod.snd

/-- The path as it is written, without blanks. -/
def dotted (path : IdentifierPath) : String :=
  ".".intercalate (path.elements.map Identifier.text)

def span (path : IdentifierPath) : Span :=
  (path.rest.getLast?.bind fun (_, last) => path.first.span.join? last.span).getD path.first.span

end IdentifierPath

/-- The value of a task statement. -/
inductive Expression where
  | string (literal : StringLiteral)
  | path (path : IdentifierPath)
  deriving DecidableEq, Repr

def Expression.span : Expression → Span
  | .string literal => literal.span
  | .path identifiers => identifiers.span

/-- A setting of a task: a key, perhaps an equals sign, a value. -/
structure TaskStatement where
  key : Identifier
  assignment : Option Punctuation
  value : Expression
  deriving DecidableEq, Repr

namespace TaskStatement

def hasKey (statement : TaskStatement) (name : String) : Bool :=
  statement.key.text == name

def span? (statement : TaskStatement) : Option Span :=
  statement.key.span.join? statement.value.span

end TaskStatement

/-! ## Entries -/

structure PluginEntry where
  idWord : Identifier
  plugin : StringLiteral
  version : Option (Identifier × StringLiteral)
  deriving DecidableEq, Repr

def PluginEntry.span? (entry : PluginEntry) : Option Span :=
  entry.idWord.span.join? ((entry.version.map Prod.snd).getD entry.plugin).span

/-- The URL of a custom repository; the equals sign and the literal may be missing. -/
structure UrlStatement where
  urlWord : Identifier
  assignment : Option Punctuation
  value : Option StringLiteral
  deriving DecidableEq, Repr

/-- A repository that is known by its keyword. -/
structure WellKnownRepository where
  keyword : KeywordToken
  opening : Punctuation
  closing : Punctuation
  deriving DecidableEq, Repr

def WellKnownRepository.span? (repository : WellKnownRepository) : Option Span :=
  repository.keyword.span.join? repository.closing.span

/-- A repository that states its URL. -/
structure CustomRepository where
  keyword : KeywordToken
  opening : Punctuation
  url : Option UrlStatement
  closing : Punctuation
  deriving DecidableEq, Repr

namespace CustomRepository

def urlLiteral? (repository : CustomRepository) : Option StringLiteral :=
  repository.url.bind UrlStatement.value

def span? (repository : CustomRepository) : Option Span :=
  repository.keyword.span.join? repository.closing.span

end CustomRepository

inductive RepositoryEntry where
  | central (repository : WellKnownRepository)
  | secondaryIndex (repository : WellKnownRepository)
  | custom (repository : CustomRepository)
  deriving DecidableEq, Repr

def RepositoryEntry.span? : RepositoryEntry → Option Span
  | .central repository => repository.span?
  | .secondaryIndex repository => repository.span?
  | .custom repository => repository.span?

/-- A dependency: a configuration and a coordinate, perhaps in parentheses. -/
structure DependencyEntry where
  configuration : Identifier
  parentheses : Option (Punctuation × Punctuation)
  coordinate : StringLiteral
  deriving DecidableEq, Repr

def DependencyEntry.span? (entry : DependencyEntry) : Option Span :=
  entry.configuration.span.join?
    (match entry.parentheses with
      | some (_, closing) => closing.span
      | none => entry.coordinate.span)

/-! ## Declarations -/

structure TaskRegistration where
  keyword : KeywordToken
  dot : Punctuation
  registerWord : Identifier
  opening : Punctuation
  name : StringLiteral
  type : Option (Punctuation × Identifier)
  closing : Punctuation
  block : Block TaskStatement
  deriving DecidableEq, Repr

def TaskRegistration.span? (task : TaskRegistration) : Option Span :=
  task.keyword.span.join? task.block.span

inductive Declaration where
  | plugins (keyword : KeywordToken) (block : Block PluginEntry)
  | repositories (keyword : KeywordToken) (block : Block RepositoryEntry)
  | dependencies (keyword : KeywordToken) (block : Block DependencyEntry)
  | task (registration : TaskRegistration)
  deriving DecidableEq, Repr

def Declaration.span? : Declaration → Option Span
  | .plugins keyword block => keyword.span.join? block.span
  | .repositories keyword block => keyword.span.join? block.span
  | .dependencies keyword block => keyword.span.join? block.span
  | .task registration => registration.span?

structure Script where
  declarations : List Declaration
  deriving DecidableEq, Repr

end BuildScript
