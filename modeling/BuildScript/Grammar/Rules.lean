import BuildScript.Grammar.Elements

/-!
# The grammar

One rule per kind of node. A rule that fails has reported exactly what it expected
and what it found. Most rules pass the token they blame; the rule for plugin
entries leaves it where it is. After a declaration that fails, reading resumes at
the next keyword that begins one.
-/

namespace BuildScript.Grammar

namespace Rule

/-! ## Task statements -/

/-- The further identifiers of a dotted path. Every dot passes a tree. -/
def pathRest (parser : Parser) : Option (List (Punctuation × Identifier)) × Parser :=
  match punctuation? '.' parser with
  | (none, after) => (none, after)
  | (some none, after) => (some [], after)
  | (some (some dot), after) =>
      match name after with
      | (none, last) => (none, last)
      | (some segment, last) =>
          if last.frame.remaining < parser.frame.remaining then
            match pathRest last with
            | (some rest, final) => (some ((dot, segment) :: rest), final)
            | (none, final) => (none, final)
          else (none, last)
termination_by parser.frame.remaining

def identifierPath : Rule IdentifierPath := do
  let first ← name
  let rest ← pathRest
  pure ⟨first, rest⟩

def expression : Rule Expression := do
  match ← peekSignificant with
  | .atomic ⟨.stringLiteral, span⟩ => do
      forward
      pure (.string ⟨span⟩)
  | .atomic ⟨.identifier, _⟩ => do
      let path ← identifierPath
      pure (.path path)
  | .atomic ⟨.keyword _, _⟩ => do
      let path ← identifierPath
      pure (.path path)
  | found => do
      forward
      unexpected .expression found

/-- The rest of a task statement whose name comes next. -/
def assignment : Rule TaskStatement := do
  let key ← name
  let equals ← punctuation? '='
  let value ← expression
  pure ⟨key, equals, value⟩

def taskStatement : Rule TaskStatement := do
  match ← peekSignificant with
  | .atomic ⟨.identifier, _⟩ => assignment
  | .atomic ⟨.keyword _, _⟩ => assignment
  | found => do
      forward
      unexpected .taskStatement found

/-! ## Entries -/

def pluginVersion : Rule (Option (Identifier × StringLiteral)) := do
  match ← peekSignificant with
  | .atomic ⟨.identifier, span⟩ =>
      if span.text = "version" then do
        forward
        let version ← stringLiteral
        pure (some (⟨span⟩, version))
      else pure none
  | _ => pure none

def pluginEntry : Rule PluginEntry := do
  match ← peekSignificant with
  | .atomic ⟨.identifier, span⟩ =>
      if span.text = "id" then do
        forward
        let plugin ← stringLiteral
        let version ← pluginVersion
        pure ⟨⟨span⟩, plugin, version⟩
      else unexpected .pluginEntry (.atomic ⟨.identifier, span⟩)
  | found => unexpected .pluginEntry found

def urlStatement : Rule UrlStatement := do
  let urlWord ← contextualKeyword "url"
  let equals ← punctuation? '='
  let value ← stringLiteral?
  pure ⟨urlWord, equals, value⟩

/-- The inside of a custom repository: a URL statement or nothing. -/
def customUrl : Rule (Option UrlStatement) := do
  if ← isExhausted then pure none
  else do
    let url ← urlStatement
    pure (some url)

/-- The empty parentheses behind a well-known repository. -/
def wellKnown (token : KeywordToken) : Rule WellKnownRepository := do
  forward
  let group ← enclosed .parenthesis (pure ())
  require group.inside
  pure ⟨token, group.opening, group.closing⟩

def customRepository (token : KeywordToken) : Rule CustomRepository := do
  forward
  let group ← enclosed .brace customUrl
  let url ← require group.inside
  pure ⟨token, group.opening, url, group.closing⟩

def repositoryEntry : Rule RepositoryEntry := do
  match ← peekSignificant with
  | .atomic ⟨.keyword .mavenCentral, span⟩ => do
      let repository ← wellKnown ⟨.mavenCentral, span⟩
      pure (.central repository)
  | .atomic ⟨.keyword .jcenter, span⟩ => do
      let repository ← wellKnown ⟨.jcenter, span⟩
      pure (.secondaryIndex repository)
  | .atomic ⟨.keyword .maven, span⟩ => do
      let repository ← customRepository ⟨.maven, span⟩
      pure (.custom repository)
  | .atomic ⟨.identifier, span⟩ => do
      forward
      reject (.unknownRepository span (SyntaxError.alternatives span.text))
  | found => do
      forward
      unexpected .repositoryEntry found

/-- The coordinate of a dependency, perhaps in parentheses. -/
def coordinate (configuration : Identifier) : Rule DependencyEntry := do
  match ← peekSignificant with
  | .opening mark =>
      if mark.mark = '(' then do
        let group ← enclosed .parenthesis stringLiteral
        let literal ← require group.inside
        pure ⟨configuration, some (group.opening, group.closing), literal⟩
      else do
        let literal ← stringLiteral
        pure ⟨configuration, none, literal⟩
  | _ => do
      let literal ← stringLiteral
      pure ⟨configuration, none, literal⟩

def dependencyEntry : Rule DependencyEntry := do
  match ← peekSignificant with
  | .atomic ⟨.identifier, span⟩ => do
      forward
      coordinate ⟨span⟩
  | found => do
      forward
      unexpected .dependencyEntry found

/-! ## Declarations -/

def taskType : Rule (Option (Punctuation × Identifier)) := do
  match ← punctuation? ',' with
  | some comma => do
      let type ← identifier
      pure (some (comma, type))
  | none => pure none

def taskArguments : Rule (StringLiteral × Option (Punctuation × Identifier)) := do
  let taskName ← stringLiteral
  let type ← taskType
  pure (taskName, type)

def taskRegistration : Rule TaskRegistration := do
  let token ← keyword .tasks
  let dot ← punctuation '.' true
  let registerWord ← contextualKeyword "register"
  let group ← enclosed .parenthesis taskArguments
  let (taskName, type) ← require group.inside
  let body ← block taskStatement
  pure ⟨token, dot, registerWord, group.opening, taskName, type, group.closing, body⟩

def declaration : Rule Declaration := do
  match ← peekSignificant with
  | .atomic ⟨.keyword .plugins, span⟩ => do
      forward
      let body ← block pluginEntry
      pure (.plugins ⟨.plugins, span⟩ body)
  | .atomic ⟨.keyword .repositories, span⟩ => do
      forward
      let body ← block repositoryEntry
      pure (.repositories ⟨.repositories, span⟩ body)
  | .atomic ⟨.keyword .dependencies, span⟩ => do
      forward
      let body ← block dependencyEntry
      pure (.dependencies ⟨.dependencies, span⟩ body)
  | .atomic ⟨.keyword .tasks, _⟩ => do
      let registration ← taskRegistration
      pure (.task registration)
  | found => do
      forward
      unexpected .declaration found

/-! ## Scripts -/

def startsDeclaration : Reading → Bool
  | .atomic ⟨.keyword word, _⟩ => word.startsDeclaration
  | _ => false

end Rule

structure Attempt where
  /-- The index of the tree at which the declaration begins. -/
  start : Nat
  /-- The declaration, unless it could not be read. -/
  node : Option Declaration
  deriving Repr

namespace Rule

/--
The attempts up to the end of the frame; after one that fails, reading resumes at the
next keyword that begins a declaration. Every attempt passes a tree.
-/
def attempts (parser : Parser) : List Attempt × Parser :=
  if parser.frame.isExhausted then ([], parser)
  else
    let (node, after) := declaration parser
    let attempt : Attempt := ⟨parser.frame.toSignificant.index, node⟩
    let resumed :=
      match node with
      | some _ => after
      | none => { after with frame := after.frame.stopAt startsDeclaration }
    if resumed.frame.remaining < parser.frame.remaining then
      let (later, last) := attempts resumed
      (attempt :: later, last)
    else ([attempt], resumed)
termination_by parser.frame.remaining

/-- A build script; fails if any attempt at a declaration does. -/
def script : Rule Script :=
  fun parser =>
    let (made, last) := attempts parser
    let nodes := made.map Attempt.node
    (if nodes.all Option.isSome then some ⟨nodes.filterMap id⟩ else none, last)

end Rule

end BuildScript.Grammar
