/-!
# Keywords

The words that a script reserves: four that begin a declaration and three that
name a repository.
-/

namespace BuildScript

inductive Keyword where
  | plugins
  | repositories
  | dependencies
  | tasks
  | mavenCentral
  | jcenter
  | maven
  deriving DecidableEq, Repr

namespace Keyword

def all : List Keyword :=
  [.plugins, .repositories, .dependencies, .tasks, .mavenCentral, .jcenter, .maven]

def spelling : Keyword → String
  | .plugins => "plugins"
  | .repositories => "repositories"
  | .dependencies => "dependencies"
  | .tasks => "tasks"
  | .mavenCentral => "mavenCentral"
  | .jcenter => "jcenter"
  | .maven => "maven"

def ofSpelling? (text : String) : Option Keyword :=
  all.find? fun keyword => keyword.spelling == text

/-- The answer to a text that spells no keyword. -/
def unknownSpelling : String :=
  "invalid string representation of keyword."

def startsDeclaration : Keyword → Bool
  | .plugins | .repositories | .dependencies | .tasks => true
  | _ => false

def isRepository : Keyword → Bool
  | .mavenCentral | .jcenter | .maven => true
  | _ => false

end Keyword

end BuildScript
