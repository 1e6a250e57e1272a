import BuildScript.Model
import BuildScript.Outcome
import BuildScript.Script

/-!
# The model of a script

Every entry of a script adds one increment to its model. Only a custom repository
without a URL adds none: it is reported, the others are still looked at, and the
script has no model.
-/

namespace BuildScript

namespace Repository

def centralUrl : String := "https://repo1.maven.org/maven2"

def secondaryIndexUrl : String := "https://jcenter.bintray.com/"

end Repository

def PluginEntry.increment (entry : PluginEntry) : Increment :=
  .plugin ⟨entry.plugin.content, entry.version.map fun (_, version) => version.content⟩

/-- The repository that an entry adds, or why it adds none. -/
def RepositoryEntry.increment : RepositoryEntry → Except Error Increment
  | .central _ => .ok (.repository Repository.centralUrl)
  | .secondaryIndex _ => .ok (.repository Repository.secondaryIndexUrl)
  | .custom repository =>
      match repository.urlLiteral? with
      | some url => .ok (.repository url.content)
      | none =>
          match repository.span? with
          | some span => .error (.semantic (.missingRepositoryUrl span))
          | none => .error .detached

def DependencyEntry.increment (entry : DependencyEntry) : Increment :=
  .dependency entry.coordinate.content

namespace TaskRegistration

def mainClassKey : String := "mainClass"

/-- The class to run: the first `mainClass` statement's value, if that is a string. -/
def mainClass? (task : TaskRegistration) : Option String :=
  match task.block.entries.find? fun statement => statement.hasKey mainClassKey with
  | some ⟨_, _, .string literal⟩ => some literal.content
  | _ => none

def increment (task : TaskRegistration) : Increment :=
  .task ⟨task.name.content, task.mainClass?⟩

end TaskRegistration

def Declaration.increments : Declaration → List (Except Error Increment)
  | .plugins _ block => block.entries.map fun entry => .ok entry.increment
  | .repositories _ block => block.entries.map RepositoryEntry.increment
  | .dependencies _ block => block.entries.map fun entry => .ok entry.increment
  | .task registration => [.ok registration.increment]

/-- What the entries of a script add, and what is wrong with them. -/
structure Extraction where
  increments : List Increment
  errors : List Error
  deriving Repr

namespace Extraction

/-- Sorts entries into increments and errors; a detached node ends the run. -/
def collect : List (Except Error Increment) → Except Error Extraction
  | [] => .ok ⟨[], []⟩
  | .ok increment :: rest =>
      (collect rest).map fun found => { found with increments := increment :: found.increments }
  | .error .detached :: _ => .error .detached
  | .error error :: rest =>
      (collect rest).map fun found => { found with errors := error :: found.errors }

end Extraction

namespace Script

def increments (script : Script) : List (Except Error Increment) :=
  script.declarations.flatMap Declaration.increments

/-- The model of a script; every entry at fault is reported, and the first is the result. -/
def buildModel (script : Script) : Outcome Model :=
  match Extraction.collect script.increments with
  | .error error => ⟨[], .error error⟩
  | .ok found =>
      match found.errors with
      | [] => ⟨[], .ok (Model.ofIncrements found.increments)⟩
      | first :: _ => ⟨found.errors, .error first⟩

end Script

end BuildScript
