import BuildScript.OrderedSet

/-!
# Build models

What a script says, free of its syntax: the repositories and plugins without
repetitions, the dependencies and tasks as they come. A model grows by increments,
one for each entry of the script.
-/

namespace BuildScript

structure Plugin where
  id : String
  version : Option String
  deriving DecidableEq, Hashable, Repr

structure Task where
  name : String
  mainClass : Option String
  deriving DecidableEq, Repr

/-- What one entry adds to a model. -/
inductive Increment where
  | plugin (plugin : Plugin)
  | repository (url : String)
  | dependency (coordinate : String)
  | task (task : Task)
  deriving DecidableEq, Repr

structure Model where
  repositories : OrderedSet String
  dependencies : List String
  plugins : OrderedSet Plugin
  tasks : List Task

namespace Model

def empty : Model :=
  ⟨.empty, [], .empty, []⟩

def apply (model : Model) : Increment → Model
  | .plugin plugin => { model with plugins := (model.plugins.insert plugin).2 }
  | .repository url => { model with repositories := (model.repositories.insert url).2 }
  | .dependency coordinate => { model with dependencies := model.dependencies ++ [coordinate] }
  | .task task => { model with tasks := model.tasks ++ [task] }

def ofIncrements (increments : List Increment) : Model :=
  increments.foldl apply empty

/-- The tasks that run a class, each with that class. -/
def runnableTasks (model : Model) : List (String × String) :=
  model.tasks.filterMap fun task => task.mainClass.map fun mainClass => (task.name, mainClass)

def equals (first second : Model) : Bool :=
  first.repositories == second.repositories && first.dependencies == second.dependencies &&
    first.plugins == second.plugins && first.tasks == second.tasks

instance : BEq Model := ⟨equals⟩

end Model

end BuildScript
