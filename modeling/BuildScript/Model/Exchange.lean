import BuildScript.Bazel.Options
import BuildScript.Data
import BuildScript.Model

/-!
# Models as data

The form in which models, increments and options are exchanged. Reading refuses a
value of the wrong type and a missing field; only a plugin's version and a task's
main class may be missing. Ordered sets are written as lists, and repetitions are
dropped when they are read.
-/

namespace BuildScript

namespace Plugin

def toData (plugin : Plugin) : Data :=
  .record [("id", .string plugin.id), ("version", .ofString? plugin.version)]

def ofData? (data : Data) : Option Plugin := do
  match ← data.fields? [⟨"id", false⟩, ⟨"version", true⟩] with
  | [id, version] => pure ⟨← id.string?, ← version.nullableString?⟩
  | _ => none

end Plugin

namespace Task

def toData (task : Task) : Data :=
  .record [("name", .string task.name), ("main_class", .ofString? task.mainClass)]

def ofData? (data : Data) : Option Task := do
  match ← data.fields? [⟨"name", false⟩, ⟨"main_class", true⟩] with
  | [name, mainClass] => pure ⟨← name.string?, ← mainClass.nullableString?⟩
  | _ => none

end Task

namespace Increment

/-- An increment as data: its kind with its content. -/
def toData : Increment → Data
  | .plugin content => .record [("Plugin", content.toData)]
  | .repository url => .record [("Repository", .string url)]
  | .dependency coordinate => .record [("Dependency", .string coordinate)]
  | .task content => .record [("Task", content.toData)]

def ofData? : Data → Option Increment
  | .record [(kind, content)] =>
      if kind = "Plugin" then (Plugin.ofData? content).map .plugin
      else if kind = "Repository" then content.string?.map .repository
      else if kind = "Dependency" then content.string?.map .dependency
      else if kind = "Task" then (Task.ofData? content).map .task
      else none
  | _ => none

end Increment

namespace Model

def toData (model : Model) : Data :=
  .record [
    ("repositories", .ofStrings model.repositories.toList),
    ("dependencies", .ofStrings model.dependencies),
    ("declared_plugins", .list (model.plugins.toList.map Plugin.toData)),
    ("task_specs", .list (model.tasks.map Task.toData))]

def ofData? (data : Data) : Option Model := do
  let names : List FieldName :=
    [⟨"repositories", false⟩, ⟨"dependencies", false⟩, ⟨"declared_plugins", false⟩,
      ⟨"task_specs", false⟩]
  match ← data.fields? names with
  | [repositories, dependencies, plugins, tasks] =>
      let pluginList ← (← plugins.items?).mapM Plugin.ofData?
      let taskList ← (← tasks.items?).mapM Task.ofData?
      pure ⟨.ofList (← repositories.strings?), ← dependencies.strings?, .ofList pluginList,
        taskList⟩
  | _ => none

end Model

namespace Bazel.Options

def toData (options : Options) : Data :=
  .record [
    ("rules_jvm_external_version", .string options.rulesVersion),
    ("runtime_deps_placeholder", .string options.runtimeTarget),
    ("workspace_file_name", .string options.workspaceFileName),
    ("build_file_name", .string options.buildFileName)]

/-- The options that the data describes in full. -/
def ofData? (data : Data) : Option Options := do
  let names : List FieldName :=
    [⟨"rules_jvm_external_version", false⟩, ⟨"runtime_deps_placeholder", false⟩,
      ⟨"workspace_file_name", false⟩, ⟨"build_file_name", false⟩]
  match ← data.fields? names with
  | [version, target, workspaceName, buildName] =>
      pure ⟨← version.string?, ← target.string?, ← workspaceName.string?, ← buildName.string?⟩
  | _ => none

end Bazel.Options

end BuildScript
