import BuildScript.Bazel.Options
import BuildScript.Model

/-!
# Documents

The two files that a model becomes. The workspace file fetches the rules and
installs the dependencies from the repositories; the build file lists the
dependencies' labels and has one program for each task that runs a class. Strings
of the model are written between double quotes as they are.
-/

namespace BuildScript.Bazel

structure Documents where
  workspace : String
  buildFile : String
  deriving DecidableEq, Repr

/-- The label of a dependency: its coordinate with `_` for every `:`. -/
def label (coordinate : String) : String :=
  "@maven//:" ++ String.ofList (coordinate.toList.map fun c => if c = ':' then '_' else c)

def indent (depth : Nat) : String :=
  String.join (List.replicate depth "    ")

/-- A list of strings, one a line, between a heading and an ending. -/
def stringList (depth : Nat) (heading : String) (items : List String) (ending : String) : String :=
  match items with
  | [] => indent depth ++ heading ++ "[]" ++ ending ++ "\n"
  | _ =>
      indent depth ++ heading ++ "[\n" ++
        String.join (items.map fun item => indent (depth + 1) ++ "\"" ++ item ++ "\",\n") ++
        indent depth ++ "]" ++ ending ++ "\n"

/-- The part of the workspace file that fetches the rules. -/
def workspaceHeader (version : String) : String :=
  "load(\"@bazel_tools//tools/build_defs/repo:http.bzl\", \"http_archive\")\n\n" ++
    "rules_jvm_external_version = \"" ++ version ++ "\"\n" ++
    "http_archive(\n" ++
    "    name = \"rules_jvm_external\",\n" ++
    "    urls = [\"https://github.com/bazelbuild/rules_jvm_external/archive/%s.zip\" % " ++
    "rules_jvm_external_version],\n" ++
    "    strip_prefix = \"rules_jvm_external-%s\" % rules_jvm_external_version,\n" ++
    ")\n\n" ++
    "load(\"@rules_jvm_external//:defs.bzl\", \"maven_install\")\n\n" ++
    "maven_install(\n"

def workspace (options : Options) (model : Model) : String :=
  workspaceHeader options.rulesVersion ++
    stringList 1 "artifacts = " model.dependencies "," ++
    stringList 1 "repositories = " model.repositories.toList "," ++
    ")\n"

/-- The list of the dependencies' labels, unless there are none. -/
def dependencySection (model : Model) : List String :=
  match model.dependencies with
  | [] => []
  | coordinates => [stringList 0 "maven_deps = " (coordinates.map label) ""]

def programSection (options : Options) (task : String × String) : String :=
  "java_binary(\n    name = \"" ++ task.1 ++ "\",\n    main_class = \"" ++ task.2 ++
    "\",\n    runtime_deps = [\"" ++ options.runtimeTarget ++ "\"],\n)\n"

/-- The build file: its sections with an empty line between them. -/
def buildFile (options : Options) (model : Model) : String :=
  "\n".intercalate
    (dependencySection model ++ model.runnableTasks.map (programSection options))

def render (options : Options) (model : Model) : Documents :=
  ⟨workspace options model, buildFile options model⟩

end BuildScript.Bazel
