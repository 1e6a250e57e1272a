import BuildScript.Proofs.ModelStrings
import BuildScript.Proofs.WrittenText

/-!
# Documents can be read back

The documents of a model are texts again, and the lexer splits them into the strings
that were put into them. Every piece of a document writes its part of an outline; the
outline of a whole document then shows what the document says, wherever it is asked for
a call or an assignment.
-/

namespace BuildScript.Bazel

open Outline (assigned atoms atomsAll calls listed?)

/-- The strings of the options that documents hold can be quoted as they are. -/
structure Options.WellQuoted (options : Options) : Prop where
  rulesVersion : BuildScript.WellQuoted options.rulesVersion
  runtimeTarget : BuildScript.WellQuoted options.runtimeTarget

/-! ## Outlines of documents -/

def items (texts : List String) : List Outline :=
  texts.flatMap fun text => [.literal text, .mark ',']

def argument (name : String) (value : List Outline) : List Outline :=
  [.word name, .mark '='] ++ value ++ [.mark ',']

def loading (file symbol : String) : List Outline :=
  [.word "load", .group .parenthesis [.literal file, .mark ',', .literal symbol]]

def fetching : List Outline :=
  [.word "http_archive", .group .parenthesis
    (argument "name" [.literal "rules_jvm_external"] ++
      argument "urls" [.group .bracket
        [.literal "https://github.com/bazelbuild/rules_jvm_external/archive/%s.zip", .mark '%',
          .word "rules_jvm_external_version"]] ++
      argument "strip_prefix"
        [.literal "rules_jvm_external-%s", .mark '%', .word "rules_jvm_external_version"])]

def workspaceOutline (options : Options) (model : Model) : List Outline :=
  loading "@bazel_tools//tools/build_defs/repo:http.bzl" "http_archive" ++
    [.word "rules_jvm_external_version", .mark '=', .literal options.rulesVersion] ++ fetching ++
    loading "@rules_jvm_external//:defs.bzl" "maven_install" ++
    [.word "maven_install", .group .parenthesis
      (argument "artifacts" [.group .bracket (items model.dependencies)] ++
        argument "repositories" [.group .bracket (items model.repositories.toList)])]

def dependencyOutline (model : Model) : List Outline :=
  match model.dependencies with
  | [] => []
  | coordinates =>
      [.word "maven_deps", .mark '=', .group .bracket (items (coordinates.map label))]

def programArguments (options : Options) (task : String × String) : List Outline :=
  argument "name" [.literal task.1] ++ argument "main_class" [.literal task.2] ++
    argument "runtime_deps" [.group .bracket [.literal options.runtimeTarget]]

def program (options : Options) (task : String × String) : List Outline :=
  [.word "java_binary", .group .parenthesis (programArguments options task)]

def buildFileOutline (options : Options) (model : Model) : List Outline :=
  dependencyOutline model ++ model.runnableTasks.flatMap (program options)

/-! ## Pieces of documents -/

theorem indent_writes (depth : Nat) : Writes (indent depth) [] := by
  have blanks : Writes "    " [] := .scanned 4 (by decide)
  induction depth with
  | zero => exact .empty
  | succ depth ih =>
      rw [indent, List.replicate_succ, String.join_cons]
      exact blanks.append ih

/-- An item stands on a line of its own. -/
theorem item_writes (depth : Nat) {item : String} (quoted : WellQuoted item) :
    Writes (indent depth ++ "\"" ++ item ++ "\",\n") (atomsAll [.literal item, .mark ',']) := by
  have opens : Opens (indent depth ++ "\"") [] := .start _ rfl (indent_writes depth)
  exact opens.close quoted ",\n" (by decide +kernel) (.scanned 2 (by decide))

/-- A list of strings is a bracket group between its heading and its ending. -/
theorem stringList_writes (depth : Nat) {heading ending : String} {before after : List Atom}
    (heads : Writes heading before) (ends : Writes ending after) {texts : List String}
    (quoted : ∀ text ∈ texts, WellQuoted text) :
    Writes (stringList depth heading texts ending)
      (before ++ atoms (.group .bracket (items texts)) ++ after) := by
  have outside := (indent_writes depth).append heads
  have lineEnd : Writes "\n" [] := .scanned 1 (by decide)
  unfold stringList
  split
  · have brackets : Writes "[]" [.mark '[', .mark ']'] := .scanned 2 (by decide)
    simpa [atoms, items, atomsAll, Delimiter.opening, Delimiter.closing] using
      ((outside.append brackets).append ends).append lineEnd
  · have opening : Writes "[\n" [.mark '['] := .scanned 2 (by decide)
    have closing : Writes "]" [.mark ']'] := .scanned 1 (by decide)
    have inside := Writes.join fun text member => item_writes (depth + 1) (quoted text member)
    rw [← Outline.atomsAll_flatMap] at inside
    simpa [atoms, items, Delimiter.opening, Delimiter.closing] using
      (((((outside.append opening).append inside).append (indent_writes depth)).append
        closing).append ends).append lineEnd

/-! ## Whole documents -/

theorem workspaceHeader_writes {version : String} (quoted : WellQuoted version) :
    Writes (workspaceHeader version)
      (atomsAll (loading "@bazel_tools//tools/build_defs/repo:http.bzl" "http_archive" ++
        [.word "rules_jvm_external_version", .mark '=', .literal version] ++ fetching ++
        loading "@rules_jvm_external//:defs.bzl" "maven_install") ++
          [.word "maven_install", .mark '(']) := by
  have archive : Writes
      "load(\"@bazel_tools//tools/build_defs/repo:http.bzl\", \"http_archive\")\n\n"
      (atomsAll (loading "@bazel_tools//tools/build_defs/repo:http.bzl" "http_archive")) :=
    .scanned 80 (by decide +kernel)
  have sets : Writes "rules_jvm_external_version = "
      [.word "rules_jvm_external_version", .mark '='] := .scanned 80 (by decide +kernel)
  have fetches : Writes "http_archive(\n" [.word "http_archive", .mark '('] :=
    .scanned 80 (by decide +kernel)
  have name : Writes "    name = \"rules_jvm_external\",\n"
      (atomsAll (argument "name" [.literal "rules_jvm_external"])) :=
    .scanned 80 (by decide +kernel)
  have urls : Writes
      "    urls = [\"https://github.com/bazelbuild/rules_jvm_external/archive/%s.zip\" % "
      [.word "urls", .mark '=', .mark '[',
        .literal "https://github.com/bazelbuild/rules_jvm_external/archive/%s.zip", .mark '%'] :=
    .scanned 80 (by decide +kernel)
  have urlsEnd : Writes "rules_jvm_external_version],\n"
      [.word "rules_jvm_external_version", .mark ']', .mark ','] := .scanned 80 (by decide +kernel)
  have strips : Writes
      "    strip_prefix = \"rules_jvm_external-%s\" % rules_jvm_external_version,\n"
      (atomsAll (argument "strip_prefix"
        [.literal "rules_jvm_external-%s", .mark '%', .word "rules_jvm_external_version"])) :=
    .scanned 80 (by decide +kernel)
  have fetched : Writes ")\n\n" [.mark ')'] := .scanned 80 (by decide +kernel)
  have install : Writes "load(\"@rules_jvm_external//:defs.bzl\", \"maven_install\")\n\n"
      (atomsAll (loading "@rules_jvm_external//:defs.bzl" "maven_install")) :=
    .scanned 80 (by decide +kernel)
  have installs : Writes "maven_install(\n" [.word "maven_install", .mark '('] :=
    .scanned 80 (by decide +kernel)
  have lineEnd : Writes "\n" [] := .scanned 1 (by decide)
  have opens : Opens
      ("load(\"@bazel_tools//tools/build_defs/repo:http.bzl\", \"http_archive\")\n\n" ++
        "rules_jvm_external_version = \"") _ :=
    .start _ (by decide +kernel) (archive.append sets)
  have quote : ("\"\n" : String) = "\"" ++ "\n" := by decide +kernel
  have closed := opens.close quoted "\n" quote lineEnd
  exact ((((((((closed.append fetches).append name).append urls).append urlsEnd).append
    strips).append fetched).append install).append installs)

theorem workspace_writes {options : Options} {model : Model}
    (optionsQuoted : options.WellQuoted) (modelQuoted : model.WellQuoted) :
    Writes (workspace options model) (atomsAll (workspaceOutline options model)) := by
  have header := workspaceHeader_writes optionsQuoted.rulesVersion
  have comma : Writes "," [.mark ','] := .scanned 1 (by decide)
  have artifacts := stringList_writes 1
    (.scanned 20 (by decide +kernel) : Writes "artifacts = " [.word "artifacts", .mark '=']) comma
    modelQuoted.dependencies
  have repositories := stringList_writes 1
    (.scanned 20 (by decide +kernel) : Writes "repositories = " [.word "repositories", .mark '='])
    comma modelQuoted.repositories
  have closing : Writes ")\n" [.mark ')'] := .scanned 2 (by decide)
  have whole := ((header.append artifacts).append repositories).append closing
  unfold workspace workspaceOutline
  simpa [Outline.atomsAll_append, atomsAll, atoms, argument, Delimiter.opening, Delimiter.closing]
    using whole

theorem programSection_writes {options : Options} (optionsQuoted : options.WellQuoted)
    {task : String × String} (name : WellQuoted task.1) (mainClass : WellQuoted task.2) :
    Writes (programSection options task) (atomsAll (program options task)) := by
  have begins : Opens "java_binary(\n    name = \""
      [.word "java_binary", .mark '(', .word "name", .mark '='] :=
    .start "java_binary(\n    name = " (by decide +kernel) (.scanned 40 (by decide +kernel))
  have setsClass : Writes ",\n    main_class = " [.mark ',', .word "main_class", .mark '='] :=
    .scanned 40 (by decide +kernel)
  have setsTarget : Writes ",\n    runtime_deps = ["
      [.mark ',', .word "runtime_deps", .mark '=', .mark '['] := .scanned 40 (by decide +kernel)
  have ends : Writes "],\n)\n" [.mark ']', .mark ',', .mark ')'] := .scanned 5 (by decide +kernel)
  have quoteClass : ("\",\n    main_class = \"" : String) =
      "\"" ++ ",\n    main_class = " ++ "\"" := by decide +kernel
  have quoteTarget : ("\",\n    runtime_deps = [\"" : String) =
      "\"" ++ ",\n    runtime_deps = [" ++ "\"" := by decide +kernel
  have quoteEnd : ("\"],\n)\n" : String) = "\"" ++ "],\n)\n" := by decide +kernel
  exact ((begins.next name _ quoteClass setsClass).next mainClass _ quoteTarget setsTarget).close
    optionsQuoted.runtimeTarget _ quoteEnd ends

theorem dependencySection_writes {model : Model} (quoted : model.WellQuoted) :
    ∃ each, List.Forall₂ Writes (dependencySection model) each ∧
      each.flatten = atomsAll (dependencyOutline model) := by
  have labels : ∀ text ∈ model.dependencies.map label, WellQuoted text := by
    intro text member
    obtain ⟨coordinate, among, rfl⟩ := List.mem_map.1 member
    exact (quoted.dependencies coordinate among).label
  have writes := stringList_writes 0
    (.scanned 20 (by decide +kernel) : Writes "maven_deps = " [.word "maven_deps", .mark '='])
    .empty labels
  unfold dependencySection dependencyOutline
  cases coordinates : model.dependencies with
  | nil => exact ⟨[], .nil, rfl⟩
  | cons first later =>
      rw [coordinates] at writes
      exact ⟨[_], .cons writes .nil, by simp [atomsAll, atoms]⟩

theorem buildFile_writes {options : Options} {model : Model}
    (optionsQuoted : options.WellQuoted) (modelQuoted : model.WellQuoted) :
    Writes (buildFile options model) (atomsAll (buildFileOutline options model)) := by
  obtain ⟨each, labels, flat⟩ := dependencySection_writes modelQuoted
  have programs : List.Forall₂ Writes (model.runnableTasks.map (programSection options))
      (model.runnableTasks.map fun task => atomsAll (program options task)) := by
    rw [List.forall₂_map_left_iff, List.forall₂_map_right_iff, List.forall₂_same]
    intro task member
    obtain ⟨name, mainClass⟩ := modelQuoted.runnableTasks task member
    exact programSection_writes optionsQuoted name mainClass
  have apart : Writes "\n" [] := .scanned 1 (by decide)
  have whole := Writes.intercalate apart (List.rel_append labels programs)
  rw [List.flatten_append, flat, ← List.flatMap_def, ← Outline.atomsAll_flatMap,
    ← Outline.atomsAll_append] at whole
  exact whole

/-! ## Looking things up -/

theorem areNested_items (texts : List String) : Outline.areNested (items texts) = true :=
  Outline.areNested_flatMap (fun _ => rfl) texts

theorem workspaceOutline_nested (options : Options) (model : Model) :
    Outline.areNested (workspaceOutline options model) = true := by
  simp [workspaceOutline, loading, fetching, argument, Outline.areNested, Outline.isNested,
    Atom.isPlain, areNested_items]

theorem buildFileOutline_nested (options : Options) (model : Model) :
    Outline.areNested (buildFileOutline options model) = true := by
  have nested : ∀ task, Outline.areNested (program options task) = true := fun _ => rfl
  have programs := Outline.areNested_flatMap nested model.runnableTasks
  rw [buildFileOutline, Outline.areNested_append, programs, Bool.and_true, dependencyOutline]
  split
  · rfl
  · simp [Outline.areNested, Outline.isNested, Atom.isPlain, areNested_items]

theorem listed?_items (texts : List String) :
    listed? (.group .bracket (items texts)) = some texts := by
  simp [listed?, items, Outline.literal?, List.filterMap_flatMap, List.filterMap_cons]

/-- The programs assign nothing outside their arguments. -/
theorem assigned_programs (name : String) (options : Options) (tasks : List (String × String)) :
    assigned name (tasks.flatMap (program options)) = [] := by
  induction tasks with
  | nil => rfl
  | cons task tasks ih => exact ih

theorem calls_programs (options : Options) (tasks : List (String × String)) :
    calls "java_binary" (tasks.flatMap (program options)) =
      tasks.map (programArguments options) := by
  induction tasks with
  | nil => rfl
  | cons task tasks ih => exact congrArg (_ :: ·) ih

/-- What a file says when it is read as a workspace file. -/
structure HoldsWorkspace (options : Options) (model : Model) (file : SourceFile) : Prop where
  clean : file.tokenize.reports = []
  version : assigned "rules_jvm_external_version" file.outline = [.literal options.rulesVersion]
  artifacts : (calls "maven_install" file.outline).map
    (fun arguments => (assigned "artifacts" arguments).map listed?) = [[some model.dependencies]]
  repositories : (calls "maven_install" file.outline).map
    (fun arguments => (assigned "repositories" arguments).map listed?) =
      [[some model.repositories.toList]]

/-- What a file says when it is read as a build file. -/
structure HoldsBuildFile (options : Options) (model : Model) (file : SourceFile) : Prop where
  clean : file.tokenize.reports = []
  /-- There is one list of labels, or none without dependencies. -/
  labels : (assigned "maven_deps" file.outline).map listed? =
    if model.dependencies = [] then [] else [some (model.dependencies.map label)]
  /-- There is one program for each task that runs a class. -/
  programs : List.Forall₂ (fun task arguments =>
    assigned "name" arguments = [.literal task.1] ∧
      assigned "main_class" arguments = [.literal task.2] ∧
        (assigned "runtime_deps" arguments).map listed? = [some [options.runtimeTarget]])
    model.runnableTasks (calls "java_binary" file.outline)

theorem holdsWorkspace_of_outline {options : Options} {model : Model} {file : SourceFile}
    (clean : file.tokenize.reports = []) (outline : file.outline = workspaceOutline options model) :
    HoldsWorkspace options model file := by
  refine ⟨clean, ?_, ?_, ?_⟩
  · rw [outline]
    rfl
  · rw [outline, ← listed?_items]
    rfl
  · rw [outline, ← listed?_items]
    rfl

theorem holdsBuildFile_of_outline {options : Options} {model : Model} {file : SourceFile}
    (clean : file.tokenize.reports = []) (outline : file.outline = buildFileOutline options model) :
    HoldsBuildFile options model file := by
  have found :
      assigned "maven_deps" file.outline = assigned "maven_deps" (dependencyOutline model) ∧
      calls "java_binary" file.outline = model.runnableTasks.map (programArguments options) := by
    rw [outline, buildFileOutline, dependencyOutline]
    cases model.dependencies with
    | nil => exact ⟨assigned_programs _ _ _, calls_programs _ _⟩
    | cons first later =>
        exact ⟨congrArg (_ :: ·) (assigned_programs _ _ _), calls_programs _ _⟩
  refine ⟨clean, ?_, ?_⟩
  · rw [found.1, dependencyOutline]
    cases model.dependencies with
    | nil => rfl
    | cons first later =>
        rw [if_neg (List.cons_ne_nil _ _), ← listed?_items]
        rfl
  · rw [found.2, List.forall₂_map_right_iff, List.forall₂_same]
    exact fun task _ => ⟨rfl, rfl, rfl⟩

/-! ## Reading back -/

/--
The documents of a model whose strings can be quoted as they are split into tokens without
a report, and hold what was put into them: the workspace file the version of the rules,
the dependencies and the repositories, the build file the labels of the dependencies and
a program for each task that runs a class. The strings of a model can be quoted, if it
was built from a script whose literals stand between double quotes.
-/
theorem render_reads_back {options : Options} {model : Model}
    (optionsQuoted : options.WellQuoted) (modelQuoted : model.WellQuoted) :
    (∀ number identifier,
      HoldsWorkspace options model
        (.ofText number identifier (render options model).workspace) ∧
      HoldsBuildFile options model
        (.ofText number identifier (render options model).buildFile)) ∧
    ∀ identifier text script built, (Script.parse identifier text).result = .ok script →
      (∀ literal : StringLiteral,
        literal.toToken ∈ (SourceFile.ofText 0 identifier text).lex.tokens → literal.quote = '"') →
      script.buildModel.result = .ok built → built.WellQuoted := by
  have workspaceWrites := workspace_writes optionsQuoted modelQuoted
  have buildFileWrites := buildFile_writes optionsQuoted modelQuoted
  constructor
  · intro number identifier
    obtain ⟨workspaceClean, workspaceOutlined⟩ :=
      workspaceWrites.outline (workspaceOutline_nested options model) number identifier
    obtain ⟨buildFileClean, buildFileOutlined⟩ :=
      buildFileWrites.outline (buildFileOutline_nested options model) number identifier
    exact ⟨holdsWorkspace_of_outline workspaceClean workspaceOutlined,
      holdsBuildFile_of_outline buildFileClean buildFileOutlined⟩
  · intro identifier text script built parsed quotes isBuilt
    exact Model.wellQuoted_of_doubleQuotes parsed quotes isBuilt

/-- Strings that look like comments and delimiters, with escapes and a line end. -/
def awkward : List Increment :=
  [.dependency "a:b // [(", .dependency "c\\\":\\\\", .repository "https://x/*\n",
    .task ⟨"t)", some "], %"⟩]

theorem awkward_reads_back :
    Options.standard.WellQuoted ∧ (Model.ofIncrements awkward).WellQuoted ∧
      HoldsWorkspace .standard (.ofIncrements awkward)
        (.ofText 0 "WORKSPACE" (render .standard (.ofIncrements awkward)).workspace) ∧
      HoldsBuildFile .standard (.ofIncrements awkward)
        (.ofText 0 "BUILD.bazel" (render .standard (.ofIncrements awkward)).buildFile) := by
  have optionsQuoted : Options.standard.WellQuoted := ⟨by decide, by decide⟩
  have each : ∀ increment ∈ awkward, ∀ text ∈ increment.strings, WellQuoted text := by decide
  have modelQuoted : (Model.ofIncrements awkward).WellQuoted := by
    intro text member
    obtain ⟨increment, among, inIncrement⟩ := Model.mem_strings_ofIncrements member
    exact each increment among text inIncrement
  have holds := (render_reads_back optionsQuoted modelQuoted).1
  exact ⟨optionsQuoted, modelQuoted, (holds 0 "WORKSPACE").1, (holds 0 "BUILD.bazel").2⟩

end BuildScript.Bazel
