import BuildScript.Proofs.FirstOccurrences
import BuildScript.Proofs.Layout
import Mathlib.Logic.Relation

/-!
# Models, kind by kind

The entries of a script are looked at one after another, in whatever order the
declarations stand. What comes out can be said for each kind of entry by itself: the
plugins and repositories in order of their first occurrences, the dependencies and
tasks as they come, and one error for each repository that lacks its URL. So it does
not matter how the entries are spread over blocks.
-/

namespace BuildScript

open Extraction (added faults)

/-! ## Entries by kind -/

namespace Declaration

def pluginEntries : Declaration → List PluginEntry
  | .plugins _ block => block.entries
  | _ => []

def repositoryEntries : Declaration → List RepositoryEntry
  | .repositories _ block => block.entries
  | _ => []

def dependencyEntries : Declaration → List DependencyEntry
  | .dependencies _ block => block.entries
  | _ => []

def taskRegistrations : Declaration → List TaskRegistration
  | .task registration => [registration]
  | _ => []

end Declaration

namespace Script

variable (script : Script)

def pluginEntries : List PluginEntry :=
  script.declarations.flatMap Declaration.pluginEntries

def repositoryEntries : List RepositoryEntry :=
  script.declarations.flatMap Declaration.repositoryEntries

def dependencyEntries : List DependencyEntry :=
  script.declarations.flatMap Declaration.dependencyEntries

def taskRegistrations : List TaskRegistration :=
  script.declarations.flatMap Declaration.taskRegistrations

end Script

/-! ## What an entry says -/

def PluginEntry.declared (entry : PluginEntry) : Plugin :=
  ⟨entry.plugin.content, entry.version.map fun (_, version) => version.content⟩

namespace RepositoryEntry

/-- The URL of a repository: that of its keyword, or the content of its literal. -/
def url? : RepositoryEntry → Option String
  | .central _ => some Repository.centralUrl
  | .secondaryIndex _ => some Repository.secondaryIndexUrl
  | .custom repository => repository.urlLiteral?.map StringLiteral.content

/-- Whether a repository is a custom one without the literal of a URL. -/
def lacksUrl : RepositoryEntry → Bool
  | .custom repository => repository.urlLiteral?.isNone
  | _ => false

def Misses (entry : RepositoryEntry) (error : Error) : Prop :=
  ∃ span, entry.span? = some span ∧ error = .semantic (.missingRepositoryUrl span)

end RepositoryEntry

namespace TaskRegistration

/-- The class that a task runs: what the first statement about it says, if that is a string. -/
inductive Runs (task : TaskRegistration) : Option String → Prop where
  | silent (unset : ∀ statement ∈ task.block.entries, statement.key.text ≠ "mainClass") :
      Runs task none
  | string {front back : List TaskStatement} {key : Identifier} {assignment : Option Punctuation}
      {literal : StringLiteral}
      (statements : task.block.entries = front ++ ⟨key, assignment, .string literal⟩ :: back)
      (isKey : key.text = "mainClass")
      (unset : ∀ statement ∈ front, statement.key.text ≠ "mainClass") :
      Runs task (some literal.content)
  | path {front back : List TaskStatement} {key : Identifier} {assignment : Option Punctuation}
      {path : IdentifierPath}
      (statements : task.block.entries = front ++ ⟨key, assignment, .path path⟩ :: back)
      (isKey : key.text = "mainClass")
      (unset : ∀ statement ∈ front, statement.key.text ≠ "mainClass") :
      Runs task none

theorem mainClass?_runs (task : TaskRegistration) : task.Runs task.mainClass? := by
  have unset : ∀ statement : TaskStatement, (!statement.hasKey mainClassKey) = true →
      statement.key.text ≠ "mainClass" := by
    intro statement other same
    simp [TaskStatement.hasKey, mainClassKey, same] at other
  unfold mainClass?
  cases found : task.block.entries.find? fun statement => statement.hasKey mainClassKey with
  | none =>
      rw [List.find?_eq_none] at found
      exact .silent fun statement member => unset statement (by simpa using found statement member)
  | some statement =>
      obtain ⟨isKey, front, back, statements, others⟩ := List.find?_eq_some_iff_append.1 found
      have before : ∀ other ∈ front, other.key.text ≠ "mainClass" :=
        fun other member => unset other (others other member)
      obtain ⟨key, assignment, value⟩ := statement
      have named : key.text = "mainClass" := beq_iff_eq.1 isKey
      cases value with
      | string literal => exact .string statements named before
      | path path => exact .path statements named before

end TaskRegistration

/-! ## Models of increments -/

namespace Increment

def plugin? : Increment → Option Plugin
  | .plugin found => some found
  | _ => none

def repository? : Increment → Option String
  | .repository url => some url
  | _ => none

def dependency? : Increment → Option String
  | .dependency coordinate => some coordinate
  | _ => none

def task? : Increment → Option Task
  | .task found => some found
  | _ => none

/-- Entries that agree with others are not detached. -/
theorem detached_not_mem {entries others : List (Except Error Increment)}
    (agree : List.Forall₂ Agree entries others) : .error .detached ∉ entries := by
  induction agree with
  | nil => simp
  | cons first later ih => cases first <;> simpa using ih

end Increment

namespace Model

def ofKinds (increments : List Increment) : Model where
  repositories := .ofList (increments.filterMap Increment.repository?)
  dependencies := increments.filterMap Increment.dependency?
  plugins := .ofList (increments.filterMap Increment.plugin?)
  tasks := increments.filterMap Increment.task?

theorem ofKinds_concat (increments : List Increment) (increment : Increment) :
    ofKinds (increments ++ [increment]) = (ofKinds increments).apply increment := by
  cases increment <;>
    simp [ofKinds, apply, List.filterMap_cons, Increment.plugin?, Increment.repository?,
      Increment.dependency?, Increment.task?, OrderedSet.ofList_concat]

/-- Increments of one kind do not touch what those of another kind build. -/
theorem ofIncrements_eq_ofKinds (increments : List Increment) :
    ofIncrements increments = ofKinds increments := by
  induction increments using List.reverseRecOn with
  | nil => rfl
  | append_singleton increments increment ih =>
      rw [ofKinds_concat, ← ih, ofIncrements, List.foldl_append]
      rfl

/-- The model gathers what the entries of a script say, each kind by itself. -/
structure Gathers (model : Model) (script : Script) : Prop where
  plugins : model.plugins.Lists (script.pluginEntries.map PluginEntry.declared)
  repositories : model.repositories.Lists (script.repositoryEntries.filterMap RepositoryEntry.url?)
  dependencies : model.dependencies =
    script.dependencyEntries.map fun entry => entry.coordinate.content
  tasks : List.Forall₂ (fun registration task =>
    task.name = registration.name.content ∧ registration.Runs task.mainClass)
      script.taskRegistrations model.tasks

end Model

/-! ## Increments of a script -/

theorem PluginEntry.increment_eq (entry : PluginEntry) : entry.increment = .plugin entry.declared :=
  rfl

namespace RepositoryEntry

theorem increment_toOption (entry : RepositoryEntry) :
    entry.increment.toOption = entry.url?.map Increment.repository := by
  cases entry with
  | central repository => rfl
  | secondaryIndex repository => rfl
  | custom repository =>
      simp only [increment, url?]
      cases repository.urlLiteral? with
      | some url => rfl
      | none => cases repository.span? <;> rfl

/-- An entry that is not detached adds a repository, or is at fault for lacking its URL. -/
theorem increment_cases {entry : RepositoryEntry} (attached : entry.increment ≠ .error .detached) :
    (entry.lacksUrl = false ∧ ∃ increment, entry.increment = .ok increment) ∨
      entry.lacksUrl = true ∧ ∃ error, entry.Misses error ∧ entry.increment = .error error := by
  cases entry with
  | central repository => exact .inl ⟨rfl, _, rfl⟩
  | secondaryIndex repository => exact .inl ⟨rfl, _, rfl⟩
  | custom repository =>
      simp only [increment, lacksUrl, Misses, span?] at attached ⊢
      cases literal : repository.urlLiteral? with
      | some url => exact .inl ⟨rfl, _, rfl⟩
      | none =>
          rw [literal] at attached
          cases place : repository.span? with
          | some span => exact .inr ⟨rfl, _, ⟨span, rfl, rfl⟩, rfl⟩
          | none =>
              rw [place] at attached
              exact absurd rfl attached

/-- The entries that lack a URL are at fault, one by one. -/
theorem faults_of_attached {entries : List RepositoryEntry}
    (attached : ∀ entry ∈ entries, entry.increment ≠ .error .detached) :
    List.Forall₂ Misses (entries.filter lacksUrl) (faults (entries.map increment)) := by
  induction entries with
  | nil => exact .nil
  | cons entry later ih =>
      obtain ⟨here, there⟩ := List.forall_mem_cons.1 attached
      rcases increment_cases here with ⟨hasUrl, increment, adds⟩ | ⟨lacks, error, misses, fails⟩
      · rw [List.filter_cons_of_neg (by simp [hasUrl]), List.map_cons, adds]
        exact ih there
      · rw [List.filter_cons_of_pos lacks, List.map_cons, fails]
        exact .cons misses (ih there)

end RepositoryEntry

namespace Declaration

/-- What a declaration adds, its entries taken kind by kind. -/
theorem added_increments (declaration : Declaration) :
    added declaration.increments =
      declaration.pluginEntries.map PluginEntry.increment ++
        (declaration.repositoryEntries.filterMap RepositoryEntry.url?).map .repository ++
          declaration.dependencyEntries.map DependencyEntry.increment ++
            declaration.taskRegistrations.map TaskRegistration.increment := by
  have adds : ∀ increment : Increment, (Except.ok increment : Except Error _).toOption =
      some increment := fun _ => rfl
  cases declaration <;>
    simp [increments, added, pluginEntries, repositoryEntries, dependencyEntries,
      taskRegistrations, List.filterMap_map, List.map_filterMap, adds,
      RepositoryEntry.increment_toOption]

theorem faults_increments (declaration : Declaration) :
    faults declaration.increments =
      faults (declaration.repositoryEntries.map RepositoryEntry.increment) := by
  cases declaration <;> simp [increments, faults, repositoryEntries, List.filterMap_map]

end Declaration

namespace Script

variable (script : Script)

/-- What a script adds of one kind is what its declarations add of it. -/
theorem filterMap_added {β : Type} {select : Increment → Option β} {entries : Declaration → List β}
    (each : ∀ declaration : Declaration,
      (added declaration.increments).filterMap select = entries declaration) :
    (added script.increments).filterMap select = script.declarations.flatMap entries := by
  simp only [added, increments, List.filterMap_flatMap]
  exact congrArg (List.flatMap · _) (funext each)

theorem added_plugins : (added script.increments).filterMap Increment.plugin? =
    script.pluginEntries.map PluginEntry.declared := by
  rw [pluginEntries, List.map_flatMap]
  refine script.filterMap_added fun declaration => ?_
  simp [Declaration.added_increments, PluginEntry.increment_eq, DependencyEntry.increment,
    TaskRegistration.increment, Increment.plugin?, Function.comp_def]

theorem added_repositories : (added script.increments).filterMap Increment.repository? =
    script.repositoryEntries.filterMap RepositoryEntry.url? := by
  rw [repositoryEntries, List.filterMap_flatMap]
  refine script.filterMap_added fun declaration => ?_
  simp [Declaration.added_increments, PluginEntry.increment, DependencyEntry.increment,
    TaskRegistration.increment, Increment.repository?, Function.comp_def]

theorem added_dependencies : (added script.increments).filterMap Increment.dependency? =
    script.dependencyEntries.map fun entry => entry.coordinate.content := by
  rw [dependencyEntries, List.map_flatMap]
  refine script.filterMap_added fun declaration => ?_
  simp [Declaration.added_increments, PluginEntry.increment, DependencyEntry.increment,
    TaskRegistration.increment, Increment.dependency?, Function.comp_def]

theorem added_tasks : (added script.increments).filterMap Increment.task? =
    script.taskRegistrations.map fun task => ⟨task.name.content, task.mainClass?⟩ := by
  rw [taskRegistrations, List.map_flatMap]
  refine script.filterMap_added fun declaration => ?_
  simp [Declaration.added_increments, PluginEntry.increment, DependencyEntry.increment,
    TaskRegistration.increment, Increment.task?, Function.comp_def]

/-- The model of what a script adds gathers what its entries say. -/
theorem gathers_added : (Model.ofIncrements (added script.increments)).Gathers script := by
  rw [Model.ofIncrements_eq_ofKinds]
  refine ⟨?_, ?_, script.added_dependencies, ?_⟩
  · rw [← script.added_plugins]
    exact OrderedSet.lists_ofList _
  · rw [← script.added_repositories]
    exact OrderedSet.lists_ofList _
  · change List.Forall₂ _ _ ((added script.increments).filterMap Increment.task?)
    rw [script.added_tasks, List.forall₂_map_right_iff, List.forall₂_same]
    exact fun task _ => ⟨rfl, task.mainClass?_runs⟩

theorem faults_increments : faults script.increments =
    faults (script.repositoryEntries.map RepositoryEntry.increment) := by
  simp only [faults, increments, repositoryEntries, List.filterMap_flatMap, List.map_flatMap]
  congr 1
  funext declaration
  exact declaration.faults_increments

end Script

/-! ## Blocks -/

namespace Declaration

inductive Kind where
  | plugins
  | repositories
  | dependencies
  | task
  deriving DecidableEq

def kind : Declaration → Kind
  | .plugins _ _ => .plugins
  | .repositories _ _ => .repositories
  | .dependencies _ _ => .dependencies
  | .task _ => .task

inductive Splits : Declaration → Declaration → Declaration → Prop where
  | plugins {keyword firstKeyword secondKeyword : KeywordToken}
      {block first second : Block PluginEntry}
      (entries : block.entries = first.entries ++ second.entries) :
      Splits (.plugins keyword block) (.plugins firstKeyword first) (.plugins secondKeyword second)
  | repositories {keyword firstKeyword secondKeyword : KeywordToken}
      {block first second : Block RepositoryEntry}
      (entries : block.entries = first.entries ++ second.entries) :
      Splits (.repositories keyword block) (.repositories firstKeyword first)
        (.repositories secondKeyword second)
  | dependencies {keyword firstKeyword secondKeyword : KeywordToken}
      {block first second : Block DependencyEntry}
      (entries : block.entries = first.entries ++ second.entries) :
      Splits (.dependencies keyword block) (.dependencies firstKeyword first)
        (.dependencies secondKeyword second)

/-- A block is split, or neighbours of different kinds change places. -/
inductive Rearranges : List Declaration → List Declaration → Prop where
  | split (front back : List Declaration) {whole first second : Declaration}
      (splits : Splits whole first second) :
      Rearranges (front ++ whole :: back) (front ++ first :: second :: back)
  | exchange (front back : List Declaration) {first second : Declaration}
      (differ : first.kind ≠ second.kind) :
      Rearranges (front ++ first :: second :: back) (front ++ second :: first :: back)

/-- Entries that only declarations of one kind have, and that a split block shares out. -/
structure OfKind {β : Type} (only : Kind) (entries : Declaration → List β) : Prop where
  absent : ∀ declaration : Declaration, declaration.kind ≠ only → entries declaration = []
  split : ∀ {whole first second : Declaration}, Splits whole first second →
    entries whole = entries first ++ entries second

theorem pluginEntries_ofKind : OfKind .plugins pluginEntries where
  absent declaration := by cases declaration <;> simp [kind, pluginEntries]
  split splits := by cases splits <;> simp [pluginEntries, *]

theorem repositoryEntries_ofKind : OfKind .repositories repositoryEntries where
  absent declaration := by cases declaration <;> simp [kind, repositoryEntries]
  split splits := by cases splits <;> simp [repositoryEntries, *]

theorem dependencyEntries_ofKind : OfKind .dependencies dependencyEntries where
  absent declaration := by cases declaration <;> simp [kind, dependencyEntries]
  split splits := by cases splits <;> simp [dependencyEntries, *]

theorem taskRegistrations_ofKind : OfKind .task taskRegistrations where
  absent declaration := by cases declaration <;> simp [kind, taskRegistrations]
  split splits := by cases splits <;> simp [taskRegistrations]

namespace OfKind

variable {β : Type} {only : Kind} {entries : Declaration → List β}

/-- Of two declarations of different kinds only one has such entries. -/
theorem exchange (ofKind : OfKind only entries) {first second : Declaration}
    (differ : first.kind ≠ second.kind) :
    entries first ++ entries second = entries second ++ entries first := by
  by_cases isFirst : first.kind = only
  · have isOther : second.kind ≠ only := fun isSecond => differ (isFirst.trans isSecond.symm)
    simp [ofKind.absent second isOther]
  · simp [ofKind.absent first isFirst]

theorem flatMap_eq (ofKind : OfKind only entries) {before after : List Declaration}
    (rearranged : Relation.EqvGen Rearranges before after) :
    before.flatMap entries = after.flatMap entries := by
  induction rearranged with
  | rel before after step =>
      cases step with
      | split front back splits => simp [ofKind.split splits]
      | exchange front back differ =>
          have swap := ofKind.exchange differ
          simp only [List.flatMap_append, List.flatMap_cons,
            ← List.append_assoc _ _ (back.flatMap _), swap]
  | refl => rfl
  | symm _ _ _ ih => exact ih.symm
  | trans _ _ _ _ _ first second => exact first.trans second

end OfKind

end Declaration

namespace Script

/-- The same declarations up to splitting and merging blocks and the order of the kinds. -/
def Regroups (first second : Script) : Prop :=
  Relation.EqvGen Declaration.Rearranges first.declarations second.declarations

namespace Regroups

variable {first second : Script}

theorem faults_eq (regroups : first.Regroups second) :
    faults first.increments = faults second.increments := by
  rw [faults_increments, faults_increments, repositoryEntries, repositoryEntries,
    Declaration.repositoryEntries_ofKind.flatMap_eq regroups]

theorem ofIncrements_eq (regroups : first.Regroups second) :
    Model.ofIncrements (added first.increments) = Model.ofIncrements (added second.increments) := by
  simp only [Model.ofIncrements_eq_ofKinds, Model.ofKinds, added_plugins, added_repositories,
    added_dependencies, added_tasks]
  simp only [pluginEntries, repositoryEntries, dependencyEntries, taskRegistrations,
    Declaration.pluginEntries_ofKind.flatMap_eq regroups,
    Declaration.repositoryEntries_ofKind.flatMap_eq regroups,
    Declaration.dependencyEntries_ofKind.flatMap_eq regroups,
    Declaration.taskRegistrations_ofKind.flatMap_eq regroups]

end Regroups

/-! ## Models of scripts -/

variable {script : Script} {others : List (Except Error Increment)}

theorem buildModel_reports (agree : List.Forall₂ Increment.Agree script.increments others) :
    script.buildModel.reports = faults script.increments := by
  by_cases faultless : faults script.increments = []
  · rw [buildModel_of_faultless agree faultless, faultless]
  · obtain ⟨fault, more, found, built⟩ := lacksUrls_of_faulty agree faultless
    rw [built, found]

theorem eq_ofIncrements_of_built (agree : List.Forall₂ Increment.Agree script.increments others)
    {model : Model} (built : script.buildModel.result = .ok model) :
    model = Model.ofIncrements (added script.increments) := by
  by_cases faultless : faults script.increments = []
  · rw [buildModel_of_faultless agree faultless] at built
    cases built
    rfl
  · obtain ⟨fault, more, found, failed⟩ := lacksUrls_of_faulty agree faultless
    rw [failed] at built
    cases built

/-- The model, if there is one, depends on nothing but what the entries add. -/
theorem buildModel_toOption (agree : List.Forall₂ Increment.Agree script.increments others) :
    script.buildModel.result.toOption =
      if faults others = [] then some (Model.ofIncrements (added others)) else none := by
  by_cases faultless : faults script.increments = []
  · rw [buildModel_of_faultless agree faultless, Extraction.added_of_agree agree,
      if_pos (Extraction.faults_eq_nil_of_agree agree faultless)]
    rfl
  · obtain ⟨fault, more, found, built⟩ := lacksUrls_of_faulty agree faultless
    have back := Increment.agreeAll_symm agree
    rw [built, if_neg fun none => faultless (Extraction.faults_eq_nil_of_agree back none)]
    rfl

/-- Repositories whose entries agree with others are not detached. -/
theorem attached_of_agree (agree : List.Forall₂ Increment.Agree script.increments others)
    {entry : RepositoryEntry} (member : entry ∈ script.repositoryEntries) :
    entry.increment ≠ .error .detached := by
  have among : entry.increment ∈ script.increments := by
    obtain ⟨declaration, inScript, inDeclaration⟩ := List.mem_flatMap.1 member
    refine List.mem_flatMap.2 ⟨declaration, inScript, ?_⟩
    cases declaration with
    | repositories keyword block => exact List.mem_map_of_mem inDeclaration
    | plugins | dependencies | task => cases inDeclaration
  intro detached
  rw [detached] at among
  exact Increment.detached_not_mem agree among

theorem misses_faults (agree : List.Forall₂ Increment.Agree script.increments others) :
    List.Forall₂ RepositoryEntry.Misses (script.repositoryEntries.filter RepositoryEntry.lacksUrl)
      (faults script.increments) := by
  rw [faults_increments]
  exact RepositoryEntry.faults_of_attached fun _ member => attached_of_agree agree member

theorem faults_eq_nil_iff (agree : List.Forall₂ Increment.Agree script.increments others) :
    faults script.increments = [] ↔
      ∀ entry ∈ script.repositoryEntries, entry.lacksUrl = false := by
  rw [← List.length_eq_zero_iff, ← (misses_faults agree).length_eq, List.length_eq_zero_iff,
    List.filter_eq_nil_iff]
  simp only [Bool.not_eq_true]

/-- The outcome of a script said by the entries of each kind. -/
structure ModelByKind (script : Script) : Prop where
  /-- There is no model just when some custom repository has no URL. -/
  fails_iff : (∃ error, script.buildModel.result = .error error) ↔
    ∃ entry ∈ script.repositoryEntries, entry.lacksUrl = true
  /-- One error is reported for each of them, in order. -/
  reports : List.Forall₂ RepositoryEntry.Misses
    (script.repositoryEntries.filter RepositoryEntry.lacksUrl) script.buildModel.reports
  /-- The first error is the result. -/
  first : ∀ error, script.buildModel.result = .error error →
    script.buildModel.reports.head? = some error
  model : ∀ model, script.buildModel.result = .ok model → model.Gathers script

theorem modelByKind_of_agree (agree : List.Forall₂ Increment.Agree script.increments others) :
    script.ModelByKind := by
  have misses := misses_faults agree
  rw [← buildModel_reports agree] at misses
  have gathers : ∀ model, script.buildModel.result = .ok model → model.Gathers script := by
    intro model built
    rw [eq_ofIncrements_of_built agree built]
    exact script.gathers_added
  have faultless_iff := faults_eq_nil_iff agree
  by_cases faultless : faults script.increments = []
  · have built := buildModel_of_faultless agree faultless
    refine ⟨?_, misses, ?_, gathers⟩
    · have complete := faultless_iff.1 faultless
      rw [built]
      constructor
      · rintro ⟨error, impossible⟩
        cases impossible
      · rintro ⟨entry, member, lacks⟩
        rw [complete entry member] at lacks
        cases lacks
    · intro error failed
      rw [built] at failed
      cases failed
  · obtain ⟨fault, more, found, built⟩ := lacksUrls_of_faulty agree faultless
    refine ⟨?_, misses, ?_, gathers⟩
    · have incomplete : ∃ entry ∈ script.repositoryEntries, entry.lacksUrl = true := by
        simpa [faultless_iff] using faultless
      exact iff_of_true ⟨fault, congrArg Outcome.result built⟩ incomplete
    · intro error failed
      rw [built] at failed ⊢
      cases failed
      rfl

/--
The model of a script that was read, and the errors about it, are said by its plugin,
repository, dependency and task entries, each kind by itself and in the order of the
text. So a text whose blocks are split or merged, or in which declarations of different
kinds stand in another order, has the same model or has none as well.
-/
theorem buildModel_by_kind {identifier text : String} {script : Script}
    (parsed : (Script.parse identifier text).result = .ok script) :
    script.ModelByKind ∧
      ∀ otherIdentifier otherText other,
        (Script.parse otherIdentifier otherText).result = .ok other →
        (script.relocate Span.alone).Regroups (other.relocate Span.alone) →
        other.buildModel.result.toOption = script.buildModel.result.toOption := by
  have agree := SourceFile.increments_alone parsed
  refine ⟨modelByKind_of_agree agree, ?_⟩
  intro otherIdentifier otherText other otherParsed regroups
  have otherAgree := SourceFile.increments_alone otherParsed
  rw [buildModel_toOption agree, buildModel_toOption otherAgree, regroups.faults_eq,
    regroups.ofIncrements_eq]

end Script

namespace ModelByKind

/-- Repositories and plugins that repeat, spread over several blocks. -/
def scattered : String :=
  "repositories\x7bmavenCentral()maven\x7burl'u'\x7d\x7dplugins\x7bid 'p'\x7d" ++
    "tasks.register('t')\x7bmainClass=a.B mainClass 'C'\x7drepositories\x7bmaven\x7burl='u'\x7d\x7d" ++
      "plugins\x7bid 'p' version '1' id 'p'\x7d"

theorem scattered_by_kind :
    ∃ script, (Script.parse "scattered" scattered).result = .ok script ∧ script.ModelByKind ∧
      ∀ otherIdentifier otherText other,
        (Script.parse otherIdentifier otherText).result = .ok other →
        (script.relocate Span.alone).Regroups (other.relocate Span.alone) →
        other.buildModel.result.toOption = script.buildModel.result.toOption := by
  have accepted : (Script.parse "scattered" scattered).result.toOption.isSome = true := by
    decide +kernel
  cases parsed : (Script.parse "scattered" scattered).result with
  | error error =>
      rw [parsed] at accepted
      cases accepted
  | ok script => exact ⟨script, rfl, Script.buildModel_by_kind parsed⟩

end ModelByKind

end BuildScript
