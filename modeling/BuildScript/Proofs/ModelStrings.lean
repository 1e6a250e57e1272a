import BuildScript.Proofs.ModelByKind
import BuildScript.Proofs.Quoting

/-!
# Where the strings of a model come from

Every string of a model is the content of a literal of the script, or the URL of a
well-known repository. So the strings can be quoted again as they are, if the literals
of the script stand between double quotes.
-/

namespace BuildScript

open Grammar (Leaf Shape)
open Grammar.Shape (leavesAll)

/-! ## Strings -/

def Plugin.strings (plugin : Plugin) : List String :=
  plugin.id :: plugin.version.toList

def Task.strings (task : Task) : List String :=
  task.name :: task.mainClass.toList

def Increment.strings : Increment → List String
  | .plugin found => found.strings
  | .repository url => [url]
  | .dependency coordinate => [coordinate]
  | .task found => found.strings

def Model.strings (model : Model) : List String :=
  model.plugins.toList.flatMap Plugin.strings ++ model.repositories.toList ++
    model.dependencies ++ model.tasks.flatMap Task.strings

/-- All strings of the model can be quoted as they are. -/
def Model.WellQuoted (model : Model) : Prop :=
  ∀ text ∈ model.strings, BuildScript.WellQuoted text

namespace Model.WellQuoted

variable {model : Model}

theorem repositories (quoted : model.WellQuoted) :
    ∀ url ∈ model.repositories.toList, BuildScript.WellQuoted url :=
  fun url member => quoted url (by simp [strings, member])

theorem dependencies (quoted : model.WellQuoted) :
    ∀ coordinate ∈ model.dependencies, BuildScript.WellQuoted coordinate :=
  fun coordinate member => quoted coordinate (by simp [strings, member])

theorem runnableTasks (quoted : model.WellQuoted) :
    ∀ task ∈ model.runnableTasks,
      BuildScript.WellQuoted task.1 ∧ BuildScript.WellQuoted task.2 := by
  intro runnable member
  obtain ⟨task, among, runs⟩ := List.mem_filterMap.1 member
  obtain ⟨mainClass, isMainClass, rfl⟩ := Option.map_eq_some_iff.1 runs
  have inTask : ∀ text ∈ task.strings, BuildScript.WellQuoted text := by
    intro text inStrings
    refine quoted text (List.mem_append_right _ ?_)
    exact List.mem_flatMap.2 ⟨task, among, inStrings⟩
  exact ⟨inTask _ (by simp [Task.strings]), inTask _ (by simp [Task.strings, isMainClass])⟩

end Model.WellQuoted

/-- A model has no strings but those of its increments. -/
theorem Model.mem_strings_ofIncrements {increments : List Increment} {text : String}
    (member : text ∈ (Model.ofIncrements increments).strings) :
    ∃ increment ∈ increments, text ∈ increment.strings := by
  rw [ofIncrements_eq_ofKinds] at member
  have plugins := (OrderedSet.lists_ofList (increments.filterMap Increment.plugin?)).elements
  have repositories :=
    (OrderedSet.lists_ofList (increments.filterMap Increment.repository?)).elements
  simp only [strings, ofKinds, plugins, repositories, List.mem_append, List.mem_flatMap,
    List.mem_eraseDups, List.mem_filterMap] at member
  rcases member with ((⟨plugin, ⟨increment, among, found⟩, inside⟩ | ⟨increment, among, found⟩) |
    ⟨increment, among, found⟩) | ⟨task, ⟨increment, among, found⟩, inside⟩
  all_goals
    refine ⟨increment, among, ?_⟩
    cases increment <;> cases found
  · exact inside
  · exact List.mem_singleton_self _
  · exact List.mem_singleton_self _
  · exact inside

/-! ## Literals of a script -/

/-- The text is the content of a literal among the parts. -/
def Grammar.Shape.Cites (shapes : List Shape) (text : String) : Prop :=
  ∃ literal : StringLiteral, ∃ leaf ∈ leavesAll shapes,
    leaf.stored = literal.toToken ∧ text = literal.content

namespace Grammar.Shape.Cites

variable {shapes whole : List Shape} {text : String}

theorem leaf (literal : StringLiteral) (member : .leaf .stringLiteral literal.toToken ∈ shapes) :
    Cites shapes literal.content :=
  ⟨literal, _, mem_leavesAll member, rfl, rfl⟩

/-- Parts cite what some of them cite. -/
theorem sublist (cites : Cites shapes text) (among : (leavesAll shapes).Sublist (leavesAll whole)) :
    Cites whole text := by
  obtain ⟨literal, leaf, member, stored, same⟩ := cites
  exact ⟨literal, leaf, among.subset member, stored, same⟩

theorem right (cites : Cites shapes text) (front : List Shape) : Cites (front ++ shapes) text :=
  cites.sublist (leavesAll_sublist_right front shapes)

theorem left (cites : Cites shapes text) (back : List Shape) : Cites (shapes ++ back) text := by
  refine cites.sublist ?_
  rw [leavesAll_append]
  exact List.sublist_append_left _ _

theorem group (cites : Cites shapes text) (delimiter : Delimiter) (opening closing : Punctuation) :
    Cites [.group delimiter opening shapes closing] text :=
  cites.sublist (leavesAll_sublist_group delimiter opening closing shapes)

/-- A block cites what its entries cite. -/
theorem block {α : Type} {parts : α → List Shape} {block : Block α} {entry : α}
    (cites : Cites (parts entry) text) (member : entry ∈ block.entries) :
    Cites (block.shapes parts) text :=
  (cites.sublist (leavesAll_sublist_flatMap parts member)).group _ _ _

end Grammar.Shape.Cites

open Grammar.Shape (Cites)

theorem PluginEntry.cites {entry : PluginEntry} {text : String}
    (member : text ∈ entry.increment.strings) : Cites entry.shapes text := by
  obtain ⟨idWord, plugin, version⟩ := entry
  rcases List.mem_cons.1 member with rfl | inVersion
  · exact .leaf plugin (by simp [shapes, StringLiteral.shapes])
  · cases version with
    | none => cases inVersion
    | some pair =>
        cases List.mem_singleton.1 inVersion
        exact .leaf pair.2 (by simp [shapes, versionShapes, StringLiteral.shapes, Shape.ofOption])

theorem DependencyEntry.cites {entry : DependencyEntry} {text : String}
    (member : text ∈ entry.increment.strings) : Cites entry.shapes text := by
  obtain ⟨configuration, parentheses, coordinate⟩ := entry
  cases List.mem_singleton.1 member
  have content : Cites coordinate.shapes coordinate.content :=
    .leaf coordinate (by simp [StringLiteral.shapes])
  cases parentheses with
  | none => exact content.right _
  | some pair => exact (content.group _ _ _).right _

def Repository.wellKnownUrls : List String :=
  [Repository.centralUrl, Repository.secondaryIndexUrl]

theorem RepositoryEntry.cites {entry : RepositoryEntry} {url : String}
    (found : entry.url? = some url) :
    Cites entry.shapes url ∨ url ∈ Repository.wellKnownUrls := by
  cases entry with
  | central repository =>
      cases found
      exact .inr (by simp [Repository.wellKnownUrls])
  | secondaryIndex repository =>
      cases found
      exact .inr (by simp [Repository.wellKnownUrls])
  | custom repository =>
      obtain ⟨literal, isUrl, rfl⟩ := Option.map_eq_some_iff.1 found
      obtain ⟨statement, isStatement, hasValue⟩ := Option.bind_eq_some_iff.1 isUrl
      have content : Cites statement.shapes literal.content :=
        .leaf literal (by
          simp [UrlStatement.shapes, hasValue, StringLiteral.shapes, Shape.ofOption])
      refine .inl ?_
      rw [shapes, CustomRepository.shapes, isStatement]
      exact (content.group _ _ _).right _

theorem TaskRegistration.cites {task : TaskRegistration} {text : String}
    (member : text ∈ task.increment.strings) : Cites task.shapes text := by
  rcases List.mem_cons.1 member with rfl | inMainClass
  · have name : Cites (argumentShapes (task.name, task.type)) task.name.content :=
      .leaf task.name (by simp [argumentShapes, StringLiteral.shapes])
    rw [shapes]
    exact ((name.group _ _ _).right _).left _
  · have runs := task.mainClass?_runs
    rw [Option.mem_toList] at inMainClass
    change task.mainClass? = some text at inMainClass
    rw [inMainClass] at runs
    cases runs with
    | @string front back key assignment literal statements isKey unset =>
        have value : Cites (TaskStatement.shapes ⟨key, assignment, .string literal⟩)
            literal.content :=
          .leaf literal (by simp [TaskStatement.shapes, Expression.shapes, StringLiteral.shapes])
        have among : ⟨key, assignment, .string literal⟩ ∈ task.block.entries := by
          simp [statements]
        exact (value.block among).right _

/-- The strings that a declaration adds are contents of its literals, well-known URLs apart. -/
theorem Declaration.cites {declaration : Declaration} {increment : Increment} {text : String}
    (adds : .ok increment ∈ declaration.increments) (member : text ∈ increment.strings) :
    Cites declaration.shapes text ∨ text ∈ Repository.wellKnownUrls := by
  cases declaration with
  | plugins keyword block =>
      obtain ⟨entry, among, same⟩ := List.mem_map.1 adds
      cases same
      exact .inl ((entry.cites member).block among |>.right _)
  | repositories keyword block =>
      obtain ⟨entry, among, same⟩ := List.mem_map.1 adds
      have added : entry.increment.toOption = some increment := by
        rw [same]
        rfl
      rw [RepositoryEntry.increment_toOption] at added
      obtain ⟨url, found, rfl⟩ := Option.map_eq_some_iff.1 added
      cases List.mem_singleton.1 member
      rcases RepositoryEntry.cites found with cited | known
      · exact .inl ((cited.block among).right _)
      · exact .inr known
  | dependencies keyword block =>
      obtain ⟨entry, among, same⟩ := List.mem_map.1 adds
      cases same
      exact .inl ((entry.cites member).block among |>.right _)
  | task registration =>
      cases List.mem_singleton.1 adds
      exact .inl (registration.cites member)

/-- The strings of what a script adds are contents of its literals, well-known URLs apart. -/
theorem Script.cites {script : Script} {text : String}
    (member : text ∈ (Model.ofIncrements (Extraction.added script.increments)).strings) :
    Cites script.shapes text ∨ text ∈ Repository.wellKnownUrls := by
  obtain ⟨increment, isAdded, inIncrement⟩ := Model.mem_strings_ofIncrements member
  obtain ⟨entry, among, isOk⟩ := List.mem_filterMap.1 isAdded
  obtain ⟨declaration, inScript, adds⟩ := List.mem_flatMap.1 among
  cases entry with
  | error error => cases isOk
  | ok added =>
      cases isOk
      refine (Declaration.cites adds inIncrement).imp_left fun cited => ?_
      exact cited.sublist (Shape.leavesAll_sublist_flatMap Declaration.shapes inScript)

/-! ## Scripts with double quotes -/

/-- A literal that a script cites is one of the file's tokens. -/
theorem SourceFile.exists_literal {file : SourceFile} {script : Script}
    (parsed : file.parse.result = .ok script) {text : String} (cited : Cites script.shapes text) :
    ∃ literal : StringLiteral, literal.toToken ∈ file.lex.tokens ∧ text = literal.content := by
  obtain ⟨_, keep⟩ := file.parse_result_eq_ok_iff.1 parsed
  obtain ⟨literal, leaf, member, stored, same⟩ := cited
  have kept := Leaf.Reads.literal_mem keep member stored
  exact ⟨literal, List.filter_sublist.subset kept, same⟩

/-- A model of a script whose literals stand between double quotes can be quoted as it is. -/
theorem Model.wellQuoted_of_doubleQuotes {file : SourceFile} {script : Script} {model : Model}
    (parsed : file.parse.result = .ok script)
    (quotes : ∀ literal : StringLiteral, literal.toToken ∈ file.lex.tokens → literal.quote = '"')
    (built : script.buildModel.result = .ok model) : model.WellQuoted := by
  have known : ∀ url ∈ Repository.wellKnownUrls, BuildScript.WellQuoted url := by decide
  intro text member
  rw [Script.eq_ofIncrements_of_built (SourceFile.increments_alone parsed) built] at member
  rcases Script.cites member with cited | isKnown
  · obtain ⟨literal, isToken, rfl⟩ := SourceFile.exists_literal parsed cited
    obtain ⟨_, reads, _⟩ := file.lex_reads
    have units := reads.literal_units isToken
    rw [quotes literal isToken] at units
    exact units
  · exact known text isKnown

end BuildScript
