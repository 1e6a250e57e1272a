import BuildScript.Proofs.ModelByKind
import BuildScript.Proofs.OpenStack
import BuildScript.TokenTree.Dump

/-!
# Trees that were read back

Token trees that were stored and read back are the old trees, except that every span
has a file of its own. The grammar never asks in which file a span lies, so it reads
both in the same way; nor does the model of a script that has one. Only the span of an
entry joins two tokens. A repository without its URL has to be shown by such a span, and
among trees that were read back there is none to show.
-/

namespace BuildScript

open Grammar (Leaf Parser Rule Shape)
open Grammar.Shape (leavesAll)
open TokenTree (condense condenseAll flatten flattenAll revive reviveAll)

/-! ## Spans of unnumbered files -/

/-- The span in a file whose number is forgotten. -/
def Span.anonymous (span : Span) : Span :=
  span.renumber 0

theorem Span.anonymous_text (span : Span) : span.anonymous.text = span.text := rfl

def Token.fileNumber (token : Token) : Nat :=
  token.span.file.number

/-! ## Trees -/

namespace TokenTree

theorem isSignificant_revive (next : Nat) (tree : TokenTree) :
    (revive next tree).1.isSignificant = tree.isSignificant := by
  cases tree <;> rfl

mutual

/-- A tree that was read back is the same tree, the numbers of files apart. -/
theorem condense_revive : (next : Nat) → (tree : TokenTree) →
    condense Span.anonymous (revive next tree).1 = condense Span.anonymous tree
  | _, .token _ => rfl
  | next, .group delimiter opening trees closing =>
      congrArg (group delimiter (opening.relocate Span.anonymous) ·
        (closing.relocate Span.anonymous)) (condenseAll_reviveAll (next + 1) trees)

/-- Trees that were read back are the same trees, the numbers of files apart. -/
theorem condenseAll_reviveAll : (next : Nat) → (trees : List TokenTree) →
    condenseAll Span.anonymous (reviveAll next trees).1 = condenseAll Span.anonymous trees
  | _, [] => rfl
  | next, tree :: trees => by
      rw [reviveAll, condenseAll, condenseAll, isSignificant_revive, condense_revive next tree,
        condenseAll_reviveAll _ trees]

end

def fileNumbers (trees : List TokenTree) : List Nat :=
  (flattenAll trees).map Token.fileNumber

mutual

/-- The tokens of a tree that was read back lie in files that are numbered one by one. -/
theorem flatten_revive : (next : Nat) → (tree : TokenTree) →
    (flatten (revive next tree).1).map Token.fileNumber =
        List.range' next (flatten tree).length ∧
      (revive next tree).2 = next + (flatten tree).length
  | _, .token _ => ⟨rfl, rfl⟩
  | next, .group delimiter opening trees closing => by
      obtain ⟨numbers, last⟩ := flattenAll_reviveAll (next + 1) trees
      rw [fileNumbers] at numbers
      simp only [revive, flatten, List.map_cons, List.map_append, numbers, List.length_cons,
        List.length_append, List.length_nil, last]
      refine ⟨?_, by omega⟩
      rw [List.range'_succ, List.range'_concat]
      simp only [Nat.one_mul]
      rfl

/-- The tokens of trees that were read back lie in files that are numbered one by one. -/
theorem flattenAll_reviveAll : (next : Nat) → (trees : List TokenTree) →
    fileNumbers (reviveAll next trees).1 = List.range' next (flattenAll trees).length ∧
      (reviveAll next trees).2 = next + (flattenAll trees).length
  | _, [] => ⟨rfl, rfl⟩
  | next, tree :: trees => by
      obtain ⟨numbers, between⟩ := flatten_revive next tree
      obtain ⟨laterNumbers, last⟩ := flattenAll_reviveAll (next + (flatten tree).length) trees
      rw [fileNumbers] at laterNumbers
      simp only [reviveAll, fileNumbers, flattenAll, List.map_append, numbers, between,
        laterNumbers, List.length_append, last]
      refine ⟨?_, by omega⟩
      rw [← List.range'_append, Nat.one_mul]

end

/-- No two tokens of trees that were read back lie in one file. -/
theorem fileNumbers_reviveAll_nodup (next : Nat) (trees : List TokenTree) :
    (fileNumbers (reviveAll next trees).1).Nodup := by
  rw [(flattenAll_reviveAll next trees).1]
  exact List.nodup_range'

theorem flattenAll_eq_nil_iff {trees : List TokenTree} : flattenAll trees = [] ↔ trees = [] := by
  cases trees with
  | nil => exact ⟨fun _ => rfl, fun _ => rfl⟩
  | cons tree trees => cases tree <;> simp [flattenAll, flatten]

end TokenTree

namespace SourceFile

/-- All tokens in the trees of a file lie in that file. -/
theorem fileNumber_of_mem_trees {file : SourceFile} {token : Token}
    (member : token ∈ flattenAll file.trees.trees) : token.fileNumber = file.number := by
  obtain ⟨_, reads, _⟩ := file.lex_reads
  obtain ⟨_, _, _, _, _, _, rfl⟩ := reads.mem_cases (file.flattenAll_trees_prefix.subset member)
  rfl

/-- The trees of a file are not those that were read back, unless there are none. -/
theorem reviveAll_trees_eq_iff {file : SourceFile} {next : Nat} (fresh : file.number < next) :
    (reviveAll next file.trees.trees).1 = file.trees.trees ↔ file.trees.trees = [] := by
  constructor
  · intro same
    have numbers := (TokenTree.flattenAll_reviveAll next file.trees.trees).1
    rw [same] at numbers
    rw [← TokenTree.flattenAll_eq_nil_iff]
    cases tokens : flattenAll file.trees.trees with
    | nil => rfl
    | cons token later =>
        -- The first token would lie in the file and in the first of the new ones.
        have here : token.fileNumber = file.number :=
          fileNumber_of_mem_trees (by rw [tokens]; exact List.mem_cons_self)
        rw [TokenTree.fileNumbers, tokens, List.map_cons, List.length_cons,
          List.range'_succ] at numbers
        have there := (List.cons.inj numbers).1
        omega
  · intro none
    rw [none]
    rfl

end SourceFile

/-! ## What entries add -/

theorem PluginEntry.increment_anonymous (entry : PluginEntry) :
    (entry.relocate Span.anonymous).increment = entry.increment := by
  obtain ⟨_, _, version⟩ := entry
  cases version <;> rfl

theorem DependencyEntry.increment_anonymous (entry : DependencyEntry) :
    (entry.relocate Span.anonymous).increment = entry.increment := rfl

theorem RepositoryEntry.url?_anonymous (entry : RepositoryEntry) :
    (entry.relocate Span.anonymous).url? = entry.url? := by
  cases entry with
  | central repository => rfl
  | secondaryIndex repository => rfl
  | custom repository =>
      rw [relocate, url?, url?, CustomRepository.urlLiteral?_relocate, Option.map_map]
      rfl

theorem TaskRegistration.increment_anonymous (task : TaskRegistration) :
    (task.relocate Span.anonymous).increment = task.increment := by
  have runs : (task.relocate Span.anonymous).mainClass? = task.mainClass? :=
    mainClass?_relocate Span.anonymous_text fun _ _ _ _ => rfl
  rw [increment, increment, runs]
  rfl

/-- What the entries of a declaration add does not depend on the numbers of files. -/
theorem Declaration.added_anonymous (declaration : Declaration) :
    (declaration.relocate Span.anonymous).increments.map Except.toOption =
      declaration.increments.map Except.toOption := by
  cases declaration with
  | plugins keyword block =>
      simp [relocate, increments, Block.relocate, PluginEntry.increment_anonymous]
  | repositories keyword block =>
      simp [relocate, increments, Block.relocate, RepositoryEntry.increment_toOption,
        RepositoryEntry.url?_anonymous]
  | dependencies keyword block =>
      simp [relocate, increments, Block.relocate, DependencyEntry.increment_anonymous]
  | task registration => simp [relocate, increments, TaskRegistration.increment_anonymous]

/-- What the entries of a script add does not depend on the numbers of files. -/
theorem Script.added_anonymous (script : Script) :
    (script.relocate Span.anonymous).increments.map Except.toOption =
      script.increments.map Except.toOption := by
  simp [increments, relocate, List.map_flatMap, List.flatMap_map, Declaration.added_anonymous]

/-- Scripts that are the same, the numbers of files apart, have entries that add the same. -/
theorem Script.added_of_anonymous {first second : Script}
    (same : first.relocate Span.anonymous = second.relocate Span.anonymous) :
    first.increments.map Except.toOption = second.increments.map Except.toOption := by
  rw [← first.added_anonymous, same, second.added_anonymous]

/-! ## Models -/

namespace Extraction

variable {entries others : List (Except Error Increment)}

theorem collect_of_attached (attached : .error .detached ∉ entries) :
    collect entries = .ok ⟨added entries, faults entries⟩ := by
  induction entries with
  | nil => rfl
  | cons entry later ih =>
      have here := List.ne_of_not_mem_cons attached
      have there := List.not_mem_of_not_mem_cons attached
      cases entry with
      | ok increment =>
          rw [collect, ih there]
          rfl
      | error error =>
          rw [collect, ih there]
          · rfl
          · rintro rfl
            exact here rfl

/-- One detached entry ends the run, wherever it stands. -/
theorem collect_of_detached (detached : .error .detached ∈ entries) :
    collect entries = .error .detached := by
  induction entries with
  | nil => cases detached
  | cons entry later ih =>
      rcases List.mem_cons.1 detached with rfl | there
      · rfl
      · cases entry with
        | ok increment =>
            rw [collect, ih there]
            rfl
        | error error => cases error <;> simp only [collect, ih there] <;> rfl

theorem faults_eq_nil_iff_toOption :
    faults entries = [] ↔ none ∉ entries.map Except.toOption := by
  induction entries with
  | nil => exact iff_of_true rfl List.not_mem_nil
  | cons entry later ih =>
      cases entry with
      | ok increment => simpa [faults, Except.toOption] using ih
      | error error => simp [faults, Except.toOption]

/-- Entries that add the same are both without fault, or both at fault. -/
theorem faults_eq_nil_iff_of_added
    (same : entries.map Except.toOption = others.map Except.toOption) :
    faults entries = [] ↔ faults others = [] := by
  rw [faults_eq_nil_iff_toOption, same, faults_eq_nil_iff_toOption]

theorem added_congr (same : entries.map Except.toOption = others.map Except.toOption) :
    added entries = added others := by
  have reduced := congrArg (List.filterMap id) same
  rwa [List.filterMap_map, List.filterMap_map] at reduced

end Extraction

namespace Script

open Extraction (added faults)

variable {script : Script}

theorem buildModel_of_detached (detached : .error .detached ∈ script.increments) :
    script.buildModel = ⟨[], .error .detached⟩ := by
  rw [buildModel, Extraction.collect_of_detached detached]

/-- A script has a model just when no entry is at fault: what the entries add makes it. -/
theorem buildModel_result_eq_ok_iff {model : Model} :
    script.buildModel.result = .ok model ↔
      faults script.increments = [] ∧ model = Model.ofIncrements (added script.increments) := by
  by_cases detached : .error .detached ∈ script.increments
  · have faulty : faults script.increments ≠ [] :=
      List.ne_nil_of_mem (List.mem_filterMap.2 ⟨_, detached, rfl⟩)
    rw [buildModel_of_detached detached]
    refine iff_of_false (fun built => ?_) fun both => faulty both.1
    cases built
  · rw [buildModel, Extraction.collect_of_attached detached]
    cases found : faults script.increments with
    | nil =>
        constructor
        · intro built
          cases built
          exact ⟨rfl, rfl⟩
        · rintro ⟨_, rfl⟩
          rfl
    | cons fault later =>
        constructor
        · intro built
          cases built
        · intro both
          cases both.1

/-- A script that is the same, the numbers of files apart, has the same model. -/
theorem buildModel_of_anonymous {other : Script}
    (same : other.relocate Span.anonymous = script.relocate Span.anonymous) {model : Model}
    (built : script.buildModel.result = .ok model) : other.buildModel.result = .ok model := by
  have adds := Script.added_of_anonymous same
  obtain ⟨faultless, rfl⟩ := buildModel_result_eq_ok_iff.1 built
  refine buildModel_result_eq_ok_iff.2 ⟨?_, ?_⟩
  · exact (Extraction.faults_eq_nil_iff_of_added adds).2 faultless
  · rw [Extraction.added_congr adds]

end Script

/-! ## Readings -/

/-- Both readings yield the same script or none, with the same reports, files apart. -/
structure Grammar.Rule.ReadSame (first second : Option Script × Parser) : Prop where
  succeeds : (∃ script, first.1 = some script) ↔ ∃ script, second.1 = some script
  reports : first.2.reports.map (SyntaxError.relocate Span.anonymous) =
    second.2.reports.map (SyntaxError.relocate Span.anonymous)
  tree : ∀ script other, first.1 = some script → second.1 = some other →
    script.relocate Span.anonymous = other.relocate Span.anonymous

/-- Trees that were read back are read as the trees they were. -/
theorem Grammar.Rule.readSame_reviveAll (next : Nat) (trees : List TokenTree) :
    ReadSame (Rule.script (Parser.ofTrees trees))
      (Rule.script (Parser.ofTrees (reviveAll next trees).1)) := by
  have same := (TokenTree.condenseAll_reviveAll next trees).symm
  obtain ⟨nodes, reports⟩ := Rule.script_of_condenseAll Span.anonymous_text same
  refine ⟨?_, reports, ?_⟩
  · have isSome := congrArg Option.isSome nodes
    rw [Option.isSome_map, Option.isSome_map] at isSome
    rw [← Option.isSome_iff_exists, ← Option.isSome_iff_exists, isSome]
  · intro script other read otherRead
    rw [read, otherRead] at nodes
    exact Option.some.inj nodes

/--
Trees of a file that were read back, with a new file for every span, are read by the
grammar as the trees they were: with the same reports and as the same script, files
apart. If that script has a model, the script that was read back has the same one. The
trees themselves are not the same, unless there are none.
-/
theorem SourceFile.revived_trees_mean_same {file : SourceFile} {next : Nat}
    (fresh : file.number < next) :
    let trees := file.trees.trees
    let revived := (reviveAll next trees).1
    Rule.ReadSame (Rule.script (Parser.ofTrees trees)) (Rule.script (Parser.ofTrees revived)) ∧
      (∀ script model, (Rule.script (Parser.ofTrees trees)).1 = some script →
        script.buildModel.result = .ok model →
        ∃ other, (Rule.script (Parser.ofTrees revived)).1 = some other ∧
          other.buildModel.result = .ok model) ∧
      (revived = trees ↔ trees = []) := by
  intro trees revived
  have readings := Rule.readSame_reviveAll next trees
  refine ⟨readings, ?_, reviveAll_trees_eq_iff fresh⟩
  intro script model read built
  obtain ⟨other, otherRead⟩ := readings.succeeds.1 ⟨script, read⟩
  have same := readings.tree script other read otherRead
  exact ⟨other, otherRead, Script.buildModel_of_anonymous same.symm built⟩

namespace Revival

/-- A custom repository, a comment, and a task whose class is a path. -/
def linked : SourceFile :=
  SourceFile.ofText 0 "linked"
    "repositories\x7bmaven\x7burl'u'\x7d\x7d//\n tasks.register('t')\x7bmainClass=a.B\x7d"

theorem linked_means_same :
    let trees := linked.trees.trees
    let revived := (reviveAll 1 trees).1
    linked.number < 1 ∧
      Rule.ReadSame (Rule.script (Parser.ofTrees trees)) (Rule.script (Parser.ofTrees revived)) ∧
      (∃ other model, (Rule.script (Parser.ofTrees revived)).1 = some other ∧
        other.buildModel.result = .ok model) ∧
      revived ≠ trees := by
  intro trees revived
  obtain ⟨same, builds, differ⟩ :=
    @SourceFile.revived_trees_mean_same linked 1 (by decide +kernel)
  have builtAt : (Rule.script (Parser.ofTrees trees)).1.map (·.buildModel.result.isOk) =
      some true := by decide +kernel
  have nonempty : linked.trees.trees.isEmpty = false := by decide +kernel
  refine ⟨by decide +kernel, same, ?_, fun equal => ?_⟩
  · obtain ⟨script, read, isOk⟩ := Option.map_eq_some_iff.1 builtAt
    cases built : script.buildModel.result with
    | error error =>
        rw [built] at isOk
        cases isOk
    | ok model =>
        obtain ⟨other, otherRead, otherBuilt⟩ := builds script model read built
        exact ⟨other, model, otherRead, otherBuilt⟩
  · rw [differ.1 equal] at nonempty
    cases nonempty

end Revival

/-! ## Entries that cannot be shown -/

/-- The spans that parts keep are those of the trees that they stand for. -/
theorem Grammar.Shape.SpellsAll.spans_eq : {shapes : List Shape} → {trees : List TokenTree} →
    SpellsAll shapes trees →
      (leavesAll shapes).map (·.stored.span) = (flattenAll trees).map Token.span
  | [], _, rfl => rfl
  | .leaf slot stored :: shapes, _, ⟨_, later, rfl, ⟨token, rfl, reads⟩, more⟩ => by
      have first := Leaf.Reads.spans_eq (.cons reads .nil)
      have others := more.spans_eq
      simp only [leavesAll, leaves, flattenAll, flatten, List.map_append, others]
      rw [first]
  | .group delimiter opening inside closing :: shapes, _,
      ⟨_, later, rfl, ⟨trees, rfl, within⟩, more⟩ => by
      have inner := within.spans_eq
      have others := more.spans_eq
      simp only [leavesAll, leaves, flattenAll, flatten, List.map_append, List.map_cons, inner,
        others]
      rfl

/-- No two leaves lie in one file. -/
def Grammar.Leaf.Scattered (leaves : List Leaf) : Prop :=
  (leaves.map fun leaf => leaf.stored.fileNumber).Nodup

/-- The leaves of a script are scattered where the tokens are. -/
theorem Grammar.Rule.script_scattered {trees : List TokenTree} {script : Script} {after : Parser}
    (read : Rule.script (Parser.ofTrees trees) = (some script, after))
    (distinct : (TokenTree.fileNumbers trees).Nodup) : Leaf.Scattered script.leaves := by
  have spans := (Rule.script_spells read).spans_eq
  have numbers := congrArg (List.map fun span => span.file.number) spans
  rw [List.map_map, List.map_map] at numbers
  refine (congrArg List.Nodup numbers).mpr ?_
  change ((flattenAll (condenseAll id trees)).map Token.fileNumber).Nodup
  rw [TokenTree.flattenAll_condenseAll, Token.condenseAll_id]
  exact distinct.sublist (List.filter_sublist.map _)

theorem Grammar.Leaf.Scattered.sublist {leaves part : List Leaf} (scattered : Scattered leaves)
    (among : part.Sublist leaves) : Scattered part :=
  List.Nodup.sublist (among.map _) scattered

/-- A custom repository has no span where no two of its tokens lie in one file. -/
theorem CustomRepository.span?_of_scattered {repository : CustomRepository}
    (scattered : Leaf.Scattered (leavesAll repository.shapes)) : repository.span? = none := by
  have others := (List.pairwise_cons.1 scattered).1
  have apart : repository.keyword.span.file.number ≠ repository.closing.span.file.number :=
    others _ (by simp [leavesAll, Shape.leaves, Punctuation.toToken, Token.fileNumber])
  rw [span?, Span.join?, if_neg fun joins => apart joins.1]

theorem RepositoryEntry.increment_of_scattered {entry : RepositoryEntry}
    (scattered : Leaf.Scattered (leavesAll entry.shapes))
    (fails : entry.increment.toOption = none) : entry.increment = .error .detached := by
  cases entry with
  | central repository => cases fails
  | secondaryIndex repository => cases fails
  | custom repository =>
      rw [increment] at fails ⊢
      cases found : repository.urlLiteral? with
      | some url =>
          rw [found] at fails
          cases fails
      | none => rw [CustomRepository.span?_of_scattered scattered]

/-- In a script with scattered leaves every entry at fault is detached. -/
theorem Script.detached_of_scattered {script : Script} (scattered : Leaf.Scattered script.leaves)
    {entry : Except Error Increment} (member : entry ∈ script.increments)
    (fails : entry.toOption = none) : entry = .error .detached := by
  obtain ⟨declaration, inScript, adds⟩ := List.mem_flatMap.1 member
  have parts := scattered.sublist (Shape.leavesAll_sublist_flatMap Declaration.shapes inScript)
  cases declaration with
  | plugins keyword block =>
      obtain ⟨_, _, rfl⟩ := List.mem_map.1 adds
      cases fails
  | repositories keyword block =>
      obtain ⟨repository, inBlock, rfl⟩ := List.mem_map.1 adds
      have inside := Shape.leavesAll_sublist_group .brace block.opening block.closing
        (block.entries.flatMap RepositoryEntry.shapes)
      have entries := (parts.sublist (Shape.leavesAll_sublist_right _ _)).sublist inside
      exact RepositoryEntry.increment_of_scattered
        (entries.sublist (Shape.leavesAll_sublist_flatMap RepositoryEntry.shapes inBlock)) fails
  | dependencies keyword block =>
      obtain ⟨_, _, rfl⟩ := List.mem_map.1 adds
      cases fails
  | task registration =>
      cases List.mem_singleton.1 adds
      cases fails

/-- A script with scattered leaves and an entry at fault is not looked at to its end. -/
theorem Script.buildModel_of_scattered {script : Script} (scattered : Leaf.Scattered script.leaves)
    (faulty : Extraction.faults script.increments ≠ []) :
    script.buildModel = ⟨[], .error .detached⟩ := by
  rw [Ne, Extraction.faults_eq_nil_iff_toOption, not_not] at faulty
  obtain ⟨entry, member, fails⟩ := List.mem_map.1 faulty
  refine buildModel_of_detached ?_
  rw [← detached_of_scattered scattered member fails]
  exact member

/-- A script without a model has an entry at fault. -/
theorem Script.faults_ne_nil_of_error {script : Script} {error : Error}
    (failed : script.buildModel.result = .error error) :
    Extraction.faults script.increments ≠ [] := by
  intro faultless
  have built := buildModel_result_eq_ok_iff.2 ⟨faultless, rfl⟩
  rw [failed] at built
  cases built

/-- The trees of a file that is read as a script form it again once they were read back. -/
theorem SourceFile.revived_script {file : SourceFile} {script : Script}
    (parsed : file.parse.result = .ok script) (next : Nat) :
    ∃ other after, Rule.script (Parser.ofTrees (reviveAll next file.trees.trees).1) =
        (some other, after) ∧ after.reports = [] ∧
      other.relocate Span.anonymous = script.relocate Span.anonymous := by
  obtain ⟨clean, _⟩ := file.parse_result_eq_ok_iff.1 parsed
  rw [SourceFile.parse_of_clean clean] at parsed
  obtain ⟨final, read, silent⟩ := Script.ofTrees_result_eq_ok_iff.1 parsed
  have readings := Rule.readSame_reviveAll next file.trees.trees
  obtain ⟨other, otherRead⟩ := readings.succeeds.1 ⟨script, by rw [read]⟩
  refine ⟨other, _, Prod.ext otherRead rfl, ?_, ?_⟩
  · have reports := readings.reports
    rw [read, silent] at reports
    exact List.map_eq_nil_iff.1 reports.symm
  · exact (readings.tree script other (by rw [read]) otherRead).symm

/--
Where a script lacks URLs, nothing tells so once its trees were read back: they form the
same script, files apart, but the run stops at the first repository that lacks its URL,
before anything is reported. It stops for no other script.
-/
theorem SourceFile.revived_run_detached {file : SourceFile} {script : Script}
    (parsed : file.parse.result = .ok script) (next : Nat) :
    ∃ other after, Rule.script (Parser.ofTrees (reviveAll next file.trees.trees).1) =
        (some other, after) ∧ after.reports = [] ∧
      other.relocate Span.anonymous = script.relocate Span.anonymous ∧
      (other.buildModel = ⟨[], .error .detached⟩ ↔
        ∃ error, script.buildModel.result = .error error) := by
  obtain ⟨other, after, read, silent, same⟩ := SourceFile.revived_script parsed next
  refine ⟨other, after, read, silent, same, ?_⟩
  constructor
  · intro detached
    cases built : script.buildModel.result with
    | error error => exact ⟨error, rfl⟩
    | ok model =>
        have otherBuilt := Script.buildModel_of_anonymous same built
        rw [detached] at otherBuilt
        cases otherBuilt
  · rintro ⟨error, failed⟩
    have scattered := Rule.script_scattered read
      (TokenTree.fileNumbers_reviveAll_nodup next file.trees.trees)
    refine Script.buildModel_of_scattered scattered fun faultless => ?_
    have adds := Script.added_of_anonymous same
    exact Script.faults_ne_nil_of_error failed
      ((Extraction.faults_eq_nil_iff_of_added adds).1 faultless)

namespace Revival

/-- A custom repository without a URL between two that have theirs. -/
def bare : String :=
  "repositories\x7bmavenCentral()maven\x7b\x7dmaven\x7burl'u'\x7d\x7d"

/-- The offsets of the repository that an error says to lack its URL. -/
def missingAt? : Error → Option (Nat × Nat)
  | .semantic (.missingRepositoryUrl span) => some (span.start, span.stop)
  | _ => none

theorem bare_detached :
    ∃ script, (SourceFile.ofText 0 "bare" bare).parse.result = .ok script ∧
      ∃ other after, Rule.script (Parser.ofTrees
          (reviveAll 1 (SourceFile.ofText 0 "bare" bare).trees.trees).1) = (some other, after) ∧
        after.reports = [] ∧
        other.relocate Span.anonymous = script.relocate Span.anonymous ∧
        (other.buildModel = ⟨[], .error .detached⟩ ↔
          ∃ error, script.buildModel.result = .error error) := by
  have accepted : (SourceFile.ofText 0 "bare" bare).parse.result.toOption.isSome = true := by
    decide +kernel
  cases parsed : (SourceFile.ofText 0 "bare" bare).parse.result with
  | error error =>
      rw [parsed] at accepted
      cases accepted
  | ok script => exact ⟨script, rfl, SourceFile.revived_run_detached parsed 1⟩

/-- The missing URL is reported at its offsets, but not once the trees were read back. -/
theorem bare_unreported :
    let file := SourceFile.ofText 0 "bare" bare
    let direct := file.parse.andThen Script.buildModel
    let revived :=
      (Rule.script (Parser.ofTrees (reviveAll 1 file.trees.trees).1)).1.map Script.buildModel
    direct.reports.map missingAt? = [some (27, 34)] ∧
      revived.map (fun outcome => outcome.reports.map missingAt?) = some [] := by
  decide +kernel

end Revival

end BuildScript
