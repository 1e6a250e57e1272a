import BuildScript.Model.Extraction
import BuildScript.Proofs.Derivation
import BuildScript.Proofs.Quoting
import BuildScript.Proofs.Relocation

/-!
# Meaning and place

What a script means depends on the texts of its tokens and not on where they stand.
The content of a literal is read from the file by offsets, and the span of an entry
joins two of its tokens; both are steady for tokens that were split from one file.
-/

namespace BuildScript

/-! ## Literals -/

/-- A literal has the same content when it stands alone. -/
def StringLiteral.Steady (literal : StringLiteral) : Prop :=
  (literal.relocate Span.alone).content = literal.content

/-- The literals that a file is split into are steady. -/
theorem SourceFile.Reads.literal_steady {file : SourceFile} {front last : List Char}
    {tokens : List Token} (reads : file.Reads front tokens last) {literal : StringLiteral}
    (member : literal.toToken ∈ tokens) : literal.Steady := by
  obtain ⟨before, c, cs, lexeme, text, found, same⟩ := reads.mem_cases member
  obtain ⟨inner, lexemeText, narrow, _⟩ :=
    Lexeme.first_units found (congrArg Token.kind same).symm
  rw [← Lexeme.first_append found, lexemeText] at text
  have spanEq : literal.span = file.part before (c :: (inner ++ [c])) := by
    rw [← lexemeText]
    exact congrArg Token.span same
  have chars : literal.span.chars = c :: (inner ++ [c]) := by
    rw [spanEq]
    exact SourceFile.part_chars text
  -- Both contents are cut out by offsets, each in its own file; both are what stands
  -- between the quotes.
  have here : literal.content = String.ofList inner := by
    have content := StringLiteral.content_part narrow text
    rw [← spanEq] at content
    exact content
  have alone : literal.span.alone =
      SourceFile.part ⟨0, "", "", literal.span.chars⟩ [] (c :: (inner ++ [c])) := by
    rw [Span.alone, chars, SourceFile.part, Text.byteLength_nil, Nat.zero_add]
  have there : (literal.relocate Span.alone).content = String.ofList inner := by
    rw [StringLiteral.relocate, alone]
    refine StringLiteral.content_part narrow (?_ : literal.span.chars = [] ++ (_ ++ []))
    rw [chars, List.nil_append, List.append_nil]
  rw [StringLiteral.Steady, here, there]

/-! ## Steady leaves -/

open Grammar (Leaf Shape)

/--
Leaves whose literals are steady and whose spans can be joined, from any leaf to any
later one.
-/
structure Grammar.Leaf.SteadyAll (leaves : List Leaf) : Prop where
  literals : ∀ literal : StringLiteral, ∀ leaf ∈ leaves, leaf.stored = literal.toToken →
    literal.Steady
  joins : leaves.Pairwise fun before after =>
    (before.stored.span.join? after.stored.span).isSome

theorem Grammar.Leaf.SteadyAll.sublist {leaves part : List Leaf} (steady : SteadyAll leaves)
    (among : part.Sublist leaves) : SteadyAll part :=
  ⟨fun literal leaf member => steady.literals literal leaf (among.subset member),
    steady.joins.sublist among⟩

/-- The parts of a node among several are parts of them all. -/
theorem Grammar.Shape.leavesAll_sublist_flatMap {α : Type} (shapes : α → List Shape) {node : α}
    {nodes : List α} (member : node ∈ nodes) :
    (leavesAll (shapes node)).Sublist (leavesAll (nodes.flatMap shapes)) := by
  induction nodes with
  | nil => cases member
  | cons first others ih =>
      rw [List.flatMap_cons, leavesAll_append]
      rcases List.mem_cons.1 member with rfl | inOthers
      · exact List.sublist_append_left _ _
      · exact (ih inOthers).trans (List.sublist_append_right _ _)

theorem Grammar.Shape.leavesAll_sublist_right (front back : List Shape) :
    (leavesAll back).Sublist (leavesAll (front ++ back)) := by
  rw [leavesAll_append]
  exact List.sublist_append_right _ _

/-- The leaves of a part between delimiters are among those of the group. -/
theorem Grammar.Shape.leavesAll_sublist_group (delimiter : Delimiter)
    (opening closing : Punctuation) (inside : List Shape) :
    (leavesAll inside).Sublist (leavesAll [.group delimiter opening inside closing]) := by
  change (leavesAll inside).Sublist (_ :: (leavesAll inside ++ _) ++ [])
  rw [List.append_nil]
  exact (List.sublist_append_left _ _).trans (List.sublist_cons_self _ _)

/-! ## Increments -/

/-- Both entries add the same, or both have no URL. -/
inductive Increment.Agree : Except Error Increment → Except Error Increment → Prop where
  | same (increment : Increment) : Agree (.ok increment) (.ok increment)
  | missingUrl (first second : Span) :
      Agree (.error (.semantic (.missingRepositoryUrl first)))
        (.error (.semantic (.missingRepositoryUrl second)))

namespace Increment

theorem Agree.symm {first second : Except Error Increment} (agree : Agree first second) :
    Agree second first := by
  cases agree with
  | same increment => exact .same increment
  | missingUrl first second => exact .missingUrl second first

theorem Agree.trans {first second third : Except Error Increment} (earlier : Agree first second)
    (later : Agree second third) : Agree first third := by
  cases earlier with
  | same increment => exact later
  | missingUrl first second =>
      cases later with
      | missingUrl _ third => exact .missingUrl first third

theorem agreeAll_symm {first second : List (Except Error Increment)}
    (agree : List.Forall₂ Agree first second) : List.Forall₂ Agree second first :=
  agree.flip.imp fun _ _ => Agree.symm

theorem agreeAll_trans {first second third : List (Except Error Increment)}
    (earlier : List.Forall₂ Agree first second) (later : List.Forall₂ Agree second third) :
    List.Forall₂ Agree first third := by
  induction earlier generalizing third with
  | nil => exact later
  | cons head rest ih =>
      cases later with
      | cons laterHead laterRest => exact .cons (head.trans laterHead) (ih laterRest)

/-- Entries that agree one by one agree as a list. -/
theorem agree_map {α : Type} (entries : List α) (move : α → α)
    (before after : α → Except Error Increment)
    (agree : ∀ entry ∈ entries, Agree (before entry) (after (move entry))) :
    List.Forall₂ Agree (entries.map before) ((entries.map move).map after) := by
  rw [List.map_map, List.forall₂_map_left_iff, List.forall₂_map_right_iff]
  exact List.forall₂_same.2 agree

end Increment

section

open Grammar.Leaf (SteadyAll)
open Grammar.Shape (leavesAll)

theorem Grammar.Shape.mem_leavesAll {slot : Grammar.Slot} {stored : Token} {shapes : List Shape}
    (member : .leaf slot stored ∈ shapes) : ⟨slot.symbol, stored⟩ ∈ leavesAll shapes := by
  induction shapes with
  | nil => cases member
  | cons shape shapes ih =>
      rw [leavesAll]
      rcases List.mem_cons.1 member with rfl | later
      · exact List.mem_append_left _ (List.mem_singleton.2 rfl)
      · exact List.mem_append_right _ (ih later)

/-- A literal among steady parts has the same content when it stands alone. -/
theorem Grammar.Leaf.SteadyAll.content {shapes : List Shape} (steady : SteadyAll (leavesAll shapes))
    (literal : StringLiteral) (member : .leaf .stringLiteral literal.toToken ∈ shapes) :
    (literal.relocate Span.alone).content = literal.content :=
  steady.literals literal _ (Shape.mem_leavesAll member) rfl

/-- The entries of a block with steady parts have steady parts. -/
theorem Grammar.Leaf.SteadyAll.block {α : Type} {shapes : α → List Shape} {block : Block α}
    (steady : SteadyAll (leavesAll (block.shapes shapes))) :
    ∀ entry ∈ block.entries, SteadyAll (leavesAll (shapes entry)) := by
  intro entry member
  have inside := Shape.leavesAll_sublist_group .brace block.opening block.closing
    (block.entries.flatMap shapes)
  exact steady.sublist ((Shape.leavesAll_sublist_flatMap shapes member).trans inside)

theorem PluginEntry.increment_alone {entry : PluginEntry}
    (steady : SteadyAll (leavesAll entry.shapes)) :
    (entry.relocate Span.alone).increment = entry.increment := by
  obtain ⟨idWord, plugin, version⟩ := entry
  have pluginContent := steady.content plugin
    (by simp [shapes, Identifier.shapes, StringLiteral.shapes])
  cases version with
  | none => simp only [increment, relocate, pluginContent, Option.map_none]
  | some pair =>
      obtain ⟨word, literal⟩ := pair
      have versionContent := steady.content literal
        (by simp [shapes, versionShapes, StringLiteral.shapes, Shape.ofOption])
      simp only [increment, relocate, pluginContent, Option.map_some, Prod.map_apply,
        versionContent]

theorem DependencyEntry.increment_alone {entry : DependencyEntry}
    (steady : SteadyAll (leavesAll entry.shapes)) :
    (entry.relocate Span.alone).increment = entry.increment := by
  obtain ⟨configuration, parentheses, coordinate⟩ := entry
  have content : (coordinate.relocate Span.alone).content = coordinate.content := by
    cases parentheses with
    | none => exact steady.content coordinate (by simp [shapes, StringLiteral.shapes])
    | some pair =>
        have inside := steady.sublist (Shape.leavesAll_sublist_right _ _)
        exact (inside.sublist (Shape.leavesAll_sublist_group _ _ _ _)).content coordinate
          (by simp [StringLiteral.shapes])
  simp only [increment, relocate, content]

namespace CustomRepository

theorem urlLiteral?_relocate (move : Span → Span) (repository : CustomRepository) :
    (repository.relocate move).urlLiteral? =
      repository.urlLiteral?.map (StringLiteral.relocate move) := by
  obtain ⟨keyword, opening, url, closing⟩ := repository
  cases url with
  | none => rfl
  | some statement => rfl

theorem urlContent_alone {repository : CustomRepository}
    (steady : SteadyAll (leavesAll repository.shapes)) {literal : StringLiteral}
    (found : repository.urlLiteral? = some literal) :
    (literal.relocate Span.alone).content = literal.content := by
  have inside := (steady.sublist (Shape.leavesAll_sublist_right _ _)).sublist
    (Shape.leavesAll_sublist_group _ _ _ _)
  obtain ⟨statement, isUrl, hasValue⟩ := Option.bind_eq_some_iff.1 found
  exact inside.content literal
    (by simp [isUrl, hasValue, Shape.ofOption, UrlStatement.shapes, StringLiteral.shapes])

/-- The keyword and the closing brace of a repository with steady parts can be joined. -/
theorem exists_span {repository : CustomRepository}
    (steady : SteadyAll (leavesAll repository.shapes)) :
    ∃ span, repository.span? = some span := by
  have fromKeyword := (List.pairwise_cons.1 steady.joins).1
  have joined := fromKeyword ⟨.mark '}', repository.closing.toToken⟩
    (by simp [leavesAll, Shape.leaves, Delimiter.closing])
  exact Option.isSome_iff_exists.1 joined

/-- Standing alone, the keyword and the closing brace can always be joined. -/
theorem exists_span_alone (repository : CustomRepository) :
    ∃ span, (repository.relocate Span.alone).span? = some span := by
  rw [span?, Span.join?, if_pos ⟨rfl, Nat.zero_le _⟩]
  exact ⟨_, rfl⟩

end CustomRepository

theorem RepositoryEntry.increment_alone {entry : RepositoryEntry}
    (steady : SteadyAll (leavesAll entry.shapes)) :
    Increment.Agree entry.increment (entry.relocate Span.alone).increment := by
  cases entry with
  | central repository => exact .same _
  | secondaryIndex repository => exact .same _
  | custom repository =>
      have alone := repository.urlLiteral?_relocate Span.alone
      rw [relocate, increment, increment, alone]
      cases found : repository.urlLiteral? with
      | some literal =>
          simp only [Option.map_some, CustomRepository.urlContent_alone steady found]
          exact .same _
      | none =>
          -- Both are at fault; only a repository without a span would end the whole run instead.
          obtain ⟨span, here⟩ := CustomRepository.exists_span steady
          obtain ⟨other, there⟩ := repository.exists_span_alone
          rw [Option.map_none, here, there]
          exact .missingUrl span other

theorem TaskStatement.hasKey_relocate {move : Span → Span}
    (keeps : ∀ span, (move span).text = span.text) (statement : TaskStatement) (name : String) :
    (statement.relocate move).hasKey name = statement.hasKey name := by
  have text : (statement.key.relocate move).text = statement.key.text :=
    keeps statement.key.span
  rw [hasKey, relocate, text]
  rfl

/-- The class that a task runs does not depend on where its statements stand. -/
theorem TaskRegistration.mainClass?_relocate {move : Span → Span}
    (keeps : ∀ span, (move span).text = span.text) {task : TaskRegistration}
    (contents : ∀ statement ∈ task.block.entries, ∀ literal, statement.value = .string literal →
      (literal.relocate move).content = literal.content) :
    (task.relocate move).mainClass? = task.mainClass? := by
  have sameKey : ((fun statement => statement.hasKey mainClassKey) ∘
      TaskStatement.relocate move) = fun statement => statement.hasKey mainClassKey :=
    funext fun statement => statement.hasKey_relocate keeps mainClassKey
  have found : (task.relocate move).block.entries.find?
      (fun statement => statement.hasKey mainClassKey) =
        (task.block.entries.find? fun statement => statement.hasKey mainClassKey).map
          (TaskStatement.relocate move) := by
    change (task.block.entries.map _).find? _ = _
    rw [List.find?_map, sameKey]
  rw [mainClass?, mainClass?, found]
  cases first : task.block.entries.find? fun statement => statement.hasKey mainClassKey with
  | none => rfl
  | some statement =>
      have content := contents statement (List.mem_of_find?_eq_some first)
      obtain ⟨key, assignment, value⟩ := statement
      cases value with
      | path identifiers => rfl
      | string literal => exact congrArg some (content literal rfl)

theorem TaskRegistration.increment_alone {task : TaskRegistration}
    (steady : SteadyAll (leavesAll task.shapes)) :
    (task.relocate Span.alone).increment = task.increment := by
  rw [shapes, Shape.leavesAll_append, Shape.leavesAll_append] at steady
  have arguments := (steady.sublist ((List.sublist_append_right _ _).trans
    (List.sublist_append_left _ _))).sublist (Shape.leavesAll_sublist_group _ _ _ _)
  have name := arguments.content task.name (by simp [argumentShapes, StringLiteral.shapes])
  have statements := (steady.sublist (List.sublist_append_right _ _)).block
  have runs : (task.relocate Span.alone).mainClass? = task.mainClass? := by
    refine mainClass?_relocate Span.alone_text fun statement member literal isString => ?_
    exact (statements statement member).content literal
      (by simp [TaskStatement.shapes, isString, Expression.shapes, StringLiteral.shapes])
  rw [increment, increment, runs, relocate, name]

/-- The entries of a declaration add the same wherever they stand. -/
theorem Declaration.increments_alone {declaration : Declaration}
    (steady : SteadyAll (leavesAll declaration.shapes)) :
    List.Forall₂ Increment.Agree declaration.increments
      (declaration.relocate Span.alone).increments := by
  cases declaration with
  | plugins keyword block =>
      have entries := (steady.sublist (Shape.leavesAll_sublist_right _ _)).block
      refine Increment.agree_map block.entries _ _ _ fun entry member => ?_
      rw [PluginEntry.increment_alone (entries entry member)]
      exact .same _
  | repositories keyword block =>
      have entries := (steady.sublist (Shape.leavesAll_sublist_right _ _)).block
      exact Increment.agree_map block.entries _ _ _ fun entry member =>
        RepositoryEntry.increment_alone (entries entry member)
  | dependencies keyword block =>
      have entries := (steady.sublist (Shape.leavesAll_sublist_right _ _)).block
      refine Increment.agree_map block.entries _ _ _ fun entry member => ?_
      rw [DependencyEntry.increment_alone (entries entry member)]
      exact .same _
  | task registration =>
      refine .cons ?_ .nil
      rw [TaskRegistration.increment_alone steady]
      exact .same _

/-- The entries of a script add the same wherever they stand. -/
theorem Script.increments_alone {script : Script} (steady : SteadyAll script.leaves) :
    List.Forall₂ Increment.Agree script.increments (script.relocate Span.alone).increments := by
  obtain ⟨declarations⟩ := script
  have each : ∀ declaration ∈ declarations, SteadyAll (leavesAll declaration.shapes) :=
    fun declaration member =>
      steady.sublist (Shape.leavesAll_sublist_flatMap Declaration.shapes member)
  clear steady
  induction declarations with
  | nil => exact .nil
  | cons declaration declarations ih =>
      obtain ⟨first, others⟩ := List.forall_mem_cons.1 each
      exact List.rel_append (Declaration.increments_alone first) (ih others)

end

/-! ## Leaves of a file -/

/-- A literal among the leaves is one of the tokens that they keep. -/
theorem Grammar.Leaf.Reads.literal_mem {leaves : List Leaf} {tokens : List Token}
    (reads : List.Forall₂ Leaf.Reads leaves tokens) {leaf : Leaf} (member : leaf ∈ leaves)
    {literal : StringLiteral} (stored : leaf.stored = literal.toToken) :
    literal.toToken ∈ tokens := by
  induction reads with
  | nil => cases member
  | cons first later ih =>
      rcases List.mem_cons.1 member with rfl | inLater
      · cases first with
        | same derives => exact stored ▸ List.mem_cons_self
        | keywordName word span => cases stored
      · exact List.mem_cons_of_mem _ (ih inLater)

/-- The spans of two tokens of a file can be joined, the earlier one first. -/
theorem SourceFile.Reads.joins {file : SourceFile} {front last : List Char} {tokens : List Token}
    (reads : file.Reads front tokens last) :
    tokens.Pairwise fun before after => (before.span.join? after.span).isSome := by
  refine reads.pairwise.imp_of_mem fun {before after} beforeMember afterMember order => ?_
  obtain ⟨_, _, _, _, _, _, rfl⟩ := reads.mem_cases beforeMember
  obtain ⟨passed, _, _, lexeme, _, _, rfl⟩ := reads.mem_cases afterMember
  have grows : (file.part passed lexeme.text).start ≤ (file.part passed lexeme.text).stop :=
    Nat.le_add_right _ _
  have forward := ((Nat.le_of_lt order.1).trans order.2).trans grows
  rw [Span.join?, if_pos ⟨rfl, forward⟩]
  rfl

/-- Leaves that keep tokens of a file are steady. -/
theorem SourceFile.Reads.steadyAll {file : SourceFile} {front last : List Char}
    {tokens part : List Token} (reads : file.Reads front tokens last)
    (among : part.Sublist tokens) {leaves : List Leaf}
    (keep : List.Forall₂ Leaf.Reads leaves part) : Grammar.Leaf.SteadyAll leaves := by
  have spans : (leaves.map (·.stored.span)).Pairwise fun before after =>
      (before.join? after).isSome := by
    rw [Grammar.Leaf.Reads.spans_eq keep, List.pairwise_map]
    exact reads.joins.sublist among
  refine ⟨fun literal leaf member stored => ?_, List.pairwise_map.1 spans⟩
  exact reads.literal_steady (among.subset (Grammar.Leaf.Reads.literal_mem keep member stored))

/-! ## Models -/

namespace Extraction

def added (entries : List (Except Error Increment)) : List Increment :=
  entries.filterMap Except.toOption

def faults (entries : List (Except Error Increment)) : List Error :=
  entries.filterMap fun
    | .ok _ => none
    | .error error => some error

/-- Entries that agree with others are sorted into what they add and their faults. -/
theorem collect_of_agree {entries others : List (Except Error Increment)}
    (agree : List.Forall₂ Increment.Agree entries others) :
    collect entries = .ok ⟨added entries, faults entries⟩ := by
  induction agree with
  | nil => rfl
  | cons first later ih =>
      cases first with
      | same increment =>
          rw [collect, ih]
          rfl
      | missingUrl here there =>
          rw [collect, ih]
          · rfl
          · nofun

theorem added_of_agree {entries others : List (Except Error Increment)}
    (agree : List.Forall₂ Increment.Agree entries others) : added entries = added others := by
  induction agree with
  | nil => rfl
  | cons first later ih =>
      cases first with
      | same increment => exact congrArg (increment :: ·) ih
      | missingUrl here there => exact ih

theorem faults_eq_nil_of_agree {entries others : List (Except Error Increment)}
    (agree : List.Forall₂ Increment.Agree entries others) (none : faults entries = []) :
    faults others = [] := by
  induction agree with
  | nil => rfl
  | cons first later ih =>
      cases first with
      | same increment => exact ih none
      | missingUrl here there => cases none

end Extraction

namespace Script

/-- The script has no model: every entry at fault is reported, and the first is the result. -/
def LacksUrls (script : Script) : Prop :=
  ∃ fault others, Extraction.faults script.increments = fault :: others ∧
    script.buildModel = ⟨fault :: others, .error fault⟩

/-- Entries that agree with others and are not at fault make a model. -/
theorem buildModel_of_faultless {script : Script} {others : List (Except Error Increment)}
    (agree : List.Forall₂ Increment.Agree script.increments others)
    (faultless : Extraction.faults script.increments = []) :
    script.buildModel = ⟨[], .ok (Model.ofIncrements (Extraction.added script.increments))⟩ := by
  rw [buildModel, Extraction.collect_of_agree agree, faultless]

/-- Entries that agree with others and are at fault make no model. -/
theorem lacksUrls_of_faulty {script : Script} {others : List (Except Error Increment)}
    (agree : List.Forall₂ Increment.Agree script.increments others)
    (faulty : Extraction.faults script.increments ≠ []) : script.LacksUrls := by
  obtain ⟨fault, rest, found⟩ := List.exists_cons_of_ne_nil faulty
  refine ⟨fault, rest, found, ?_⟩
  rw [buildModel, Extraction.collect_of_agree agree, found]

/-- Scripts whose entries agree have the same model, or both lack URLs. -/
theorem buildModel_of_agree {first second : Script}
    (agree : List.Forall₂ Increment.Agree first.increments second.increments) :
    (∃ model, first.buildModel = ⟨[], .ok model⟩ ∧ second.buildModel = ⟨[], .ok model⟩) ∨
      (first.LacksUrls ∧ second.LacksUrls) := by
  have back := Increment.agreeAll_symm agree
  by_cases faultless : Extraction.faults first.increments = []
  · have otherFaultless := Extraction.faults_eq_nil_of_agree agree faultless
    refine .inl ⟨_, buildModel_of_faultless agree faultless, ?_⟩
    rw [Extraction.added_of_agree agree]
    exact buildModel_of_faultless back otherFaultless
  · refine .inr ⟨lacksUrls_of_faulty agree faultless, lacksUrls_of_faulty back ?_⟩
    exact fun otherFaultless => faultless (Extraction.faults_eq_nil_of_agree back otherFaultless)

end Script

end BuildScript
