import BuildScript.Proofs.Composition

/-!
# Declarations that are not translated

Documents show the repositories, the dependencies and the tasks that run a class. A
plugins block, or a task that runs none, can therefore be deleted from the text of a
script: what stands in front of it and behind it is split as before, the other
declarations are read as before, and the documents are the same to the byte.
-/

namespace BuildScript

open Extraction (added faults)
open Grammar (Leaf Shape)
open Grammar.Leaf (SteadyAll)
open Grammar.Shape (leavesAll)
open Piece (Stable significant textAll tokens)

/-! ## What documents show -/

/-- The models are the same as far as documents show them. -/
structure Model.ShowSame (first second : Model) : Prop where
  repositories : first.repositories = second.repositories
  dependencies : first.dependencies = second.dependencies
  runnableTasks : first.runnableTasks = second.runnableTasks

/-- Documents of models that are the same as far as documents show them. -/
theorem Bazel.render_eq_of_showSame {first second : Model} (same : first.ShowSame second)
    (options : Bazel.Options) : Bazel.render options first = Bazel.render options second := by
  simp only [Bazel.render, Bazel.workspace, Bazel.buildFile, Bazel.dependencySection,
    same.repositories, same.dependencies, same.runnableTasks]

/-- The declaration applies plugins, or registers a task that runs no class. -/
inductive Declaration.Untranslated : Declaration → Prop where
  | plugins (keyword : KeywordToken) (block : Block PluginEntry) :
      Untranslated (.plugins keyword block)
  | task {registration : TaskRegistration} (idle : registration.Runs none) :
      Untranslated (.task registration)

namespace TaskRegistration

theorem find?_key_of_unset {statements : List TaskStatement}
    (unset : ∀ statement ∈ statements, statement.key.text ≠ "mainClass") :
    statements.find? (fun statement => statement.hasKey mainClassKey) = none := by
  rw [List.find?_eq_none]
  intro statement member
  simpa [TaskStatement.hasKey, mainClassKey] using unset statement member

theorem find?_key_of_first {front back : List TaskStatement} {statement : TaskStatement}
    (isKey : statement.key.text = "mainClass")
    (unset : ∀ other ∈ front, other.key.text ≠ "mainClass") :
    (front ++ statement :: back).find? (fun other => other.hasKey mainClassKey) =
      some statement := by
  have hasKey : statement.hasKey mainClassKey = true := beq_iff_eq.2 isKey
  rw [List.find?_append, find?_key_of_unset unset, List.find?_cons, hasKey]
  rfl

/-- A task runs one class at most. -/
theorem Runs.mainClass?_eq {task : TaskRegistration} {found : Option String}
    (runs : task.Runs found) : task.mainClass? = found := by
  cases runs with
  | silent unset => rw [mainClass?, find?_key_of_unset unset]
  | string statements isKey unset => rw [mainClass?, statements, find?_key_of_first isKey unset]
  | path statements isKey unset => rw [mainClass?, statements, find?_key_of_first isKey unset]

end TaskRegistration

instance : DecidablePred Declaration.Untranslated
  | .plugins keyword block => .isTrue (.plugins keyword block)
  | .task registration =>
      decidable_of_iff (registration.mainClass? = none)
        ⟨fun none => .task (none ▸ registration.mainClass?_runs), fun
          | .task idle => idle.mainClass?_eq⟩
  | .repositories _ _ => .isFalse nofun
  | .dependencies _ _ => .isFalse nofun

namespace Declaration.Untranslated

variable {declaration : Declaration} (untranslated : declaration.Untranslated)

include untranslated

theorem repositoryEntries_eq : declaration.repositoryEntries = [] := by
  cases untranslated <;> rfl

theorem dependencyEntries_eq : declaration.dependencyEntries = [] := by
  cases untranslated <;> rfl

theorem mainClass?_eq : ∀ task ∈ declaration.taskRegistrations, task.mainClass? = none := by
  intro task member
  cases untranslated with
  | plugins keyword block => cases member
  | task idle =>
      rw [List.mem_singleton.1 member]
      exact idle.mainClass?_eq

end Declaration.Untranslated

namespace Script

variable {before after : List Declaration} {declaration : Declaration}

/-- A declaration that is not translated adds nothing that documents show. -/
theorem showSame_without (untranslated : declaration.Untranslated) :
    (Model.ofIncrements (added (Script.mk (before ++ after)).increments)).ShowSame
      (Model.ofIncrements (added (Script.mk (before ++ declaration :: after)).increments)) := by
  have idle : (declaration.taskRegistrations.map fun task =>
      Task.mk task.name.content task.mainClass?).filterMap
        (fun task => task.mainClass.map fun mainClass => (task.name, mainClass)) = [] := by
    simpa [List.filterMap_map, Function.comp_def] using untranslated.mainClass?_eq
  rw [Model.ofIncrements_eq_ofKinds, Model.ofIncrements_eq_ofKinds]
  refine ⟨?_, ?_, ?_⟩
  · simp only [Model.ofKinds, added_repositories, repositoryEntries, List.flatMap_append,
      List.flatMap_cons, untranslated.repositoryEntries_eq, List.nil_append]
  · simp only [Model.ofKinds, added_dependencies, dependencyEntries, List.flatMap_append,
      List.flatMap_cons, untranslated.dependencyEntries_eq, List.nil_append]
  · simp only [Model.runnableTasks, Model.ofKinds, added_tasks, taskRegistrations,
      List.flatMap_append, List.flatMap_cons, List.map_append, List.filterMap_append, idle,
      List.nil_append]

/-- Fewer declarations have no more faults. -/
theorem faults_without
    (faultless : faults (Script.mk (before ++ declaration :: after)).increments = []) :
    faults (Script.mk (before ++ after)).increments = [] := by
  simp only [increments, faults, List.flatMap_append, List.flatMap_cons, List.filterMap_append,
    List.append_eq_nil_iff] at faultless ⊢
  exact ⟨faultless.1, faultless.2.2⟩

end Script

/-! ## The text without a declaration -/

theorem Block.exists_leaves_closing {α : Type} (front : List Shape) (entry : α → List Shape)
    (block : Block α) :
    ∃ earlier closing, leavesAll (front ++ block.shapes entry) =
      earlier ++ [⟨.mark '}', Punctuation.toToken closing⟩] := by
  refine ⟨leavesAll front ++ ⟨.mark '{', block.opening.toToken⟩ ::
    leavesAll (block.entries.flatMap entry), block.closing, ?_⟩
  rw [Shape.leavesAll_append, Block.shapes, Shape.leavesAll_group, List.append_assoc]
  rfl

/-- A declaration ends with its closing brace. -/
theorem Declaration.exists_leaves_closing (declaration : Declaration) :
    ∃ earlier closing, leavesAll declaration.shapes =
      earlier ++ [⟨.mark '}', Punctuation.toToken closing⟩] := by
  cases declaration <;> exact Block.exists_leaves_closing _ _ _

/-- The last token that declarations keep is a closing brace. -/
theorem Script.last_kind_of_reads {declarations : List Declaration} {tokens : List Token}
    (reads : List.Forall₂ Leaf.Reads (Script.mk declarations).leaves tokens) :
    ∀ last ∈ tokens.getLast?, last.kind = .punctuation '}' := by
  intro last isLast
  rcases declarations.eq_nil_or_concat with rfl | ⟨others, declaration, rfl⟩
  · cases reads
    cases isLast
  · obtain ⟨earlier, closing, leavesEq⟩ := declaration.exists_leaves_closing
    rw [List.concat_eq_append, Script.leaves_append, Script.leaves_singleton, leavesEq,
      ← List.append_assoc] at reads
    obtain ⟨_, final, rfl, _, readsFinal⟩ := Shape.forall₂_append_iff.1 reads
    obtain ⟨token, rest, closes, none, rfl⟩ := List.forall₂_cons_left_iff.1 readsFinal
    cases none
    obtain ⟨rfl, isMark⟩ := Shape.reads_mark_iff.1 closes
    rw [List.getLast?_concat] at isLast
    cases isLast
    exact congrArg TokenKind.punctuation isMark

/-- The last of some pieces is the last of those that count, if it counts itself. -/
theorem Piece.getLast?_significant {file : SourceFile} {offset : Nat} {front : List Piece}
    {last : Piece} (counts : last.kind.isSignificant = true) :
    ∃ span, (significant file offset (front ++ [last])).getLast? = some ⟨last.kind, span⟩ := by
  have single : ∀ place, significant file place [last] =
      [⟨last.kind, ⟨file, place, place + Text.byteLength last.text⟩⟩] :=
    fun place => List.filter_cons_of_pos (p := Token.isSignificant) counts
  rw [significant_append, single, List.getLast?_concat]
  exact ⟨_, rfl⟩

/-- A line comment does not end where a token begins that counts. -/
theorem Piece.Whole.not_lineEnd {piece : Piece} (whole : piece.Whole)
    (counts : piece.kind.isSignificant = true) :
    ¬TokenKind.EndsAt (.comment .line) piece.text := by
  have ⟨c, cs, text, _⟩ := whole
  rw [text, TokenKind.endsAt_cons_iff]
  intro isEnd
  have blank : Text.isBlank c = true := by
    rcases Bool.or_eq_true_iff.1 isEnd with same | same <;> rw [beq_iff_eq.1 same] <;> rfl
  rw [whole.kind_eq_blanks text blank] at counts
  cases counts

/-- A token in front of a declaration ends where the text behind the declaration begins. -/
theorem SourceFile.Sections.seam {file : SourceFile} {before after : List Declaration}
    {declaration : Declaration} {span : Span} {front inside back : List Piece}
    (sections : file.Sections before declaration after span front inside back) :
    ∀ last ∈ front.getLast?, last.kind = .blanks ∨ last.kind.EndsAt (textAll back) := by
  intro last isLast
  obtain ⟨_, stableRest, ends⟩ := Stable.append_iff.1 sections.stable
  have endsHere := ends last isLast
  obtain ⟨init, rfl⟩ := List.getLast?_eq_some_iff.1 isLast
  by_cases counts : last.kind.isSignificant = true
  · -- What counts in front of a declaration closes the one before.
    have closes := Script.last_kind_of_reads sections.keepsBefore.reads
    obtain ⟨place, isToken⟩ := Piece.getLast?_significant counts
    have isBrace : last.kind = .punctuation '}' := closes _ isToken
    rw [isBrace]
    exact .inr fun next _ => rfl
  · obtain ⟨kind, text⟩ := last
    cases kind with
    | blanks => exact .inl rfl
    | comment style =>
        cases style with
        | delimited => exact .inr fun next _ => rfl
        | line =>
            -- Its line would have to end where the declaration begins.
            cases inside with
            | nil => exact .inr endsHere
            | cons first later =>
                have whole := stableRest.whole first List.mem_cons_self
                rw [List.cons_append, Piece.textAll_cons,
                  TokenKind.endsAt_append_iff whole.text_ne_nil] at endsHere
                exact absurd endsHere (whole.not_lineEnd (sections.begins first rfl))
    | identifier | keyword | punctuation | numeric | stringLiteral => exact absurd rfl counts

theorem Script.relocate_append (move : Span → Span) (front back : List Declaration) :
    (Script.mk (front ++ back)).relocate move =
      ⟨((Script.mk front).relocate move).declarations ++
        ((Script.mk back).relocate move).declarations⟩ :=
  congrArg Script.mk List.map_append

/-- Without the text of a declaration the other declarations are read as before. -/
theorem SourceFile.Sections.exists_parse_without {file : SourceFile}
    {before after : List Declaration} {declaration : Declaration} {span : Span}
    {front inside back : List Piece}
    (sections : file.Sections before declaration after span front inside back)
    (rest : SourceFile) (text : rest.chars = textAll front ++ textAll back) :
    ∃ others, rest.parse.result = .ok others ∧
      others.relocate Span.alone = (Script.mk (before ++ after)).relocate Span.alone := by
  obtain ⟨stableFront, stableRest, _⟩ := Stable.append_iff.1 sections.stable
  obtain ⟨_, stableBack, _⟩ := Stable.append_iff.1 stableRest
  obtain ⟨pieces, stable, piecesText, splits⟩ :=
    stableFront.exists_joined stableBack sections.seam
  have here : Piece.Stand rest 0 front := ⟨[], textAll back, text, rfl⟩
  have there : Piece.Stand rest (0 + Text.byteLength (textAll front)) back :=
    ⟨textAll front, [], by rw [text, List.append_nil], (Nat.zero_add _).symm⟩
  obtain ⟨moveFront, movesFront⟩ := MovesPlace.exists_move file 0 rest 0
  obtain ⟨moveBack, movesBack⟩ := MovesPlace.exists_move file span.stop rest _
  have keepsBefore := sections.keepsBefore.relocate here movesFront
  have keepsAfter := sections.keepsAfter.relocate there movesBack
  refine ⟨_, parse_of_keeps stable (text.trans piecesText.symm) (splits rest 0) keepsBefore
    keepsAfter, ?_⟩
  rw [Script.relocate_append, Script.relocate_append]
  exact congrArg₂ (fun first second => Script.mk (first.declarations ++ second.declarations))
    (keepsBefore.alone_eq sections.keepsBefore) (keepsAfter.alone_eq sections.keepsAfter)

/-! ## No trace -/

/-- Declarations of a script that was read add the same wherever they stand. -/
theorem SourceFile.increments_alone_without {file : SourceFile} {script : Script}
    (parsed : file.parse.result = .ok script) {before after : List Declaration}
    {declaration : Declaration} (split : script.declarations = before ++ declaration :: after) :
    List.Forall₂ Increment.Agree (Script.mk (before ++ after)).increments
      ((Script.mk (before ++ after)).relocate Span.alone).increments := by
  obtain ⟨last, reads, _⟩ := file.lex_reads
  obtain ⟨_, keep⟩ := file.parse_result_eq_ok_iff.1 parsed
  have steady : SteadyAll script.leaves := reads.steadyAll List.filter_sublist keep
  refine Script.increments_alone (steady.sublist ?_)
  rw [Script.leaves_append, Script.leaves_of_split split]
  exact (List.Sublist.refl _).append (List.sublist_append_right _ _)

theorem Script.faultless_of_built {script : Script} {others : List (Except Error Increment)}
    (agree : List.Forall₂ Increment.Agree script.increments others) {model : Model}
    (built : script.buildModel.result = .ok model) : faults script.increments = [] := by
  by_contra faulty
  obtain ⟨fault, more, _, failed⟩ := lacksUrls_of_faulty agree faulty
  rw [failed] at built
  cases built

/-- Entries that agree with those of the other declarations make a model that shows the same. -/
theorem Script.exists_model_without {others : Script} {before after : List Declaration}
    {declaration : Declaration}
    (agree : List.Forall₂ Increment.Agree others.increments
      (Script.mk (before ++ after)).increments)
    (faultless : faults (Script.mk (before ++ declaration :: after)).increments = [])
    (untranslated : declaration.Untranslated) :
    ∃ model, others.buildModel.result = .ok model ∧ model.ShowSame
      (Model.ofIncrements (added (Script.mk (before ++ declaration :: after)).increments)) := by
  have othersFaultless : faults others.increments = [] :=
    Extraction.faults_eq_nil_of_agree (Increment.agreeAll_symm agree) (faults_without faultless)
  refine ⟨_, congrArg Outcome.result (buildModel_of_faultless agree othersFaultless), ?_⟩
  rw [Extraction.added_of_agree agree]
  exact showSame_without untranslated

/--
Declarations that are not translated leave no trace. If a text is read as a script that
has a model, then without the span of a plugins block, or of a task that runs no class,
it is still read as a script that has a model, and the documents are the same with all
options.
-/
theorem Script.untranslated_no_trace {identifier text : String} {script : Script} {model : Model}
    (parsed : (Script.parse identifier text).result = .ok script)
    (built : script.buildModel.result = .ok model)
    {before after : List Declaration} {declaration : Declaration}
    (split : script.declarations = before ++ declaration :: after)
    (untranslated : declaration.Untranslated) :
    ∃ span front inside back, declaration.span? = some span ∧
      text = front ++ inside ++ back ∧
      front.utf8ByteSize = span.start ∧ (front ++ inside).utf8ByteSize = span.stop ∧
      ∃ others otherModel, (Script.parse identifier (front ++ back)).result = .ok others ∧
        others.buildModel.result = .ok otherModel ∧
        ∀ options, Bazel.render options otherModel = Bazel.render options model := by
  obtain ⟨span, front, inside, back, isSpan, sections⟩ := SourceFile.exists_sections parsed split
  obtain ⟨others, parsedOthers, same⟩ := sections.exists_parse_without
    (.ofText 0 identifier (String.ofList (textAll front) ++ String.ofList (textAll back)))
    (by simp [SourceFile.ofText])
  have agreeOthers : List.Forall₂ Increment.Agree others.increments
      (Script.mk (before ++ after)).increments := by
    have toCommon := SourceFile.increments_alone parsedOthers
    rw [same] at toCommon
    have fromCommon := SourceFile.increments_alone_without parsed split
    exact Increment.agreeAll_trans toCommon (Increment.agreeAll_symm fromCommon)
  have agree := SourceFile.increments_alone parsed
  have faultless := faultless_of_built agree built
  have modelEq := eq_ofIncrements_of_built agree built
  have scriptEq : script = ⟨before ++ declaration :: after⟩ := by rw [← split]
  rw [scriptEq] at faultless modelEq
  obtain ⟨otherModel, builtOthers, showSame⟩ :=
    exists_model_without agreeOthers faultless untranslated
  rw [← modelEq] at showSame
  refine ⟨span, String.ofList (textAll front), String.ofList (textAll inside),
    String.ofList (textAll back), isSpan, ?_, ?_, ?_, others, otherModel, parsedOthers, builtOthers,
    Bazel.render_eq_of_showSame showSame⟩
  · rw [← String.ofList_append, ← String.ofList_append, List.append_assoc, ← sections.text]
    exact String.ofList_toList.symm
  · rw [← Text.byteLength_eq_utf8ByteSize]
    exact sections.start
  · rw [← String.ofList_append, ← Text.byteLength_eq_utf8ByteSize]
    exact sections.stop

namespace Untranslated

/-- A script with a task that names its class by a path first. -/
def idle : String :=
  "dependencies\x7bimplementation'a:b'\x7d//c\n tasks.register('t')\x7bmainClass=a.B " ++
    "mainClass 'C'\x7d\ttasks.register('u')\x7bmainClass'U'\x7d"

theorem idle_no_trace :
    ∃ script model before declaration after, (Script.parse "idle" idle).result = .ok script ∧
      script.buildModel.result = .ok model ∧
      script.declarations = before ++ declaration :: after ∧ declaration.Untranslated ∧
      ∃ span front inside back, declaration.span? = some span ∧ idle = front ++ inside ++ back ∧
        front.utf8ByteSize = span.start ∧ (front ++ inside).utf8ByteSize = span.stop ∧
        ∃ others otherModel, (Script.parse "idle" (front ++ back)).result = .ok others ∧
          others.buildModel.result = .ok otherModel ∧
          ∀ options, Bazel.render options otherModel = Bazel.render options model := by
  have accepted : ((Script.parse "idle" idle).result.toOption.any fun script =>
      script.buildModel.result.toOption.isSome &&
        script.declarations.any (decide ·.Untranslated)) = true := by
    decide +kernel
  cases parsed : (Script.parse "idle" idle).result with
  | error error =>
      rw [parsed] at accepted
      cases accepted
  | ok script =>
      rw [parsed] at accepted
      obtain ⟨hasModel, hasDeclaration⟩ := Bool.and_eq_true_iff.1 accepted
      obtain ⟨declaration, member, isUntranslated⟩ := List.any_eq_true.1 hasDeclaration
      obtain ⟨before, after, split⟩ := List.append_of_mem member
      have untranslated := of_decide_eq_true isUntranslated
      cases built : script.buildModel.result with
      | error error =>
          rw [built] at hasModel
          cases hasModel
      | ok model =>
          exact ⟨script, model, before, declaration, after, rfl, built, split, untranslated,
            Script.untranslated_no_trace parsed built split untranslated⟩

end Untranslated

end BuildScript
