import BuildScript.Proofs.Acceptance
import BuildScript.Proofs.Meaning

/-!
# Layout

Blanks and comments do not change what a script means. Two texts whose significant
tokens have the same kinds and texts condense to the same trees, so that the grammar
reads both in the same way; and what is read has one meaning wherever its tokens
stand.
-/

namespace BuildScript

open Grammar (Leaf Parser Rule)
open TokenTree (condenseAll)

/-! ## Tokens and trees -/

/-- The tokens have the same kind and the same text. -/
def Token.Alike (first second : Token) : Prop :=
  first.kind = second.kind ∧ first.text = second.text

instance : DecidableRel Token.Alike :=
  fun first second =>
    inferInstanceAs (Decidable (first.kind = second.kind ∧ first.text = second.text))

theorem Token.Alike.relocate_eq {first second : Token} (alike : first.Alike second) :
    first.relocate Span.alone = second.relocate Span.alone := by
  obtain ⟨kind, text⟩ := alike
  rw [relocate, relocate, kind, Span.alone_eq_iff.2 text]

/-- Tokens that are alike one by one are the same once they stand alone. -/
theorem Token.map_relocate_of_alike {first second : List Token}
    (alike : List.Forall₂ Token.Alike first second) :
    first.map (Token.relocate Span.alone) = second.map (Token.relocate Span.alone) := by
  induction alike with
  | nil => rfl
  | cons head later ih => rw [List.map_cons, List.map_cons, head.relocate_eq, ih]

/-- Files with alike significant tokens have the same trees, blanks and comments apart. -/
theorem SourceFile.condenseAll_trees_of_alike {first second : SourceFile}
    (alike : List.Forall₂ Token.Alike first.significantTokens second.significantTokens) :
    condenseAll Span.alone first.trees.trees = condenseAll Span.alone second.trees.trees := by
  have tokens : Token.condenseAll Span.alone first.lex.tokens =
      Token.condenseAll Span.alone second.lex.tokens := Token.map_relocate_of_alike alike
  have forests := congrArg Nesting.ofTokens tokens
  rw [Nesting.ofTokens_condenseAll, Nesting.ofTokens_condenseAll] at forests
  exact congrArg Nesting.Forest.trees forests

/-! ## Syntax trees -/

/--
The grammar reads the same from trees that are the same, blanks and comments apart,
wherever their spans are moved with their texts.
-/
theorem Grammar.Rule.script_of_condenseAll {move : Span → Span}
    (keeps : ∀ span, (move span).text = span.text) {first second : List TokenTree}
    (same : condenseAll move first = condenseAll move second) :
    (Rule.script (Parser.ofTrees first)).1.map (Script.relocate move) =
        (Rule.script (Parser.ofTrees second)).1.map (Script.relocate move) ∧
      (Rule.script (Parser.ofTrees first)).2.reports.map (SyntaxError.relocate move) =
        (Rule.script (Parser.ofTrees second)).2.reports.map (SyntaxError.relocate move) := by
  have mirrors : Rule.Mirrors move (Script.relocate move) Rule.script Rule.script :=
    .script keeps
  have firstRead : Rule.script (Parser.ofTrees (condenseAll move first)) = _ :=
    mirrors (Parser.ofTrees first)
  have secondRead : Rule.script (Parser.ofTrees (condenseAll move second)) = _ :=
    mirrors (Parser.ofTrees second)
  rw [same, secondRead] at firstRead
  obtain ⟨nodes, parsers⟩ := Prod.mk.inj firstRead
  exact ⟨nodes.symm, congrArg Parser.reports parsers.symm⟩

/-- Where trees form a script, trees that condense to the same form it up to places. -/
theorem Script.ofTrees_of_condenseAll {first second : List TokenTree}
    (same : condenseAll Span.alone first = condenseAll Span.alone second) {script : Script}
    (formed : (Script.ofTrees first).result = .ok script) :
    ∃ other, Script.ofTrees second = ⟨[], .ok other⟩ ∧
      script.relocate Span.alone = other.relocate Span.alone := by
  obtain ⟨after, read, clean⟩ := Script.ofTrees_result_eq_ok_iff.1 formed
  obtain ⟨nodes, reports⟩ := Rule.script_of_condenseAll Span.alone_text same
  rw [read] at nodes reports
  rw [clean] at reports
  rcases Script.ofTrees_cases second with
    ⟨other, otherAfter, otherRead, _, otherFormed⟩ | ⟨node, otherAfter, otherRead, fault, _⟩
  · rw [otherRead] at nodes
    exact ⟨other, otherFormed, Option.some.inj nodes⟩
  · rw [otherRead] at nodes reports
    rcases fault with rfl | reported
    · cases nodes
    · exact absurd (List.map_eq_nil_iff.1 reports.symm) reported

/-- Both outcomes are one script up to places, or the same syntax errors up to places. -/
inductive Script.Alike : Outcome Script → Outcome Script → Prop where
  | accepted {first second : Script}
      (same : first.relocate Span.alone = second.relocate Span.alone) :
      Alike ⟨[], .ok first⟩ ⟨[], .ok second⟩
  | refused {first second : List SyntaxError}
      (same : first.map (SyntaxError.relocate Span.alone) =
        second.map (SyntaxError.relocate Span.alone)) :
      Alike ⟨first.map .grammar, .error (.step .parsing)⟩
        ⟨second.map .grammar, .error (.step .parsing)⟩

namespace Script.Alike

variable {firstRead secondRead : Outcome Script}

theorem exists_ok_iff (alike : Alike firstRead secondRead) :
    (∃ script, firstRead.result = .ok script) ↔ ∃ script, secondRead.result = .ok script := by
  cases alike with
  | accepted same => exact ⟨fun _ => ⟨_, rfl⟩, fun _ => ⟨_, rfl⟩⟩
  | refused same => exact ⟨nofun, nofun⟩

theorem tree_eq (alike : Alike firstRead secondRead) {first second : Script}
    (firstOk : firstRead.result = .ok first) (secondOk : secondRead.result = .ok second) :
    first.relocate Span.alone = second.relocate Span.alone := by
  cases alike with
  | accepted same =>
      cases firstOk
      cases secondOk
      exact same
  | refused same => cases firstOk

end Script.Alike

/-- Trees that are the same, blanks and comments apart, form alike scripts. -/
theorem Script.ofTrees_alike {first second : List TokenTree}
    (same : condenseAll Span.alone first = condenseAll Span.alone second) :
    Alike (Script.ofTrees first) (Script.ofTrees second) := by
  rcases Script.ofTrees_cases first with
    ⟨script, _, _, _, formed⟩ | ⟨_, after, read, _, refused⟩
  · obtain ⟨other, otherFormed, sameScript⟩ :=
      Script.ofTrees_of_condenseAll same (congrArg Outcome.result formed)
    rw [formed, otherFormed]
    exact .accepted sameScript
  · rcases Script.ofTrees_cases second with
      ⟨other, _, _, _, otherFormed⟩ | ⟨_, otherAfter, otherRead, _, otherRefused⟩
    · -- If the second trees formed a script, so would the first.
      obtain ⟨_, impossible, _⟩ :=
        Script.ofTrees_of_condenseAll same.symm (congrArg Outcome.result otherFormed)
      rw [refused] at impossible
      cases congrArg Outcome.result impossible
    · have reports := (Rule.script_of_condenseAll Span.alone_text same).2
      rw [read, otherRead] at reports
      rw [refused, otherRefused]
      exact .refused reports

/-! ## Meaning -/

/-- The entries of a script that was read add the same wherever they stand. -/
theorem SourceFile.increments_alone {file : SourceFile} {script : Script}
    (parsed : file.parse.result = .ok script) :
    List.Forall₂ Increment.Agree script.increments (script.relocate Span.alone).increments := by
  obtain ⟨last, reads, _⟩ := file.lex_reads
  obtain ⟨_, keep⟩ := file.parse_result_eq_ok_iff.1 parsed
  exact Script.increments_alone (reads.steadyAll List.filter_sublist keep)

/-- Scripts that were read and are the same up to places have entries that agree. -/
theorem SourceFile.increments_agree {firstFile secondFile : SourceFile} {first second : Script}
    (firstParsed : firstFile.parse.result = .ok first)
    (secondParsed : secondFile.parse.result = .ok second)
    (same : first.relocate Span.alone = second.relocate Span.alone) :
    List.Forall₂ Increment.Agree first.increments second.increments := by
  have toCommon := SourceFile.increments_alone firstParsed
  have fromCommon := SourceFile.increments_alone secondParsed
  rw [same] at toCommon
  exact Increment.agreeAll_trans toCommon (Increment.agreeAll_symm fromCommon)

/-- The entries agree one by one, and both scripts have one model or both lack URLs. -/
structure Script.MeansSame (first second : Script) : Prop where
  entries : List.Forall₂ Increment.Agree first.increments second.increments
  models : (∃ model, first.buildModel = ⟨[], .ok model⟩ ∧ second.buildModel = ⟨[], .ok model⟩) ∨
    (first.LacksUrls ∧ second.LacksUrls)

theorem Script.MeansSame.result_eq_ok_iff {first second : Script} (means : first.MeansSame second)
    {model : Model} :
    first.buildModel.result = .ok model ↔ second.buildModel.result = .ok model := by
  rcases means.models with ⟨_, firstModel, secondModel⟩ |
    ⟨⟨_, _, _, firstFails⟩, ⟨_, _, _, secondFails⟩⟩
  · rw [firstModel, secondModel]
  · rw [firstFails, secondFails]
    constructor <;> nofun

/-! ## Results of steps -/

theorem Outcome.map_result_eq_ok_iff {α β : Type} {f : α → β} {outcome : Outcome α} {value : β} :
    (outcome.map f).result = .ok value ↔
      ∃ before, outcome.result = .ok before ∧ f before = value := by
  obtain ⟨reports, result⟩ := outcome
  cases result with
  | error error => exact ⟨nofun, nofun⟩
  | ok before =>
      constructor
      · intro same
        cases same
        exact ⟨before, rfl, rfl⟩
      · rintro ⟨_, same, rfl⟩
        cases same
        rfl

theorem Outcome.andThen_result_eq_ok_iff {α β : Type} {next : α → Outcome β}
    {outcome : Outcome α} {value : β} :
    (outcome.andThen next).result = .ok value ↔
      ∃ before, outcome.result = .ok before ∧ (next before).result = .ok value := by
  obtain ⟨reports, result⟩ := outcome
  cases result with
  | error error => exact ⟨nofun, nofun⟩
  | ok before =>
      constructor
      · intro same
        exact ⟨before, rfl, same⟩
      · rintro ⟨_, same, later⟩
        cases same
        exact later

/-- A text is converted by reading it, making its model and rendering that. -/
theorem Conversion.convertText_result_eq_ok_iff {identifier text : String}
    {options : Bazel.Options} {converted : Model × Bazel.Documents} :
    (Conversion.convertText identifier text options).result = .ok converted ↔
      ∃ script model, (Script.parse identifier text).result = .ok script ∧
        script.buildModel.result = .ok model ∧
          (model, Bazel.render options model) = converted := by
  rw [Conversion.convertText, Outcome.map_result_eq_ok_iff]
  constructor
  · rintro ⟨model, found, rendered⟩
    obtain ⟨script, parsed, built⟩ := Outcome.andThen_result_eq_ok_iff.1 found
    exact ⟨script, model, parsed, built, rendered⟩
  · rintro ⟨script, model, parsed, built, rendered⟩
    exact ⟨model, Outcome.andThen_result_eq_ok_iff.2 ⟨script, parsed, built⟩, rendered⟩

/-! ## Layout -/

/--
Two texts without lexical errors whose significant tokens have the same kinds and texts
are read as one script up to places, or refused with the same syntax errors up to
places. What they are read as means the same, and they are converted into the same
documents.
-/
theorem Script.meaning_ignores_layout {firstName firstText secondName secondText : String}
    (firstClean : (SourceFile.ofText 0 firstName firstText).tokenize.reports = [])
    (secondClean : (SourceFile.ofText 0 secondName secondText).tokenize.reports = [])
    (alike : List.Forall₂ Token.Alike (SourceFile.ofText 0 firstName firstText).significantTokens
      (SourceFile.ofText 0 secondName secondText).significantTokens) :
    Script.Alike (Script.parse firstName firstText) (Script.parse secondName secondText) ∧
      (∀ first second, (Script.parse firstName firstText).result = .ok first →
        (Script.parse secondName secondText).result = .ok second → first.MeansSame second) ∧
      ∀ options converted,
        (Conversion.convertText firstName firstText options).result = .ok converted ↔
          (Conversion.convertText secondName secondText options).result = .ok converted := by
  have read : Script.Alike (Script.parse firstName firstText)
      (Script.parse secondName secondText) := by
    rw [Script.parse, Script.parse, SourceFile.parse_of_clean firstClean,
      SourceFile.parse_of_clean secondClean]
    exact Script.ofTrees_alike (SourceFile.condenseAll_trees_of_alike alike)
  have means : ∀ first second, (Script.parse firstName firstText).result = .ok first →
      (Script.parse secondName secondText).result = .ok second → first.MeansSame second := by
    intro first second firstParsed secondParsed
    have entries := SourceFile.increments_agree firstParsed secondParsed
      (read.tree_eq firstParsed secondParsed)
    exact ⟨entries, Script.buildModel_of_agree entries⟩
  refine ⟨read, means, fun options converted => ?_⟩
  rw [Conversion.convertText_result_eq_ok_iff, Conversion.convertText_result_eq_ok_iff]
  constructor
  · rintro ⟨first, model, firstParsed, built, rfl⟩
    obtain ⟨second, secondParsed⟩ := read.exists_ok_iff.1 ⟨first, firstParsed⟩
    have same := means first second firstParsed secondParsed
    exact ⟨second, model, secondParsed, same.result_eq_ok_iff.1 built, rfl⟩
  · rintro ⟨second, model, secondParsed, built, rfl⟩
    obtain ⟨first, firstParsed⟩ := read.exists_ok_iff.2 ⟨second, secondParsed⟩
    have same := means first second firstParsed secondParsed
    exact ⟨first, model, firstParsed, same.result_eq_ok_iff.2 built, rfl⟩

namespace Layout

/-- A script without blanks; its repository has no URL. -/
def dense : String :=
  "dependencies\x7bimplementation'a:b'\x7drepositories\x7bmaven\x7b\x7d\x7d"

/-- The same script with blanks, and with quotes and braces in comments. -/
def spaced : String :=
  "// \"\x7b\ndependencies \x7b\n  implementation /* \x7d */ 'a:b'\n\x7d\n\n" ++
    "repositories \x7b maven \x7b // '\n \x7d\x7d\n"

theorem dense_spaced_alike :
    (SourceFile.ofText 0 "dense" dense).tokenize.reports = [] ∧
      (SourceFile.ofText 0 "spaced" spaced).tokenize.reports = [] ∧
      List.Forall₂ Token.Alike (SourceFile.ofText 0 "dense" dense).significantTokens
        (SourceFile.ofText 0 "spaced" spaced).significantTokens ∧
      Script.Alike (Script.parse "dense" dense) (Script.parse "spaced" spaced) ∧
      (∀ first second, (Script.parse "dense" dense).result = .ok first →
        (Script.parse "spaced" spaced).result = .ok second → first.MeansSame second) ∧
      ∀ options converted,
        (Conversion.convertText "dense" dense options).result = .ok converted ↔
          (Conversion.convertText "spaced" spaced options).result = .ok converted := by
  have denseClean : (SourceFile.ofText 0 "dense" dense).tokenize.reports = [] := by
    decide +kernel
  have spacedClean : (SourceFile.ofText 0 "spaced" spaced).tokenize.reports = [] := by
    decide +kernel
  have alike : List.Forall₂ Token.Alike (SourceFile.ofText 0 "dense" dense).significantTokens
      (SourceFile.ofText 0 "spaced" spaced).significantTokens := by
    decide +kernel
  exact ⟨denseClean, spacedClean, alike,
    Script.meaning_ignores_layout denseClean spacedClean alike⟩

end Layout

end BuildScript
