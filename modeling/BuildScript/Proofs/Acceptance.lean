import BuildScript.Conversion
import BuildScript.Proofs.Completeness
import BuildScript.Proofs.Lossless
import BuildScript.Proofs.Sentences
import BuildScript.Proofs.Soundness

/-!
# The scripts that are accepted

A text is accepted when it has no lexical error and its tokens, blanks and comments
apart, are a sentence of the grammar. The syntax tree is then the derivation of that
sentence: its leaves keep these tokens, each once and in the order of the text.
-/

namespace BuildScript

open Grammar (Leaf Parser Rule Shape)
open TokenTree (condenseAll flattenAll)

/-! ## The trees of the significant tokens -/

def SourceFile.significantTokens (file : SourceFile) : List Token :=
  file.lex.tokens.filter Token.isSignificant

theorem Token.condenseAll_id (tokens : List Token) :
    Token.condenseAll id tokens = tokens.filter Token.isSignificant :=
  List.map_id _

/-- The condensed trees of a file are the trees of its significant tokens. -/
theorem SourceFile.condenseAll_trees (file : SourceFile) :
    condenseAll id file.trees.trees = (Nesting.ofTokens file.significantTokens).trees := by
  have condensed : Nesting.ofTokens (Token.condenseAll id file.lex.tokens) = _ :=
    Nesting.ofTokens_condenseAll file.lex.tokens
  rw [Token.condenseAll_id] at condensed
  exact congrArg Nesting.Forest.trees condensed.symm

/-- The condensed trees of a file without lexical errors hold its significant tokens. -/
theorem SourceFile.flattenAll_condenseAll_trees {file : SourceFile}
    (clean : file.trees.reports = []) :
    flattenAll (condenseAll id file.trees.trees) = file.significantTokens := by
  have allClosed : (Nesting.ofTokens file.lex.tokens).reports = [] :=
    (List.append_eq_nil_iff.1 clean).2
  have tokens := (Nesting.groups_ofTokens file.lex.tokens).flattenAll_eq allClosed
  rw [TokenTree.flattenAll_condenseAll, Token.condenseAll_id]
  exact congrArg (List.filter Token.isSignificant) tokens

theorem SourceFile.condenseAll_trees_wellNested (file : SourceFile) :
    ∀ tree ∈ condenseAll id file.trees.trees, tree.WellNested := by
  rw [file.condenseAll_trees]
  exact (Nesting.groups_ofTokens file.significantTokens).wellNested

/-! ## Syntax trees of token trees -/

/-- Trees form the script that the grammar yields without a report, or none at all. -/
theorem Script.ofTrees_cases (trees : List TokenTree) :
    (∃ script after, Rule.script (Parser.ofTrees trees) = (some script, after) ∧
        after.reports = [] ∧ Script.ofTrees trees = ⟨[], .ok script⟩) ∨
      ∃ node after, Rule.script (Parser.ofTrees trees) = (node, after) ∧
        (node = none ∨ after.reports ≠ []) ∧
          Script.ofTrees trees = ⟨after.reports.map .grammar, .error (.step .parsing)⟩ := by
  rw [Script.ofTrees]
  rcases Rule.script (Parser.ofTrees trees) with ⟨_ | script, after⟩
  · exact .inr ⟨none, after, rfl, .inl rfl, rfl⟩
  · by_cases clean : after.reports = []
    · refine .inl ⟨script, after, rfl, clean, ?_⟩
      simp only [clean, List.map_nil, List.isEmpty_nil, if_true]
    · have reported : (after.reports.map Error.grammar).isEmpty = false := by
        rw [List.isEmpty_eq_false_iff]
        exact fun none => clean (List.map_eq_nil_iff.1 none)
      refine .inr ⟨some script, after, rfl, .inr clean, ?_⟩
      simp only [reported, Bool.false_eq_true, if_false]

/-- What is reported about trees is what the grammar reports about them. -/
theorem Script.ofTrees_reports (trees : List TokenTree) :
    (Script.ofTrees trees).reports =
      (Rule.script (Parser.ofTrees trees)).2.reports.map Error.grammar := by
  rcases Script.ofTrees_cases trees with ⟨_, _, read, clean, formed⟩ | ⟨_, _, read, _, formed⟩
  · rw [formed, read, clean]
    rfl
  · rw [formed, read]

/-- Trees form a script when the grammar's rule yields it without a report. -/
theorem Script.ofTrees_result_eq_ok_iff {trees : List TokenTree} {script : Script} :
    (Script.ofTrees trees).result = .ok script ↔
      ∃ after, Rule.script (Parser.ofTrees trees) = (some script, after) ∧
        after.reports = [] := by
  rcases Script.ofTrees_cases trees with
    ⟨found, after, read, clean, formed⟩ | ⟨node, after, read, fault, formed⟩
  · rw [formed, read]
    constructor
    · intro same
      cases same
      exact ⟨after, rfl, clean⟩
    · rintro ⟨_, same, _⟩
      cases same
      rfl
  · rw [formed, read]
    constructor
    · intro impossible
      cases impossible
    · rintro ⟨_, same, clean⟩
      cases same
      rcases fault with impossible | reported
      · cases impossible
      · exact absurd clean reported

/-- The script of trees is the one that they spell, blanks and comments apart. -/
theorem Script.ofTrees_result_eq_ok_iff_spellsAll {trees : List TokenTree}
    (nested : ∀ tree ∈ condenseAll id trees, tree.WellNested) {script : Script} :
    (Script.ofTrees trees).result = .ok script ↔
      Shape.SpellsAll script.shapes (condenseAll id trees) := by
  rw [Script.ofTrees_result_eq_ok_iff]
  constructor
  · rintro ⟨after, yielded, _⟩
    exact Rule.script_spells yielded
  · intro spells
    -- Completeness is known without blanks and comments; condensing carries it back to the
    -- trees as they are.
    have dense : Rule.script (Parser.ofTrees (condenseAll id trees)) = (some script, _) :=
      Rule.script_complete ⟨spells, nested⟩ rfl
    have mirrors : Rule.Mirrors id (Script.relocate id) Rule.script Rule.script :=
      .script fun _ => rfl
    have mirrored : Rule.script (Parser.ofTrees (condenseAll id trees)) = _ :=
      mirrors (Parser.ofTrees trees)
    obtain ⟨node, parser⟩ := Prod.mk.inj (dense.symm.trans mirrored)
    rw [Script.relocate_id, Option.map_id] at node
    refine ⟨(Rule.script (Parser.ofTrees trees)).2, Prod.ext node.symm rfl, ?_⟩
    exact List.map_eq_nil_iff.1 (congrArg Parser.reports parser).symm

/-! ## Acceptance -/

theorem SourceFile.tokenize_reports_eq_nil_iff (file : SourceFile) :
    file.tokenize.reports = [] ↔ file.trees.reports = [] :=
  List.map_eq_nil_iff

/-- Without lexical errors it is the trees of a file that are read. -/
theorem SourceFile.parse_of_clean {file : SourceFile} (clean : file.tokenize.reports = []) :
    file.parse = Script.ofTrees file.trees.trees := by
  rw [SourceFile.parse, (file.tokenize_reports_eq_nil_iff).1 clean]
  rfl

/-- A file is read as the script whose leaves keep its significant tokens. -/
theorem SourceFile.parse_result_eq_ok_iff (file : SourceFile) {script : Script} :
    file.parse.result = .ok script ↔
      file.tokenize.reports = [] ∧
        List.Forall₂ Leaf.Reads script.leaves file.significantTokens := by
  have nested := file.condenseAll_trees_wellNested
  rw [file.tokenize_reports_eq_nil_iff, SourceFile.parse]
  by_cases clean : file.trees.reports = []
  · have tokens := file.flattenAll_condenseAll_trees clean
    rw [if_pos (by rw [clean]; rfl), Script.ofTrees_result_eq_ok_iff_spellsAll nested]
    constructor
    · intro spells
      have reads := spells.readsAll nested
      rw [tokens] at reads
      exact ⟨clean, reads⟩
    · rintro ⟨_, reads⟩
      obtain ⟨trees, spells, treesNested, same⟩ := Shape.ReadsAll.exists_spellsAll reads
      have regrouped := Nesting.ofTokens_flattenAll treesNested
      rw [same] at regrouped
      rw [file.condenseAll_trees, regrouped]
      exact spells
  · have reported : ¬file.trees.reports.isEmpty = true := by
      rw [List.isEmpty_iff]
      exact clean
    rw [if_neg reported]
    constructor
    · intro impossible
      cases impossible
    · rintro ⟨none, _⟩
      exact absurd none clean

/-- The spans of the significant tokens do not overlap and stand in the order of the text. -/
theorem SourceFile.significantTokens_pairwise (file : SourceFile) :
    (file.significantTokens.map Token.span).Pairwise fun before after =>
      before.start < before.stop ∧ before.stop ≤ after.start := by
  obtain ⟨last, reads, _⟩ := file.lex_reads
  rw [List.pairwise_map]
  exact reads.pairwise.sublist List.filter_sublist

/--
A text is read as a script just when it has no lexical error and its significant
tokens are a sentence of the grammar. The script is the one whose leaves, in the order
of the grammar, keep these tokens one by one, each at its place in the text.
-/
theorem Script.parse_accepts_sentences (identifier text : String) :
    let file := SourceFile.ofText 0 identifier text
    ((∃ script, (Script.parse identifier text).result = .ok script) ↔
        file.tokenize.reports = [] ∧
          Grammar.Derives (.rule .buildScript) file.significantTokens) ∧
      ∀ script, (Script.parse identifier text).result = .ok script ↔
        file.tokenize.reports = [] ∧
          List.Forall₂ Leaf.Reads script.leaves file.significantTokens ∧
            (script.leaves.map (·.stored.span)).Pairwise fun before after =>
              before.start < before.stop ∧ before.stop ≤ after.start := by
  intro file
  have accepted : ∀ script, (Script.parse identifier text).result = .ok script ↔
      file.tokenize.reports = [] ∧ List.Forall₂ Leaf.Reads script.leaves file.significantTokens :=
    fun script => file.parse_result_eq_ok_iff
  constructor
  · rw [Grammar.Describes.script file.significantTokens]
    constructor
    · rintro ⟨script, parsed⟩
      obtain ⟨clean, reads⟩ := (accepted script).1 parsed
      exact ⟨clean, script, reads⟩
    · rintro ⟨clean, script, reads⟩
      exact ⟨script, (accepted script).2 ⟨clean, reads⟩⟩
  · intro script
    rw [accepted script]
    constructor
    · rintro ⟨clean, reads⟩
      refine ⟨clean, reads, ?_⟩
      rw [Grammar.Leaf.Reads.spans_eq reads]
      exact file.significantTokens_pairwise
    · rintro ⟨clean, reads, _⟩
      exact ⟨clean, reads⟩

end BuildScript
