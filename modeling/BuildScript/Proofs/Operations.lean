import BuildScript.Grammar.Rules

/-!
# Operations of a parser

What a rule may do to a parser: pass a tree, skip blanks and comments, look for a tree, report
an error, and read the inside of a group by another such rule. Between these operations a rule
may compute and decide as it likes, fail, or go on after a failure, so only the run of its
operations counts. All rules of the grammar are made of these operations.
-/

namespace BuildScript.Grammar

/-- A run of operations, in any order and number, from one state of a parser to another. -/
inductive Parser.Runs : Parser → Parser → Prop where
  | stay (parser : Parser) : Runs parser parser
  | forward {before after : Parser} (earlier : Runs before after) :
      Runs before (Rule.forward after).2
  | skip {before after : Parser} (earlier : Runs before after) :
      Runs before (Rule.peekSignificant after).2
  | stopAt {before after : Parser} (earlier : Runs before after) (wanted : Reading → Bool) :
      Runs before (Rule.stopAt wanted after).2
  | report {before after : Parser} (earlier : Runs before after) (error : SyntaxError) :
      Runs before { after with reports := after.reports ++ [error] }
  | group {α : Type} {before after : Parser} {inside : Rule α} (earlier : Runs before after)
      (delimiter : Delimiter) (operates : ∀ parser, Runs parser (inside parser).2) :
      Runs before (Rule.enclosed delimiter inside after).2

theorem Parser.Runs.trans {first second third : Parser} (earlier : first.Runs second)
    (later : second.Runs third) : first.Runs third := by
  induction later with
  | stay => exact earlier
  | forward _ ih => exact (ih earlier).forward
  | skip _ ih => exact (ih earlier).skip
  | stopAt _ wanted ih => exact (ih earlier).stopAt wanted
  | report _ error ih => exact (ih earlier).report error
  | group _ delimiter operates ih _ => exact (ih earlier).group delimiter operates

namespace Rule

variable {α β : Type}

/-- The rule is made of operations: whatever it yields, it leaves the parser by a run of them. -/
def Operates (rule : Rule α) : Prop :=
  ∀ parser : Parser, parser.Runs (rule parser).2

/-- The rule without its failure: reading goes on behind it either way. -/
def tried (rule : Rule α) : Rule (Option α) :=
  fun parser => (some (rule parser).1, (rule parser).2)

namespace Operates

theorem runs {rule : Rule α} (operates : Operates rule) {parser after : Parser} {node : Option α}
    (step : rule parser = (node, after)) : parser.Runs after := by
  have run := operates parser
  rwa [step] at run

/-! ## Operations and their composition -/

theorem pure (value : α) : Operates (pure value : Rule α) :=
  fun parser => .stay parser

theorem fail : Operates (fail : Rule α) :=
  fun parser => .stay parser

theorem reject (error : SyntaxError) : Operates (reject error : Rule α) :=
  fun parser => (Parser.Runs.stay parser).report error

theorem unexpected (expected : Expectation) (found : Reading) :
    Operates (unexpected expected found : Rule α) :=
  reject _

theorem peek : Operates peek :=
  fun parser => .stay parser

theorem isExhausted : Operates isExhausted :=
  fun parser => .stay parser

theorem forward : Operates forward :=
  fun parser => (Parser.Runs.stay parser).forward

theorem peekSignificant : Operates peekSignificant :=
  fun parser => (Parser.Runs.stay parser).skip

theorem bind {first : Rule α} {next : α → Rule β} (operates : Operates first)
    (later : ∀ value, Operates (next value)) : Operates (first >>= next) := by
  intro parser
  change parser.Runs (andThen first next parser).2
  rw [andThen]
  split
  · rename_i value after step
    exact (operates.runs step).trans (later value after)
  · rename_i after step
    exact operates.runs step

theorem nextSignificant : Operates nextSignificant :=
  bind peekSignificant fun _ => bind forward fun _ => pure _

theorem next : Operates next :=
  bind peek fun _ => bind forward fun _ => pure _

theorem require (inside : Option α) : Operates (require inside) := by
  cases inside with
  | none => exact fail
  | some node => exact pure node

theorem tried {rule : Rule α} (operates : Operates rule) : Operates rule.tried :=
  operates

/-! ## Single tokens -/

theorem identifier : Operates identifier := by
  refine bind nextSignificant fun found => ?_
  split
  · exact pure _
  · exact unexpected _ _

theorem name : Operates name := by
  refine bind nextSignificant fun found => ?_
  split
  · exact pure _
  · exact pure _
  · exact unexpected _ _

theorem contextualKeyword (word : String) : Operates (contextualKeyword word) := by
  refine bind nextSignificant fun found => ?_
  split
  · split
    · exact pure _
    · exact unexpected _ _
  · exact unexpected _ _

theorem keyword (expected : Keyword) : Operates (keyword expected) := by
  refine bind nextSignificant fun found => ?_
  split
  · split
    · exact pure _
    · exact unexpected _ _
  · exact unexpected _ _

theorem punctuation (expected : Char) (skip : Bool) : Operates (punctuation expected skip) := by
  have reads : Operates (if skip then Rule.nextSignificant else Rule.next) := by
    split
    · exact nextSignificant
    · exact next
  refine bind reads fun found => ?_
  split
  · split
    · exact pure _
    · exact unexpected _ _
  · exact unexpected _ _

theorem stringLiteral : Operates stringLiteral := by
  refine bind nextSignificant fun found => ?_
  split
  · exact pure _
  · exact unexpected _ _

theorem punctuation? (expected : Char) : Operates (punctuation? expected) := by
  refine bind peekSignificant fun found => ?_
  split
  · split
    · exact bind forward fun _ => pure _
    · exact pure _
  · exact pure _

theorem stringLiteral? : Operates stringLiteral? := by
  refine bind peekSignificant fun found => ?_
  split
  · exact bind forward fun _ => pure _
  · exact pure _

/-! ## Groups and loops -/

theorem enclosed (delimiter : Delimiter) {inside : Rule α} (operates : Operates inside) :
    Operates (enclosed delimiter inside) :=
  fun parser => (Parser.Runs.stay parser).group delimiter operates

theorem untilExhausted {entry : Rule α} (operates : Operates entry) :
    Operates (untilExhausted entry) := by
  intro parser
  fun_induction Rule.untilExhausted entry parser with
  | case1 parser exhausted => exact .stay parser
  | case2 parser goes after step => exact operates.runs step
  | case3 parser goes node after step fewer nodes last later ih =>
      rw [later] at ih
      exact (operates.runs step).trans ih
  | case4 parser goes node after step fewer last later ih =>
      rw [later] at ih
      exact (operates.runs step).trans ih
  | case5 parser goes node after step stuck => exact operates.runs step

theorem block {entry : Rule α} (operates : Operates entry) : Operates (block entry) :=
  bind (enclosed _ (untilExhausted operates)) fun _ => bind (require _) fun _ => pure _

theorem pathRest : Operates pathRest := by
  intro parser
  fun_induction Rule.pathRest parser with
  | case1 parser after step => exact (punctuation? '.').runs step
  | case2 parser after step => exact (punctuation? '.').runs step
  | case3 parser dot after step last named =>
      exact ((punctuation? '.').runs step).trans (name.runs named)
  | case4 parser dot after step segment last named fewer rest final later ih =>
      rw [later] at ih
      exact (((punctuation? '.').runs step).trans (name.runs named)).trans ih
  | case5 parser dot after step segment last named fewer final later ih =>
      rw [later] at ih
      exact (((punctuation? '.').runs step).trans (name.runs named)).trans ih
  | case6 parser dot after step segment last named stuck =>
      exact ((punctuation? '.').runs step).trans (name.runs named)

/-! ## Nodes -/

theorem identifierPath : Operates identifierPath :=
  bind name fun _ => bind pathRest fun _ => pure _

theorem expression : Operates expression := by
  refine bind peekSignificant fun found => ?_
  split
  · exact bind forward fun _ => pure _
  · exact bind identifierPath fun _ => pure _
  · exact bind identifierPath fun _ => pure _
  · exact bind forward fun _ => unexpected _ _

theorem assignment : Operates assignment :=
  bind name fun _ => bind (punctuation? _) fun _ => bind expression fun _ => pure _

theorem taskStatement : Operates taskStatement := by
  refine bind peekSignificant fun found => ?_
  split
  · exact assignment
  · exact assignment
  · exact bind forward fun _ => unexpected _ _

theorem pluginVersion : Operates pluginVersion := by
  refine bind peekSignificant fun found => ?_
  split
  · split
    · exact bind forward fun _ => bind stringLiteral fun _ => pure _
    · exact pure _
  · exact pure _

theorem pluginEntry : Operates pluginEntry := by
  refine bind peekSignificant fun found => ?_
  split
  · split
    · exact bind forward fun _ => bind stringLiteral fun _ => bind pluginVersion fun _ => pure _
    · exact unexpected _ _
  · exact unexpected _ _

theorem urlStatement : Operates urlStatement :=
  bind (contextualKeyword _) fun _ => bind (punctuation? _) fun _ =>
    bind stringLiteral? fun _ => pure _

theorem customUrl : Operates customUrl := by
  refine bind isExhausted fun exhausted => ?_
  split
  · exact pure _
  · exact bind urlStatement fun _ => pure _

theorem wellKnown (token : KeywordToken) : Operates (wellKnown token) :=
  bind forward fun _ => bind (enclosed _ (pure _)) fun _ => bind (require _) fun _ => pure _

theorem customRepository (token : KeywordToken) : Operates (customRepository token) :=
  bind forward fun _ => bind (enclosed _ customUrl) fun _ => bind (require _) fun _ => pure _

theorem repositoryEntry : Operates repositoryEntry := by
  refine bind peekSignificant fun found => ?_
  split
  · exact bind (wellKnown _) fun _ => pure _
  · exact bind (wellKnown _) fun _ => pure _
  · exact bind (customRepository _) fun _ => pure _
  · exact bind forward fun _ => reject _
  · exact bind forward fun _ => unexpected _ _

theorem coordinate (configuration : Identifier) : Operates (coordinate configuration) := by
  refine bind peekSignificant fun found => ?_
  split
  · split
    · exact bind (enclosed _ stringLiteral) fun _ => bind (require _) fun _ => pure _
    · exact bind stringLiteral fun _ => pure _
  · exact bind stringLiteral fun _ => pure _

theorem dependencyEntry : Operates dependencyEntry := by
  refine bind peekSignificant fun found => ?_
  split
  · exact bind forward fun _ => coordinate _
  · exact bind forward fun _ => unexpected _ _

theorem taskType : Operates taskType := by
  refine bind (punctuation? _) fun found => ?_
  split
  · exact bind identifier fun _ => pure _
  · exact pure _

theorem taskArguments : Operates taskArguments :=
  bind stringLiteral fun _ => bind taskType fun _ => pure _

theorem taskRegistration : Operates taskRegistration :=
  bind (keyword _) fun _ => bind (punctuation _ _) fun _ => bind (contextualKeyword _) fun _ =>
    bind (enclosed _ taskArguments) fun _ => bind (require _) fun _ =>
      bind (block taskStatement) fun _ => pure _

theorem declaration : Operates declaration := by
  refine bind peekSignificant fun found => ?_
  split
  · exact bind forward fun _ => bind (block pluginEntry) fun _ => pure _
  · exact bind forward fun _ => bind (block repositoryEntry) fun _ => pure _
  · exact bind forward fun _ => bind (block dependencyEntry) fun _ => pure _
  · exact bind taskRegistration fun _ => pure _
  · exact bind forward fun _ => unexpected _ _

end Operates

end Rule

end BuildScript.Grammar
