import BuildScript.Proofs.Acceptance
import BuildScript.Proofs.Blame

/-!
# Success is silence

A file is read as a script just when nothing is reported meanwhile. Every rule of the
grammar that fails reports one error, so there are as many reports as attempts at a
declaration that fail, and none behind a script that was read. The receiver of the
reports has no part in this: a tracker in front of it tells whether there were any.
-/

namespace BuildScript

open Grammar (Attempt Parser Rule)

/-! ## Receivers -/

namespace Handler

variable {σ : Type} (handler : Handler σ)

@[simp]
theorem tracking_hasReceived (state : σ × Bool) : handler.tracking.hasReceived state = state.2 :=
  rfl

/-- The tracker hands everything on. -/
theorem foldl_tracking (errors : List Error) (state : σ) (received : Bool) :
    errors.foldl handler.tracking.receive (state, received) =
      (errors.foldl handler.receive state, received || !errors.isEmpty) := by
  induction errors generalizing state received with
  | nil => simp
  | cons error errors ih => simpa [tracking] using ih (handler.receive state error) true

end Handler

/-- Whoever receives the diagnostics, the result is the same and so are the diagnostics. -/
theorem SourceFile.parseInto_eq {σ : Type} (handler : Handler σ) (state : σ) (file : SourceFile) :
    file.parseInto handler state = (file.parse.result, handler.deliver state file.parse) := by
  have lexed : handler.tracking.deliver (state, false) file.tokenize =
      ((file.trees.reports.map Error.lexical).foldl handler.receive state,
        !file.trees.reports.isEmpty) := by
    rw [Handler.deliver, SourceFile.tokenize, handler.foldl_tracking]
    simp
  rw [parseInto, parse, lexed]
  cases clean : file.trees.reports with
  | cons error errors => rfl
  | nil =>
      simp only [Script.ofTrees, Handler.deliver, Handler.foldl_tracking,
        Handler.tracking_hasReceived, List.map_nil, List.foldl_nil, List.isEmpty_nil,
        Bool.not_true, Bool.false_or, Bool.false_eq_true, if_false, if_true]
      rcases Rule.script (Parser.ofTrees file.trees.trees) with ⟨_ | script, parser⟩
      · rfl
      · cases parser.reports <;> rfl

/-! ## Rules -/

namespace Grammar.Rule

inductive IsEntry : {α : Type} → Rule α → Prop where
  | plugin : IsEntry pluginEntry
  | repository : IsEntry repositoryEntry
  | dependency : IsEntry dependencyEntry
  | statement : IsEntry taskStatement

/-- The rules of the grammar, from single tokens to declarations. -/
inductive IsGrammar : {α : Type} → Rule α → Prop where
  | identifier : IsGrammar identifier
  | name : IsGrammar name
  | contextualKeyword (word : String) : IsGrammar (contextualKeyword word)
  | keyword (expected : Keyword) : IsGrammar (keyword expected)
  | punctuation (expected : Char) (skip : Bool) : IsGrammar (punctuation expected skip)
  | stringLiteral : IsGrammar stringLiteral
  | expression : IsGrammar expression
  | path : IsGrammar identifierPath
  | url : IsGrammar urlStatement
  | entry {α : Type} {rule : Rule α} (isEntry : IsEntry rule) : IsGrammar rule
  | block {α : Type} {rule : Rule α} (isEntry : IsEntry rule) : IsGrammar (block rule)
  | taskRegistration : IsGrammar taskRegistration
  | declaration : IsGrammar declaration

variable {α : Type} {rule : Rule α}

/-- The rule yields a node and reports nothing, or it fails and reports one error. -/
def ReportsOnce (rule : Rule α) : Prop :=
  ∀ parser : Parser,
    (∃ node after, rule parser = (some node, after) ∧ after.reports = parser.reports) ∨
      ∃ error after, rule parser = (none, after) ∧ after.reports = parser.reports ++ [error]

theorem Explains.reportsOnce (explains : Explains rule) : ReportsOnce rule := by
  intro parser
  have ended := explains parser
  generalize rule parser = outcome at ended
  cases ended with
  | @silent node after reports => exact .inl ⟨node, after, rfl, reports⟩
  | @blames error after reports blames => exact .inr ⟨error, after, rfl, reports⟩

theorem IsEntry.advances (isEntry : IsEntry rule) : Advances rule := by
  cases isEntry with
  | plugin => exact .pluginEntry
  | repository => exact .repositoryEntry
  | dependency => exact .dependencyEntry
  | statement => exact .taskStatement

theorem IsEntry.consumes (isEntry : IsEntry rule) : Consumes rule := by
  cases isEntry with
  | plugin => exact .pluginEntry
  | repository => exact .repositoryEntry
  | dependency => exact .dependencyEntry
  | statement => exact .taskStatement

theorem IsEntry.explains (isEntry : IsEntry rule) : Explains rule := by
  cases isEntry with
  | plugin => exact .pluginEntry
  | repository => exact .repositoryEntry
  | dependency => exact .dependencyEntry
  | statement => exact .taskStatement

/-- Every rule of the grammar explains its failures. -/
theorem IsGrammar.explains (isGrammar : IsGrammar rule) : Explains rule := by
  cases isGrammar with
  | identifier => exact .identifier
  | name => exact .name
  | contextualKeyword word => exact .contextualKeyword word
  | keyword expected => exact .keyword expected
  | punctuation expected skip => exact .punctuation expected skip
  | stringLiteral => exact .stringLiteral
  | expression => exact .expression
  | path => exact .identifierPath
  | url => exact .urlStatement
  | entry isEntry => exact isEntry.explains
  | block isEntry => exact .block isEntry.advances isEntry.consumes isEntry.explains
  | taskRegistration => exact .taskRegistration
  | declaration => exact .declaration

/-! ## Attempts -/

def failures (attempts : List Attempt) : Nat :=
  attempts.countP fun attempt => attempt.node.isNone

theorem resume_reports (outcome : Option Declaration × Parser) :
    (resume outcome).reports = outcome.2.reports := by
  match outcome with
  | (some _, _) | (none, _) => rfl

/-- A run reports one error for each attempt that fails. -/
theorem attempts_reports (parser : Parser) :
    ∃ errors, (attempts parser).2.reports = parser.reports ++ errors ∧
      errors.length = failures (attempts parser).1 := by
  induction parser using attempts_induction with
  | exhausted parser exhausted =>
      rw [attempts_of_exhausted exhausted]
      exact ⟨[], by simp, rfl⟩
  | left parser left ih =>
      obtain ⟨errors, reports, length⟩ := ih
      rw [resume_reports] at reports
      rw [attempts_of_left left]
      have ended := Explains.declaration parser
      generalize declaration parser = outcome at ended reports length ⊢
      cases ended with
      | silent silent =>
          refine ⟨errors, by rw [reports, silent], ?_⟩
          simpa [failures] using length
      | @blames error after reported blames =>
          refine ⟨error :: errors, by rw [reports, reported]; simp, ?_⟩
          simpa [failures] using length

theorem failures_eq_zero_iff (attempts : List Attempt) :
    failures attempts = 0 ↔ (attempts.map Attempt.node).all Option.isSome = true := by
  simp [failures, List.countP_eq_zero, Option.isSome_iff_ne_none]

/-- A script is yielded just when nothing is reported. -/
theorem script_eq_none_iff (parser : Parser) :
    (script parser).1 = none ↔ (script parser).2.reports ≠ parser.reports := by
  obtain ⟨errors, reports, length⟩ := attempts_reports parser
  have silent : (script parser).2.reports = parser.reports ↔ failures (attempts parser).1 = 0 := by
    change (attempts parser).2.reports = parser.reports ↔ _
    rw [reports, List.append_right_eq_self, ← length, List.length_eq_zero_iff]
  rw [ne_eq, silent, failures_eq_zero_iff, script]
  simp

/-- Behind a script that is yielded nothing is reported. -/
theorem script_silent {parser after : Parser} {node : Script}
    (yielded : script parser = (some node, after)) : after.reports = parser.reports := by
  have reported := script_eq_none_iff parser
  rw [yielded] at reported
  simpa using reported

end Grammar.Rule

/-! ## Files -/

/-- Trees form a script just when the grammar reports nothing about them. -/
theorem Script.ofTrees_ok_iff (trees : List TokenTree) :
    (∃ script, (Script.ofTrees trees).result = .ok script) ↔
      (Script.ofTrees trees).reports = [] := by
  have reported := Rule.script_eq_none_iff (Parser.ofTrees trees)
  rw [Script.ofTrees]
  generalize Rule.script (Parser.ofTrees trees) = outcome at reported
  rcases outcome with ⟨_ | script, after⟩
  · have faulty : after.reports ≠ [] := reported.1 rfl
    simp [faulty]
  · have silent : after.reports = [] := by simpa [Parser.ofTrees] using reported
    simp [silent]

/-- A file is read as a script just when nothing is reported. -/
theorem SourceFile.parse_ok_iff (file : SourceFile) :
    (∃ script, file.parse.result = .ok script) ↔ file.parse.reports = [] := by
  rw [SourceFile.parse]
  cases clean : file.trees.reports with
  | nil => exact Script.ofTrees_ok_iff file.trees.trees
  | cons error errors => simp

/-- The grammar reports one error for each attempt at a declaration that fails. -/
theorem Script.ofTrees_reports_length (trees : List TokenTree) :
    (Script.ofTrees trees).reports.length =
      Rule.failures (Rule.attempts (Parser.ofTrees trees)).1 := by
  obtain ⟨errors, reports, length⟩ := Rule.attempts_reports (Parser.ofTrees trees)
  have same : (Rule.script (Parser.ofTrees trees)).2.reports = errors := reports
  rw [Script.ofTrees_reports, List.length_map, same, length]

/--
A text is read as a script just when no diagnostic is handed to the receiver, whoever
receives and whatever was received before. For that every rule of the grammar, at any
place, yields a node and reports nothing or fails and reports one error. So a text
without lexical errors has as many diagnostics as attempts at a declaration that fail,
and behind a script that was yielded none is found.
-/
theorem Script.parse_ok_iff_silent (identifier text : String) :
    let file := SourceFile.ofText 0 identifier text
    (∃ forwarded : List Error,
      (∀ (σ : Type) (handler : Handler σ) (before : σ),
        file.parseInto handler before =
          ((Script.parse identifier text).result, forwarded.foldl handler.receive before)) ∧
      ((∃ script, (Script.parse identifier text).result = .ok script) ↔ forwarded = [])) ∧
    (∀ (α : Type) (rule : Rule α), rule.IsGrammar → rule.ReportsOnce) ∧
    (file.tokenize.reports = [] → (Script.parse identifier text).reports.length =
      Rule.failures (Rule.attempts (Parser.ofTrees file.trees.trees)).1) ∧
    ∀ script after, Rule.script (Parser.ofTrees file.trees.trees) = (some script, after) →
      after.reports = [] := by
  intro file
  refine ⟨⟨file.parse.reports, fun σ handler before => file.parseInto_eq handler before,
    file.parse_ok_iff⟩, fun α rule isGrammar => isGrammar.explains.reportsOnce, ?_, ?_⟩
  · intro clean
    have parsed : Script.parse identifier text = Script.ofTrees file.trees.trees :=
      file.parse_of_clean clean
    rw [parsed]
    exact Script.ofTrees_reports_length file.trees.trees
  · intro script after yielded
    exact Rule.script_silent yielded

end BuildScript
