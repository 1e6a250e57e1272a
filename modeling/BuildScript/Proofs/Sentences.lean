import BuildScript.Proofs.Derivation

/-!
# Sentences and syntax trees

The sentences of every rule of the grammar are exactly what the nodes for that rule
keep. The argument follows the expressions of the grammar: one lemma for each form of
expression says which nodes describe it, and a rule combines them as its right side
does.
-/

namespace BuildScript.Grammar

theorem Derives.mark_iff {mark : Char} {tokens : List Token} : Derives (.mark mark) tokens ↔
    ∃ stored : Punctuation, tokens = [stored.toToken] ∧ stored.mark = mark := by
  constructor
  · intro derives
    obtain ⟨token, rfl, holds⟩ := Derives.token_iff.1 derives
    cases holds with
    | mark mark span => exact ⟨⟨mark, span⟩, rfl, rfl⟩
  · rintro ⟨stored, rfl, rfl⟩
    exact .token (.mark stored.mark stored.span)

/-- The sentences of the expression are what the nodes keep. -/
def Describes {α : Type} (expression : Ebnf) (shapes : α → List Shape) : Prop :=
  ∀ tokens, Derives expression tokens ↔ ∃ node, Shape.ReadsAll (shapes node) tokens

namespace Describes

variable {α β : Type} {expression other : Ebnf} {shapes : α → List Shape}
  {otherShapes : β → List Shape}

/-- Nodes made from parts, each from some, describe what the parts describe. -/
theorem map (describes : Describes expression shapes) (make : α → β)
    (onto : ∀ node, ∃ parts, make parts = node)
    (same : ∀ parts, otherShapes (make parts) = shapes parts) :
    Describes expression otherShapes := by
  intro tokens
  rw [describes tokens]
  constructor
  · rintro ⟨parts, reads⟩
    exact ⟨make parts, by rw [same]; exact reads⟩
  · rintro ⟨node, reads⟩
    obtain ⟨parts, rfl⟩ := onto node
    exact ⟨parts, by rw [← same]; exact reads⟩

theorem rule (nonterminal : Nonterminal) (describes : Describes nonterminal.definition shapes) :
    Describes (.rule nonterminal) shapes := by
  intro tokens
  rw [Derives.rule_iff, describes tokens]

theorem empty : Describes .empty fun _ : Unit => [] := by
  intro tokens
  rw [Derives.empty_iff]
  constructor
  · rintro rfl
    exact ⟨(), .nil⟩
  · rintro ⟨_, reads⟩
    exact List.forall₂_nil_left_iff.1 reads

theorem sequence (first : Describes expression shapes) (second : Describes other otherShapes) :
    Describes (.sequence expression other) fun parts : α × β =>
      shapes parts.1 ++ otherShapes parts.2 := by
  intro tokens
  rw [Derives.sequence_iff]
  constructor
  · rintro ⟨front, back, rfl, before, after⟩
    obtain ⟨node, reads⟩ := (first front).1 before
    obtain ⟨next, more⟩ := (second back).1 after
    exact ⟨(node, next), Shape.readsAll_append_iff.2 ⟨front, back, rfl, reads, more⟩⟩
  · rintro ⟨⟨node, next⟩, reads⟩
    obtain ⟨front, back, rfl, before, after⟩ := Shape.readsAll_append_iff.1 reads
    exact ⟨front, back, rfl, (first front).2 ⟨node, before⟩, (second back).2 ⟨next, after⟩⟩

theorem choice (first : Describes expression shapes) (second : Describes other otherShapes) :
    Describes (.choice expression other) (Sum.elim shapes otherShapes) := by
  intro tokens
  rw [Derives.choice_iff, first tokens, second tokens]
  constructor
  · rintro (⟨node, reads⟩ | ⟨node, reads⟩)
    · exact ⟨.inl node, reads⟩
    · exact ⟨.inr node, reads⟩
  · rintro ⟨node | node, reads⟩
    · exact .inl ⟨node, reads⟩
    · exact .inr ⟨node, reads⟩

theorem optional (describes : Describes expression shapes) :
    Describes (.optional expression) (Shape.ofOption shapes) := by
  intro tokens
  rw [Derives.optional_iff, describes tokens]
  constructor
  · rintro (rfl | ⟨node, reads⟩)
    · exact ⟨none, .nil⟩
    · exact ⟨some node, reads⟩
  · rintro ⟨_ | node, reads⟩
    · exact .inl (List.forall₂_nil_left_iff.1 reads)
    · exact .inr ⟨node, reads⟩

theorem many (describes : Describes expression shapes) :
    Describes (.many expression) fun nodes : List α => nodes.flatMap shapes := by
  intro tokens
  rw [Derives.many_iff]
  constructor
  · rintro ⟨parts, rfl, each⟩
    induction parts with
    | nil => exact ⟨[], .nil⟩
    | cons part parts ih =>
        obtain ⟨once, more⟩ := List.forall_mem_cons.1 each
        obtain ⟨node, reads⟩ := (describes part).1 once
        obtain ⟨nodes, later⟩ := ih more
        exact ⟨node :: nodes, Shape.readsAll_append_iff.2 ⟨part, _, rfl, reads, later⟩⟩
  · rintro ⟨nodes, reads⟩
    induction nodes generalizing tokens with
    | nil => exact ⟨[], List.forall₂_nil_left_iff.1 reads, by simp⟩
    | cons node nodes ih =>
        obtain ⟨front, back, rfl, first, more⟩ := Shape.readsAll_append_iff.1 reads
        obtain ⟨parts, rfl, each⟩ := ih back more
        exact ⟨front :: parts, rfl,
          List.forall_mem_cons.2 ⟨(describes front).2 ⟨node, first⟩, each⟩⟩

/-- An expression between delimiters describes a group. -/
theorem group (delimiter : Delimiter) (describes : Describes expression shapes) :
    Describes (.all [.mark delimiter.opening, expression, .mark delimiter.closing])
      fun parts : Punctuation × α × Punctuation =>
        [.group delimiter parts.1 (shapes parts.2.1) parts.2.2] := by
  intro tokens
  constructor
  · intro derives
    obtain ⟨front, _, rfl, opens, rest⟩ := Derives.sequence_iff.1 derives
    obtain ⟨inner, _, rfl, inside, last⟩ := Derives.sequence_iff.1 rest
    obtain ⟨back, _, rfl, closes, none⟩ := Derives.sequence_iff.1 last
    obtain ⟨opening, rfl, begins⟩ := Derives.mark_iff.1 opens
    obtain ⟨closing, rfl, ends⟩ := Derives.mark_iff.1 closes
    obtain ⟨node, reads⟩ := (describes inner).1 inside
    refine ⟨(opening, node, closing), Shape.readsAll_group_iff.2 ⟨inner, ?_, begins, ends, reads⟩⟩
    rw [Derives.empty_iff.1 none]
    rfl
  · rintro ⟨⟨opening, node, closing⟩, reads⟩
    obtain ⟨inner, rfl, begins, ends, within⟩ := Shape.readsAll_group_iff.1 reads
    have opens : Derives (.mark delimiter.opening) [opening.toToken] :=
      Derives.mark_iff.2 ⟨opening, rfl, begins⟩
    have closes : Derives (.all [.mark delimiter.closing]) [closing.toToken] :=
      .sequence (Derives.mark_iff.2 ⟨closing, rfl, ends⟩) .empty
    exact .sequence opens (.sequence ((describes inner).2 ⟨node, within⟩) closes)

/-- A class of tokens describes a single leaf. -/
theorem single {terminal : TokenClass} (slot : Slot) (isTerminal : slot.symbol = .token terminal)
    (toToken : α → Token)
    (covers : ∀ token, terminal.Holds token → ∃ node, toToken node = token) :
    Describes (.token terminal) fun node => [.leaf slot (toToken node)] := by
  intro tokens
  constructor
  · intro derives
    obtain ⟨token, rfl, holds⟩ := Derives.token_iff.1 derives
    obtain ⟨node, rfl⟩ := covers token holds
    refine ⟨node, Shape.readsAll_leaf_iff.2 ⟨_, rfl, ?_⟩⟩
    rw [isTerminal]
    exact .same derives
  · rintro ⟨node, reads⟩
    obtain ⟨token, rfl, kept⟩ := Shape.readsAll_leaf_iff.1 reads
    rw [isTerminal] at kept
    cases kept with
    | same derives => exact derives

theorem identifier : Describes (.token .identifier) (Identifier.shapes .identifier) := by
  refine single .identifier rfl Identifier.toToken fun token holds => ?_
  cases holds with
  | identifier span => exact ⟨⟨span⟩, rfl⟩

theorem word (text : String) :
    Describes (.token (.word text)) (Identifier.shapes (.word text)) := by
  refine single (.word text) rfl Identifier.toToken fun token holds => ?_
  cases holds with
  | @word _ span spelled => exact ⟨⟨span⟩, rfl⟩

theorem keyword (expected : Keyword) :
    Describes (.token (.keyword expected)) (KeywordToken.shapes expected) := by
  refine single (.keyword expected) rfl KeywordToken.toToken fun token holds => ?_
  cases holds with
  | keyword _ span => exact ⟨⟨expected, span⟩, rfl⟩

theorem separator (between : Separator) :
    Describes (.mark between.mark) (Punctuation.shapes between) := by
  refine single (.separator between) rfl Punctuation.toToken fun token holds => ?_
  cases holds with
  | mark _ span => exact ⟨⟨between.mark, span⟩, rfl⟩

theorem stringLiteral : Describes (.token .stringLiteral) StringLiteral.shapes := by
  refine single .stringLiteral rfl StringLiteral.toToken fun token holds => ?_
  cases holds with
  | stringLiteral span => exact ⟨⟨span⟩, rfl⟩

/-- A name is kept as an identifier, whichever of both it is. -/
theorem name : Describes (.rule .name) (Identifier.shapes .name) := by
  intro tokens
  constructor
  · intro derives
    rcases Derives.choice_iff.1 (Derives.rule_iff.1 derives) with chosen | chosen
    · obtain ⟨token, rfl, holds⟩ := Derives.token_iff.1 chosen
      cases holds with
      | identifier span =>
          exact ⟨⟨span⟩, Shape.readsAll_leaf_iff.2 ⟨_, rfl, .same derives⟩⟩
    · obtain ⟨token, rfl, holds⟩ := Derives.token_iff.1 chosen
      cases holds with
      | anyKeyword word span =>
          exact ⟨⟨span⟩, Shape.readsAll_leaf_iff.2 ⟨_, rfl, .keywordName word span⟩⟩
  · rintro ⟨node, reads⟩
    obtain ⟨token, rfl, kept⟩ := Shape.readsAll_leaf_iff.1 reads
    cases kept with
    | same derives => exact derives
    | keywordName word => exact .rule (.right (.token (.anyKeyword word _)))

/-- Entries between braces describe a block. -/
theorem block (describes : Describes expression shapes) :
    Describes (.braced (.many expression)) (Block.shapes shapes) :=
  (group .brace (many describes)).map
    (fun (opening, entries, closing) => ⟨opening, entries, closing⟩)
    (fun node => ⟨(node.opening, node.entries, node.closing), rfl⟩) fun _ => rfl

/-! ### The rules of the grammar -/

theorem identifierPath : Describes (.rule .identifierPath) IdentifierPath.shapes := by
  have step : Describes (.all [.mark '.', .rule .name])
      fun part : Punctuation × Identifier => part.1.shapes .dot ++ part.2.shapes .name :=
    (sequence (separator .dot) (sequence name empty)).map (fun (dot, segment, _) => (dot, segment))
      (fun (dot, segment) => ⟨(dot, segment, ()), rfl⟩) fun _ => by simp
  exact rule _ ((sequence name (sequence (many step) empty)).map
    (fun (first, rest, _) => ⟨first, rest⟩) (fun path => ⟨(path.first, path.rest, ()), rfl⟩)
    fun _ => by simp [IdentifierPath.shapes])

theorem taskStatement : Describes (.rule .taskStatement) TaskStatement.shapes := by
  have value : Describes (.choice (.token .stringLiteral) (.rule .identifierPath))
      Expression.shapes := by
    refine (choice stringLiteral identifierPath).map (Sum.elim .string .path) ?_ ?_
    · rintro (literal | identifiers)
      · exact ⟨.inl literal, rfl⟩
      · exact ⟨.inr identifiers, rfl⟩
    · rintro (literal | identifiers) <;> rfl
  exact rule _ ((sequence name (sequence (optional (separator .equals)) (sequence value empty))).map
    (fun (key, equals, value, _) => ⟨key, equals, value⟩)
    (fun node => ⟨(node.key, node.assignment, node.value, ()), rfl⟩)
    fun _ => by simp [TaskStatement.shapes])

theorem pluginEntry : Describes (.rule .pluginEntry) PluginEntry.shapes := by
  have version : Describes (.all [.token (.word "version"), .token .stringLiteral])
      PluginEntry.versionShapes :=
    (sequence (word "version") (sequence stringLiteral empty)).map
      (fun (versionWord, literal, _) => (versionWord, literal))
      (fun (versionWord, literal) => ⟨(versionWord, literal, ()), rfl⟩)
      fun _ => by simp [PluginEntry.versionShapes]
  exact rule _ ((sequence (word "id") (sequence stringLiteral
      (sequence (optional version) empty))).map
    (fun (idWord, plugin, version, _) => ⟨idWord, plugin, version⟩)
    (fun node => ⟨(node.idWord, node.plugin, node.version, ()), rfl⟩)
    fun _ => by simp [PluginEntry.shapes])

theorem urlStatement : Describes (.rule .urlStatement) UrlStatement.shapes :=
  rule _ ((sequence (word "url") (sequence (optional (separator .equals))
      (sequence (optional stringLiteral) empty))).map
    (fun (urlWord, equals, value, _) => ⟨urlWord, equals, value⟩)
    (fun node => ⟨(node.urlWord, node.assignment, node.value, ()), rfl⟩)
    fun _ => by simp [UrlStatement.shapes])

theorem wellKnown (expected : Keyword) :
    Describes (.all [.token (.keyword expected), .parenthesized .empty])
      (WellKnownRepository.shapes expected) :=
  (sequence (keyword expected) (sequence (group .parenthesis empty) empty)).map
    (fun (token, (opening, _, closing), _) => ⟨token, opening, closing⟩)
    (fun node => ⟨(node.keyword, (node.opening, (), node.closing), ()), rfl⟩) fun _ => rfl

theorem repositoryEntry : Describes (.rule .repositoryEntry) RepositoryEntry.shapes := by
  have custom : Describes
      (.all [.token (.keyword .maven), .braced (.optional (.rule .urlStatement))])
      CustomRepository.shapes :=
    (sequence (keyword .maven) (sequence (group .brace (optional urlStatement)) empty)).map
      (fun (token, (opening, url, closing), _) => ⟨token, opening, url, closing⟩)
      (fun node => ⟨(node.keyword, (node.opening, node.url, node.closing), ()), rfl⟩) fun _ => rfl
  refine rule _ ((choice (wellKnown .mavenCentral) (choice (wellKnown .jcenter) custom)).map
    (Sum.elim .central (Sum.elim .secondaryIndex .custom)) ?_ ?_)
  · rintro (repository | repository | repository)
    · exact ⟨.inl repository, rfl⟩
    · exact ⟨.inr (.inl repository), rfl⟩
    · exact ⟨.inr (.inr repository), rfl⟩
  · rintro (repository | repository | repository) <;> rfl

theorem dependencyEntry : Describes (.rule .dependencyEntry) DependencyEntry.shapes := by
  refine rule _ ((sequence identifier (sequence
    (choice stringLiteral (group .parenthesis stringLiteral)) empty)).map
      (fun
        | (configuration, .inl literal, _) => ⟨configuration, none, literal⟩
        | (configuration, .inr (opening, literal, closing), _) =>
            ⟨configuration, some (opening, closing), literal⟩) ?_ ?_)
  · rintro ⟨configuration, _ | ⟨opening, closing⟩, literal⟩
    · exact ⟨(configuration, .inl literal, ()), rfl⟩
    · exact ⟨(configuration, .inr (opening, literal, closing), ()), rfl⟩
  · rintro ⟨configuration, literal | ⟨opening, literal, closing⟩, _⟩ <;>
      simp [DependencyEntry.shapes]

theorem taskRegistration : Describes (.rule .taskRegistration) TaskRegistration.shapes := by
  have type : Describes (.all [.mark ',', .token .identifier]) TaskRegistration.typeShapes :=
    (sequence (separator .comma) (sequence identifier empty)).map
      (fun (comma, type, _) => (comma, type)) (fun (comma, type) => ⟨(comma, type, ()), rfl⟩)
      fun _ => by simp [TaskRegistration.typeShapes]
  have arguments : Describes
      (.all [.token .stringLiteral, .optional (.all [.mark ',', .token .identifier])])
      TaskRegistration.argumentShapes :=
    (sequence stringLiteral (sequence (optional type) empty)).map
      (fun (taskName, type, _) => (taskName, type))
      (fun (taskName, type) => ⟨(taskName, type, ()), rfl⟩)
      fun _ => by simp [TaskRegistration.argumentShapes]
  exact rule _ ((sequence (keyword .tasks) (sequence (separator .dot) (sequence (word "register")
      (sequence (group .parenthesis arguments) (sequence (block taskStatement) empty))))).map
    (fun (token, dot, registerWord, (opening, (taskName, type), closing), body, _) =>
      ⟨token, dot, registerWord, opening, taskName, type, closing, body⟩)
    (fun node => ⟨(node.keyword, node.dot, node.registerWord,
      (node.opening, (node.name, node.type), node.closing), node.block, ()), rfl⟩)
    fun _ => by simp [TaskRegistration.shapes])

/-- A keyword and a block describe a declaration of that kind. -/
theorem keywordBlock (expected : Keyword) (describes : Describes expression shapes) :
    Describes (.all [.token (.keyword expected), .braced (.many expression)])
      fun parts : KeywordToken × Block α =>
        parts.1.shapes expected ++ parts.2.shapes shapes :=
  (sequence (keyword expected) (sequence (block describes) empty)).map
    (fun (token, body, _) => (token, body)) (fun (token, body) => ⟨(token, body, ()), rfl⟩)
    fun _ => by simp

theorem declaration : Describes (.rule .declaration) Declaration.shapes := by
  refine rule _ ((choice (rule .pluginsBlock (keywordBlock .plugins pluginEntry))
    (choice (rule .repositoriesBlock (keywordBlock .repositories repositoryEntry))
      (choice (rule .dependenciesBlock (keywordBlock .dependencies dependencyEntry))
        taskRegistration))).map
    (Sum.elim (fun (token, body) => .plugins token body)
      (Sum.elim (fun (token, body) => .repositories token body)
        (Sum.elim (fun (token, body) => .dependencies token body) .task))) ?_ ?_)
  · rintro (⟨token, body⟩ | ⟨token, body⟩ | ⟨token, body⟩ | registration)
    · exact ⟨.inl (token, body), rfl⟩
    · exact ⟨.inr (.inl (token, body)), rfl⟩
    · exact ⟨.inr (.inr (.inl (token, body))), rfl⟩
    · exact ⟨.inr (.inr (.inr registration)), rfl⟩
  · rintro (⟨token, body⟩ | ⟨token, body⟩ | ⟨token, body⟩ | registration) <;> rfl

/-- The sentences of the grammar are what scripts keep. -/
theorem script : Describes (.rule .buildScript) Script.shapes :=
  rule _ ((many declaration).map (fun declarations => ⟨declarations⟩)
    (fun node => ⟨node.declarations, rfl⟩) fun _ => rfl)

end Describes

end BuildScript.Grammar
