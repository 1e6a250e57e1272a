import BuildScript.Proofs.Locations
import BuildScript.Proofs.ModelByKind

/-!
# The spans of syntax trees

A node of a syntax tree joins the span of its first part with the span of its last one.
In a script that was read, the tokens of a node stand side by side in the text, so the
span of every node runs from its first token to its last one: it exists, it contains the
spans of the parts, and the parts do not overlap.
-/

namespace BuildScript

open Grammar (Leaf Shape)
open Grammar.Shape (leavesAll)
open TokenTree (flattenAll)

/-! ## Nodes -/

/-- A node of a syntax tree, or a token that one keeps. -/
inductive Node where
  | token (token : Token)
  | path (path : IdentifierPath)
  | expression (value : Expression)
  | statement (statement : TaskStatement)
  | plugin (entry : PluginEntry)
  | wellKnown (repository : WellKnownRepository)
  | custom (repository : CustomRepository)
  | repository (entry : RepositoryEntry)
  | dependency (entry : DependencyEntry)
  | plugins (block : Block PluginEntry)
  | repositories (block : Block RepositoryEntry)
  | dependencies (block : Block DependencyEntry)
  | statements (block : Block TaskStatement)
  | task (registration : TaskRegistration)
  | declaration (declaration : Declaration)

def Node.span? : Node → Option Span
  | .token leaf => some leaf.span
  | .path names => some names.span
  | .expression value => some value.span
  | .statement setting => setting.span?
  | .plugin entry => entry.span?
  | .wellKnown known => known.span?
  | .custom stated => stated.span?
  | .repository entry => entry.span?
  | .dependency entry => entry.span?
  | .plugins block => some block.span
  | .repositories block => some block.span
  | .dependencies block => some block.span
  | .statements block => some block.span
  | .task registration => registration.span?
  | .declaration node => node.span?

/-- The parts of a URL statement, which is no node of its own. -/
def Node.urlParts (statement : UrlStatement) : List Node :=
  .token statement.urlWord.toToken ::
    ((statement.assignment.toList.map fun mark => .token mark.toToken) ++
      statement.value.toList.map fun literal => .token literal.toToken)

def Node.blockParts {α : Type} (entry : α → Node) (block : Block α) : List Node :=
  .token block.opening.toToken :: (block.entries.map entry ++ [.token block.closing.toToken])

/-- What a node is directly made of, in the order of the grammar. -/
def Node.parts : Node → List Node
  | .token _ => []
  | .path names =>
      .token names.first.toToken ::
        names.rest.flatMap fun (dot, segment) => [.token dot.toToken, .token segment.toToken]
  | .expression (.string literal) => [.token literal.toToken]
  | .expression (.path names) => [.path names]
  | .statement setting =>
      .token setting.key.toToken ::
        ((setting.assignment.toList.map fun mark => .token mark.toToken) ++
          [.expression setting.value])
  | .plugin entry =>
      .token entry.idWord.toToken :: .token entry.plugin.toToken ::
        entry.version.toList.flatMap fun (word, version) =>
          [.token word.toToken, .token version.toToken]
  | .wellKnown known =>
      [.token known.keyword.toToken, .token known.opening.toToken, .token known.closing.toToken]
  | .custom stated =>
      .token stated.keyword.toToken :: .token stated.opening.toToken ::
        (stated.url.toList.flatMap Node.urlParts ++ [.token stated.closing.toToken])
  | .repository (.central known) => [.wellKnown known]
  | .repository (.secondaryIndex known) => [.wellKnown known]
  | .repository (.custom stated) => [.custom stated]
  | .dependency entry =>
      .token entry.configuration.toToken ::
        match entry.parentheses with
        | none => [.token entry.coordinate.toToken]
        | some (opening, closing) =>
            [.token opening.toToken, .token entry.coordinate.toToken, .token closing.toToken]
  | .plugins block => Node.blockParts .plugin block
  | .repositories block => Node.blockParts .repository block
  | .dependencies block => Node.blockParts .dependency block
  | .statements block => Node.blockParts .statement block
  | .task registration =>
      .token registration.keyword.toToken ::
        (.token registration.dot.toToken :: .token registration.registerWord.toToken ::
          .token registration.opening.toToken :: .token registration.name.toToken ::
            ((registration.type.toList.flatMap fun (comma, type) =>
                [.token comma.toToken, .token type.toToken]) ++
              [.token registration.closing.toToken]) ++ [.statements registration.block])
  | .declaration (.plugins keyword block) => [.token keyword.toToken, .plugins block]
  | .declaration (.repositories keyword block) => [.token keyword.toToken, .repositories block]
  | .declaration (.dependencies keyword block) => [.token keyword.toToken, .dependencies block]
  | .declaration (.task registration) => [.task registration]

def Node.kept (shapes : List Shape) : List Token :=
  (leavesAll shapes).map Leaf.stored

def Node.tokens : Node → List Token
  | .token leaf => [leaf]
  | .path names => Node.kept names.shapes
  | .expression value => Node.kept value.shapes
  | .statement setting => Node.kept setting.shapes
  | .plugin entry => Node.kept entry.shapes
  | .wellKnown known => Node.kept (known.shapes known.keyword.keyword)
  | .custom stated => Node.kept stated.shapes
  | .repository entry => Node.kept entry.shapes
  | .dependency entry => Node.kept entry.shapes
  | .plugins block => Node.kept (block.shapes PluginEntry.shapes)
  | .repositories block => Node.kept (block.shapes RepositoryEntry.shapes)
  | .dependencies block => Node.kept (block.shapes DependencyEntry.shapes)
  | .statements block => Node.kept (block.shapes TaskStatement.shapes)
  | .task registration => Node.kept registration.shapes
  | .declaration node => Node.kept node.shapes

/-! ## The tokens of the parts -/

namespace Node

@[simp]
theorem kept_nil : kept [] = [] := rfl

@[simp]
theorem kept_leaf (slot : Grammar.Slot) (stored : Token) (shapes : List Shape) :
    kept (.leaf slot stored :: shapes) = stored :: kept shapes :=
  rfl

@[simp]
theorem kept_group (delimiter : Delimiter) (opening closing : Punctuation)
    (inside shapes : List Shape) :
    kept (.group delimiter opening inside closing :: shapes) =
      opening.toToken :: (kept inside ++ closing.toToken :: kept shapes) := by
  rw [kept, Shape.leavesAll_group, List.map_cons, List.map_append, List.map_cons]
  rfl

@[simp]
theorem kept_flatMap {α : Type} (shapes : α → List Shape) (nodes : List α) :
    kept (nodes.flatMap shapes) = nodes.flatMap fun node => kept (shapes node) := by
  rw [kept, Shape.leavesAll_flatMap, List.map_flatMap]
  rfl

/-- The tokens of a block are its braces and the tokens of its entries. -/
theorem kept_block {α : Type} {shapes : α → List Shape} {entry : α → Node}
    (same : ∀ node, (entry node).tokens = kept (shapes node)) (block : Block α) :
    kept (block.shapes shapes) = (blockParts entry block).flatMap tokens := by
  rw [Block.shapes, kept_group, kept_flatMap, blockParts, List.flatMap_cons, List.flatMap_append,
    List.flatMap_map]
  simp only [same]
  rfl

/-- The tokens of a node are those of its parts, one part after another. -/
theorem tokens_eq_flatMap (node : Node) (inner : ∀ leaf, node ≠ .token leaf) :
    node.tokens = node.parts.flatMap tokens := by
  cases node with
  | token leaf => exact absurd rfl (inner leaf)
  | path names =>
      simp [tokens, parts, IdentifierPath.shapes, Identifier.shapes, Punctuation.shapes,
        List.flatMap_assoc]
  | expression value =>
      cases value <;> simp [tokens, parts, Expression.shapes, StringLiteral.shapes]
  | statement setting =>
      obtain ⟨key, assignment, value⟩ := setting
      cases assignment <;>
        simp [tokens, parts, TaskStatement.shapes, Identifier.shapes, Punctuation.shapes,
          Shape.ofOption]
  | plugin entry =>
      obtain ⟨idWord, plugin, version⟩ := entry
      cases version <;>
        simp [tokens, parts, PluginEntry.shapes, PluginEntry.versionShapes, Identifier.shapes,
          StringLiteral.shapes, Shape.ofOption]
  | wellKnown known => simp [tokens, parts, WellKnownRepository.shapes, KeywordToken.shapes]
  | custom stated =>
      obtain ⟨keyword, opening, url, closing⟩ := stated
      cases url with
      | none => simp [tokens, parts, CustomRepository.shapes, KeywordToken.shapes, Shape.ofOption]
      | some statement =>
          have inside : kept statement.shapes = (urlParts statement).flatMap tokens := by
            obtain ⟨urlWord, assignment, value⟩ := statement
            cases assignment <;> cases value <;>
              simp [tokens, urlParts, UrlStatement.shapes, Identifier.shapes, Punctuation.shapes,
                StringLiteral.shapes, Shape.ofOption]
          simp [tokens, parts, CustomRepository.shapes, KeywordToken.shapes, Shape.ofOption, inside]
  | repository entry =>
      cases entry <;>
        simp [tokens, parts, RepositoryEntry.shapes, WellKnownRepository.shapes,
          KeywordToken.shapes]
  | dependency entry =>
      obtain ⟨configuration, parentheses, coordinate⟩ := entry
      cases parentheses <;>
        simp [tokens, parts, DependencyEntry.shapes, Identifier.shapes, StringLiteral.shapes]
  | plugins block => exact @kept_block _ PluginEntry.shapes .plugin (fun _ => rfl) block
  | repositories block =>
      exact @kept_block _ RepositoryEntry.shapes .repository (fun _ => rfl) block
  | dependencies block =>
      exact @kept_block _ DependencyEntry.shapes .dependency (fun _ => rfl) block
  | statements block => exact @kept_block _ TaskStatement.shapes .statement (fun _ => rfl) block
  | task registration =>
      obtain ⟨keyword, dot, registerWord, opening, name, type, closing, block⟩ := registration
      cases type <;>
        simp [tokens, parts, TaskRegistration.shapes, TaskRegistration.argumentShapes,
          TaskRegistration.typeShapes, KeywordToken.shapes, Punctuation.shapes, Identifier.shapes,
          StringLiteral.shapes, Shape.ofOption]
  | declaration node =>
      cases node <;> simp [tokens, parts, Declaration.shapes, KeywordToken.shapes]

/-- How deep a node can be built of others. -/
def rank : Node → Nat
  | .token _ => 0
  | .path _ | .plugin _ | .wellKnown _ | .custom _ | .dependency _ => 1
  | .expression _ | .repository _ => 2
  | .statement _ => 3
  | .plugins _ | .repositories _ | .dependencies _ | .statements _ => 4
  | .task _ => 5
  | .declaration _ => 6

@[simp]
theorem rank_token (leaf : Token) : (Node.token leaf).rank = 0 := rfl

theorem rank_blockParts {α : Type} {entry : α → Node} (below : ∀ node, (entry node).rank < 4)
    (block : Block α) : ∀ part ∈ blockParts entry block, part.rank < 4 := by
  grind [blockParts, rank_token]

theorem rank_urlParts (statement : UrlStatement) : ∀ part ∈ urlParts statement, part.rank = 0 := by
  grind [urlParts, rank_token]

/-- A node is built of lower ones. -/
theorem rank_lt_of_mem_parts (node : Node) : ∀ part ∈ node.parts, part.rank < node.rank := by
  cases node with
  | token leaf => grind [parts]
  | path names => grind [parts, rank]
  | expression value => cases value <;> grind [parts, rank]
  | statement setting => grind [parts, rank]
  | plugin entry => grind [parts, rank]
  | wellKnown known => grind [parts, rank]
  | custom stated => grind [parts, rank, rank_urlParts]
  | repository entry => cases entry <;> grind [parts, rank]
  | dependency entry => grind [parts, rank]
  | plugins block => exact rank_blockParts (fun _ => by simp [rank]) block
  | repositories block => exact rank_blockParts (fun _ => by simp [rank]) block
  | dependencies block => exact rank_blockParts (fun _ => by simp [rank]) block
  | statements block => exact rank_blockParts (fun _ => by simp [rank]) block
  | task registration =>
      obtain ⟨keyword, dot, registerWord, opening, name, type, closing, block⟩ := registration
      cases type <;> simp [parts, rank]
  | declaration node => cases node <;> grind [parts, rank]

/-- What holds of tokens and is passed on from the parts to the node holds of every node. -/
theorem parts_induction {motive : Node → Prop} (token : ∀ leaf, motive (.token leaf))
    (inner : ∀ node, (∀ leaf, node ≠ .token leaf) → (∀ part ∈ node.parts, motive part) →
      motive node) (node : Node) : motive node := by
  induction size : node.rank using Nat.strongRecOn generalizing node with
  | ind size ih =>
      by_cases isToken : ∃ leaf, node = .token leaf
      · obtain ⟨leaf, rfl⟩ := isToken
        exact token leaf
      · apply inner node fun leaf same => isToken ⟨leaf, same⟩
        intro part member
        exact ih part.rank (by rw [← size]; exact rank_lt_of_mem_parts node part member) part rfl

/-! ## How spans are joined -/

theorem block_span_of_join {α : Type} {block : Block α} {span : Span}
    (joined : block.opening.span.join? block.closing.span = some span) : block.span = span := by
  rw [Block.span, joined]
  rfl

/--
A node with one part has the span of that part; any other one joins the spans of its first
and its last part.
-/
theorem span?_of_parts (node : Node) (inner : ∀ leaf, node ≠ .token leaf) :
    (∃ only, node.parts = [only] ∧ node.span? = only.span?) ∨
      ∃ first middle last, node.parts = first :: (middle ++ [last]) ∧
        ∀ start stop span, first.span? = some start → last.span? = some stop →
          start.join? stop = some span → node.span? = some span := by
  cases node with
  | token leaf => exact absurd rfl (inner leaf)
  | path names =>
      obtain ⟨first, rest⟩ := names
      rcases List.eq_nil_or_concat rest with rfl | ⟨init, ⟨dot, segment⟩, rfl⟩
      · exact .inl ⟨_, rfl, rfl⟩
      · refine .inr ⟨.token first.toToken, (init.flatMap fun (dot, segment) =>
          [.token dot.toToken, .token segment.toToken]) ++ [.token dot.toToken],
          .token segment.toToken, by simp [parts], ?_⟩
        rintro start stop span ⟨⟩ ⟨⟩ joined
        rw [span?, IdentifierPath.span, List.concat_eq_append, List.getLast?_concat]
        exact congrArg (fun found : Option Span => some (found.getD first.span)) joined
  | expression value =>
      cases value with
      | string literal => exact .inl ⟨_, rfl, rfl⟩
      | path names => exact .inl ⟨_, rfl, rfl⟩
  | statement setting =>
      refine .inr ⟨_, _, _, rfl, ?_⟩
      rintro start stop span ⟨⟩ ⟨⟩ joined
      exact joined
  | plugin entry =>
      obtain ⟨idWord, plugin, version⟩ := entry
      cases version with
      | none =>
          refine .inr ⟨_, [], _, rfl, ?_⟩
          rintro start stop span ⟨⟩ ⟨⟩ joined
          exact joined
      | some pair =>
          obtain ⟨word, literal⟩ := pair
          refine .inr ⟨_, [.token plugin.toToken, .token word.toToken], _, rfl, ?_⟩
          rintro start stop span ⟨⟩ ⟨⟩ joined
          exact joined
  | wellKnown known =>
      refine .inr ⟨_, [.token known.opening.toToken], _, rfl, ?_⟩
      rintro start stop span ⟨⟩ ⟨⟩ joined
      exact joined
  | custom stated =>
      refine .inr ⟨_, .token stated.opening.toToken :: _, _, rfl, ?_⟩
      rintro start stop span ⟨⟩ ⟨⟩ joined
      exact joined
  | repository entry =>
      cases entry with
      | central known => exact .inl ⟨_, rfl, rfl⟩
      | secondaryIndex known => exact .inl ⟨_, rfl, rfl⟩
      | custom stated => exact .inl ⟨_, rfl, rfl⟩
  | dependency entry =>
      obtain ⟨configuration, parentheses, coordinate⟩ := entry
      cases parentheses with
      | none =>
          refine .inr ⟨_, [], _, rfl, ?_⟩
          rintro start stop span ⟨⟩ ⟨⟩ joined
          exact joined
      | some pair =>
          obtain ⟨opening, closing⟩ := pair
          refine .inr ⟨_, [.token opening.toToken, .token coordinate.toToken], _, rfl, ?_⟩
          rintro start stop span ⟨⟩ ⟨⟩ joined
          exact joined
  | plugins block | repositories block | dependencies block | statements block =>
      refine .inr ⟨_, _, _, rfl, ?_⟩
      rintro start stop span ⟨⟩ ⟨⟩ joined
      exact congrArg some (block_span_of_join joined)
  | task registration =>
      refine .inr ⟨_, _, _, rfl, ?_⟩
      rintro start stop span ⟨⟩ ⟨⟩ joined
      exact joined
  | declaration node =>
      cases node with
      | plugins keyword block | repositories keyword block | dependencies keyword block =>
          refine .inr ⟨_, [], _, rfl, ?_⟩
          rintro start stop span ⟨⟩ ⟨⟩ joined
          exact joined
      | task registration => exact .inl ⟨_, rfl, rfl⟩

end Node

/-! ## Tokens in the order of a text -/

/-- The tokens have places in the file and stand in the order of its text. -/
structure SourceFile.Holds (file : SourceFile) (tokens : List Token) : Prop where
  spans : ∀ token ∈ tokens, file.HasSpan token.span
  ordered : tokens.Pairwise fun before after => before.span.stop ≤ after.span.start

/-- The span from the start of the first token to the stop of the last one. -/
def SourceFile.Covers (file : SourceFile) (tokens : List Token) (span : Span) : Prop :=
  ∃ first last, tokens.head? = some first ∧ tokens.getLast? = some last ∧
    span = ⟨file, first.span.start, last.span.stop⟩

namespace SourceFile

variable {file : SourceFile} {tokens : List Token}

theorem Holds.sublist (holds : file.Holds tokens) {part : List Token}
    (among : part.Sublist tokens) : file.Holds part :=
  ⟨fun token member => holds.spans token (among.subset member), holds.ordered.sublist among⟩

/-- No token starts before the first one. -/
theorem Holds.start_le (holds : file.Holds tokens) {first : Token}
    (isFirst : tokens.head? = some first) :
    ∀ token ∈ tokens, first.span.start ≤ token.span.start := by
  obtain ⟨later, rfl⟩ := List.head?_eq_some_iff.1 isFirst
  have before := (List.pairwise_cons.1 holds.ordered).1
  have nonempty := (holds.spans first List.mem_cons_self).nonempty
  intro token member
  rcases List.mem_cons.1 member with rfl | inLater
  · exact Nat.le_refl _
  · have apart := before token inLater
    omega

/-- No token stops behind the last one. -/
theorem Holds.stop_le (holds : file.Holds tokens) {last : Token}
    (isLast : tokens.getLast? = some last) :
    ∀ token ∈ tokens, token.span.stop ≤ last.span.stop := by
  obtain ⟨earlier, rfl⟩ := List.getLast?_eq_some_iff.1 isLast
  have behind := (List.pairwise_append.1 holds.ordered).2.2
  have nonempty := (holds.spans last (by simp)).nonempty
  intro token member
  rcases List.mem_append.1 member with inEarlier | isIt
  · have apart := behind token inEarlier last List.mem_cons_self
    omega
  · rw [List.mem_singleton.1 isIt]

/-- What covers tokens that have places has a place itself, and contains what they cover. -/
theorem Covers.hasSpan {span : Span} (covers : file.Covers tokens span)
    (holds : file.Holds tokens) : file.HasSpan span := by
  obtain ⟨first, last, isFirst, isLast, rfl⟩ := covers
  have starts := holds.spans first (List.mem_of_head? isFirst)
  have stops := holds.spans last (List.mem_of_getLast? isLast)
  have order := holds.start_le isFirst last (List.mem_of_getLast? isLast)
  exact starts.hull stops (Nat.lt_of_le_of_lt order stops.nonempty)

theorem covers_singleton {token : Token} (has : file.HasSpan token.span) :
    file.Covers [token] token.span := by
  refine ⟨token, token, rfl, rfl, ?_⟩
  rw [← has.file_eq]

/-- Spans that cover the first and the last of some tokens join to one that covers them all. -/
theorem Covers.join {front middle back : List Token} {start stop : Span}
    (starts : file.Covers front start) (stops : file.Covers back stop)
    (holds : file.Holds (front ++ (middle ++ back))) :
    ∃ span, start.join? stop = some span ∧ file.Covers (front ++ (middle ++ back)) span := by
  obtain ⟨first, inner, isFirst, isInner, rfl⟩ := starts
  obtain ⟨outer, last, isOuter, isLast, rfl⟩ := stops
  have headEq : (front ++ (middle ++ back)).head? = some first := by
    rw [List.head?_append, isFirst]
    rfl
  have lastEq : (front ++ (middle ++ back)).getLast? = some last := by
    rw [List.getLast?_append, List.getLast?_append, isLast]
    rfl
  have order := holds.start_le headEq last (List.mem_of_getLast? lastEq)
  have nonempty := (holds.spans last (List.mem_of_getLast? lastEq)).nonempty
  refine ⟨⟨file, first.span.start, last.span.stop⟩, ?_, first, last, headEq, lastEq, rfl⟩
  rw [Span.join?, if_pos ⟨rfl, Nat.le_trans order (Nat.le_of_lt nonempty)⟩]

end SourceFile

namespace Node

variable {file : SourceFile}

theorem tokens_infix_of_mem_parts {node part : Node} (member : part ∈ node.parts) :
    part.tokens <:+: node.tokens := by
  have inner : ∀ leaf, node ≠ .token leaf := by
    rintro leaf rfl
    cases member
  obtain ⟨before, after, split⟩ := List.append_of_mem member
  refine ⟨before.flatMap tokens, after.flatMap tokens, ?_⟩
  rw [node.tokens_eq_flatMap inner, split, List.flatMap_append, List.flatMap_cons,
    List.append_assoc]

/-- The span of a node runs from its first token to its last one. -/
theorem exists_covers (node : Node) (holds : file.Holds node.tokens) :
    ∃ span, node.span? = some span ∧ file.Covers node.tokens span := by
  induction node using parts_induction with
  | token leaf =>
      exact ⟨leaf.span, rfl, SourceFile.covers_singleton (holds.spans leaf List.mem_cons_self)⟩
  | inner node inner ih =>
      have whole := node.tokens_eq_flatMap inner
      have each : ∀ part ∈ node.parts,
          ∃ span, part.span? = some span ∧ file.Covers part.tokens span :=
        fun part member => ih part member
          (holds.sublist (tokens_infix_of_mem_parts member).sublist)
      rcases node.span?_of_parts inner with
        ⟨only, partsEq, spanEq⟩ | ⟨first, middle, last, partsEq, joins⟩
      · obtain ⟨span, found, covers⟩ := each only (by rw [partsEq]; exact List.mem_cons_self)
        rw [partsEq, List.flatMap_singleton] at whole
        rw [whole, spanEq]
        exact ⟨span, found, covers⟩
      · obtain ⟨start, isStart, starts⟩ := each first (by simp [partsEq])
        obtain ⟨stop, isStop, stops⟩ := each last (by simp [partsEq])
        rw [partsEq, List.flatMap_cons, List.flatMap_append, List.flatMap_singleton] at whole
        rw [whole] at holds ⊢
        obtain ⟨span, joined, covers⟩ := starts.join stops holds
        exact ⟨span, joins start stop span isStart isStop joined, covers⟩

/-- The span of a part lies within the span of the node. -/
theorem part_within {node part : Node} (holds : file.Holds node.tokens)
    (member : part ∈ node.parts) {outer inner : Span} (isOuter : node.span? = some outer)
    (isInner : part.span? = some inner) : outer.start ≤ inner.start ∧ inner.stop ≤ outer.stop := by
  have among := (tokens_infix_of_mem_parts member).sublist
  obtain ⟨_, isNode, first, last, isFirst, isLast, rfl⟩ := node.exists_covers holds
  obtain ⟨_, isPart, start, stop, isStart, isStop, rfl⟩ := part.exists_covers (holds.sublist among)
  cases isNode.symm.trans isOuter
  cases isPart.symm.trans isInner
  exact ⟨holds.start_le isFirst start (among.subset (List.mem_of_head? isStart)),
    holds.stop_le isLast stop (among.subset (List.mem_of_getLast? isStop))⟩

def Before (first second : Node) : Prop :=
  ∀ before after, first.span? = some before → second.span? = some after →
    before.stop ≤ after.start

/-- Nodes whose tokens stand in the order of the text do so as well. -/
theorem pairwise_before {nodes : List Node} (holds : file.Holds (nodes.flatMap tokens)) :
    nodes.Pairwise Before := by
  have apart := (List.pairwise_flatMap.1 holds.ordered).2
  refine apart.imp_of_mem ?_
  intro first second inFirst inSecond ordered before after isBefore isAfter
  have each : ∀ node ∈ nodes, file.Holds node.tokens := by
    intro node member
    obtain ⟨front, back, rfl⟩ := List.append_of_mem member
    refine holds.sublist ?_
    rw [List.flatMap_append, List.flatMap_cons]
    exact (List.sublist_append_left _ _).trans (List.sublist_append_right _ _)
  obtain ⟨_, isFirst, _, last, _, isLast, rfl⟩ := first.exists_covers (each first inFirst)
  obtain ⟨_, isSecond, start, _, isStart, _, rfl⟩ := second.exists_covers (each second inSecond)
  cases isFirst.symm.trans isBefore
  cases isSecond.symm.trans isAfter
  exact ordered last (List.mem_of_getLast? isLast) start (List.mem_of_head? isStart)

/-- What the span of a node is like that has its place in a file. -/
structure Sited (file : SourceFile) (node : Node) : Prop where
  /-- The tokens of the node stand side by side among those of the text that count. -/
  adjacent : node.tokens.map Token.span <:+: file.significantTokens.map Token.span
  /-- The span is there and runs from the first of these tokens to the last one. -/
  covers : ∃ span, node.span? = some span ∧ file.HasSpan span ∧ file.Covers node.tokens span
  /-- The span contains the spans of the parts. -/
  contains : ∀ part ∈ node.parts, ∀ outer inner, node.span? = some outer →
    part.span? = some inner → outer.start ≤ inner.start ∧ inner.stop ≤ outer.stop
  /-- The spans of the parts are disjoint and in the order of the text. -/
  siblings : node.parts.Pairwise Before

theorem sited_of_holds {node : Node} (holds : file.Holds node.tokens)
    (adjacent : node.tokens.map Token.span <:+: file.significantTokens.map Token.span) :
    node.Sited file := by
  obtain ⟨span, found, covers⟩ := node.exists_covers holds
  refine ⟨adjacent, ⟨span, found, covers.hasSpan holds, covers⟩, ?_, ?_⟩
  · intro part member outer inner isOuter isInner
    exact part_within holds member isOuter isInner
  · by_cases isToken : ∃ leaf, node = .token leaf
    · obtain ⟨leaf, rfl⟩ := isToken
      exact .nil
    · rw [node.tokens_eq_flatMap fun leaf same => isToken ⟨leaf, same⟩] at holds
      exact pairwise_before holds

end Node

/-! ## Scripts -/

/-- What two steps report is reported by the first, or by the second about its result. -/
theorem Outcome.mem_andThen_reports {α β : Type} {outcome : Outcome α} {next : α → Outcome β}
    {error : Error} (member : error ∈ (outcome.andThen next).reports) :
    error ∈ outcome.reports ∨
      ∃ value, outcome.result = .ok value ∧ error ∈ (next value).reports := by
  obtain ⟨reports, result⟩ := outcome
  cases result with
  | error fault => exact .inl member
  | ok value =>
      rcases List.mem_append.1 member with first | second
      · exact .inl first
      · exact .inr ⟨value, rfl, second⟩

namespace Script

def nodes (script : Script) : List Node :=
  script.declarations.map .declaration

/-- The nodes of a script, from its declarations down to the tokens. -/
inductive HasNode (script : Script) : Node → Prop where
  | declaration {node : Node} (member : node ∈ script.nodes) : HasNode script node
  | part {node part : Node} (has : HasNode script node) (member : part ∈ node.parts) :
      HasNode script part

variable {file : SourceFile} {script : Script}

theorem tokens_nodes (script : Script) :
    script.nodes.flatMap Node.tokens = script.leaves.map Leaf.stored := by
  rw [nodes, List.flatMap_map]
  exact (Node.kept_flatMap Declaration.shapes script.declarations).symm

theorem HasNode.tokens_infix {node : Node} (has : script.HasNode node) :
    node.tokens <:+: script.nodes.flatMap Node.tokens := by
  induction has with
  | declaration member =>
      obtain ⟨front, back, split⟩ := List.append_of_mem member
      refine ⟨front.flatMap Node.tokens, back.flatMap Node.tokens, ?_⟩
      rw [split, List.flatMap_append, List.flatMap_cons, List.append_assoc]
  | part has member ih => exact (Node.tokens_infix_of_mem_parts member).trans ih

theorem hasNode_repository {entry : RepositoryEntry} (member : entry ∈ script.repositoryEntries) :
    script.HasNode (.repository entry) := by
  obtain ⟨declaration, inScript, inBlock⟩ := List.mem_flatMap.1 member
  have top : script.HasNode (.declaration declaration) :=
    .declaration (List.mem_map_of_mem inScript)
  cases declaration with
  | repositories keyword block =>
      have braces : script.HasNode (.repositories block) :=
        .part top (List.mem_cons_of_mem _ List.mem_cons_self)
      apply HasNode.part braces
      exact List.mem_cons_of_mem _ (List.mem_append_left _ (List.mem_map_of_mem inBlock))
  | plugins | dependencies | task => cases inBlock

end Script

namespace SourceFile

variable {file : SourceFile} {script : Script}

theorem significantTokens_holds (file : SourceFile) : file.Holds file.significantTokens := by
  refine ⟨fun token member => hasSpan_of_mem_lex (List.mem_of_mem_filter member), ?_⟩
  have ordered := List.pairwise_map.1 file.significantTokens_pairwise
  exact ordered.imp fun apart => apart.2

/-- Whether tokens have places in a file is a matter of their spans. -/
theorem Holds.of_spans {tokens others : List Token} (holds : file.Holds others)
    (same : tokens.map Token.span = others.map Token.span) : file.Holds tokens := by
  constructor
  · intro token member
    have spanMember := List.mem_map_of_mem (f := Token.span) member
    rw [same] at spanMember
    obtain ⟨other, isOther, spanEq⟩ := List.mem_map.1 spanMember
    rw [← spanEq]
    exact holds.spans other isOther
  · have ordered : (others.map Token.span).Pairwise fun before after => before.stop ≤ after.start :=
      List.pairwise_map.2 holds.ordered
    rw [← same] at ordered
    exact List.pairwise_map.1 ordered

/-- The tokens that a script keeps are those of the text that count. -/
theorem spans_nodes (parsed : file.parse.result = .ok script) :
    (script.nodes.flatMap Node.tokens).map Token.span =
      file.significantTokens.map Token.span := by
  obtain ⟨_, reads⟩ := file.parse_result_eq_ok_iff.1 parsed
  rw [script.tokens_nodes, List.map_map]
  exact Leaf.Reads.spans_eq reads

theorem nodes_holds (parsed : file.parse.result = .ok script) :
    file.Holds (script.nodes.flatMap Node.tokens) :=
  file.significantTokens_holds.of_spans (spans_nodes parsed)

theorem sited_of_hasNode (parsed : file.parse.result = .ok script) {node : Node}
    (has : script.HasNode node) : node.Sited file := by
  have among := has.tokens_infix
  apply Node.sited_of_holds ((nodes_holds parsed).sublist among.sublist)
  rw [← spans_nodes parsed]
  exact among.map Token.span

/-- What is wrong with the meaning of a script is shown at one of its nodes. -/
theorem hasSpan_of_mem_buildModel_reports (parsed : file.parse.result = .ok script)
    {error : Error} (member : error ∈ script.buildModel.reports) {span : Span}
    (holds : error.span? = some span) : file.HasSpan span := by
  have agree := increments_alone parsed
  rw [Script.buildModel_reports agree, Script.faults_increments] at member
  obtain ⟨result, among, isFault⟩ := List.mem_filterMap.1 member
  obtain ⟨entry, inScript, rfl⟩ := List.mem_map.1 among
  rcases RepositoryEntry.increment_cases (Script.attached_of_agree agree inScript) with
    ⟨_, increment, adds⟩ | ⟨_, fault, ⟨place, isPlace, rfl⟩, fails⟩
  · rw [adds] at isFault
    cases isFault
  · rw [fails] at isFault
    cases isFault
    cases holds
    obtain ⟨_, found, has, _⟩ :=
      (sited_of_hasNode parsed (Script.hasNode_repository inScript)).covers
    cases found.symm.trans isPlace
    exact has

end SourceFile

/--
Spans are valid everywhere. Every token of a file, and every diagnostic about it that is
about a piece of source, has a span that is not empty, lies in the file on character
boundaries and has a line and a column, which the diagnostic shows. In a script that was
read every node has a span, from the start of its first token to the stop of its last one,
which contains the spans of its parts; and neither parts nor declarations overlap.
-/
theorem SourceFile.spans_valid (file : SourceFile) :
    (∀ token ∈ file.lex.tokens ++ flattenAll file.trees.trees, file.HasSpan token.span) ∧
    (∀ error ∈ file.tokenize.reports ++ (file.parse.andThen Script.buildModel).reports,
      ∀ span, error.span? = some span → file.HasSpan span ∧
        ∃ location, span.location? = some location ∧
          ∀ terminal : Terminal, terminal.Shows file location (error.message terminal)) ∧
    ∀ script, file.parse.result = .ok script →
      (script.nodes.flatMap Node.tokens).map Token.span =
          file.significantTokens.map Token.span ∧
        script.nodes.Pairwise Node.Before ∧
        ∀ node, script.HasNode node → node.Sited file := by
  refine ⟨?_, ?_, ?_⟩
  · intro token member
    rcases List.mem_append.1 member with inLexing | inTrees
    · exact hasSpan_of_mem_lex inLexing
    · exact hasSpan_of_mem_trees inTrees
  · intro error member span holds
    have has : file.HasSpan span := by
      rcases List.mem_append.1 member with lexical | later
      · exact hasSpan_of_mem_tokenize_reports lexical holds
      · rcases Outcome.mem_andThen_reports later with reading | ⟨script, parsed, building⟩
        · exact hasSpan_of_mem_parse_reports reading holds
        · exact hasSpan_of_mem_buildModel_reports parsed building holds
    obtain ⟨location, located⟩ := has.located
    refine ⟨has, location, located, ?_⟩
    intro terminal
    have shown : terminal.Shows span.file location (error.message terminal) :=
      Terminal.shows_message holds located
    rw [has.file_eq] at shown
    exact shown
  · intro script parsed
    exact ⟨spans_nodes parsed, Node.pairwise_before (nodes_holds parsed),
      fun node has => sited_of_hasNode parsed has⟩

end BuildScript
