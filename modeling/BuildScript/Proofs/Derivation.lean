import BuildScript.Proofs.Ebnf
import BuildScript.Proofs.Grouping
import BuildScript.Script
import Mathlib.Data.List.Forall2

/-!
# Syntax trees as derivations

The tokens that a syntax tree keeps, in the order of the grammar, each with the symbol
of the grammar at its place. A tree is the derivation of a list of tokens when its
leaves read these tokens one by one, and such tokens group into token trees in just
one way.
-/

namespace BuildScript

namespace Grammar

/-! ## Leaves -/

/-- A punctuation character that delimits nothing. -/
inductive Separator where
  | dot
  | equals
  | comma
  deriving DecidableEq, Repr

def Separator.mark : Separator → Char
  | .dot => '.'
  | .equals => '='
  | .comma => ','

/-- The place of a single token in the grammar, delimiters apart. -/
inductive Slot where
  | keyword (word : Keyword)
  | word (text : String)
  | identifier
  | name
  | stringLiteral
  | separator (separator : Separator)
  deriving DecidableEq, Repr

def Slot.symbol : Slot → Ebnf
  | .keyword expected => .token (.keyword expected)
  | .word text => .token (.word text)
  | .identifier => .token .identifier
  | .name => .rule .name
  | .stringLiteral => .token .stringLiteral
  | .separator between => .mark between.mark

/-- A token that a syntax tree keeps, with the symbol of the grammar at its place. -/
structure Leaf where
  symbol : Ebnf
  stored : Token
  deriving DecidableEq, Repr

/--
The leaf keeps the token that stands in the script, which its symbol derives. A name
keeps a keyword as an identifier with the same span.
-/
inductive Leaf.Reads : Leaf → Token → Prop where
  | same {symbol : Ebnf} {token : Token} (derives : Derives symbol [token]) :
      Reads ⟨symbol, token⟩ token
  | keywordName (word : Keyword) (span : Span) :
      Reads ⟨.rule .name, ⟨.identifier, span⟩⟩ ⟨.keyword word, span⟩

/-- Leaves keep the spans of the tokens that they read. -/
theorem Leaf.Reads.spans_eq {leaves : List Leaf} {tokens : List Token}
    (reads : List.Forall₂ Leaf.Reads leaves tokens) :
    leaves.map (·.stored.span) = tokens.map Token.span := by
  induction reads with
  | nil => rfl
  | cons first later ih =>
      rw [List.map_cons, List.map_cons, ih]
      cases first <;> rfl

def Slot.Takes : Slot → Token → Prop
  | .keyword expected, token => token.kind = .keyword expected
  | .word text, token => token.kind = .identifier ∧ token.text = text
  | .identifier, token => token.kind = .identifier
  | .name, token => token.kind = .identifier ∨ ∃ found, token.kind = .keyword found
  | .stringLiteral, token => token.kind = .stringLiteral
  | .separator between, token => token.kind = .punctuation between.mark

/-- The symbol of a place stands for the tokens that may stand there. -/
theorem Slot.derives_iff (slot : Slot) (token : Token) :
    Derives slot.symbol [token] ↔ slot.Takes token := by
  obtain ⟨kind, span⟩ := token
  cases slot with
  | name =>
      change Derives (.rule .name) _ ↔ _
      rw [Derives.rule_iff, Nonterminal.definition, Derives.choice_iff, Derives.singleton_iff,
        Derives.singleton_iff]
      constructor
      · rintro (holds | holds)
        · cases holds
          exact .inl rfl
        · cases holds
          exact .inr ⟨_, rfl⟩
      · rintro (rfl | ⟨found, rfl⟩)
        · exact .inl (.identifier span)
        · exact .inr (.anyKeyword found span)
  | word text =>
      change Derives (.token (.word text)) _ ↔ _
      rw [Derives.singleton_iff]
      constructor
      · rintro ⟨⟩
        case word spelled => exact ⟨rfl, spelled⟩
      · rintro ⟨rfl, spelled⟩
        exact .word spelled
  | keyword _ | identifier | stringLiteral | separator _ =>
      refine Derives.singleton_iff.trans ?_
      constructor
      · rintro ⟨⟩
        rfl
      · rintro rfl
        constructor

/-- A leaf keeps the span of a token that its place takes, and its kind unless it is a name. -/
theorem Slot.reads_iff {slot : Slot} {stored token : Token} :
    Leaf.Reads ⟨slot.symbol, stored⟩ token ↔
      slot.Takes token ∧
        (stored = token ∨ slot = .name ∧ stored = ⟨.identifier, token.span⟩) := by
  constructor
  · intro reads
    -- Only a name may be kept as something else than it was.
    generalize symbolEq : slot.symbol = symbol at reads
    cases reads with
    | same derives => exact ⟨(slot.derives_iff _).1 (symbolEq ▸ derives), .inl rfl⟩
    | keywordName word span =>
        cases slot with
        | name => exact ⟨.inr ⟨word, rfl⟩, .inr ⟨rfl, rfl⟩⟩
        | keyword _ | word _ | identifier | stringLiteral | separator _ => cases symbolEq
  · rintro ⟨takes, rfl | ⟨rfl, rfl⟩⟩
    · exact .same ((slot.derives_iff _).2 takes)
    · obtain ⟨kind, span⟩ := token
      rcases takes with same | ⟨found, same⟩
      · cases same
        exact .same ((Slot.derives_iff .name _).2 (.inl rfl))
      · cases same
        exact .keywordName found span

/-! ## Shapes -/

/-- A part of a syntax tree: a single token, or what stands between two delimiters. -/
inductive Shape where
  | leaf (slot : Slot) (stored : Token)
  | group (delimiter : Delimiter) (opening : Punctuation) (inside : List Shape)
      (closing : Punctuation)
  deriving Repr

namespace Shape

mutual

def leaves : Shape → List Leaf
  | .leaf slot stored => [⟨slot.symbol, stored⟩]
  | .group delimiter opening inside closing =>
      ⟨.mark delimiter.opening, opening.toToken⟩ ::
        (leavesAll inside ++ [⟨.mark delimiter.closing, closing.toToken⟩])

def leavesAll : List Shape → List Leaf
  | [] => []
  | shape :: shapes => leaves shape ++ leavesAll shapes

end

mutual

/-- The token tree is what the part stands for. -/
def Spells : Shape → TokenTree → Prop
  | .leaf slot stored, tree =>
      ∃ token, tree = .token token ∧ Leaf.Reads ⟨slot.symbol, stored⟩ token
  | .group delimiter opening inside closing, tree =>
      ∃ trees, tree = .group delimiter opening trees closing ∧ SpellsAll inside trees

def SpellsAll : List Shape → List TokenTree → Prop
  | [], trees => trees = []
  | shape :: shapes, trees =>
      ∃ tree later, trees = tree :: later ∧ Spells shape tree ∧ SpellsAll shapes later

end

def ReadsAll (shapes : List Shape) (tokens : List Token) : Prop :=
  List.Forall₂ Leaf.Reads (leavesAll shapes) tokens

theorem leavesAll_append (front back : List Shape) :
    leavesAll (front ++ back) = leavesAll front ++ leavesAll back := by
  induction front with
  | nil => rfl
  | cons shape shapes ih => rw [List.cons_append, leavesAll, leavesAll, ih, List.append_assoc]

theorem leavesAll_flatMap {α : Type} (shapes : α → List Shape) (nodes : List α) :
    leavesAll (nodes.flatMap shapes) = nodes.flatMap fun node => leavesAll (shapes node) := by
  induction nodes with
  | nil => rfl
  | cons node nodes ih => rw [List.flatMap_cons, leavesAll_append, ih, List.flatMap_cons]

theorem leavesAll_group (delimiter : Delimiter) (opening closing : Punctuation)
    (inside shapes : List Shape) :
    leavesAll (.group delimiter opening inside closing :: shapes) =
      ⟨.mark delimiter.opening, opening.toToken⟩ ::
        (leavesAll inside ++ ⟨.mark delimiter.closing, closing.toToken⟩ :: leavesAll shapes) := by
  rw [leavesAll, leaves, List.cons_append, List.append_assoc, List.singleton_append]

/-- Leaves one after another read tokens one after another. -/
theorem forall₂_append_iff {front back : List Leaf} {tokens : List Token} :
    List.Forall₂ Leaf.Reads (front ++ back) tokens ↔
      ∃ before after, tokens = before ++ after ∧ List.Forall₂ Leaf.Reads front before ∧
        List.Forall₂ Leaf.Reads back after := by
  constructor
  · intro reads
    induction front generalizing tokens with
    | nil => exact ⟨[], tokens, rfl, .nil, reads⟩
    | cons leaf leaves ih =>
        cases reads with
        | @cons _ token _ later reads more =>
            obtain ⟨before, after, rfl, first, second⟩ := ih more
            exact ⟨token :: before, after, rfl, .cons reads first, second⟩
  · rintro ⟨before, after, rfl, first, second⟩
    exact List.rel_append first second

theorem readsAll_append_iff {front back : List Shape} {tokens : List Token} :
    ReadsAll (front ++ back) tokens ↔
      ∃ before after, tokens = before ++ after ∧ ReadsAll front before ∧ ReadsAll back after := by
  rw [ReadsAll, leavesAll_append, forall₂_append_iff]
  rfl

theorem readsAll_cons_iff {shape : Shape} {shapes : List Shape} {tokens : List Token} :
    ReadsAll (shape :: shapes) tokens ↔
      ∃ before after, tokens = before ++ after ∧ ReadsAll [shape] before ∧
        ReadsAll shapes after := by
  change ReadsAll ([shape] ++ shapes) tokens ↔ _
  exact readsAll_append_iff

theorem readsAll_leaf_iff {slot : Slot} {stored : Token} {tokens : List Token} :
    ReadsAll [.leaf slot stored] tokens ↔
      ∃ token, tokens = [token] ∧ Leaf.Reads ⟨slot.symbol, stored⟩ token := by
  change List.Forall₂ Leaf.Reads [⟨slot.symbol, stored⟩] tokens ↔ _
  rw [List.forall₂_cons_left_iff]
  constructor
  · rintro ⟨token, later, reads, none, rfl⟩
    rw [List.forall₂_nil_left_iff] at none
    exact ⟨token, by rw [none], reads⟩
  · rintro ⟨token, rfl, reads⟩
    exact ⟨token, [], reads, .nil, rfl⟩

/-- The leaf of a delimiter reads just that delimiter. -/
theorem reads_mark_iff {mark : Char} {stored : Punctuation} {token : Token} :
    Leaf.Reads ⟨.mark mark, stored.toToken⟩ token ↔
      token = stored.toToken ∧ stored.mark = mark := by
  constructor
  · rintro ⟨derives⟩
    obtain ⟨_, same, holds⟩ := Derives.token_iff.1 derives
    cases same
    cases holds
    exact ⟨rfl, rfl⟩
  · rintro ⟨rfl, rfl⟩
    exact .same (.token (.mark stored.mark stored.span))

theorem readsAll_group_iff {delimiter : Delimiter} {opening closing : Punctuation}
    {inside : List Shape} {tokens : List Token} :
    ReadsAll [.group delimiter opening inside closing] tokens ↔
      ∃ inner, tokens = opening.toToken :: (inner ++ [closing.toToken]) ∧
        opening.mark = delimiter.opening ∧ closing.mark = delimiter.closing ∧
          ReadsAll inside inner := by
  change List.Forall₂ Leaf.Reads (⟨.mark delimiter.opening, opening.toToken⟩ ::
    (leavesAll inside ++ [⟨.mark delimiter.closing, closing.toToken⟩]) ++ []) tokens ↔ _
  rw [List.append_nil, List.forall₂_cons_left_iff]
  constructor
  · rintro ⟨first, later, opens, more, rfl⟩
    obtain ⟨rfl, begins⟩ := reads_mark_iff.1 opens
    obtain ⟨inner, behind, rfl, within, closes⟩ := forall₂_append_iff.1 more
    obtain ⟨token, rest, last, none, rfl⟩ := List.forall₂_cons_left_iff.1 closes
    obtain ⟨rfl, ends⟩ := reads_mark_iff.1 last
    rw [List.forall₂_nil_left_iff] at none
    exact ⟨inner, by rw [none], begins, ends, within⟩
  · rintro ⟨inner, rfl, begins, ends, within⟩
    refine ⟨opening.toToken, _, reads_mark_iff.2 ⟨rfl, begins⟩, ?_, rfl⟩
    exact List.rel_append within (.cons (reads_mark_iff.2 ⟨rfl, ends⟩) .nil)

end Shape

/-! ## Tokens and token trees -/

theorem Separator.mark_ne (separator : Separator) (delimiter : Delimiter) :
    separator.mark ≠ delimiter.opening ∧ separator.mark ≠ delimiter.closing := by
  cases separator <;> cases delimiter <;> decide

/-- The tokens at a place of the grammar count for it and delimit nothing. -/
theorem Slot.reads_plain {slot : Slot} {stored token : Token}
    (reads : Leaf.Reads ⟨slot.symbol, stored⟩ token) :
    token.isSignificant = true ∧ token.opening? = none ∧
      ∀ delimiter, token.closing? delimiter = none := by
  have plain : (∀ mark, token.kind ≠ .punctuation mark) →
      token.opening? = none ∧ ∀ delimiter, token.closing? delimiter = none := by
    intro noMark
    exact ⟨Token.opening?_eq_none_iff.2 fun delimiter => noMark _,
      fun delimiter => Token.closing?_eq_none_iff.2 (noMark _)⟩
  have takes := (Slot.reads_iff.1 reads).1
  obtain ⟨kind, span⟩ := token
  cases slot with
  | separator between =>
      cases takes
      refine ⟨rfl, Token.opening?_eq_none_iff.2 fun delimiter same => ?_, fun delimiter =>
        Token.closing?_eq_none_iff.2 fun same => ?_⟩
      · exact (between.mark_ne delimiter).1 (TokenKind.punctuation.inj same)
      · exact (between.mark_ne delimiter).2 (TokenKind.punctuation.inj same)
  | name =>
      rcases takes with same | ⟨found, same⟩ <;> cases same <;> exact ⟨rfl, plain nofun⟩
  | word text =>
      cases takes.1
      exact ⟨rfl, plain nofun⟩
  | keyword expected | identifier | stringLiteral =>
      cases takes
      exact ⟨rfl, plain nofun⟩

namespace Shape

/-- A leaf among trees that spell parts delimits nothing. -/
theorem SpellsAll.leaf_stays {shapes : List Shape} {trees : List TokenTree}
    (spells : SpellsAll shapes trees) {leaf : Token} (member : .token leaf ∈ trees)
    (delimiter : Delimiter) : leaf.closing? delimiter = none := by
  induction shapes generalizing trees with
  | nil =>
      rw [show trees = [] from spells] at member
      cases member
  | cons shape shapes ih =>
      obtain ⟨tree, later, rfl, first, more⟩ := spells
      rcases List.mem_cons.1 member with rfl | inLater
      · cases shape with
        | leaf slot stored =>
            obtain ⟨token, same, reads⟩ := first
            cases same
            exact (Slot.reads_plain reads).2.2 delimiter
        | group other opening inside closing =>
            obtain ⟨_, impossible, _⟩ := first
            cases impossible
      · exact ih more inLater

/-- The tokens of well-nested trees that spell the parts are what the parts keep. -/
theorem SpellsAll.readsAll : {shapes : List Shape} → {trees : List TokenTree} →
    SpellsAll shapes trees → (∀ tree ∈ trees, tree.WellNested) →
      ReadsAll shapes (TokenTree.flattenAll trees)
  | [], _, rfl, _ => .nil
  | .leaf slot stored :: shapes, _, ⟨_, later, rfl, ⟨token, rfl, reads⟩, more⟩, nested =>
      readsAll_cons_iff.2 ⟨[token], TokenTree.flattenAll later, rfl,
        readsAll_leaf_iff.2 ⟨token, rfl, reads⟩,
        more.readsAll (List.forall_mem_cons.1 nested).2⟩
  | .group delimiter opening inside closing :: shapes, _,
      ⟨_, later, rfl, ⟨trees, rfl, within⟩, more⟩, nested => by
      obtain ⟨first, others⟩ := List.forall_mem_cons.1 nested
      cases first with
      | group begins ends inner stays =>
          exact readsAll_cons_iff.2 ⟨_, TokenTree.flattenAll later, rfl,
            readsAll_group_iff.2 ⟨_, rfl, begins, ends, within.readsAll inner⟩,
            more.readsAll others⟩

/-- Tokens that the parts keep are those of well-nested trees that spell the parts. -/
theorem ReadsAll.exists_spellsAll : {shapes : List Shape} → {tokens : List Token} →
    ReadsAll shapes tokens → ∃ trees, SpellsAll shapes trees ∧
      (∀ tree ∈ trees, tree.WellNested) ∧ TokenTree.flattenAll trees = tokens
  | [], _, .nil => ⟨[], rfl, fun _ member => absurd member List.not_mem_nil, rfl⟩
  | .leaf slot stored :: shapes, _, reads => by
      obtain ⟨before, after, rfl, first, more⟩ := readsAll_cons_iff.1 reads
      obtain ⟨token, rfl, kept⟩ := readsAll_leaf_iff.1 first
      obtain ⟨trees, spells, nested, rfl⟩ := ReadsAll.exists_spellsAll more
      refine ⟨.token token :: trees, ⟨_, trees, rfl, ⟨token, rfl, kept⟩, spells⟩, ?_, rfl⟩
      exact List.forall_mem_cons.2 ⟨.token (Slot.reads_plain kept).2.1, nested⟩
  | .group delimiter opening inside closing :: shapes, _, reads => by
      obtain ⟨before, after, rfl, first, more⟩ := readsAll_cons_iff.1 reads
      obtain ⟨inner, rfl, begins, ends, within⟩ := readsAll_group_iff.1 first
      obtain ⟨inside, spellsInside, inner, rfl⟩ := ReadsAll.exists_spellsAll within
      obtain ⟨trees, spells, nested, rfl⟩ := ReadsAll.exists_spellsAll more
      refine ⟨.group delimiter opening inside closing :: trees,
        ⟨_, trees, rfl, ⟨inside, rfl, spellsInside⟩, spells⟩, ?_, rfl⟩
      refine List.forall_mem_cons.2 ⟨?_, nested⟩
      exact .group begins ends inner fun leaf member => spellsInside.leaf_stays member delimiter

theorem spellsAll_append_iff {front back : List Shape} {trees : List TokenTree} :
    SpellsAll (front ++ back) trees ↔
      ∃ before after, trees = before ++ after ∧ SpellsAll front before ∧
        SpellsAll back after := by
  induction front generalizing trees with
  | nil =>
      constructor
      · intro spells
        exact ⟨[], trees, rfl, rfl, spells⟩
      · rintro ⟨before, after, rfl, rfl, spells⟩
        exact spells
  | cons shape shapes ih =>
      constructor
      · rintro ⟨tree, later, rfl, first, more⟩
        obtain ⟨before, after, rfl, second, third⟩ := ih.1 more
        exact ⟨tree :: before, after, rfl, ⟨tree, before, rfl, first, second⟩, third⟩
      · rintro ⟨_, after, rfl, ⟨tree, before, rfl, first, second⟩, third⟩
        exact ⟨tree, before ++ after, rfl, first, ih.2 ⟨before, after, rfl, second, third⟩⟩

end Shape

/-! ## The shapes of nodes -/

def Shape.ofOption {α : Type} (shapes : α → List Shape) (node : Option α) : List Shape :=
  node.elim [] shapes

end Grammar

open Grammar (Shape Slot)

def Identifier.shapes (slot : Slot) (identifier : Identifier) : List Shape :=
  [.leaf slot identifier.toToken]

def KeywordToken.shapes (word : Keyword) (token : KeywordToken) : List Shape :=
  [.leaf (.keyword word) token.toToken]

def Punctuation.shapes (separator : Grammar.Separator) (mark : Punctuation) : List Shape :=
  [.leaf (.separator separator) mark.toToken]

def StringLiteral.shapes (literal : StringLiteral) : List Shape :=
  [.leaf .stringLiteral literal.toToken]

def Block.shapes {α : Type} (entry : α → List Shape) (block : Block α) : List Shape :=
  [.group .brace block.opening (block.entries.flatMap entry) block.closing]

def IdentifierPath.shapes (path : IdentifierPath) : List Shape :=
  path.first.shapes .name ++
    path.rest.flatMap fun (dot, segment) => dot.shapes .dot ++ segment.shapes .name

def Expression.shapes : Expression → List Shape
  | .string literal => literal.shapes
  | .path identifiers => identifiers.shapes

def TaskStatement.shapes (statement : TaskStatement) : List Shape :=
  statement.key.shapes .name ++ Shape.ofOption (Punctuation.shapes .equals) statement.assignment ++
    statement.value.shapes

def PluginEntry.versionShapes (version : Identifier × StringLiteral) : List Shape :=
  version.1.shapes (.word "version") ++ version.2.shapes

def PluginEntry.shapes (entry : PluginEntry) : List Shape :=
  entry.idWord.shapes (.word "id") ++ entry.plugin.shapes ++
    Shape.ofOption versionShapes entry.version

def UrlStatement.shapes (statement : UrlStatement) : List Shape :=
  statement.urlWord.shapes (.word "url") ++
    Shape.ofOption (Punctuation.shapes .equals) statement.assignment ++
      Shape.ofOption StringLiteral.shapes statement.value

def WellKnownRepository.shapes (word : Keyword) (repository : WellKnownRepository) : List Shape :=
  repository.keyword.shapes word ++
    [.group .parenthesis repository.opening [] repository.closing]

def CustomRepository.shapes (repository : CustomRepository) : List Shape :=
  repository.keyword.shapes .maven ++
    [.group .brace repository.opening (Shape.ofOption UrlStatement.shapes repository.url)
      repository.closing]

def RepositoryEntry.shapes : RepositoryEntry → List Shape
  | .central repository => repository.shapes .mavenCentral
  | .secondaryIndex repository => repository.shapes .jcenter
  | .custom repository => repository.shapes

def DependencyEntry.shapes (entry : DependencyEntry) : List Shape :=
  entry.configuration.shapes .identifier ++
    match entry.parentheses with
    | none => entry.coordinate.shapes
    | some (opening, closing) => [.group .parenthesis opening entry.coordinate.shapes closing]

namespace TaskRegistration

def typeShapes (type : Punctuation × Identifier) : List Shape :=
  type.1.shapes .comma ++ type.2.shapes .identifier

def argumentShapes (arguments : StringLiteral × Option (Punctuation × Identifier)) : List Shape :=
  arguments.1.shapes ++ Shape.ofOption typeShapes arguments.2

def shapes (task : TaskRegistration) : List Shape :=
  task.keyword.shapes .tasks ++ task.dot.shapes .dot ++
    task.registerWord.shapes (.word "register") ++
      [.group .parenthesis task.opening (argumentShapes (task.name, task.type)) task.closing] ++
        task.block.shapes TaskStatement.shapes

end TaskRegistration

def Declaration.shapes : Declaration → List Shape
  | .plugins keyword block => keyword.shapes .plugins ++ block.shapes PluginEntry.shapes
  | .repositories keyword block =>
      keyword.shapes .repositories ++ block.shapes RepositoryEntry.shapes
  | .dependencies keyword block =>
      keyword.shapes .dependencies ++ block.shapes DependencyEntry.shapes
  | .task registration => registration.shapes

def Script.shapes (script : Script) : List Shape :=
  script.declarations.flatMap Declaration.shapes

/-- The tokens that a script keeps, in the order of the grammar, with their symbols. -/
def Script.leaves (script : Script) : List Grammar.Leaf :=
  Shape.leavesAll script.shapes

end BuildScript
