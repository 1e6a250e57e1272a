import BuildScript.Proofs.Pieces

/-!
# Scripts at a place

Where in which file a sentence of the grammar stands does not matter for its derivation.
A script whose leaves keep some pieces at one place keeps them at any other, once its
spans are moved there, and no other script keeps the same pieces at the same place.
-/

namespace BuildScript

open Grammar (Derives Leaf Parser Rule Shape TokenClass)
open Grammar.Shape (leavesAll)
open Piece (Stable significant textAll tokens)

/-! ## Leaves that are moved -/

section

variable {move : Span → Span}

def Grammar.Leaf.relocate (move : Span → Span) (leaf : Leaf) : Leaf :=
  ⟨leaf.symbol, leaf.stored.relocate move⟩

theorem Grammar.TokenClass.Holds.relocate {terminal : TokenClass} {token : Token}
    (holds : terminal.Holds token) (kept : (move token.span).text = token.span.text) :
    terminal.Holds (token.relocate move) := by
  cases holds with
  | word spelled => exact .word (kept.trans spelled)
  | keyword | mark | identifier | anyKeyword | stringLiteral => constructor

/-- Tokens that are moved with their text are the same sentence. -/
theorem Grammar.Derives.relocate {expression : Grammar.Ebnf} {tokens : List Token}
    (derives : Derives expression tokens)
    (kept : ∀ token ∈ tokens, (move token.span).text = token.span.text) :
    Derives expression (tokens.map (Token.relocate move)) := by
  induction derives with
  | empty => exact .empty
  | token holds => exact .token (holds.relocate (kept _ List.mem_cons_self))
  | rule body ih => exact .rule (ih kept)
  | sequence before after ihBefore ihAfter =>
      obtain ⟨keptFront, keptBack⟩ := List.forall_mem_append.1 kept
      rw [List.map_append]
      exact .sequence (ihBefore keptFront) (ihAfter keptBack)
  | left chosen ih => exact .left (ih kept)
  | right chosen ih => exact .right (ih kept)
  | absent => exact .absent
  | present there ih => exact .present (ih kept)
  | done => exact .done
  | again once later ihOnce ihLater =>
      obtain ⟨keptFront, keptBack⟩ := List.forall_mem_append.1 kept
      rw [List.map_append]
      exact .again (ihOnce keptFront) (ihLater keptBack)

theorem Grammar.Leaf.Reads.relocate {leaf : Leaf} {token : Token} (reads : leaf.Reads token)
    (kept : (move token.span).text = token.span.text) :
    (leaf.relocate move).Reads (token.relocate move) := by
  cases reads with
  | same derives => exact .same (derives.relocate (List.forall_mem_singleton.2 kept))
  | keywordName word span => exact .keywordName word (move span)

theorem Grammar.Leaf.Reads.relocateAll {leaves : List Leaf} {tokens : List Token}
    (reads : List.Forall₂ Leaf.Reads leaves tokens)
    (kept : ∀ token ∈ tokens, (move token.span).text = token.span.text) :
    List.Forall₂ Leaf.Reads (leaves.map (Leaf.relocate move))
      (tokens.map (Token.relocate move)) := by
  induction reads with
  | nil => exact .nil
  | cons first later ih =>
      obtain ⟨keptFirst, keptLater⟩ := List.forall_mem_cons.1 kept
      exact .cons (first.relocate keptFirst) (ih keptLater)

end

/-! ## Nodes that are moved -/

def MovesLeaves (move : Span → Span) {α : Type} (shapes : α → List Shape) (relocate : α → α) :
    Prop :=
  ∀ node, leavesAll (shapes (relocate node)) = (leavesAll (shapes node)).map (Leaf.relocate move)

namespace MovesLeaves

variable {move : Span → Span}

theorem many {α : Type} {shapes : α → List Shape} {relocate : α → α}
    (one : MovesLeaves move shapes relocate) :
    MovesLeaves move (fun nodes : List α => nodes.flatMap shapes) (List.map relocate) := by
  intro nodes
  simp only [Shape.leavesAll_flatMap, List.flatMap_map, List.map_flatMap, one _]

theorem optional {α : Type} {shapes : α → List Shape} {relocate : α → α}
    (one : MovesLeaves move shapes relocate) :
    MovesLeaves move (Shape.ofOption shapes) (Option.map relocate) := by
  rintro (_ | node)
  · rfl
  · exact one node

theorem block {α : Type} {shapes : α → List Shape} {relocate : α → α}
    (one : MovesLeaves move shapes relocate) :
    MovesLeaves move (Block.shapes shapes) (Block.relocate move relocate) := by
  intro node
  have inside := one.many node.entries
  simp only [Block.shapes, Block.relocate, Shape.leavesAll_group, List.map_cons, List.map_append,
    inside]
  rfl

theorem identifier (slot : Grammar.Slot) :
    MovesLeaves move (Identifier.shapes slot) (Identifier.relocate move) :=
  fun _ => rfl

theorem keyword (word : Keyword) :
    MovesLeaves move (KeywordToken.shapes word) (KeywordToken.relocate move) :=
  fun _ => rfl

theorem separator (between : Grammar.Separator) :
    MovesLeaves move (Punctuation.shapes between) (Punctuation.relocate move) :=
  fun _ => rfl

theorem literal : MovesLeaves move StringLiteral.shapes (StringLiteral.relocate move) :=
  fun _ => rfl

/-- A pair of nodes one after another. -/
theorem pair {α β : Type} {first : α → List Shape} {second : β → List Shape} {relocate : α → α}
    {relocateSecond : β → β} (one : MovesLeaves move first relocate)
    (other : MovesLeaves move second relocateSecond) :
    MovesLeaves move (fun node : α × β => first node.1 ++ second node.2)
      (Prod.map relocate relocateSecond) := by
  intro node
  simp only [Prod.map_fst, Prod.map_snd, Shape.leavesAll_append, List.map_append, one _, other _]

theorem path : MovesLeaves move IdentifierPath.shapes (IdentifierPath.relocate move) := by
  intro node
  have segment : MovesLeaves move _ _ := (separator .dot).pair (identifier .name)
  simp only [IdentifierPath.shapes, IdentifierPath.relocate, Shape.leavesAll_append,
    List.map_append, identifier .name _]
  exact congrArg _ (segment.many node.rest)

theorem expression : MovesLeaves move Expression.shapes (Expression.relocate move) := by
  rintro (node | node)
  · exact literal node
  · exact path node

theorem statement : MovesLeaves move TaskStatement.shapes (TaskStatement.relocate move) := by
  intro node
  simp only [TaskStatement.shapes, TaskStatement.relocate, Shape.leavesAll_append,
    List.map_append, identifier .name _, (separator .equals).optional _, expression _]

theorem plugin : MovesLeaves move PluginEntry.shapes (PluginEntry.relocate move) := by
  intro node
  have version : MovesLeaves move PluginEntry.versionShapes _ :=
    (identifier (.word "version")).pair literal
  simp only [PluginEntry.shapes, PluginEntry.relocate, Shape.leavesAll_append, List.map_append,
    identifier (.word "id") _, literal _, version.optional _]

theorem url : MovesLeaves move UrlStatement.shapes (UrlStatement.relocate move) := by
  intro node
  simp only [UrlStatement.shapes, UrlStatement.relocate, Shape.leavesAll_append, List.map_append,
    identifier (.word "url") _, (separator .equals).optional _, literal.optional _]

theorem wellKnown (word : Keyword) :
    MovesLeaves move (WellKnownRepository.shapes word) (WellKnownRepository.relocate move) :=
  fun _ => rfl

theorem custom : MovesLeaves move CustomRepository.shapes (CustomRepository.relocate move) := by
  intro node
  simp only [CustomRepository.shapes, CustomRepository.relocate, Shape.leavesAll_append,
    Shape.leavesAll_group, List.map_append, List.map_cons, keyword .maven _, url.optional _]
  rfl

theorem repository : MovesLeaves move RepositoryEntry.shapes (RepositoryEntry.relocate move) := by
  rintro (node | node | node)
  · exact wellKnown .mavenCentral node
  · exact wellKnown .jcenter node
  · exact custom node

theorem dependency : MovesLeaves move DependencyEntry.shapes (DependencyEntry.relocate move) := by
  rintro ⟨configuration, _ | parentheses, coordinate⟩ <;> rfl

theorem task : MovesLeaves move TaskRegistration.shapes (TaskRegistration.relocate move) := by
  intro node
  have type : MovesLeaves move TaskRegistration.typeShapes _ :=
    (separator .comma).pair (identifier .identifier)
  have arguments : MovesLeaves move TaskRegistration.argumentShapes _ :=
    literal.pair type.optional
  have within : leavesAll (TaskRegistration.argumentShapes
      (node.name.relocate move, TaskRegistration.relocateType move node.type)) = _ :=
    arguments (node.name, node.type)
  simp only [TaskRegistration.shapes, TaskRegistration.relocate, Shape.leavesAll_append,
    Shape.leavesAll_group, List.map_append, List.map_cons, keyword .tasks _, separator .dot _,
    identifier (.word "register") _, within, statement.block _]
  rfl

theorem declaration : MovesLeaves move Declaration.shapes (Declaration.relocate move) := by
  rintro (⟨word, node⟩ | ⟨word, node⟩ | ⟨word, node⟩ | node)
  · exact ((keyword .plugins).pair plugin.block) (word, node)
  · exact ((keyword .repositories).pair repository.block) (word, node)
  · exact ((keyword .dependencies).pair dependency.block) (word, node)
  · exact task node

end MovesLeaves

/-- Moving a script moves its leaves. -/
theorem Script.leaves_relocate (move : Span → Span) (script : Script) :
    (script.relocate move).leaves = script.leaves.map (Leaf.relocate move) :=
  MovesLeaves.declaration.many script.declarations

/-! ## Pieces at two places -/

/-- The text of the pieces stands in the file from the offset on. -/
def Piece.Stand (file : SourceFile) (offset : Nat) (pieces : List Piece) : Prop :=
  ∃ before after, file.chars = before ++ (textAll pieces ++ after) ∧
    Text.byteLength before = offset

/-- What stands from one place on in a file is moved to another place of another file. -/
def MovesPlace (move : Span → Span) (file : SourceFile) (offset : Nat) (target : SourceFile)
    (place : Nat) : Prop :=
  ∀ start stop, move ⟨file, offset + start, offset + stop⟩ = ⟨target, place + start, place + stop⟩

theorem MovesPlace.later {move : Span → Span} {file target : SourceFile} {offset place : Nat}
    (moves : MovesPlace move file offset target place) (passed : Nat) :
    MovesPlace move file (offset + passed) target (place + passed) := by
  intro start stop
  rw [Nat.add_assoc, Nat.add_assoc, Nat.add_assoc, Nat.add_assoc]
  exact moves (passed + start) (passed + stop)

theorem MovesPlace.first {move : Span → Span} {file target : SourceFile} {offset place : Nat}
    (moves : MovesPlace move file offset target place) (length : Nat) :
    move ⟨file, offset, offset + length⟩ = ⟨target, place, place + length⟩ :=
  moves 0 length

theorem MovesPlace.exists_move (file : SourceFile) (offset : Nat) (target : SourceFile)
    (place : Nat) : ∃ move, MovesPlace move file offset target place := by
  refine ⟨fun span => ⟨target, span.start - offset + place, span.stop - offset + place⟩, ?_⟩
  intro start stop
  simp only [Span.mk.injEq, true_and]
  omega

namespace Piece

/-- The first of some pieces has its text at the place where they stand. -/
theorem Stand.first_chars {file : SourceFile} {offset : Nat} {piece : Piece} {later : List Piece}
    (stand : Stand file offset (piece :: later)) :
    Span.chars ⟨file, offset, offset + Text.byteLength piece.text⟩ = piece.text := by
  obtain ⟨before, after, text, rfl⟩ := stand
  rw [textAll_cons, List.append_assoc] at text
  exact SourceFile.part_chars text

theorem Stand.later {file : SourceFile} {offset : Nat} {piece : Piece} {later : List Piece}
    (stand : Stand file offset (piece :: later)) :
    Stand file (offset + Text.byteLength piece.text) later := by
  obtain ⟨before, after, text, rfl⟩ := stand
  refine ⟨before ++ piece.text, after, ?_, Text.byteLength_append before piece.text⟩
  rw [text, textAll_cons, List.append_assoc, List.append_assoc]

variable {move : Span → Span} {file target : SourceFile} {offset place : Nat}
  {pieces : List Piece}

theorem tokens_relocate (moves : MovesPlace move file offset target place)
    (pieces : List Piece) :
    (tokens file offset pieces).map (Token.relocate move) = tokens target place pieces := by
  induction pieces generalizing offset place with
  | nil => rfl
  | cons piece later ih =>
      rw [tokens, tokens, List.map_cons, ih (moves.later _), Token.relocate, moves.first]

theorem significant_relocate (moves : MovesPlace move file offset target place)
    (pieces : List Piece) :
    (significant file offset pieces).map (Token.relocate move) =
      significant target place pieces := by
  rw [significant, significant, ← tokens_relocate moves, List.filter_map]
  rfl

/-- The tokens of pieces keep their texts when they are moved to where the pieces stand too. -/
theorem text_relocate (moves : MovesPlace move file offset target place)
    (here : Stand file offset pieces) (there : Stand target place pieces) :
    ∀ token ∈ tokens file offset pieces, (move token.span).text = token.span.text := by
  induction pieces generalizing offset place with
  | nil => nofun
  | cons piece later ih =>
      refine List.forall_mem_cons.2 ⟨?_, ih (moves.later _) here.later there.later⟩
      rw [moves.first, Span.text, Span.text, here.first_chars, there.first_chars]

def token (piece : Piece) : Token :=
  ⟨piece.kind, ⟨⟨0, "", "", piece.text⟩, 0, Text.byteLength piece.text⟩⟩

theorem tokens_alone (stand : Stand file offset pieces) :
    (tokens file offset pieces).map (Token.relocate Span.alone) = pieces.map token := by
  induction pieces generalizing offset with
  | nil => rfl
  | cons piece later ih =>
      rw [tokens, List.map_cons, ih stand.later, List.map_cons, Token.relocate, Span.alone,
        stand.first_chars]
      rfl

end Piece

/-! ## Scripts that keep pieces -/

/-- The leaves of the script keep what counts of pieces that stand in the file. -/
structure Script.Keeps (script : Script) (file : SourceFile) (offset : Nat)
    (pieces : List Piece) : Prop where
  stand : Piece.Stand file offset pieces
  reads : List.Forall₂ Leaf.Reads script.leaves (significant file offset pieces)

namespace Script

/-- Moving the spans of a script to another place of the same pieces. -/
theorem Keeps.relocate {script : Script} {move : Span → Span} {file target : SourceFile}
    {offset place : Nat} {pieces : List Piece} (keeps : script.Keeps file offset pieces)
    (there : Piece.Stand target place pieces)
    (moves : MovesPlace move file offset target place) :
    (script.relocate move).Keeps target place pieces := by
  have kept := Piece.text_relocate moves keeps.stand there
  refine ⟨there, ?_⟩
  rw [script.leaves_relocate, ← Piece.significant_relocate moves]
  exact Leaf.Reads.relocateAll keeps.reads fun token member =>
    kept token (List.mem_of_mem_filter member)

/-- A script that stands alone keeps its pieces as they are by themselves. -/
theorem Keeps.reads_alone {script : Script} {file : SourceFile} {offset : Nat}
    {pieces : List Piece} (keeps : script.Keeps file offset pieces) :
    List.Forall₂ Leaf.Reads (script.relocate Span.alone).leaves
      ((pieces.map Piece.token).filter Token.isSignificant) := by
  rw [script.leaves_relocate, ← Piece.tokens_alone keeps.stand, List.filter_map]
  exact Leaf.Reads.relocateAll keeps.reads fun token _ => token.span.alone_text

theorem leaves_append (front back : List Declaration) :
    (Script.mk (front ++ back)).leaves = (Script.mk front).leaves ++ (Script.mk back).leaves := by
  rw [leaves, shapes, List.flatMap_append, Shape.leavesAll_append]
  rfl

theorem leaves_singleton (declaration : Declaration) :
    (Script.mk [declaration]).leaves = leavesAll declaration.shapes := by
  rw [leaves, shapes, List.flatMap_singleton]

/-- The leaves of a script around one of its declarations. -/
theorem leaves_of_split {script : Script} {before after : List Declaration}
    {declaration : Declaration} (split : script.declarations = before ++ declaration :: after) :
    script.leaves = (Script.mk before).leaves ++
      ((Script.mk [declaration]).leaves ++ (Script.mk after).leaves) := by
  rw [← leaves_append, ← leaves_append, List.singleton_append, ← split]

/-- No two scripts keep the same tokens. -/
theorem eq_of_reads {first second : Script} {tokens : List Token}
    (one : List.Forall₂ Leaf.Reads first.leaves tokens)
    (other : List.Forall₂ Leaf.Reads second.leaves tokens) : first = second := by
  obtain ⟨trees, spells, nested, rfl⟩ := Shape.ReadsAll.exists_spellsAll one
  obtain ⟨others, spellsToo, nestedToo, same⟩ := Shape.ReadsAll.exists_spellsAll other
  have sameTrees : others = trees := by
    have regrouped := Nesting.ofTokens_flattenAll nestedToo
    rw [same, Nesting.ofTokens_flattenAll nested] at regrouped
    exact (Nesting.Forest.mk.inj regrouped).1.symm
  subst sameTrees
  have read : Rule.script (Parser.ofTrees others) = (some first, _) :=
    Rule.script_complete ⟨spells, nested⟩ rfl
  have readToo : Rule.script (Parser.ofTrees others) = (some second, _) :=
    Rule.script_complete ⟨spellsToo, nestedToo⟩ rfl
  exact Option.some.inj (congrArg Prod.fst (read.symm.trans readToo))

/-- Scripts that keep the same pieces are the same up to places. -/
theorem Keeps.alone_eq {first second : Script} {file target : SourceFile} {offset place : Nat}
    {pieces : List Piece} (one : first.Keeps file offset pieces)
    (other : second.Keeps target place pieces) :
    first.relocate Span.alone = second.relocate Span.alone :=
  eq_of_reads one.reads_alone other.reads_alone

end Script

end BuildScript
