import BuildScript.Proofs.Composition
import BuildScript.Proofs.Layout
import Mathlib.Data.List.DropRight

/-!
# Token boundaries are stable

The text of a token is that one token by itself. Blanks that are put between two tokens
become a token of their own, or are taken into blanks or a line comment that they touch; the
tokens that count stay the same, and so does the way in which the reading ends.
-/

namespace BuildScript

open Piece (Splits textAll)

/-! ## Blanks in front of a text -/

/-- A text that halts does not begin with a blank. -/
theorem Text.Halts.dropWhile_eq {tail : List Char} {fault : Option LexicalFault}
    (halts : Text.Halts tail fault) : tail.dropWhile Text.isBlank = tail := by
  cases halts with
  | done => rfl
  | @fault c cs fault failed =>
      have solid : ¬Text.isBlank c = true := by
        intro blank
        rw [Lexeme.first_of_blank blank] at failed
        cases failed
      exact List.dropWhile_cons_of_neg solid

namespace Piece

def isSignificant (piece : Piece) : Bool :=
  piece.kind.isSignificant

/-- Up to the tail, the tokens of the text that count are those of the given pieces. -/
def CountsAs (pieces : List Piece) (text tail : List Char) : Prop :=
  ∃ others, Splits text others tail ∧
    others.filter isSignificant = pieces.filter isSignificant

variable {text tail : List Char} {pieces : List Piece} {fault : Option LexicalFault}

/-- Without the blanks in front of it a text has the same tokens that count. -/
theorem Splits.countsAs_dropBlanks (splits : Splits text pieces tail)
    (halts : Text.Halts tail fault) : CountsAs pieces (text.dropWhile Text.isBlank) tail := by
  cases splits with
  | done => exact ⟨[], by rw [halts.dropWhile_eq]; exact .done text, rfl⟩
  | @piece c cs lexeme pieces tail found later =>
      by_cases blank : Text.isBlank c = true
      · rw [Lexeme.first_of_blank blank] at found
        cases found
        rw [List.dropWhile_cons_of_pos blank]
        exact ⟨pieces, later, rfl⟩
      · rw [List.dropWhile_cons_of_neg blank]
        exact ⟨_, .piece found later, rfl⟩

/-- Blanks in front of a text do not change the tokens that count. -/
theorem Splits.countsAs_blanks (splits : Splits text pieces tail)
    (halts : Text.Halts tail fault) {blanks : List Char}
    (blank : ∀ c ∈ blanks, Text.isBlank c = true) : CountsAs pieces (blanks ++ text) tail := by
  cases blanks with
  | nil => exact ⟨pieces, splits, rfl⟩
  | cons b bs =>
      obtain ⟨isBlank, others⟩ := List.forall_mem_cons.1 blank
      obtain ⟨rest, restSplits, same⟩ := splits.countsAs_dropBlanks halts
      have found := Lexeme.first_of_blank isBlank (bs ++ text)
      rw [Lexeme.run, List.dropWhile_append_of_pos others] at found
      exact ⟨_, .piece found restSplits, same⟩

end Piece

/-! ## Blanks behind a token -/

/-- Only blanks and line comments go on into blanks behind them. -/
theorem TokenKind.goesOn_cases {kind : TokenKind} {blanks rest : List Char}
    (ends : kind.EndsAt rest) (blank : ∀ c ∈ blanks, Text.isBlank c = true)
    (goesOn : ¬kind.EndsAt (blanks ++ rest)) : kind = .blanks ∨ kind = .comment .line := by
  cases blanks with
  | nil => exact absurd ends goesOn
  | cons b bs =>
      rcases kind.endsBefore_blank (blank b List.mem_cons_self) with
        isBlanks | isLine | endsBefore
      · exact .inl isBlanks
      · exact .inr isLine
      · exact absurd (TokenKind.endsAt_cons_iff.2 endsBefore) goesOn

/-- A line comment consists of two slashes and what stands on the line behind them. -/
theorem Lexeme.first_lineComment {c : Char} {cs : List Char} {lexeme : Lexeme}
    (found : first c cs = .ok lexeme) (isLine : lexeme.kind = .comment .line) :
    ∃ line, c = '/' ∧ cs = '/' :: line ∧
      lexeme.text = '/' :: '/' :: line.takeWhile (fun d => !Text.isLineEnd d) ∧
      lexeme.rest = line.dropWhile fun d => !Text.isLineEnd d := by
  have begins := first_begins c cs
  rw [found] at begins
  cases begins with
  | lineComment slash text => exact ⟨_, slash, text, rfl, rfl⟩
  | word solid start =>
      rcases word_kind_cases c cs with kind | ⟨_, kind⟩ <;> cases kind.symm.trans isLine
  | blanks | delimitedComment | slash | string | number | punctuation => cases isLine

namespace Piece

variable {text tail : List Char} {pieces : List Piece} {fault : Option LexicalFault}

section

variable {c : Char} {cs blanks : List Char} {lexeme : Lexeme}

/-- A line comment takes in the blanks behind it up to the end of the line. -/
theorem Splits.countsAs_lineComment (later : Splits lexeme.rest pieces tail)
    (halts : Text.Halts tail fault) (found : Lexeme.first c cs = .ok lexeme)
    (isLine : lexeme.kind = .comment .line) (blank : ∀ d ∈ blanks, Text.isBlank d = true) :
    CountsAs pieces (lexeme.text ++ (blanks ++ lexeme.rest)) tail := by
  obtain ⟨line, rfl, rfl, text, rest⟩ := Lexeme.first_lineComment found isLine
  let inLine : Char → Bool := fun d => !Text.isLineEnd d
  have stops : lexeme.rest.dropWhile inLine = lexeme.rest := by
    rw [rest]
    exact List.dropWhile_idempotent inLine line
  have passes : ∀ d ∈ line.takeWhile inLine, inLine d = true :=
    List.all_eq_true.1 List.all_takeWhile
  have left : (line.takeWhile inLine ++ (blanks ++ lexeme.rest)).dropWhile inLine =
      blanks.dropWhile inLine ++ lexeme.rest := by
    rw [List.dropWhile_append_of_pos passes, List.dropWhile_append, stops]
    split
    · rename_i none
      rw [List.isEmpty_iff.1 none, List.nil_append]
    · rfl
  have others : ∀ d ∈ blanks.dropWhile inLine, Text.isBlank d = true :=
    fun d member => blank d ((List.dropWhile_sublist inLine).subset member)
  obtain ⟨behind, splits, same⟩ := later.countsAs_blanks halts others
  rw [← left] at splits
  rw [text]
  exact ⟨_, .piece rfl splits, same⟩

/-- Blanks that a token of blanks goes on into are one token with it. -/
theorem Splits.countsAs_blankToken (later : Splits lexeme.rest pieces tail)
    (halts : Text.Halts tail fault) (found : Lexeme.first c cs = .ok lexeme)
    (isBlanks : lexeme.kind = .blanks) (blank : ∀ d ∈ blanks, Text.isBlank d = true) :
    CountsAs pieces (lexeme.text ++ (blanks ++ lexeme.rest)) tail := by
  obtain ⟨body, text, _, alone, _⟩ := Lexeme.first_cases found
  have whole : (⟨.blanks, lexeme.text⟩ : Piece).Whole := by
    refine ⟨c, body, text, ?_⟩
    rw [text, ← isBlanks]
    exact alone
  rw [← List.append_assoc]
  exact later.countsAs_blanks halts
    (List.forall_mem_append.2 ⟨(whole_blanks_iff.1 whole).2, blank⟩)

/-- A token in front of other tokens counts as before, if it ends where they begin. -/
theorem CountsAs.cons {rest : List Char} (later : CountsAs pieces rest tail)
    (found : Lexeme.first c cs = .ok lexeme) (ends : lexeme.kind.EndsAt rest) :
    CountsAs (⟨lexeme.kind, lexeme.text⟩ :: pieces) (lexeme.text ++ rest) tail := by
  obtain ⟨others, splits, same⟩ := later
  obtain ⟨body, text, _, alone, _⟩ := Lexeme.first_cases found
  have again := Lexeme.first_append_iff.2 ⟨alone, ends⟩
  rw [text]
  refine ⟨_, .piece again splits, ?_⟩
  rw [List.filter_cons, List.filter_cons, same]

/-- Blanks behind a token change nothing that counts. -/
theorem Splits.countsAs_token (later : Splits lexeme.rest pieces tail)
    (halts : Text.Halts tail fault) (found : Lexeme.first c cs = .ok lexeme)
    (blank : ∀ d ∈ blanks, Text.isBlank d = true) :
    CountsAs (⟨lexeme.kind, lexeme.text⟩ :: pieces)
      (lexeme.text ++ (blanks ++ lexeme.rest)) tail := by
  obtain ⟨_, _, _, _, ends⟩ := Lexeme.first_cases found
  by_cases goesOn : lexeme.kind.EndsAt (blanks ++ lexeme.rest)
  · exact (later.countsAs_blanks halts blank).cons found goesOn
  · -- The token takes in some of the blanks, but it does not count.
    have kinds := TokenKind.goesOn_cases ends blank goesOn
    have insignificant : ¬isSignificant ⟨lexeme.kind, lexeme.text⟩ = true := by
      rcases kinds with kind | kind <;> simp [isSignificant, kind, TokenKind.isSignificant]
    rw [CountsAs, List.filter_cons_of_neg insignificant]
    rcases kinds with isBlanks | isLine
    · exact later.countsAs_blankToken halts found isBlanks blank
    · exact later.countsAs_lineComment halts found isLine blank

end

/-- Blanks between the tokens of a text change nothing that counts. -/
theorem Splits.countsAs_inserted {before after : List Piece}
    (splits : Splits text (before ++ after) tail) (halts : Text.Halts tail fault)
    {blanks : List Char} (blank : ∀ d ∈ blanks, Text.isBlank d = true) :
    CountsAs (before ++ after) (textAll before ++ (blanks ++ (textAll after ++ tail))) tail := by
  induction before generalizing text with
  | nil =>
      rw [List.nil_append] at splits
      rw [textAll_nil, List.nil_append, ← splits.text_eq]
      exact splits.countsAs_blanks halts blank
  | cons piece before ih =>
      rw [List.cons_append] at splits ⊢
      obtain ⟨c, cs, lexeme, rfl, found, rfl, later⟩ := splits.cons_cases
      have rest := later.text_eq
      rw [textAll_cons, List.append_assoc]
      cases before with
      | nil =>
          rw [List.nil_append] at rest later
          rw [textAll_nil, List.nil_append, List.nil_append, ← rest]
          exact later.countsAs_token halts found blank
      | cons next before =>
          apply (ih later).cons found
          -- The next token begins as before, so this one ends where it did.
          have nonempty : next.text ≠ [] := by
            obtain ⟨_, _, _, _, nextFound, rfl, _⟩ := later.cons_cases
            exact Lexeme.first_text_ne_nil nextFound
          obtain ⟨_, _, _, _, ends⟩ := Lexeme.first_cases found
          rw [rest, List.cons_append, textAll_cons, List.append_assoc,
            TokenKind.endsAt_append_iff nonempty] at ends
          rw [textAll_cons, List.append_assoc, TokenKind.endsAt_append_iff nonempty]
          exact ends

end Piece

/-! ## Tokens that stand alone -/

theorem Token.alike_iff {first second : Token} :
    first.Alike second ↔ first.relocate Span.alone = second.relocate Span.alone := by
  rw [Token.Alike, Token.relocate, Token.relocate, Token.mk.injEq, Span.alone_eq_iff]
  rfl

/-- Tokens that are the same once they stand alone are alike one by one. -/
theorem Token.alike_of_map_relocate {first second : List Token}
    (same : first.map (Token.relocate Span.alone) = second.map (Token.relocate Span.alone)) :
    List.Forall₂ Token.Alike first second := by
  have equal := List.forall₂_eq_eq_eq.symm ▸ same
  rw [List.forall₂_map_left_iff, List.forall₂_map_right_iff] at equal
  exact equal.imp fun _ _ => Token.alike_iff.2

/-- Literals of the same text in two files have the same quote and the same content. -/
theorem StringLiteral.same_of_text {first second : SourceFile} {one other : StringLiteral}
    (member : one.toToken ∈ first.lex.tokens) (memberToo : other.toToken ∈ second.lex.tokens)
    (same : one.span.text = other.span.text) :
    one.quote = other.quote ∧ one.content = other.content := by
  obtain ⟨_, reads, _⟩ := first.lex_reads
  obtain ⟨_, readsToo, _⟩ := second.lex_reads
  have chars : one.span.chars = other.span.chars := String.ofList_injective same
  refine ⟨by rw [StringLiteral.quote, StringLiteral.quote, chars], ?_⟩
  rw [← reads.literal_steady member, ← readsToo.literal_steady memberToo,
    StringLiteral.relocate, StringLiteral.relocate, Span.alone_eq_iff.2 same]

namespace SourceFile

variable {file : SourceFile}

/-- The significant tokens of a file, each by itself, are those of its pieces. -/
theorem significantTokens_alone {pieces : List Piece} {tail : List Char}
    {fault : Option LexicalFault} (splits : Splits file.chars pieces tail)
    (halts : Text.Halts tail fault) :
    file.significantTokens.map (Token.relocate Span.alone) =
      (pieces.filter Piece.isSignificant).map Piece.token := by
  have stand : Piece.Stand file 0 pieces := ⟨[], tail, splits.text_eq, rfl⟩
  have alone := congrArg (List.filter Token.isSignificant) (Piece.tokens_alone stand)
  rw [List.filter_map, List.filter_map] at alone
  rw [significantTokens, (lex_of_splits splits halts).1]
  exact alone

/-- The text of a token, as a file of its own, is that token and nothing else. -/
theorem lex_alone {token : Token} (member : token ∈ file.lex.tokens) {alone : SourceFile}
    (text : alone.chars = token.span.chars) :
    ∃ single, alone.lex.tokens = [single] ∧ alone.lex.ending = .endOfSource ∧
      single.Alike token := by
  obtain ⟨_, reads, _⟩ := file.lex_reads
  obtain ⟨before, c, cs, lexeme, fileText, found, rfl⟩ := reads.mem_cases member
  rw [← Lexeme.first_append found] at fileText
  have chars := part_chars fileText
  obtain ⟨body, lexemeText, _, whole, _⟩ := Lexeme.first_cases found
  rw [chars] at text
  have stable : Piece.Stable [⟨lexeme.kind, lexeme.text⟩] :=
    Piece.stable_singleton_iff.2 ⟨c, body, lexemeText, by rw [whole, lexemeText]⟩
  have aloneText : alone.chars = [] ++ (lexeme.text ++ []) := by
    rw [text, List.nil_append, List.append_nil]
  obtain ⟨ending, tokens⟩ := lex_of_stable stable (text.trans (List.append_nil _).symm)
  refine ⟨_, tokens, ending, rfl, ?_⟩
  exact congrArg String.ofList ((part_chars aloneText).trans chars.symm)

/-- An offset at which the file is split into tokens, its start included. -/
def IsTokenBoundary (file : SourceFile) (offset : Nat) : Prop :=
  offset = 0 ∨ ∃ token ∈ file.lex.tokens, token.span.stop = offset

/-- At a token boundary the pieces of a file fall apart. -/
theorem IsTokenBoundary.exists_cut {offset : Nat} (boundary : file.IsTokenBoundary offset)
    {pieces : List Piece} (tokens : file.lex.tokens = Piece.tokens file 0 pieces) :
    ∃ before after, pieces = before ++ after ∧ Text.byteLength (textAll before) = offset := by
  rcases boundary with rfl | ⟨token, member, stop⟩
  · exact ⟨[], pieces, rfl, rfl⟩
  · rw [tokens] at member
    obtain ⟨_, _, split⟩ := List.append_of_mem member
    obtain ⟨front, piece, back, rfl, _, rfl, _⟩ := Piece.exists_of_tokens_eq split
    refine ⟨front ++ [piece], back, by simp, ?_⟩
    rw [← stop]
    simp

end SourceFile

/-! ## Ends of readings -/

def ReadingEnd.relocate (move : Span → Span) : ReadingEnd → ReadingEnd
  | .endOfSource => .endOfSource
  | .fatal error => .fatal (error.relocate move)

/-- Further behind in another file, the same fault is the same error. -/
theorem ReadingEnd.ofFault?_shifted (file other : SourceFile) (offset shift : Nat)
    (fault : Option LexicalFault) :
    ReadingEnd.ofFault? other (offset + shift) fault =
      (ReadingEnd.ofFault? file offset fault).relocate (other.shifted shift) := by
  cases fault with
  | none => rfl
  | some fault =>
      cases fault <;>
        simp [ofFault?, relocate, LexicalFault.error, LexicalError.relocate, SourceFile.shifted,
          Nat.add_right_comm]

def Text.insertAt (offset : Nat) (more text : List Char) : List Char :=
  takeBytes offset text ++ (more ++ dropBytes offset text)

theorem Text.insertAt_append (front back more : List Char) :
    insertAt (byteLength front) more (front ++ back) = front ++ (more ++ back) := by
  rw [insertAt, takeBytes_append, dropBytes_append]

/-! ## Boundaries -/

/--
Token boundaries are stable. The text of a token is that token by itself, with all that it
carries. Blanks that are put in at a boundary of the tokens, at the start or behind any of
them, change neither the tokens that count nor how the reading ends; a fatal error only
moves with its text.
-/
theorem SourceFile.token_boundaries_stable (file : SourceFile) :
    (∀ token ∈ file.lex.tokens, ∀ alone : SourceFile, alone.chars = token.span.chars →
      ∃ single, alone.lex.tokens = [single] ∧ alone.lex.ending = .endOfSource ∧
        single.kind = token.kind ∧ single.text = token.text ∧
        ∀ literal : StringLiteral, literal.toToken = token →
          ∃ own : StringLiteral, own.toToken = single ∧ own.quote = literal.quote ∧
            own.content = literal.content) ∧
    ∀ offset, file.IsTokenBoundary offset →
      ∀ blanks : List Char, (∀ c ∈ blanks, Text.isBlank c = true) →
        ∀ other : SourceFile, other.chars = Text.insertAt offset blanks file.chars →
          List.Forall₂ Token.Alike file.significantTokens other.significantTokens ∧
          other.lex.ending =
            file.lex.ending.relocate (other.shifted (Text.byteLength blanks)) := by
  constructor
  · intro token member alone text
    obtain ⟨single, tokens, ending, kind, sameText⟩ := lex_alone member text
    refine ⟨single, tokens, ending, kind, sameText, ?_⟩
    rintro literal rfl
    have isLiteral : (⟨single.span⟩ : StringLiteral).toToken = single := by
      rw [StringLiteral.toToken, ← show single.kind = .stringLiteral from kind]
    have memberToo : (⟨single.span⟩ : StringLiteral).toToken ∈ alone.lex.tokens := by
      rw [tokens, isLiteral]
      exact List.mem_cons_self
    exact ⟨⟨single.span⟩, isLiteral, StringLiteral.same_of_text memberToo member sameText⟩
  · intro offset boundary blanks blank other text
    obtain ⟨pieces, tail, fault, splits, halts⟩ := Piece.exists_splits file.chars
    obtain ⟨tokens, ending⟩ := lex_of_splits splits halts
    obtain ⟨before, after, rfl, rfl⟩ := boundary.exists_cut tokens
    obtain ⟨others, othersSplit, same⟩ := splits.countsAs_inserted halts blank
    have fileText : file.chars = textAll before ++ (textAll after ++ tail) := by
      rw [splits.text_eq, Piece.textAll_append, List.append_assoc]
    rw [fileText, Text.insertAt_append] at text
    rw [← text] at othersSplit
    constructor
    · apply Token.alike_of_map_relocate
      rw [significantTokens_alone splits halts, significantTokens_alone othersSplit halts, same]
    · have place : Text.byteLength (textAll others) =
          Text.byteLength (textAll (before ++ after)) + Text.byteLength blanks := by
        have lengths := congrArg Text.byteLength (text.symm.trans othersSplit.text_eq)
        simp only [Text.byteLength_append, Piece.textAll_append] at lengths ⊢
        omega
      rw [ending, (lex_of_splits othersSplit halts).2, place, ReadingEnd.ofFault?_shifted]

namespace TokenBoundaries

/-- Tokens that touch: a line comment, digits in front of a word, a slash, an open string. -/
def touching : SourceFile :=
  .ofText 0 "touching" "//é\n1a/'x"

/-- The same text with blanks at the end of the comment, a line end among them. -/
def padded : SourceFile :=
  .ofText 1 "padded" "//é \r\n1a/'x"

def digits : SourceFile :=
  .ofText 2 "digits" "1"

theorem touching_stable :
    touching.IsTokenBoundary 4 ∧ padded.chars = Text.insertAt 4 [' ', '\r'] touching.chars ∧
      List.Forall₂ Token.Alike touching.significantTokens padded.significantTokens ∧
      padded.lex.ending = touching.lex.ending.relocate (padded.shifted 2) ∧
      ⟨.numeric, touching, 5, 6⟩ ∈ touching.lex.tokens ∧
      ∃ single, digits.lex.tokens = [single] ∧ single.kind = .numeric := by
  obtain ⟨alone, between⟩ := SourceFile.token_boundaries_stable touching
  have boundary : touching.IsTokenBoundary 4 := .inr (by decide +kernel)
  have text : padded.chars = Text.insertAt 4 [' ', '\r'] touching.chars := by decide +kernel
  have member : ⟨.numeric, touching, 5, 6⟩ ∈ touching.lex.tokens := by decide +kernel
  have blank : ∀ c ∈ [' ', '\r'], Text.isBlank c = true :=
    List.forall_mem_cons.2 ⟨rfl, List.forall_mem_singleton.2 rfl⟩
  obtain ⟨same, ending⟩ := between 4 boundary [' ', '\r'] blank padded text
  obtain ⟨single, tokens, _, kind, _⟩ := alone _ member digits (by decide +kernel)
  exact ⟨boundary, text, same, ending, member, single, tokens, kind⟩

end TokenBoundaries

end BuildScript
