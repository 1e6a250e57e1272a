import BuildScript.Proofs.Acceptance
import BuildScript.Proofs.WrittenText

/-!
# The pieces of a text

The tokens of a text without their places. Pieces are the tokens of the text that they
make up when each is a token by itself and ends where the next one begins. So a text
can be cut between any two of its tokens, and two texts can be joined if the last token
of the first ends where the second begins, or if blanks meet there. A text that ends in a
fault has its first pieces too, up to the fault.
-/

namespace BuildScript

open Grammar (Leaf)

/-- The kind and the text of a token. -/
structure Piece where
  kind : TokenKind
  text : List Char
  deriving DecidableEq, Repr

namespace Piece

/-- The piece is a token by itself. -/
def Whole (piece : Piece) : Prop :=
  ∃ c cs, piece.text = c :: cs ∧ Lexeme.first c cs = .ok ⟨piece.kind, piece.text, []⟩

/-- The first piece ends where the second begins. -/
def Meets (before after : Piece) : Prop :=
  before.kind.EndsAt after.text

def textAll (pieces : List Piece) : List Char :=
  pieces.flatMap text

/-- The pieces are the tokens of the text that they make up. -/
structure Stable (pieces : List Piece) : Prop where
  whole : ∀ piece ∈ pieces, piece.Whole
  meets : pieces.IsChain Meets

@[simp]
theorem textAll_nil : textAll [] = [] := rfl

@[simp]
theorem textAll_cons (piece : Piece) (pieces : List Piece) :
    textAll (piece :: pieces) = piece.text ++ textAll pieces := rfl

@[simp]
theorem textAll_append (front back : List Piece) :
    textAll (front ++ back) = textAll front ++ textAll back :=
  List.flatMap_append

theorem Whole.text_ne_nil {piece : Piece} (whole : piece.Whole) : piece.text ≠ [] := by
  obtain ⟨c, cs, text, _⟩ := whole
  rw [text]
  exact List.cons_ne_nil c cs

/-- A piece ends where pieces follow, if it meets the first of them. -/
theorem endsAt_textAll_iff {pieces : List Piece} (whole : ∀ piece ∈ pieces, piece.Whole)
    (kind : TokenKind) :
    kind.EndsAt (textAll pieces) ↔ ∀ next ∈ pieces.head?, kind.EndsAt next.text := by
  cases pieces with
  | nil => simp [TokenKind.EndsAt.nil]
  | cons piece later =>
      have nonempty := (whole piece List.mem_cons_self).text_ne_nil
      rw [textAll_cons, TokenKind.endsAt_append_iff nonempty]
      simp

namespace Stable

theorem nil : Stable [] :=
  ⟨nofun, .nil⟩

/-- One step: the first piece is the first token of the whole text. -/
theorem cons_iff {piece : Piece} {pieces : List Piece} :
    Stable (piece :: pieces) ↔
      (∃ c cs, piece.text = c :: cs ∧ Lexeme.first c (cs ++ textAll pieces) =
        .ok ⟨piece.kind, piece.text, textAll pieces⟩) ∧ Stable pieces := by
  constructor
  · rintro ⟨whole, meets⟩
    obtain ⟨first, others⟩ := List.forall_mem_cons.1 whole
    obtain ⟨next, chain⟩ := List.isChain_cons.1 meets
    obtain ⟨c, cs, text, alone⟩ := first
    refine ⟨⟨c, cs, text, ?_⟩, others, chain⟩
    rw [text] at alone ⊢
    exact Lexeme.first_append_iff.2 ⟨alone, (endsAt_textAll_iff others _).2 next⟩
  · rintro ⟨⟨c, cs, text, found⟩, whole, meets⟩
    rw [text] at found
    obtain ⟨alone, ends⟩ := Lexeme.first_append_iff.1 found
    refine ⟨List.forall_mem_cons.2 ⟨⟨c, cs, text, ?_⟩, whole⟩, List.isChain_cons.2 ⟨?_, meets⟩⟩
    · rw [text]
      exact alone
    · exact (endsAt_textAll_iff whole _).1 ends

/-- A text can be cut between any two of its tokens. -/
theorem append_iff {front back : List Piece} :
    Stable (front ++ back) ↔
      Stable front ∧ Stable back ∧ ∀ last ∈ front.getLast?, last.kind.EndsAt (textAll back) := by
  constructor
  · rintro ⟨whole, meets⟩
    obtain ⟨wholeFront, wholeBack⟩ := List.forall_mem_append.1 whole
    obtain ⟨chainFront, chainBack, seam⟩ := List.isChain_append.1 meets
    exact ⟨⟨wholeFront, chainFront⟩, ⟨wholeBack, chainBack⟩,
      fun last isLast => (endsAt_textAll_iff wholeBack _).2 (seam last isLast)⟩
  · rintro ⟨first, second, seam⟩
    exact ⟨List.forall_mem_append.2 ⟨first.whole, second.whole⟩, first.meets.append second.meets
      fun last isLast => (endsAt_textAll_iff second.whole _).1 (seam last isLast)⟩

end Stable

/-! ## Pieces at a place -/

/-- The tokens of pieces that stand in a file from an offset on. -/
def tokens (file : SourceFile) : Nat → List Piece → List Token
  | _, [] => []
  | offset, piece :: later =>
      ⟨piece.kind, ⟨file, offset, offset + Text.byteLength piece.text⟩⟩ ::
        tokens file (offset + Text.byteLength piece.text) later

def significant (file : SourceFile) (offset : Nat) (pieces : List Piece) : List Token :=
  (tokens file offset pieces).filter Token.isSignificant

theorem tokens_append (file : SourceFile) (offset : Nat) (front back : List Piece) :
    tokens file offset (front ++ back) =
      tokens file offset front ++
        tokens file (offset + Text.byteLength (textAll front)) back := by
  induction front generalizing offset with
  | nil => rfl
  | cons piece later ih =>
      rw [List.cons_append, tokens, tokens, ih, List.cons_append, textAll_cons,
        Text.byteLength_append, Nat.add_assoc]

theorem significant_append (file : SourceFile) (offset : Nat) (front back : List Piece) :
    significant file offset (front ++ back) =
      significant file offset front ++
        significant file (offset + Text.byteLength (textAll front)) back := by
  rw [significant, tokens_append, List.filter_append]
  rfl

theorem significant_nil (file : SourceFile) (offset : Nat) : significant file offset [] = [] :=
  rfl

/-- Blanks do not count. -/
theorem significant_blanks (file : SourceFile) (offset : Nat) (text : List Char)
    (pieces : List Piece) :
    significant file offset (⟨.blanks, text⟩ :: pieces) =
      significant file (offset + Text.byteLength text) pieces :=
  rfl

/-! ## Joining texts -/

theorem whole_blanks_iff {text : List Char} :
    (⟨.blanks, text⟩ : Piece).Whole ↔ text ≠ [] ∧ ∀ c ∈ text, Text.isBlank c = true := by
  have alone : ∀ {c cs}, Text.isBlank c = true →
      (Lexeme.first c cs = .ok ⟨.blanks, c :: cs, []⟩ ↔ ∀ d ∈ cs, Text.isBlank d = true) := by
    intro c cs blank
    have taken : Lexeme.run .blanks Text.isBlank c (cs ++ []) = ⟨.blanks, c :: cs, []⟩ ↔ _ :=
      Lexeme.run_eq_iff
    rw [List.append_nil] at taken
    rw [Lexeme.first_of_blank blank, Except.ok.injEq, taken]
    simp
  constructor
  · rintro ⟨c, cs, rfl, found⟩
    have blank := Lexeme.isBlank_of_kind found rfl
    exact ⟨List.cons_ne_nil c cs, List.forall_mem_cons.2 ⟨blank, (alone blank).1 found⟩⟩
  · rintro ⟨nonempty, blanks⟩
    obtain ⟨c, cs, rfl⟩ := List.exists_cons_of_ne_nil nonempty
    obtain ⟨blank, others⟩ := List.forall_mem_cons.1 blanks
    exact ⟨c, cs, rfl, (alone blank).2 others⟩

/-- A piece that begins with a blank consists of blanks. -/
theorem Whole.kind_eq_blanks {piece : Piece} (whole : piece.Whole) {c : Char} {cs : List Char}
    (text : piece.text = c :: cs) (blank : Text.isBlank c = true) : piece.kind = .blanks := by
  obtain ⟨d, ds, textToo, found⟩ := whole
  obtain ⟨rfl, rfl⟩ := List.cons.inj (text.symm.trans textToo)
  rw [Lexeme.first_of_blank blank] at found
  exact (congrArg Lexeme.kind (Except.ok.inj found)).symm

theorem stable_singleton_iff {piece : Piece} : Stable [piece] ↔ piece.Whole :=
  ⟨fun stable => stable.whole piece List.mem_cons_self,
    fun whole => ⟨List.forall_mem_singleton.2 whole, .singleton piece⟩⟩

/-- Blanks that meet are one token. -/
theorem Stable.merge_blanks {front back : List Piece} {before after : List Char}
    (first : Stable (front ++ [⟨.blanks, before⟩])) (second : Stable (⟨.blanks, after⟩ :: back)) :
    Stable (front ++ ⟨.blanks, before ++ after⟩ :: back) := by
  obtain ⟨stableFront, left, seamFront⟩ := append_iff.1 first
  obtain ⟨right, stableBack, seamBack⟩ := append_iff.1 (List.singleton_append ▸ second)
  obtain ⟨nonempty, leftBlank⟩ := whole_blanks_iff.1 (stable_singleton_iff.1 left)
  obtain ⟨_, rightBlank⟩ := whole_blanks_iff.1 (stable_singleton_iff.1 right)
  have merged : Stable [⟨.blanks, before ++ after⟩] := by
    refine stable_singleton_iff.2 (whole_blanks_iff.2 ⟨by simp [nonempty], ?_⟩)
    exact List.forall_mem_append.2 ⟨leftBlank, rightBlank⟩
  refine append_iff.2 ⟨stableFront, append_iff.2 ⟨merged, stableBack, ?_⟩, ?_⟩
  · intro last isLast
    cases isLast
    exact seamBack ⟨.blanks, after⟩ rfl
  · intro last isLast
    have ends := seamFront last isLast
    rw [textAll_cons, TokenKind.endsAt_append_iff nonempty] at ends
    rw [textAll_cons, List.append_assoc, TokenKind.endsAt_append_iff nonempty]
    exact ends

/-- A text that blanks go on into begins with blanks. -/
theorem exists_blanks_of_not_endsAt {pieces : List Piece} (stable : Stable pieces)
    (goesOn : ¬TokenKind.EndsAt .blanks (textAll pieces)) :
    ∃ text later, pieces = ⟨.blanks, text⟩ :: later := by
  cases pieces with
  | nil => exact absurd (.nil .blanks) goesOn
  | cons piece later =>
      have whole := stable.whole piece List.mem_cons_self
      have ⟨c, cs, text, _⟩ := whole
      have blank : Text.isBlank c = true := by
        simpa [text, TokenKind.EndsAt, TokenKind.endsBefore] using goesOn
      have isBlanks := whole.kind_eq_blanks text blank
      exact ⟨piece.text, later, by rw [← isBlanks]⟩

/--
Two texts are joined without a change to their tokens, if the last token of the first
consists of blanks or ends where the second text begins.
-/
theorem Stable.exists_joined {front back : List Piece} (first : Stable front)
    (second : Stable back)
    (seam : ∀ last ∈ front.getLast?, last.kind = .blanks ∨ last.kind.EndsAt (textAll back)) :
    ∃ pieces, Stable pieces ∧ textAll pieces = textAll front ++ textAll back ∧
      ∀ file offset, significant file offset pieces =
        significant file offset front ++
          significant file (offset + Text.byteLength (textAll front)) back := by
  by_cases ends : ∀ last ∈ front.getLast?, last.kind.EndsAt (textAll back)
  · exact ⟨front ++ back, append_iff.2 ⟨first, second, ends⟩, textAll_append front back,
      fun file offset => significant_append file offset front back⟩
  · obtain ⟨last, isLast, goesOn⟩ : ∃ last ∈ front.getLast?, ¬last.kind.EndsAt (textAll back) := by
      simpa using ends
    obtain ⟨init, rfl⟩ := List.getLast?_eq_some_iff.1 isLast
    obtain ⟨kind, before⟩ := last
    obtain rfl : kind = .blanks := (seam _ isLast).resolve_right goesOn
    obtain ⟨after, later, rfl⟩ := exists_blanks_of_not_endsAt second goesOn
    refine ⟨init ++ ⟨.blanks, before ++ after⟩ :: later, first.merge_blanks second, ?_, ?_⟩
    · simp [List.append_assoc]
    · intro file offset
      simp only [significant_append, significant_blanks, significant_nil, textAll_append,
        textAll_cons, textAll_nil, Text.byteLength_append, List.append_nil, Nat.add_assoc]

end Piece

/-! ## The first pieces of a text -/

/-- No token stands in front of the text: it is empty, or begins with a fault. -/
inductive Text.Halts : List Char → Option LexicalFault → Prop where
  | done : Halts [] none
  | fault {c : Char} {cs : List Char} {fault : LexicalFault}
      (failed : Lexeme.first c cs = .error fault) : Halts (c :: cs) (some fault)

namespace Piece

/-- The pieces are the first tokens of the text, and the tail is left behind them. -/
inductive Splits : List Char → List Piece → List Char → Prop where
  | done (text : List Char) : Splits text [] text
  | piece {c : Char} {cs : List Char} {lexeme : Lexeme} {pieces : List Piece} {tail : List Char}
      (found : Lexeme.first c cs = .ok lexeme) (later : Splits lexeme.rest pieces tail) :
      Splits (c :: cs) (⟨lexeme.kind, lexeme.text⟩ :: pieces) tail

/-- The first piece is the first token of the text. -/
theorem Splits.cons_cases {text tail : List Char} {piece : Piece} {pieces : List Piece}
    (splits : Splits text (piece :: pieces) tail) :
    ∃ c cs lexeme, text = c :: cs ∧ Lexeme.first c cs = .ok lexeme ∧
      piece = ⟨lexeme.kind, lexeme.text⟩ ∧ Splits lexeme.rest pieces tail := by
  cases splits with
  | piece found later => exact ⟨_, _, _, rfl, found, rfl, later⟩

theorem Splits.text_eq {text tail : List Char} {pieces : List Piece}
    (splits : Splits text pieces tail) : text = textAll pieces ++ tail := by
  induction splits with
  | done text => rfl
  | piece found later ih =>
      rw [textAll_cons, List.append_assoc, ← ih]
      exact (Lexeme.first_append found).symm

/-- Stable pieces are all tokens of their text. -/
theorem Stable.splits {pieces : List Piece} (stable : Stable pieces) :
    Splits (textAll pieces) pieces [] := by
  induction pieces with
  | nil => exact .done []
  | cons piece later ih =>
      obtain ⟨⟨c, cs, text, found⟩, stableLater⟩ := cons_iff.1 stable
      rw [textAll_cons, text, List.cons_append]
      exact .piece found (ih stableLater)

/-- Every text has first tokens, up to where it halts. -/
theorem exists_splits (text : List Char) :
    ∃ pieces tail fault, Splits text pieces tail ∧ Text.Halts tail fault := by
  induction size : text.length using Nat.strongRecOn generalizing text with
  | ind size ih =>
      subst size
      cases text with
      | nil => exact ⟨[], [], none, .done [], .done⟩
      | cons c cs =>
          cases found : Lexeme.first c cs with
          | error fault => exact ⟨[], c :: cs, some fault, .done _, .fault found⟩
          | ok lexeme =>
              obtain ⟨pieces, tail, fault, splits, halts⟩ :=
                ih _ (Lexeme.first_rest_length_lt found) lexeme.rest rfl
              exact ⟨_, tail, fault, .piece found splits, halts⟩

end Piece

/-! ## The pieces of a file -/

open Piece (Splits Stable textAll textAll_cons textAll_nil)

/-- How a reading ends at an offset of a file, given the fault that stands there. -/
def ReadingEnd.ofFault? (file : SourceFile) (offset : Nat) : Option LexicalFault → ReadingEnd
  | none => .endOfSource
  | some fault => .fatal (fault.error file offset)

/-- A reader takes the pieces of its text one after another, up to where the text halts. -/
theorem Reader.tokens_of_splits {pieces : List Piece} {text tail : List Char}
    (splits : Splits text pieces tail) {fault : Option LexicalFault} (halts : Text.Halts tail fault)
    {reader : Reader} {front : List Char} (behind : reader.Behind front)
    (left : reader.rest = text) :
    reader.tokens.tokens = Piece.tokens reader.file (Text.byteLength front) pieces ∧
      reader.tokens.ending =
        .ofFault? reader.file (Text.byteLength (front ++ textAll pieces)) fault := by
  induction splits generalizing reader front with
  | done text =>
      rw [textAll_nil, List.append_nil]
      cases halts with
      | done =>
          have step : reader.next = (.error .endOfSource, reader) := by rw [Reader.next, left]
          rw [Reader.tokens_of_error step]
          exact ⟨rfl, rfl⟩
      | fault failed =>
          have step := Reader.next_of_fault behind left failed
          rw [Reader.tokens_of_error step]
          exact ⟨rfl, rfl⟩
  | @piece c cs lexeme pieces tail found later ih =>
      obtain ⟨after, step, moved, rest⟩ := Reader.next_of_first behind left found
      have fileEq : after.file = reader.file := by
        rcases Reader.next_cases behind step with
          ⟨_, _, _, _, _, _, same, _⟩ | ⟨_, _, _, same, _⟩ <;> exact same
      obtain ⟨tokens, ending⟩ := ih halts moved rest
      rw [Reader.tokens_of_ok step, tokens, ending, fileEq, textAll_cons, ← List.append_assoc]
      refine ⟨?_, rfl⟩
      rw [Text.byteLength_append]
      rfl

/-- A reading up to the end of the text takes stable pieces. -/
theorem SourceFile.Reads.exists_stable {file : SourceFile} {front last : List Char}
    {tokens : List Token} (reads : file.Reads front tokens last) (whole : file.chars = last) :
    ∃ pieces, Stable pieces ∧ file.chars = front ++ textAll pieces := by
  induction reads with
  | done front => exact ⟨[], .nil, by rw [whole]; exact (List.append_nil front).symm⟩
  | @token front cs last c lexeme tokens text found later ih =>
      obtain ⟨pieces, stable, rest⟩ := ih whole
      have split := Lexeme.first_append found
      have restEq : lexeme.rest = textAll pieces := by
        rw [text, ← split, List.append_assoc] at rest
        exact List.append_cancel_left (List.append_cancel_left rest)
      obtain ⟨body, bodyText, csEq, _⟩ := Lexeme.first_cases found
      refine ⟨⟨lexeme.kind, lexeme.text⟩ :: pieces, Stable.cons_iff.2 ⟨⟨c, body, bodyText, ?_⟩,
        stable⟩, by rw [Piece.textAll_cons, ← List.append_assoc, ← rest]⟩
      rw [← restEq, ← csEq, found]

namespace SourceFile

variable {file : SourceFile}

/-- The tokens of a file whose text is split into pieces up to where it halts. -/
theorem lex_of_splits {pieces : List Piece} {tail : List Char} {fault : Option LexicalFault}
    (splits : Splits file.chars pieces tail) (halts : Text.Halts tail fault) :
    file.lex.tokens = Piece.tokens file 0 pieces ∧
      file.lex.ending = .ofFault? file (Text.byteLength (textAll pieces)) fault :=
  Reader.tokens_of_splits splits halts (.ofFile file) rfl

/-- The tokens of a file whose text is made up of stable pieces. -/
theorem lex_of_stable {pieces : List Piece} (stable : Stable pieces)
    (text : file.chars = textAll pieces) :
    file.lex.ending = .endOfSource ∧ file.lex.tokens = Piece.tokens file 0 pieces :=
  (lex_of_splits (text ▸ stable.splits) .done).symm

theorem exists_stable_of_lex (ending : file.lex.ending = .endOfSource) :
    ∃ pieces, Stable pieces ∧ file.chars = textAll pieces := by
  obtain ⟨last, reads, ends, _⟩ := file.lex_reads
  rw [ending] at ends
  cases ends with
  | endOfSource text => exact reads.exists_stable text

/-- The delimiters of a sentence of the grammar are all closed. -/
theorem trees_reports_of_reads {script : Script} (ending : file.lex.ending = .endOfSource)
    (reads : List.Forall₂ Leaf.Reads script.leaves file.significantTokens) :
    file.trees.reports = [] := by
  obtain ⟨trees, _, nested, same⟩ := Grammar.Shape.ReadsAll.exists_spellsAll reads
  have condensed : Nesting.ofTokens (Token.condenseAll id file.lex.tokens) = _ :=
    Nesting.ofTokens_condenseAll file.lex.tokens
  have regrouped := Nesting.ofTokens_flattenAll nested
  rw [same] at regrouped
  rw [Token.condenseAll_id] at condensed
  have silent := congrArg Nesting.Forest.reports (condensed.symm.trans regrouped)
  have closed : (Nesting.ofTokens file.lex.tokens).reports = [] := List.map_eq_nil_iff.1 silent
  rw [SourceFile.trees, ending, closed]
  rfl

/-- A file is read as a script whose leaves keep the significant ones of its stable pieces. -/
theorem parse_result_eq_ok_iff_pieces {script : Script} :
    file.parse.result = .ok script ↔
      ∃ pieces, Stable pieces ∧ file.chars = textAll pieces ∧
        List.Forall₂ Leaf.Reads script.leaves (Piece.significant file 0 pieces) := by
  rw [file.parse_result_eq_ok_iff, file.tokenize_reports_eq_nil_iff]
  constructor
  · rintro ⟨clean, reads⟩
    have ending : file.lex.ending = .endOfSource := by
      have silent : file.lex.ending.reports = [] := (List.append_eq_nil_iff.1 clean).1
      cases same : file.lex.ending with
      | endOfSource => rfl
      | fatal error =>
          rw [same] at silent
          cases silent
    obtain ⟨pieces, stable, text⟩ := exists_stable_of_lex ending
    rw [significantTokens, (lex_of_stable stable text).2] at reads
    exact ⟨pieces, stable, text, reads⟩
  · rintro ⟨pieces, stable, text, reads⟩
    obtain ⟨ending, tokens⟩ := lex_of_stable stable text
    rw [Piece.significant, ← tokens] at reads
    exact ⟨trees_reports_of_reads ending reads, reads⟩

end SourceFile

end BuildScript
