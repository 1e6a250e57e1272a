import BuildScript.Proofs.NodeSpans
import BuildScript.Proofs.Placement

/-!
# Scripts one after another

Two scripts with a newline between them are one script, with the declarations of the
first in front of those of the second. A script can be cut behind any of its
declarations, and both parts are scripts again. The spans of the second part are those
that it has by itself, shifted by what stands in front of it.
-/

namespace BuildScript

open Grammar (Leaf Shape)
open Piece (Stable significant textAll tokens)

/-- The length of a text in bytes is that of the string. -/
theorem Text.byteLength_eq_utf8ByteSize (cs : List Char) :
    Text.byteLength cs = (String.ofList cs).utf8ByteSize := by
  induction cs with
  | nil => rfl
  | cons c cs ih =>
      rw [String.ofList_cons, String.utf8ByteSize_append, String.utf8ByteSize_singleton, ← ih]
      rfl

/-- The span in a file in which it stands behind that many more bytes. -/
def SourceFile.shifted (file : SourceFile) (shift : Nat) (span : Span) : Span :=
  ⟨file, span.start + shift, span.stop + shift⟩

/-- The declarations of a script as they stand in a file behind the given number of bytes. -/
def Script.behind (script : Script) (file : SourceFile) (shift : Nat) : List Declaration :=
  (script.relocate (file.shifted shift)).declarations

theorem MovesPlace.shifted (part whole : SourceFile) (shift : Nat) :
    MovesPlace (whole.shifted shift) part 0 whole shift := by
  intro start stop
  simp only [SourceFile.shifted, Span.mk.injEq, true_and]
  omega

/-! ## Scripts as parts of a file -/

namespace SourceFile

variable {whole part : SourceFile} {script : Script}

theorem stand_of_chars {pieces : List Piece} (text : part.chars = textAll pieces) :
    Piece.Stand part 0 pieces :=
  ⟨[], [], by rw [text]; simp, rfl⟩

/-- A script of its own keeps its pieces wherever they stand. -/
theorem exists_keeps_behind (parsed : part.parse.result = .ok script) :
    ∃ pieces, Stable pieces ∧ part.chars = textAll pieces ∧
      ∀ {file shift}, Piece.Stand file shift pieces →
        Script.Keeps ⟨script.behind file shift⟩ file shift pieces := by
  obtain ⟨pieces, stable, text, reads⟩ := parse_result_eq_ok_iff_pieces.1 parsed
  refine ⟨pieces, stable, text, fun {file shift} there => ?_⟩
  exact Script.Keeps.relocate ⟨stand_of_chars text, reads⟩ there (.shifted part file shift)

/-- Pieces of a file that a script keeps are a script of their own. -/
theorem exists_parse_part {pieces : List Piece} (stable : Stable pieces) {shift : Nat}
    (keeps : script.Keeps whole shift pieces) (text : part.chars = textAll pieces) :
    ∃ own, part.parse.result = .ok own ∧ own.behind whole shift = script.declarations := by
  obtain ⟨back, movesBack⟩ := MovesPlace.exists_move whole shift part 0
  have moved := keeps.relocate (stand_of_chars text) movesBack
  have again := moved.relocate keeps.stand (.shifted part whole shift)
  refine ⟨_, parse_result_eq_ok_iff_pieces.2 ⟨pieces, stable, text, moved.reads⟩, ?_⟩
  exact congrArg Script.declarations (Script.eq_of_reads again.reads keeps.reads)

/-- Scripts that keep pieces one after another make up the script of the file. -/
theorem parse_of_keeps {first second : Script} {front back pieces : List Piece} {shift : Nat}
    (stable : Stable pieces) (text : whole.chars = textAll pieces)
    (splits : significant whole 0 pieces =
      significant whole 0 front ++ significant whole shift back)
    (keepsFirst : first.Keeps whole 0 front) (keepsSecond : second.Keeps whole shift back) :
    whole.parse.result = .ok ⟨first.declarations ++ second.declarations⟩ := by
  refine parse_result_eq_ok_iff_pieces.2 ⟨pieces, stable, text, ?_⟩
  rw [Script.leaves_append, splits]
  exact List.rel_append keepsFirst.reads keepsSecond.reads

end SourceFile

/-! ## Joining -/

/-- Any token but blanks ends before a newline. -/
theorem TokenKind.endsBefore_newline (kind : TokenKind) :
    kind = .blanks ∨ kind.endsBefore '\n' = true := by
  rcases kind.endsBefore_blank (show Text.isBlank '\n' = true from rfl) with
    isBlanks | rfl | ends
  · exact .inl isBlanks
  · exact .inr rfl
  · exact .inr ends

/-- Two scripts with a newline between them are one script. -/
theorem SourceFile.parse_joined {front back whole : SourceFile} {first second : Script}
    (parsedFirst : front.parse.result = .ok first)
    (parsedSecond : back.parse.result = .ok second)
    (text : whole.chars = front.chars ++ '\n' :: back.chars) :
    whole.parse.result =
      .ok ⟨first.behind whole 0 ++ second.behind whole (front.byteLength + 1)⟩ := by
  obtain ⟨before, stableBefore, frontText, keepsBefore⟩ := exists_keeps_behind parsedFirst
  obtain ⟨after, stableAfter, backText, keepsAfter⟩ := exists_keeps_behind parsedSecond
  have newline : Stable [⟨.blanks, ['\n']⟩] :=
    Piece.stable_singleton_iff.2
      (Piece.whole_blanks_iff.2 ⟨List.cons_ne_nil _ _, List.forall_mem_singleton.2 rfl⟩)
  -- The newline takes in the blanks in front of the second script; only blanks that end the
  -- first one could go on into it.
  obtain ⟨later, stableLater, laterText, laterSignificant⟩ :=
    newline.exists_joined stableAfter fun last isLast => .inl (by cases isLast; rfl)
  obtain ⟨pieces, stable, piecesText, splits⟩ := stableBefore.exists_joined stableLater (by
    intro last _
    rw [laterText]
    exact (last.kind.endsBefore_newline).imp_right TokenKind.endsAt_cons_iff.2)
  have wholeText : whole.chars = textAll pieces := by
    rw [text, piecesText, laterText, frontText, backText]
    rfl
  have here : Piece.Stand whole 0 before :=
    ⟨[], '\n' :: back.chars, by rw [text, frontText]; rfl, rfl⟩
  have there : Piece.Stand whole (front.byteLength + 1) after := by
    refine ⟨front.chars ++ ['\n'], [], ?_, ?_⟩
    · rw [text, backText, List.append_nil, List.append_assoc, List.singleton_append]
    · rw [Text.byteLength_append]
      rfl
  refine parse_of_keeps stable wholeText ?_ (keepsBefore here) (keepsAfter there)
  rw [splits, laterSignificant, Piece.significant_blanks, Piece.significant_nil, List.nil_append,
    Nat.zero_add, ← frontText]
  rfl

/-! ## Cutting -/

namespace Piece

variable {file : SourceFile} {offset : Nat} {pieces : List Piece} {before after : List Token}
  {token : Token}

/-- The piece of a token, with the pieces in front of it and those behind it. -/
theorem exists_of_tokens_eq (same : tokens file offset pieces = before ++ token :: after) :
    ∃ front piece back, pieces = front ++ piece :: back ∧ tokens file offset front = before ∧
      token = ⟨piece.kind, ⟨file, offset + Text.byteLength (textAll front),
        offset + Text.byteLength (textAll front ++ piece.text)⟩⟩ ∧
      tokens file (offset + Text.byteLength (textAll front ++ piece.text)) back = after := by
  induction before generalizing offset pieces with
  | nil =>
      cases pieces with
      | nil => cases same
      | cons piece later =>
          obtain ⟨first, others⟩ := List.cons.inj same
          exact ⟨[], piece, later, rfl, rfl, first.symm, others⟩
  | cons first before ih =>
      cases pieces with
      | nil => cases same
      | cons piece later =>
          obtain ⟨rfl, others⟩ := List.cons.inj same
          obtain ⟨front, found, back, rfl, frontEq, tokenEq, backEq⟩ := ih others
          refine ⟨piece :: front, found, back, rfl, by rw [tokens, frontEq], ?_, ?_⟩
          · rw [tokenEq, textAll_cons, List.append_assoc]
            simp only [Text.byteLength_append, Nat.add_assoc]
          · rw [← backEq, textAll_cons, List.append_assoc]
            simp only [Text.byteLength_append, Nat.add_assoc]

/-- The pieces can be cut at a token that counts. -/
theorem exists_cut (same : significant file offset pieces = before ++ token :: after) :
    ∃ front piece back, pieces = front ++ piece :: back ∧
      significant file offset front = before ∧ piece.kind.isSignificant = true ∧
      token = ⟨piece.kind, ⟨file, offset + Text.byteLength (textAll front),
        offset + Text.byteLength (textAll front ++ piece.text)⟩⟩ ∧
      significant file (offset + Text.byteLength (textAll front ++ piece.text)) back = after := by
  obtain ⟨first, others, firstEq, isBefore, isRest⟩ := List.filter_eq_append_iff.1 same
  obtain ⟨passed, later, othersEq, insignificant, counts, isAfter⟩ :=
    List.filter_eq_cons_iff.1 isRest
  rw [othersEq, ← List.append_assoc] at firstEq
  obtain ⟨front, piece, back, rfl, frontEq, rfl, rfl⟩ := exists_of_tokens_eq firstEq
  refine ⟨front, piece, back, rfl, ?_, counts, rfl, isAfter⟩
  rw [significant, frontEq, List.filter_append, isBefore, List.filter_eq_nil_iff.2 insignificant,
    List.append_nil]

end Piece

/-- What covers tokens is a matter of their spans. -/
theorem SourceFile.Covers.of_spans {file : SourceFile} {tokens others : List Token} {span : Span}
    (covers : file.Covers others span) (same : tokens.map Token.span = others.map Token.span) :
    file.Covers tokens span := by
  obtain ⟨first, last, isFirst, isLast, rfl⟩ := covers
  have heads := congrArg List.head? same
  have lasts := congrArg List.getLast? same
  rw [List.head?_map, List.head?_map, isFirst] at heads
  rw [List.getLast?_map, List.getLast?_map, isLast] at lasts
  obtain ⟨start, isStart, startEq⟩ := Option.map_eq_some_iff.1 heads
  obtain ⟨stop, isStop, stopEq⟩ := Option.map_eq_some_iff.1 lasts
  exact ⟨start, stop, isStart, isStop, by rw [startEq, stopEq]⟩

/-- The pieces can be cut in front of and behind tokens that a span covers. -/
theorem Piece.exists_sections {file : SourceFile} {pieces : List Piece} {span : Span}
    {before middle after : List Token}
    (same : significant file 0 pieces = before ++ (middle ++ after))
    (covers : file.Covers middle span) :
    ∃ front inside back, pieces = front ++ (inside ++ back) ∧
      Text.byteLength (textAll front) = span.start ∧
      Text.byteLength (textAll front ++ textAll inside) = span.stop ∧
      significant file 0 front = before ∧ significant file span.start inside = middle ∧
      significant file span.stop back = after ∧
      ∀ piece ∈ inside.head?, piece.kind.isSignificant = true := by
  obtain ⟨first, last, isFirst, isLast, rfl⟩ := covers
  obtain ⟨others, fromFirst⟩ := List.head?_eq_some_iff.1 isFirst
  obtain ⟨earlier, toLast⟩ := List.getLast?_eq_some_iff.1 isLast
  -- The first cut is in front of the first of these tokens, the second behind the last one.
  have atFirst : significant file 0 pieces = before ++ first :: (others ++ after) := by
    rw [same, fromFirst, List.cons_append]
  obtain ⟨front, piece, rest, rfl, frontEq, counts, rfl, _⟩ := exists_cut atFirst
  rw [significant_append, frontEq] at same
  have fromThere := List.append_cancel_left same
  have atLast : significant file (0 + Text.byteLength (textAll front)) (piece :: rest) =
      earlier ++ last :: after := by
    rw [fromThere, toLast, List.append_assoc, List.singleton_append]
  obtain ⟨init, final, back, restEq, _, _, rfl, backEq⟩ := exists_cut atLast
  have insideBack : piece :: rest = (init ++ [final]) ++ back := by rw [restEq]; simp
  have insideText : textAll (init ++ [final]) = textAll init ++ final.text := by simp
  refine ⟨front, init ++ [final], back, by rw [insideBack], (Nat.zero_add _).symm, ?_, frontEq, ?_,
    backEq, ?_⟩
  · rw [insideText, Text.byteLength_append, Nat.zero_add]
  · rw [insideBack, significant_append, insideText, backEq] at fromThere
    exact List.append_cancel_right fromThere
  · intro head isHead
    have atStart : (piece :: rest).head? = some head := by
      rw [insideBack, List.head?_append_of_ne_nil _ (by simp)]
      exact isHead
    cases atStart
    exact counts

/--
The pieces of a file in front of one of its declarations, those of the declaration, and
those behind it.
-/
structure SourceFile.Sections (file : SourceFile) (before : List Declaration)
    (declaration : Declaration) (after : List Declaration) (span : Span)
    (front inside back : List Piece) : Prop where
  stable : Stable (front ++ (inside ++ back))
  text : file.chars = textAll front ++ (textAll inside ++ textAll back)
  start : Text.byteLength (textAll front) = span.start
  stop : Text.byteLength (textAll front ++ textAll inside) = span.stop
  keepsBefore : Script.Keeps ⟨before⟩ file 0 front
  keepsDeclaration : Script.Keeps ⟨[declaration]⟩ file span.start inside
  keepsAfter : Script.Keeps ⟨after⟩ file span.stop back
  /-- Nothing that does not count stands in front of the declaration's first token. -/
  begins : ∀ piece ∈ inside.head?, piece.kind.isSignificant = true

/-- A script can be cut in front of and behind any of its declarations. -/
theorem SourceFile.exists_sections {file : SourceFile} {script : Script}
    {before after : List Declaration} {declaration : Declaration}
    (parsed : file.parse.result = .ok script)
    (split : script.declarations = before ++ declaration :: after) :
    ∃ span front inside back, declaration.span? = some span ∧
      file.Sections before declaration after span front inside back := by
  obtain ⟨pieces, stable, text, reads⟩ := parse_result_eq_ok_iff_pieces.1 parsed
  have member : .declaration declaration ∈ script.nodes :=
    List.mem_map_of_mem (by rw [split]; simp)
  obtain ⟨span, isSpan, _, covers⟩ := (sited_of_hasNode parsed (.declaration member)).covers
  rw [Script.leaves_of_split split] at reads
  obtain ⟨tokensBefore, _, same, readsBefore, readsRest⟩ := Shape.forall₂_append_iff.1 reads
  obtain ⟨tokensInside, tokensAfter, rfl, readsInside, readsAfter⟩ :=
    Shape.forall₂_append_iff.1 readsRest
  have coversInside : file.Covers tokensInside span := by
    refine covers.of_spans ?_
    rw [← Leaf.Reads.spans_eq readsInside, Script.leaves_singleton]
    exact (List.map_map ..).symm
  obtain ⟨front, inside, back, rfl, start, stop, rfl, rfl, rfl, begins⟩ :=
    Piece.exists_sections same coversInside
  rw [Piece.textAll_append, Piece.textAll_append] at text
  refine ⟨span, front, inside, back, isSpan, stable, text, start, stop, ⟨?_, readsBefore⟩,
    ⟨?_, readsInside⟩, ⟨?_, readsAfter⟩, begins⟩
  · exact ⟨[], _, text, rfl⟩
  · exact ⟨textAll front, textAll back, text, start⟩
  · exact ⟨textAll front ++ textAll inside, [], by rw [text]; simp, stop⟩

/-- A script that is cut behind one of its declarations gives two scripts. -/
theorem SourceFile.exists_parse_cut {whole : SourceFile} {script : Script}
    {before after : List Declaration} {declaration : Declaration}
    (parsed : whole.parse.result = .ok script)
    (split : script.declarations = before ++ declaration :: after) :
    ∃ span first second, declaration.span? = some span ∧ whole.chars = first ++ second ∧
      Text.byteLength first = span.stop ∧
      ∀ front back : SourceFile, front.chars = first → back.chars = second →
        ∃ firstScript secondScript, front.parse.result = .ok firstScript ∧
          back.parse.result = .ok secondScript ∧
          firstScript.behind whole 0 = before ++ [declaration] ∧
          secondScript.behind whole span.stop = after := by
  obtain ⟨span, head, inside, tail, isSpan, sections⟩ := exists_sections parsed split
  obtain ⟨stableFirst, stableSecond, _⟩ :=
    Stable.append_iff.1 (List.append_assoc head inside tail ▸ sections.stable)
  have keepsFirst : Script.Keeps ⟨before ++ [declaration]⟩ whole 0 (head ++ inside) := by
    refine ⟨⟨[], textAll tail, by rw [sections.text]; simp, rfl⟩, ?_⟩
    rw [Script.leaves_append, Piece.significant_append, Nat.zero_add, sections.start]
    exact List.rel_append sections.keepsBefore.reads sections.keepsDeclaration.reads
  refine ⟨span, textAll head ++ textAll inside, textAll tail, isSpan,
    by rw [sections.text, List.append_assoc], sections.stop, ?_⟩
  intro front back frontText backText
  obtain ⟨firstScript, parsedFirst, sameFirst⟩ :=
    exists_parse_part stableFirst keepsFirst (by rw [frontText, Piece.textAll_append])
  obtain ⟨secondScript, parsedSecond, sameSecond⟩ :=
    exists_parse_part stableSecond sections.keepsAfter backText
  exact ⟨firstScript, secondScript, parsedFirst, parsedSecond, sameFirst, sameSecond⟩

/-! ## Texts -/

/--
Scripts compose. The script that consists of two scripts and a newline between them has
the declarations of the first script and then those of the second, whose spans are
shifted by the bytes of the first and the newline. A script that is cut behind the span of
a declaration gives two scripts; the first has the declarations up to that one, the
second has the others, with spans that are those of the whole script once they are
shifted by the bytes of the first.
-/
theorem Script.scripts_compose (identifier firstName secondName : String) :
    (∀ (first second : String) (firstScript secondScript : Script),
      (Script.parse firstName first).result = .ok firstScript →
      (Script.parse secondName second).result = .ok secondScript →
        let whole := SourceFile.ofText 0 identifier (first ++ "\n" ++ second)
        (Script.parse identifier (first ++ "\n" ++ second)).result =
          .ok ⟨firstScript.behind whole 0 ++
            secondScript.behind whole (first.utf8ByteSize + 1)⟩) ∧
    ∀ (text : String) (script : Script), (Script.parse identifier text).result = .ok script →
      ∀ before declaration after, script.declarations = before ++ declaration :: after →
        let whole := SourceFile.ofText 0 identifier text
        ∃ span first second firstScript secondScript,
          declaration.span? = some span ∧
          text = first ++ second ∧ first.utf8ByteSize = span.stop ∧
          (Script.parse firstName first).result = .ok firstScript ∧
          (Script.parse secondName second).result = .ok secondScript ∧
          firstScript.behind whole 0 = before ++ [declaration] ∧
          secondScript.behind whole span.stop = after := by
  constructor
  · intro first second firstScript secondScript parsedFirst parsedSecond whole
    have text : whole.chars = first.toList ++ '\n' :: second.toList := by
      simp [whole, SourceFile.ofText]
    have joined := SourceFile.parse_joined parsedFirst parsedSecond text
    rw [SourceFile.byteLength, Text.byteLength_eq_utf8ByteSize] at joined
    rw [SourceFile.ofText, String.ofList_toList] at joined
    exact joined
  · intro text script parsed before declaration after split whole
    obtain ⟨span, first, second, isSpan, wholeText, stop, parts⟩ :=
      SourceFile.exists_parse_cut parsed split
    obtain ⟨firstScript, secondScript, parsedFirst, parsedSecond, sameFirst, sameSecond⟩ :=
      parts (.ofText 0 firstName (String.ofList first))
        (.ofText 0 secondName (String.ofList second)) String.toList_ofList String.toList_ofList
    refine ⟨span, String.ofList first, String.ofList second, firstScript, secondScript, isSpan,
      ?_, ?_, parsedFirst, parsedSecond, sameFirst, sameSecond⟩
    · rw [← String.ofList_append, ← wholeText]
      exact String.ofList_toList.symm
    · rw [← Text.byteLength_eq_utf8ByteSize]
      exact stop

namespace Composition

def commented : String :=
  "plugins\x7b\x7d//é"

def indented : String :=
  "\ttasks.register('t')\x7b\x7d"

theorem exists_single {identifier text : String}
    (single : (Script.parse identifier text).result.toOption.map (·.declarations.length) = some 1) :
    ∃ declaration, (Script.parse identifier text).result = .ok ⟨[declaration]⟩ := by
  cases parsed : (Script.parse identifier text).result with
  | error error =>
      rw [parsed] at single
      cases single
  | ok script =>
      rw [parsed] at single
      obtain ⟨declaration, only⟩ := List.length_eq_one_iff.1 (Option.some.inj single)
      exact ⟨declaration, by rw [← only]⟩

theorem commented_then_indented :
    ∃ first second one other,
      (Script.parse "first" commented).result = .ok ⟨[first]⟩ ∧
      (Script.parse "second" indented).result = .ok ⟨[second]⟩ ∧
      (Script.parse "both" (commented ++ "\n" ++ indented)).result = .ok ⟨[one, other]⟩ ∧
      ∃ span front back frontScript backScript, one.span? = some span ∧
        commented ++ "\n" ++ indented = front ++ back ∧ front.utf8ByteSize = span.stop ∧
        (Script.parse "first" front).result = .ok frontScript ∧
        (Script.parse "second" back).result = .ok backScript := by
  have single : (Script.parse "first" commented).result.toOption.map (·.declarations.length) =
      some 1 := by
    decide +kernel
  have singleToo : (Script.parse "second" indented).result.toOption.map
      (·.declarations.length) = some 1 := by
    decide +kernel
  obtain ⟨first, parsedFirst⟩ := exists_single single
  obtain ⟨second, parsedSecond⟩ := exists_single singleToo
  obtain ⟨joins, cuts⟩ := Script.scripts_compose "both" "first" "second"
  have joined := joins commented indented _ _ parsedFirst parsedSecond
  obtain ⟨span, front, back, frontScript, backScript, isSpan, text, stop, parsedFront,
    parsedBack, _⟩ := cuts _ _ joined [] _ _ rfl
  exact ⟨first, second, _, _, parsedFirst, parsedSecond, joined, span, front, back, frontScript,
    backScript, isSpan, text, stop, parsedFront, parsedBack⟩

end Composition

end BuildScript
