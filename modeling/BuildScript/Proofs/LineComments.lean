import BuildScript.Proofs.LineColumns

/-!
# Comments end with their lines

The lexer runs over a line comment up to a character that ends a line, and the line table is
cut at terminators. Both find the same ends: a line comment lies in one line of the table, and
stops where the terminator of that line begins, or with the file if the line has none.
-/

namespace BuildScript

namespace Text

/-- A line is over in front of the text: the text is empty, or its first character ends a line. -/
def LineOver (rest : List Char) : Prop :=
  ∀ c ∈ rest.head?, isLineEnd c = true

theorem LineOver.nil : LineOver [] := by
  intro c isNext
  cases isNext

theorem Terminator.lineOver {terminator rest : List Char} (ends : Terminator terminator rest) :
    LineOver (terminator ++ rest) := by
  intro c isNext
  cases ends <;> cases isNext <;> rfl

/-- The walk to the end of a line takes characters that end none, and stops where it is over. -/
theorem lineOver_dropWhile (cs : List Char) : LineOver (cs.dropWhile fun c => !isLineEnd c) := by
  intro c isNext
  have stops := List.head?_dropWhile_not (fun c => !isLineEnd c) cs
  rw [Option.mem_def.1 isNext] at stops
  simpa using stops

theorem unbroken_takeWhile (cs : List Char) : Unbroken (cs.takeWhile fun c => !isLineEnd c) := by
  intro c member
  simpa using List.all_eq_true.1 List.all_takeWhile c member

/-- There is one way to cut a text where its first line is over. -/
theorem Unbroken.eq_of_append_eq {first second firstRest secondRest : List Char}
    (firstUnbroken : Unbroken first) (secondUnbroken : Unbroken second)
    (firstOver : LineOver firstRest) (secondOver : LineOver secondRest)
    (same : first ++ firstRest = second ++ secondRest) :
    first = second ∧ firstRest = secondRest := by
  have walked : ∀ {piece rest : List Char}, Unbroken piece → LineOver rest →
      (piece ++ rest).takeWhile (fun c => !isLineEnd c) = piece := by
    intro piece rest unbroken ended
    have stops : rest.takeWhile (fun c => !isLineEnd c) = [] := by
      cases rest with
      | nil => rfl
      | cons c cs => rw [List.takeWhile_cons_of_neg (by simp [ended c rfl])]
    rw [List.takeWhile_append_of_pos (fun c member => by simp [unbroken c member]), stops,
      List.append_nil]
  have pieces : first = second := by
    rw [← walked firstUnbroken firstOver, same, walked secondUnbroken secondOver]
  subst pieces
  exact ⟨rfl, List.append_cancel_left same⟩

/-- The terminator is one that stands in front of later lines, or empty if there are none. -/
def EndsWith (terminator : List Char) (later : List (List Char)) : Prop :=
  (later ≠ [] ∧ Terminator terminator later.flatten) ∨ (later = [] ∧ terminator = [])

theorem EndsWith.lineOver {terminator : List Char} {later : List (List Char)}
    (ends : EndsWith terminator later) : LineOver (terminator ++ later.flatten) := by
  rcases ends with ⟨_, terminates⟩ | ⟨rfl, rfl⟩
  · exact terminates.lineOver
  · exact .nil

theorem EndsWith.isLineEnd_of_mem {terminator : List Char} {later : List (List Char)}
    (ends : EndsWith terminator later) : ∀ c ∈ terminator, isLineEnd c = true := by
  rcases ends with ⟨_, terminates⟩ | ⟨_, rfl⟩
  · cases terminates <;> simp [isLineEnd]
  · simp

/-- Every line is characters that end none, and a terminator behind them unless it is the last. -/
theorem AreLines.exists_endsWith {before after : List (List Char)} {line : List Char}
    (areLines : AreLines (before ++ line :: after)) :
    ∃ inner terminator, line = inner ++ terminator ∧ Unbroken inner ∧
      EndsWith terminator after := by
  by_cases more : after = []
  · subst more
    exact ⟨line, [], (List.append_nil line).symm, areLines.unbroken, .inr ⟨rfl, rfl⟩⟩
  · obtain ⟨inner, terminator, same, unbroken, terminates⟩ := areLines.terminated more
    exact ⟨inner, terminator, same, unbroken, .inl ⟨more, terminates⟩⟩

end Text

namespace SourceFile

variable {file : SourceFile}

/-- A span that lies in a line meets no other. -/
theorem line_unique {index other : Nat} {range otherRange : ByteRange} {span : Span}
    (found : file.lineRanges[index]? = some range)
    (inside : range.start ≤ span.start ∧ span.stop ≤ range.stop)
    (otherFound : file.lineRanges[other]? = some otherRange)
    (meets : otherRange.start < span.stop ∧ span.start < otherRange.stop) : other = index := by
  obtain ⟨bound, rfl⟩ := List.getElem?_eq_some_iff.1 found
  obtain ⟨otherBound, rfl⟩ := List.getElem?_eq_some_iff.1 otherFound
  have apart := List.pairwise_iff_getElem.1 file.lineRanges_pairwise
  rcases Nat.lt_trichotomy other index with earlier | same | later
  · have order := apart other index otherBound bound earlier
    exact absurd (Nat.le_trans order inside.1) (Nat.not_le.2 meets.2)
  · exact same
  · have order := apart index other bound otherBound later
    exact absurd (Nat.le_trans inside.2 order) (Nat.not_le.2 meets.1)

/--
The line at the index has the range and consists of characters that end no line and a
terminator behind them; only the last line has none.
-/
structure LineAt (file : SourceFile) (index : Nat) (range : ByteRange)
    (inner terminator : List Char) : Prop where
  found : file.lineRanges[index]? = some range
  text : file.line? (index + 1) = some (String.ofList (inner ++ terminator))
  unbroken : Text.Unbroken inner
  ends : (index + 1 < file.lineCount ∧
      Text.Terminator terminator (Text.dropBytes range.stop file.chars)) ∨
    (index + 1 = file.lineCount ∧ terminator = [])

variable {before after : List (List Char)} {inner terminator : List Char}

theorem lineAt_of_lines (split : Text.lines file.chars = before ++ (inner ++ terminator) :: after)
    (unbroken : Text.Unbroken inner) (ends : Text.EndsWith terminator after) :
    file.LineAt before.length ⟨Text.byteLength before.flatten,
      Text.byteLength before.flatten + Text.byteLength (inner ++ terminator)⟩ inner terminator := by
  refine ⟨lineRanges_of_lines split, line?_of_lines split, unbroken, ?_⟩
  have count : file.lineCount = before.length + (after.length + 1) := by
    rw [lineCount_eq, split, List.length_append, List.length_cons]
  rcases ends with ⟨more, terminates⟩ | ⟨rfl, none⟩
  · have positive := List.length_pos_iff.2 more
    refine .inl ⟨by omega, ?_⟩
    rw [dropBytes_of_lines split]
    exact terminates
  · exact .inr ⟨by simpa using count.symm, none⟩

/--
A piece of the text that holds no end of a line, and behind which a line is over, is the end of
what some line holds in front of its terminator.
-/
theorem exists_line_of_unbroken {front piece rest : List Char}
    (text : file.chars = front ++ (piece ++ rest)) (nonempty : piece ≠ [])
    (unbroken : Text.Unbroken piece) (ended : Text.LineOver rest) :
    ∃ before start terminator after,
      Text.lines file.chars = before ++ (start ++ piece ++ terminator) :: after ∧
      Text.Unbroken (start ++ piece) ∧ Text.EndsWith terminator after ∧
      Text.byteLength front = Text.byteLength before.flatten + Text.byteLength start := by
  have boundary : Text.isBoundary (Text.byteLength front) file.chars = true := by
    rw [text]
    exact Text.isBoundary_append front _
  have inside : Text.byteLength front < file.byteLength := by
    have positive := Text.byteLength_pos nonempty
    rw [byteLength, text, Text.byteLength_append, Text.byteLength_append]
    omega
  obtain ⟨before, line, after, column, starts⟩ := exists_startsAt boundary inside
  have behind : line.drop column ++ after.flatten = piece ++ rest := by
    have left := Text.dropBytes_append (before.flatten ++ line.take column)
      (line.drop column ++ after.flatten)
    rw [← starts.chars_eq, Text.byteLength_append, starts.reached, text,
      Text.dropBytes_append] at left
    exact left.symm
  obtain ⟨inner, terminator, rfl, innerUnbroken, ends⟩ :=
    (starts.lines ▸ Text.areLines_lines file.chars).exists_endsWith
  -- The piece begins in front of the terminator, whose characters all end a line.
  have column_le : column ≤ inner.length := by
    by_contra beyond
    obtain ⟨c, cs, rfl⟩ := List.exists_cons_of_ne_nil nonempty
    have inLine : c ∈ (inner ++ terminator).drop column := by
      have left : (inner ++ terminator).drop column ≠ [] :=
        List.drop_eq_nil_iff.not.2 (Nat.not_le.2 starts.inside)
      obtain ⟨d, ds, dropped⟩ := List.exists_cons_of_ne_nil left
      rw [dropped] at behind ⊢
      exact (List.cons.inj behind).1 ▸ List.mem_cons_self
    rw [List.drop_append, List.drop_eq_nil_of_le (Nat.le_of_not_le beyond),
      List.nil_append] at inLine
    have breaks := ends.isLineEnd_of_mem c (List.mem_of_mem_drop inLine)
    rw [unbroken c List.mem_cons_self] at breaks
    cases breaks
  rw [List.drop_append_of_le_length column_le, List.append_assoc] at behind
  obtain ⟨rfl, _⟩ := Text.Unbroken.eq_of_append_eq
    (fun c member => innerUnbroken c (List.mem_of_mem_drop member)) unbroken ends.lineOver ended
    behind
  refine ⟨before, inner.take column, terminator, after, ?_, ?_, ends, ?_⟩
  · rw [List.take_append_drop]
    exact starts.lines
  · rw [List.take_append_drop]
    exact innerUnbroken
  · rw [← starts.reached, List.take_append_of_le_length column_le]

/-! ## Line comments -/

/-- A line comment is a piece of the text that holds no end of a line and runs up to one. -/
theorem lineComment_cases {token : Token} (member : token ∈ file.lex.tokens)
    (isLine : token.kind = .comment .line) :
    ∃ front piece rest, token.span = file.part front piece ∧
      file.chars = front ++ (piece ++ rest) ∧ piece ≠ [] ∧ Text.Unbroken piece ∧
      Text.LineOver rest := by
  obtain ⟨_, reads, _⟩ := file.lex_reads
  obtain ⟨front, c, cs, lexeme, text, found, rfl⟩ := reads.mem_cases member
  have parts : file.chars = front ++ (lexeme.text ++ lexeme.rest) := by
    rw [Lexeme.first_append found, text]
  refine ⟨front, lexeme.text, lexeme.rest, rfl, parts, Lexeme.first_text_ne_nil found, ?_⟩
  have begins := Lexeme.first_begins c cs
  rw [found] at begins
  cases begins with
  | lineComment =>
      refine ⟨?_, Text.lineOver_dropWhile _⟩
      refine List.forall_mem_cons.2 ⟨rfl, List.forall_mem_cons.2 ⟨rfl, ?_⟩⟩
      exact Text.unbroken_takeWhile _
  | word =>
      rcases Lexeme.word_kind_cases c cs with identifier | ⟨_, keyword⟩
      · cases identifier.symm.trans isLine
      · cases keyword.symm.trans isLine
  | blanks | delimitedComment | slash | string | number | punctuation => cases isLine

/--
The span lies in the line at the index and meets no other; it stops where the terminator of the
line begins, or with the file if the line has none.
-/
structure EndsLine (file : SourceFile) (span : Span) (index : Nat) (range : ByteRange)
    (inner terminator : List Char) : Prop where
  line : file.LineAt index range inner terminator
  starts : range.start ≤ span.start
  stops : span.stop = range.start + Text.byteLength inner
  terminated : span.stop + Text.byteLength terminator = range.stop
  last : terminator = [] → span.stop = file.byteLength
  only : ∀ other otherRange, file.lineRanges[other]? = some otherRange →
    otherRange.start < span.stop → span.start < otherRange.stop → other = index

/-- The lexer and the line table agree on where a line ends. -/
theorem lineComments_end_lines (file : SourceFile) {token : Token}
    (member : token ∈ file.lex.tokens) (isLine : token.kind = .comment .line) :
    ∃ index range inner terminator,
      file.EndsLine token.span index range inner terminator := by
  obtain ⟨front, piece, rest, place, text, nonempty, unbroken, ended⟩ :=
    lineComment_cases member isLine
  obtain ⟨before, start, terminator, after, split, lineUnbroken, ends, frontLength⟩ :=
    exists_line_of_unbroken text nonempty unbroken ended
  have line := lineAt_of_lines split lineUnbroken ends
  have starts : Text.byteLength before.flatten ≤ token.span.start := by
    rw [place, part_start, frontLength]
    exact Nat.le_add_right _ _
  have stops : token.span.stop =
      Text.byteLength before.flatten + Text.byteLength (start ++ piece) := by
    rw [place, part_stop, frontLength, Text.byteLength_append, Nat.add_assoc]
  have terminated : token.span.stop + Text.byteLength terminator =
      Text.byteLength before.flatten + Text.byteLength (start ++ piece ++ terminator) := by
    rw [stops, Text.byteLength_append (start ++ piece), Nat.add_assoc]
  refine ⟨_, _, _, _, line, starts, stops, terminated, ?_, ?_⟩
  · rintro rfl
    rcases ends with ⟨_, impossible⟩ | ⟨rfl, _⟩
    · cases impossible
    · rw [stops, byteLength, chars_of_lines split]
      simp
  · intro other otherRange otherFound starting stopping
    have inside := Nat.le.intro terminated
    exact line_unique line.found ⟨starts, inside⟩ otherFound ⟨starting, stopping⟩

end SourceFile

namespace LineComments

/-- Comments in front of each kind of terminator and of none; a line separator ends no line. -/
def commented : SourceFile :=
  .ofText 0 "commented" "a//é\u2028\r\n//\r//x"

theorem commented_lines_end :
    ⟨.comment .line, commented, 1, 8⟩ ∈ commented.lex.tokens ∧
      (∃ index range inner terminator,
        commented.EndsLine ⟨commented, 1, 8⟩ index range inner terminator) ∧
      ⟨.comment .line, commented, 13, 16⟩ ∈ commented.lex.tokens ∧
      ∃ index range inner terminator,
        commented.EndsLine ⟨commented, 13, 16⟩ index range inner terminator := by
  have first : ⟨.comment .line, commented, 1, 8⟩ ∈ commented.lex.tokens := by decide +kernel
  have last : ⟨.comment .line, commented, 13, 16⟩ ∈ commented.lex.tokens := by decide +kernel
  exact ⟨first, commented.lineComments_end_lines first rfl, last,
    commented.lineComments_end_lines last rfl⟩

end LineComments

end BuildScript
