import BuildScript.Proofs.Lossless

/-!
# The line table

The table is made in one run over a text. Its ranges lie side by side, from the start of the
text to its end, and cut it between characters. Every line but the last ends with one
terminator: `\r\n`, `\n`, or a `\r` that no `\n` follows. No terminator stands anywhere else, so
the lines are cut at all terminators and nowhere else.
-/

namespace BuildScript

namespace Text

/-! ## Lines -/

/-- The lines of a text, each with its terminator. -/
def lines : List Char → List (List Char)
  | [] => [[]]
  | '\n' :: cs => ['\n'] :: lines cs
  | '\r' :: '\n' :: cs => ['\r', '\n'] :: lines cs
  | '\r' :: cs => ['\r'] :: lines cs
  | c :: cs =>
      match lines cs with
      | [] => [[c]]
      | line :: rest => (c :: line) :: rest

/-- The byte ranges of consecutive parts, the first of which begins at `start`. -/
def rangesFrom (start : Nat) : List (List Char) → List ByteRange
  | [] => []
  | part :: parts =>
      ⟨start, start + byteLength part⟩ :: rangesFrom (start + byteLength part) parts

theorem lines_ne_nil (cs : List Char) : lines cs ≠ [] := by
  unfold lines
  split
  · simp
  · simp
  · simp
  · simp
  · split <;> simp

/-- The lines of a text make up the text. -/
theorem lines_flatten (cs : List Char) : (lines cs).flatten = cs := by
  fun_induction lines cs with
  | case1 => rfl
  | case2 cs ih => rw [List.flatten_cons, ih]; rfl
  | case3 cs ih => rw [List.flatten_cons, ih]; rfl
  | case4 cs _ ih => rw [List.flatten_cons, ih]; rfl
  | case5 c cs _ _ _ empty ih => exact absurd empty (lines_ne_nil cs)
  | case6 c cs _ _ _ line rest found ih =>
      rw [found] at ih
      rw [List.flatten_cons, List.cons_append, ← List.flatten_cons, ih]

theorem head?_ne_newline {cs : List Char} (notPair : ∀ rest, cs = '\n' :: rest → False) :
    cs.head? ≠ some '\n' := by
  intro follows
  obtain ⟨rest, same⟩ := List.head?_eq_some_iff.1 follows
  exact notPair rest same

/-! ## The run over a text -/

section

variable (start offset : Nat) (cs : List Char)

theorem lineRangesFrom_newline : lineRangesFrom start offset false ('\n' :: cs) =
    ⟨start, offset + 1⟩ :: lineRangesFrom (offset + 1) (offset + 1) false cs :=
  rfl

theorem lineRangesFrom_pair : lineRangesFrom start offset false ('\r' :: '\n' :: cs) =
    ⟨start, offset + 2⟩ :: lineRangesFrom (offset + 2) (offset + 2) false cs :=
  rfl

variable {cs}

theorem lineRangesFrom_carriage (alone : cs.head? ≠ some '\n') :
    lineRangesFrom start offset false ('\r' :: cs) =
      ⟨start, offset + 1⟩ :: lineRangesFrom (offset + 1) (offset + 1) false cs :=
  if_neg alone

theorem lineRangesFrom_plain {c : Char} (notNewline : c ≠ '\n') (notCarriage : c ≠ '\r') :
    lineRangesFrom start offset false (c :: cs) =
      lineRangesFrom start (offset + c.utf8Size) false cs :=
  (if_neg notNewline).trans (if_neg notCarriage)

end

theorem modifyHead_nil_append (parts : List (List Char)) :
    parts.modifyHead ([] ++ ·) = parts := by
  cases parts <;> rfl

theorem rangesFrom_modifyHead_cons (start : Nat) (passed line : List Char)
    (later : List (List Char)) :
    rangesFrom start ((line :: later).modifyHead (passed ++ ·)) =
      ⟨start, start + byteLength passed + byteLength line⟩ ::
        rangesFrom (start + byteLength passed + byteLength line) later := by
  rw [List.modifyHead_cons, rangesFrom, byteLength_append, ← Nat.add_assoc]

/--
A run over the rest of a text, some of whose current line was passed, yields the ranges of the
lines of the rest, the first of them with the passed characters in front.
-/
theorem lineRangesFrom_eq (start : Nat) (passed cs : List Char) :
    lineRangesFrom start (start + byteLength passed) false cs =
      rangesFrom start ((lines cs).modifyHead (passed ++ ·)) := by
  fun_induction lines cs generalizing start passed with
  | case1 =>
      rw [rangesFrom_modifyHead_cons, lineRangesFrom, rangesFrom, byteLength_nil, Nat.add_zero]
  | case2 cs ih =>
      have later := ih (start + byteLength passed + 1) []
      rw [modifyHead_nil_append] at later
      rw [lineRangesFrom_newline, rangesFrom_modifyHead_cons]
      exact congrArg _ later
  | case3 cs ih =>
      have later := ih (start + byteLength passed + 2) []
      rw [modifyHead_nil_append] at later
      rw [lineRangesFrom_pair, rangesFrom_modifyHead_cons]
      exact congrArg _ later
  | case4 cs notPair ih =>
      have later := ih (start + byteLength passed + 1) []
      rw [modifyHead_nil_append] at later
      rw [lineRangesFrom_carriage _ _ (head?_ne_newline notPair), rangesFrom_modifyHead_cons]
      exact congrArg _ later
  | case5 c cs _ _ _ empty ih => exact absurd empty (lines_ne_nil cs)
  | case6 c cs notNewline _ notCarriage line rest found ih =>
      -- No line ends here: the character joins the passed ones.
      have later := ih start (passed ++ [c])
      rw [found, byteLength_append, ← Nat.add_assoc] at later
      rw [lineRangesFrom_plain _ _ notNewline notCarriage]
      simpa using later

/-! ## Terminators -/

/-- The characters that end a line in front of the given text. -/
inductive Terminator : List Char → List Char → Prop where
  | newline (rest : List Char) : Terminator ['\n'] rest
  | pair (rest : List Char) : Terminator ['\r', '\n'] rest
  | carriage {rest : List Char} (alone : rest.head? ≠ some '\n') : Terminator ['\r'] rest

def Unbroken (cs : List Char) : Prop :=
  ∀ c ∈ cs, isLineEnd c = false

/-- The line ends with a terminator, in front of the given text, and holds no other. -/
def Terminated (line rest : List Char) : Prop :=
  ∃ inner terminator, line = inner ++ terminator ∧ Unbroken inner ∧ Terminator terminator rest

theorem Unbroken.cons {c : Char} {cs : List Char} (notNewline : c ≠ '\n') (notCarriage : c ≠ '\r')
    (later : Unbroken cs) : Unbroken (c :: cs) := by
  refine List.forall_mem_cons.2 ⟨?_, later⟩
  simp [isLineEnd, notNewline, notCarriage]

theorem Terminator.terminated {terminator rest : List Char} (ends : Terminator terminator rest) :
    Terminated terminator rest :=
  ⟨[], terminator, rfl, nofun, ends⟩

theorem Terminated.cons {c : Char} {line rest : List Char} (notNewline : c ≠ '\n')
    (notCarriage : c ≠ '\r') (later : Terminated line rest) : Terminated (c :: line) rest := by
  obtain ⟨inner, terminator, rfl, unbroken, ends⟩ := later
  exact ⟨c :: inner, terminator, rfl, unbroken.cons notNewline notCarriage, ends⟩

/-- Lines that end with a terminator each, up to a last one that holds none. -/
inductive AreLines : List (List Char) → Prop where
  | last {line : List Char} (unbroken : Unbroken line) : AreLines [line]
  | cons {line : List Char} {later : List (List Char)} (ends : Terminated line later.flatten)
      (others : AreLines later) : AreLines (line :: later)

/-- A text is cut into such lines. -/
theorem areLines_lines (cs : List Char) : AreLines (lines cs) := by
  fun_induction lines cs with
  | case1 => exact .last nofun
  | case2 cs ih => exact .cons (Terminator.newline _).terminated ih
  | case3 cs ih => exact .cons (Terminator.pair _).terminated ih
  | case4 cs notPair ih =>
      refine .cons (Terminator.carriage ?_).terminated ih
      rw [lines_flatten]
      exact head?_ne_newline notPair
  | case5 c cs _ _ _ empty ih => exact absurd empty (lines_ne_nil cs)
  | case6 c cs notNewline _ notCarriage line rest found ih =>
      rw [found] at ih
      cases ih with
      | last unbroken => exact .last (unbroken.cons notNewline notCarriage)
      | cons ends others => exact .cons (ends.cons notNewline notCarriage) others

example : lines ['a', '\r', '\r', '\n', '\n', '\r'] =
    [['a', '\r'], ['\r', '\n'], ['\n'], ['\r'], []] := rfl

/-- What is left behind some of the lines is lines too. -/
theorem AreLines.later {before after : List (List Char)} (areLines : AreLines (before ++ after))
    (more : after ≠ []) : AreLines after := by
  induction before with
  | nil => exact areLines
  | cons line before ih =>
      rw [List.cons_append] at areLines
      generalize rest : before ++ after = others at areLines ih
      cases areLines with
      | last => exact absurd (List.append_eq_nil_iff.1 rest).2 more
      | cons ends others => exact ih others

theorem AreLines.terminated {before after : List (List Char)} {line : List Char}
    (areLines : AreLines (before ++ line :: after)) (more : after ≠ []) :
    Terminated line after.flatten := by
  cases areLines.later (List.cons_ne_nil line after) with
  | last => exact absurd rfl more
  | cons ends others => exact ends

theorem AreLines.unbroken {before : List (List Char)} {line : List Char}
    (areLines : AreLines (before ++ [line])) : Unbroken line := by
  cases areLines.later (List.cons_ne_nil line []) with
  | last unbroken => exact unbroken
  | cons ends others => cases others

/-! ## Ranges of consecutive parts -/

theorem rangesFrom_append (start : Nat) (front back : List (List Char)) :
    rangesFrom start (front ++ back) =
      rangesFrom start front ++ rangesFrom (start + byteLength front.flatten) back := by
  induction front generalizing start with
  | nil => rfl
  | cons part parts ih =>
      rw [List.cons_append, rangesFrom, rangesFrom, ih, List.cons_append, List.flatten_cons,
        byteLength_append, Nat.add_assoc]

@[simp]
theorem rangesFrom_length (start : Nat) (parts : List (List Char)) :
    (rangesFrom start parts).length = parts.length := by
  induction parts generalizing start with
  | nil => rfl
  | cons part parts ih => rw [rangesFrom, List.length_cons, ih, List.length_cons]

theorem rangesFrom_head_start {start : Nat} {parts : List (List Char)} :
    ∀ range ∈ (rangesFrom start parts).head?, range.start = start := by
  intro range isHead
  cases parts with
  | nil => cases isHead
  | cons part parts => cases isHead; rfl

/-- Every range starts where the one before it stops. -/
theorem rangesFrom_isChain (start : Nat) (parts : List (List Char)) :
    (rangesFrom start parts).IsChain fun before after => after.start = before.stop := by
  induction parts generalizing start with
  | nil => exact .nil
  | cons part parts ih => exact List.isChain_cons.2 ⟨rangesFrom_head_start, ih _⟩

theorem rangesFrom_getLast_stop {start : Nat} {parts : List (List Char)} :
    ∀ range ∈ (rangesFrom start parts).getLast?,
      range.stop = start + byteLength parts.flatten := by
  intro range isLast
  induction parts using List.reverseRecOn with
  | nil => cases isLast
  | append_singleton parts part _ =>
      rw [rangesFrom_append, rangesFrom, rangesFrom, List.getLast?_concat] at isLast
      cases isLast
      rw [List.flatten_append, byteLength_append, List.flatten_singleton, Nat.add_assoc]

theorem le_start_of_mem_rangesFrom {start : Nat} {parts : List (List Char)} {range : ByteRange}
    (member : range ∈ rangesFrom start parts) : start ≤ range.start := by
  induction parts generalizing start with
  | nil => cases member
  | cons part parts ih =>
      rcases List.mem_cons.1 member with rfl | later
      · exact Nat.le_refl start
      · exact Nat.le_trans (Nat.le_add_right _ _) (ih later)

/-- Every range stops before all later ones start. -/
theorem rangesFrom_pairwise (start : Nat) (parts : List (List Char)) :
    (rangesFrom start parts).Pairwise fun before after => before.stop ≤ after.start := by
  induction parts generalizing start with
  | nil => exact .nil
  | cons part parts ih =>
      exact List.pairwise_cons.2 ⟨fun range later => le_start_of_mem_rangesFrom later, ih _⟩

/-- The ranges of the parts that stand around one of them. -/
theorem rangesFrom_split (before after : List (List Char)) (part : List Char) :
    rangesFrom 0 (before ++ part :: after) =
      rangesFrom 0 before ++
        ⟨byteLength before.flatten, byteLength before.flatten + byteLength part⟩ ::
          rangesFrom (byteLength before.flatten + byteLength part) after := by
  rw [rangesFrom_append, rangesFrom, Nat.zero_add]

end Text

/-! ## The lines of a file -/

namespace SourceFile

variable {file : SourceFile} {before after : List (List Char)} {line : List Char}

theorem lineRanges_eq (file : SourceFile) :
    file.lineRanges = Text.rangesFrom 0 (Text.lines file.chars) := by
  have run := Text.lineRangesFrom_eq 0 [] file.chars
  rwa [Text.modifyHead_nil_append] at run

theorem lineRanges_pairwise (file : SourceFile) :
    file.lineRanges.Pairwise fun before after => before.stop ≤ after.start := by
  rw [lineRanges_eq]
  exact Text.rangesFrom_pairwise 0 _

/-- A line stands in the file between the lines around it. -/
theorem chars_of_lines (split : Text.lines file.chars = before ++ line :: after) :
    file.chars = before.flatten ++ (line ++ after.flatten) := by
  rw [← Text.lines_flatten file.chars, split, List.flatten_append, List.flatten_cons]

/-- Behind a line come the lines after it. -/
theorem dropBytes_of_lines (split : Text.lines file.chars = before ++ line :: after) :
    Text.dropBytes (Text.byteLength before.flatten + Text.byteLength line) file.chars =
      after.flatten := by
  rw [chars_of_lines split, ← List.append_assoc, ← Text.byteLength_append, Text.dropBytes_append]

theorem lineRanges_of_lines (split : Text.lines file.chars = before ++ line :: after) :
    file.lineRanges[before.length]? = some ⟨Text.byteLength before.flatten,
      Text.byteLength before.flatten + Text.byteLength line⟩ := by
  rw [lineRanges_eq, split, Text.rangesFrom_split, List.getElem?_append_right (by simp)]
  simp

/-- The text of a line is the line. -/
theorem line?_of_lines (split : Text.lines file.chars = before ++ line :: after) :
    file.line? (before.length + 1) = some (String.ofList line) := by
  have text := chars_of_lines split
  rw [line?, lineRanges_of_lines split, Option.map_some, text, Text.slice_append]

theorem lineCount_eq (file : SourceFile) : file.lineCount = (Text.lines file.chars).length := by
  rw [lineCount, lineRanges_eq, Text.rangesFrom_length]

/-- Every number up to the number of lines is that of a line. -/
theorem exists_lines_of_lt {index : Nat} (bound : index < file.lineCount) :
    ∃ before line after, Text.lines file.chars = before ++ line :: after ∧
      before.length = index := by
  rw [lineCount_eq] at bound
  have split : Text.lines file.chars = (Text.lines file.chars).take index ++
      (Text.lines file.chars)[index] :: (Text.lines file.chars).drop (index + 1) := by
    rw [← List.drop_eq_getElem_cons bound, List.take_append_drop]
  exact ⟨_, _, _, split, List.length_take_of_le (Nat.le_of_lt bound)⟩

theorem exists_last_line (file : SourceFile) :
    ∃ before line, Text.lines file.chars = before ++ [line] ∧
      before.length + 1 = file.lineCount := by
  have nonempty := Text.lines_ne_nil file.chars
  refine ⟨_, _, (List.dropLast_append_getLast nonempty).symm, ?_⟩
  rw [List.length_dropLast, lineCount_eq, Nat.sub_add_cancel (List.length_pos_iff.2 nonempty)]

/-- The lines of a file lie side by side, and are cut at its terminators and nowhere else. -/
structure LinesPartition (file : SourceFile) : Prop where
  nonempty : file.lineRanges ≠ []
  starts : ∀ range ∈ file.lineRanges.head?, range.start = 0
  adjacent : file.lineRanges.IsChain fun before after => after.start = before.stop
  stops : ∀ range ∈ file.lineRanges.getLast?, range.stop = file.byteLength
  /-- Every range lies in the text, its ends on character boundaries. -/
  valid : ∀ range ∈ file.lineRanges,
    Span.make? file range.start range.stop = some ⟨file, range.start, range.stop⟩
  /-- The texts of the lines, from the first to the last, make up the text. -/
  texts : ∃ texts : List String,
    (List.range' 1 file.lineCount).map file.line? = texts.map some ∧
      String.join texts = file.content
  /-- Every line but the last ends with one terminator and holds no other. -/
  terminated : ∀ index range text, file.lineRanges[index]? = some range →
    file.line? (index + 1) = some text → index + 1 < file.lineCount →
      Text.Terminated text.toList (Text.dropBytes range.stop file.chars)
  /-- The last line holds no terminator. -/
  last : ∀ text, file.line? file.lineCount = some text → Text.Unbroken text.toList

theorem lineRange_valid {range : ByteRange} (member : range ∈ file.lineRanges) :
    Span.make? file range.start range.stop = some ⟨file, range.start, range.stop⟩ := by
  obtain ⟨index, found⟩ := List.mem_iff_getElem?.1 member
  have bound : index < file.lineCount := (List.getElem?_eq_some_iff.1 found).1
  obtain ⟨before, line, after, split, rfl⟩ := exists_lines_of_lt bound
  cases (lineRanges_of_lines split).symm.trans found
  exact part_make? (chars_of_lines split)

theorem map_line? (file : SourceFile) :
    (List.range' 1 file.lineCount).map file.line? =
      ((Text.lines file.chars).map String.ofList).map some := by
  apply List.ext_getElem
  · simp [lineCount_eq]
  · intro index bound _
    have inside : index < file.lineCount := by simpa using bound
    obtain ⟨before, line, after, split, rfl⟩ := exists_lines_of_lt inside
    simp only [List.getElem_map, List.getElem_range', Nat.one_mul, Nat.add_comm 1,
      line?_of_lines split, split, List.getElem_append_right (Nat.le_refl _)]
    simp

theorem join_lines (file : SourceFile) :
    String.join ((Text.lines file.chars).map String.ofList) = file.content := by
  apply String.toList_injective
  rw [String.toList_join, List.flatMap_map, content, String.toList_ofList]
  simp [Text.lines_flatten]

/-- A line that is not the last ends with one terminator, in front of the text behind it. -/
theorem line_terminated (split : Text.lines file.chars = before ++ line :: after)
    (more : after ≠ []) :
    Text.Terminated line (Text.dropBytes
      (Text.byteLength before.flatten + Text.byteLength line) file.chars) := by
  rw [dropBytes_of_lines split]
  exact (split ▸ Text.areLines_lines file.chars).terminated more

/-- The line table cuts every text at its terminators. -/
theorem lines_partition_text (file : SourceFile) : file.LinesPartition := by
  have nonempty : file.lineRanges ≠ [] := by
    rw [← List.length_pos_iff, lineRanges_eq, Text.rangesFrom_length]
    exact List.length_pos_iff.2 (Text.lines_ne_nil _)
  refine ⟨nonempty, ?_, ?_, ?_, fun _ => lineRange_valid, ⟨_, file.map_line?, file.join_lines⟩,
    ?_, ?_⟩
  · rw [lineRanges_eq]
    exact Text.rangesFrom_head_start
  · rw [lineRanges_eq]
    exact Text.rangesFrom_isChain 0 _
  · intro range isLast
    rw [lineRanges_eq] at isLast
    rw [Text.rangesFrom_getLast_stop range isLast, Text.lines_flatten, Nat.zero_add]
    rfl
  · intro index range text found isText more
    obtain ⟨before, line, after, split, rfl⟩ := exists_lines_of_lt (Nat.lt_of_succ_lt more)
    cases (lineRanges_of_lines split).symm.trans found
    cases (line?_of_lines split).symm.trans isText
    rw [String.toList_ofList]
    apply line_terminated split
    rintro rfl
    rw [lineCount_eq, split] at more
    simp at more
  · intro text isText
    obtain ⟨before, line, split, count⟩ := file.exists_last_line
    rw [← count, line?_of_lines split] at isText
    cases isText
    rw [String.toList_ofList]
    exact (split ▸ Text.areLines_lines file.chars).unbroken

end SourceFile

end BuildScript
