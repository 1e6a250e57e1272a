import BuildScript.Proofs.LineTable

/-!
# Offsets and locations

Every character of a text starts at one offset and stands in one column of one line. The
location of an offset is the line and the column of the character that starts there; where no
character starts, inside a character, at the end of the text or behind it, there is none.
Later offsets have later locations. The search for a line may halve the table, because the
table is ordered by the comparison that the search makes.
-/

namespace BuildScript

namespace Text

/-- An offset is a boundary if it is the length of a front of the text. -/
theorem exists_front_of_isBoundary {offset : Nat} {cs : List Char}
    (boundary : isBoundary offset cs = true) :
    ∃ front back, cs = front ++ back ∧ byteLength front = offset := by
  fun_induction isBoundary offset cs with
  | case1 cs => exact ⟨[], cs, rfl, rfl⟩
  | case2 => cases boundary
  | case3 offset c cs ih =>
      obtain ⟨fits, later⟩ := Bool.and_eq_true_iff.1 boundary
      obtain ⟨front, back, rfl, length⟩ := ih later
      have width := of_decide_eq_true fits
      exact ⟨c :: front, back, rfl, by rw [byteLength_cons, length]; omega⟩

theorem byteLength_le_of_prefix {front whole : List Char} (begins : front <+: whole) :
    byteLength front ≤ byteLength whole := by
  obtain ⟨back, rfl⟩ := begins
  rw [byteLength_append]
  exact Nat.le_add_right _ _

/-- As many characters start before an offset as are needed to reach it. -/
theorem countBefore_take {column : Nat} {cs : List Char} (inside : column ≤ cs.length)
    (start : Nat) : countBefore start (start + byteLength (cs.take column)) cs = column := by
  induction cs generalizing column start with
  | nil => exact (Nat.le_zero.1 inside).symm
  | cons c cs ih =>
      cases column with
      | zero => simp [countBefore]
      | succ column =>
          have positive : 0 < c.utf8Size := Char.utf8Size_pos c
          rw [List.take_succ_cons, byteLength_cons, countBefore, if_pos (by omega),
            ← Nat.add_assoc, ih (Nat.le_of_succ_le_succ inside)]

end Text

/-! ## Searching the table -/

namespace ByteRange

variable {offset : Nat} {range : ByteRange} {ranges : List ByteRange}

theorem contains_iff :
    range.contains offset = true ↔ range.start ≤ offset ∧ offset < range.stop := by
  simp [contains]

theorem order_cases (offset : Nat) (range : ByteRange) :
    (range.order offset = .eq ∧ range.start ≤ offset ∧ offset < range.stop) ∨
      (range.order offset = .gt ∧ offset < range.start) ∨
      (range.order offset = .lt ∧ range.start ≤ offset ∧ range.stop ≤ offset) := by
  by_cases around : range.contains offset = true
  · exact .inl ⟨if_pos around, contains_iff.1 around⟩
  · have outside := mt contains_iff.2 around
    by_cases behind : offset < range.start
    · exact .inr (.inl ⟨(if_neg around).trans (if_pos behind), behind⟩)
    · exact .inr (.inr ⟨(if_neg around).trans (if_neg behind), by omega, by omega⟩)

/-- Every range before one that is not behind the offset lies before the offset. -/
def Ordered (offset : Nat) (ranges : List ByteRange) : Prop :=
  ranges.Pairwise fun before after => after.order offset ≠ .gt → before.order offset = .lt

/-- Ranges that lie one behind another are ordered for every offset. -/
theorem ordered_of_pairwise (proper : ∀ range ∈ ranges, range.start ≤ range.stop)
    (apart : ranges.Pairwise fun before after => before.stop ≤ after.start) (offset : Nat) :
    Ordered offset ranges := by
  refine apart.imp_of_mem fun {before after} member _ stops notBehind => ?_
  have inOrder := proper before member
  have reached : after.start ≤ offset := by
    rcases order_cases offset after with ⟨_, starts, _⟩ | ⟨behind, _⟩ | ⟨_, starts, _⟩
    · exact starts
    · exact absurd behind notBehind
    · exact starts
  rcases order_cases offset before with ⟨_, _, around⟩ | ⟨_, behind⟩ | ⟨isBefore, _⟩
  · omega
  · omega
  · exact isBefore

/-- In ordered ranges the comparison tells on which side of the range around the offset one is. -/
theorem Ordered.order_eq_compare (ordered : Ordered offset ranges) {place other : Nat}
    (inside : place < ranges.length) (around : ranges[place].order offset = .eq)
    (otherInside : other < ranges.length) :
    ranges[other].order offset = compare other place := by
  have sides := List.pairwise_iff_getElem.1 ordered
  rcases Nat.lt_trichotomy other place with before | rfl | behind
  · rw [Nat.compare_eq_lt.2 before]
    exact sides other place otherInside inside before (by rw [around]; decide)
  · rw [Nat.compare_eq_eq.2 rfl, around]
  · rw [Nat.compare_eq_gt.2 behind]
    by_contra notBehind
    have before := sides place other inside otherInside behind notBehind
    rw [around] at before
    cases before

variable {low high place : Nat} {bound : high ≤ ranges.length}

/-- What the search finds lies around the offset. -/
theorem order_of_searchBetween (found : searchBetween offset ranges low high bound = some place) :
    ∃ inside : place < ranges.length, ranges[place].order offset = .eq := by
  fun_induction searchBetween offset ranges low high bound with
  | case1 low high bound goes middle inside around =>
      have same : middle = place := Option.some.inj found
      subst same
      exact ⟨inside, around⟩
  | case2 low high bound goes middle inside before ih => exact ih found
  | case3 low high bound goes middle inside behind ih => exact ih found
  | case4 => cases found

/-- The range around the offset is never left out of the part that is searched. -/
theorem Ordered.searchBetween_eq (ordered : Ordered offset ranges) (reached : low ≤ place)
    (before : place < high) (inside : place < ranges.length)
    (around : ranges[place].order offset = .eq) :
    searchBetween offset ranges low high bound = some place := by
  have sides : ∀ {other : Nat} (otherInside : other < ranges.length),
      ranges[other].order offset = compare other place :=
    ordered.order_eq_compare inside around
  -- The comparison in the middle tells on which side the place is, so the half kept has it.
  fun_induction searchBetween offset ranges low high bound with
  | case1 low high bound goes middle inMiddle here =>
      rw [sides inMiddle] at here
      rw [Nat.compare_eq_eq.1 here]
  | case2 low high bound goes middle inMiddle isBefore ih =>
      rw [sides inMiddle] at isBefore
      exact ih (Nat.compare_eq_lt.1 isBefore) before
  | case3 low high bound goes middle inMiddle isBehind ih =>
      rw [sides inMiddle] at isBehind
      exact ih reached (Nat.compare_eq_gt.1 isBehind)
  | case4 low high bound ends => omega

/-- Where ranges are ordered, the search finds the one around the offset if there is one. -/
theorem Ordered.search_eq_some_iff (ordered : Ordered offset ranges) :
    search offset ranges = some place ↔
      ∃ inside : place < ranges.length, ranges[place].order offset = .eq := by
  constructor
  · exact order_of_searchBetween
  · rintro ⟨inside, around⟩
    exact ordered.searchBetween_eq (Nat.zero_le _) inside inside around

end ByteRange

namespace SourceFile

/-- The line table is ordered by the comparison that the search makes. -/
theorem lineRanges_ordered (file : SourceFile) (offset : Nat) :
    ByteRange.Ordered offset file.lineRanges := by
  refine ByteRange.ordered_of_pairwise (fun range member => ?_) file.lineRanges_pairwise offset
  exact (Span.make?_eq_some_iff.1 (lineRange_valid member)).2.1

/-- In a line between others, a character starts at the offset, behind so many characters. -/
structure StartsAt (file : SourceFile) (before : List (List Char)) (line : List Char)
    (after : List (List Char)) (column offset : Nat) : Prop where
  lines : Text.lines file.chars = before ++ line :: after
  inside : column < line.length
  reached : Text.byteLength before.flatten + Text.byteLength (line.take column) = offset

variable {file : SourceFile} {before after : List (List Char)} {line : List Char}
  {column offset : Nat}

namespace StartsAt

/-- The text around the place where the character starts. -/
theorem chars_eq (starts : file.StartsAt before line after column offset) :
    file.chars = (before.flatten ++ line.take column) ++ (line.drop column ++ after.flatten) := by
  rw [chars_of_lines starts.lines, List.append_assoc, ← List.append_assoc (line.take column),
    List.take_append_drop]

theorem boundary (starts : file.StartsAt before line after column offset) :
    Text.isBoundary offset file.chars = true := by
  rw [starts.chars_eq, ← starts.reached, ← Text.byteLength_append]
  exact Text.isBoundary_append _ _

theorem lt_stop (starts : file.StartsAt before line after column offset) :
    offset < Text.byteLength before.flatten + Text.byteLength line := by
  have positive : 0 < Text.byteLength (line.drop column) :=
    Text.byteLength_pos (List.drop_eq_nil_iff.not.2 (Nat.not_le.2 starts.inside))
  have parts := congrArg Text.byteLength (List.take_append_drop column line)
  rw [Text.byteLength_append] at parts
  have place := starts.reached
  omega

theorem lt_byteLength (starts : file.StartsAt before line after column offset) :
    offset < file.byteLength := by
  have stop := starts.lt_stop
  rw [byteLength, chars_of_lines starts.lines, Text.byteLength_append, Text.byteLength_append]
  omega

/-- The search finds the line. -/
theorem search_eq (starts : file.StartsAt before line after column offset) :
    ByteRange.search offset file.lineRanges = some before.length := by
  obtain ⟨inside, isRange⟩ := List.getElem?_eq_some_iff.1 (lineRanges_of_lines starts.lines)
  rw [(file.lineRanges_ordered offset).search_eq_some_iff]
  refine ⟨inside, ?_⟩
  rw [isRange]
  have reached : Text.byteLength before.flatten ≤ offset := Nat.le.intro starts.reached
  exact if_pos (ByteRange.contains_iff.2 ⟨reached, starts.lt_stop⟩)

/-- The location of the offset is the line and the column of the character. -/
theorem location?_eq (starts : file.StartsAt before line after column offset) :
    file.location? offset = some ⟨before.length + 1, column + 1⟩ := by
  have slice := congrArg (Text.slice (Text.byteLength before.flatten)
    (Text.byteLength before.flatten + Text.byteLength line)) (chars_of_lines starts.lines)
  rw [Text.slice_append] at slice
  rw [location?, if_pos starts.boundary, starts.search_eq]
  simp only [lineRanges_of_lines starts.lines, Option.map_some, slice]
  rw [← starts.reached, Text.countBefore_take (Nat.le_of_lt starts.inside)]

end StartsAt

/-- Where the text is not over, a boundary is the start of a character in some line. -/
theorem exists_startsAt (boundary : Text.isBoundary offset file.chars = true)
    (inside : offset < file.byteLength) :
    ∃ before line after column, file.StartsAt before line after column offset := by
  obtain ⟨front, back, text, rfl⟩ := Text.exists_front_of_isBoundary boundary
  rw [← Text.lines_flatten file.chars] at text
  rcases List.flatten_eq_append_iff.1 text with
    ⟨before, later, split, rfl, rfl⟩ | ⟨before, part, c, rest, after, split, rfl, rfl⟩
  · -- The front ends with a line; the character is the first one of the next line that has any.
    cases chars : later.flatten with
    | nil =>
        rw [byteLength, ← Text.lines_flatten file.chars, split, List.flatten_append, chars,
          List.append_nil] at inside
        exact absurd inside (Nat.lt_irrefl _)
    | cons c rest =>
        obtain ⟨empty, line, after, rfl, none, rfl⟩ := List.flatten_eq_cons_iff.1 chars
        refine ⟨before ++ empty, c :: line, after, 0, by rw [split, List.append_assoc],
          Nat.zero_lt_succ _, ?_⟩
        rw [List.flatten_append, List.flatten_eq_nil_iff.2 none, List.append_nil, List.take_zero,
          Text.byteLength_nil, Nat.add_zero]
  · refine ⟨before, part ++ c :: rest, after, part.length, split, ?_, ?_⟩
    · simp
    · rw [List.take_left, Text.byteLength_append]

/-- A location is that of a character, and there is one for every character. -/
theorem location?_eq_some_iff {location : Location} :
    file.location? offset = some location ↔
      ∃ before line after column, file.StartsAt before line after column offset ∧
        location = ⟨before.length + 1, column + 1⟩ := by
  constructor
  · intro found
    have boundary : Text.isBoundary offset file.chars = true := by
      by_contra inner
      rw [location?, if_neg inner] at found
      cases found
    have inside : offset < file.byteLength := by
      rw [location?, if_pos boundary] at found
      cases searched : ByteRange.search offset file.lineRanges with
      | none =>
          rw [searched] at found
          cases found
      | some index =>
          obtain ⟨bound, around⟩ := ByteRange.order_of_searchBetween searched
          obtain ⟨_, _, stop, _⟩ := Span.make?_eq_some_iff.1
            (lineRange_valid (List.getElem_mem bound))
          rcases ByteRange.order_cases offset file.lineRanges[index] with
            ⟨_, _, inside⟩ | ⟨other, _⟩ | ⟨other, _⟩
          · exact Nat.lt_of_lt_of_le inside stop
          · cases around.symm.trans other
          · cases around.symm.trans other
    obtain ⟨before, line, after, column, starts⟩ := exists_startsAt boundary inside
    cases starts.location?_eq.symm.trans found
    exact ⟨before, line, after, column, starts, rfl⟩
  · rintro ⟨before, line, after, column, starts, rfl⟩
    exact starts.location?_eq

/-! ## Order -/

end SourceFile

def Location.Before (first second : Location) : Prop :=
  first.line < second.line ∨ (first.line = second.line ∧ first.column < second.column)

instance (first second : Location) : Decidable (first.Before second) :=
  inferInstanceAs (Decidable (_ ∨ _))

namespace SourceFile

variable {file : SourceFile} {before after otherBefore otherAfter : List (List Char)}
  {line otherLine : List Char} {column otherColumn offset other : Nat}

/-- A character on a later line starts later. -/
theorem StartsAt.le_of_line (starts : file.StartsAt before line after column offset)
    (later : file.StartsAt otherBefore otherLine otherAfter otherColumn other)
    (order : before.length < otherBefore.length) : offset ≤ other := by
  have front : before ++ [line] <+: otherBefore := by
    have upTo : before ++ [line] <+: Text.lines file.chars :=
      ⟨after, by rw [starts.lines, List.append_assoc, List.singleton_append]⟩
    have upToOther : otherBefore <+: Text.lines file.chars := ⟨_, later.lines.symm⟩
    apply List.prefix_of_prefix_length_le upTo upToOther
    rw [List.length_append]
    exact order
  obtain ⟨rest, rfl⟩ := front
  have stop := starts.lt_stop
  have place := later.reached
  simp only [List.flatten_append, List.flatten_singleton, Text.byteLength_append] at place
  omega

/-- Of two characters of one line, the one in a later column starts later. -/
theorem StartsAt.le_of_column (starts : file.StartsAt before line after column offset)
    (later : file.StartsAt otherBefore otherLine otherAfter otherColumn other)
    (sameLine : before.length = otherBefore.length) (order : column ≤ otherColumn) :
    offset ≤ other := by
  obtain ⟨rfl, rest⟩ := List.append_inj (starts.lines.symm.trans later.lines) sameLine
  obtain ⟨rfl, _⟩ := List.cons.inj rest
  have front : line.take column <+: line.take otherColumn := List.take_prefix_take_left order
  have shorter := Text.byteLength_le_of_prefix front
  have place := starts.reached
  have otherPlace := later.reached
  omega

/-- Later offsets have later locations. -/
theorem StartsAt.location_before (starts : file.StartsAt before line after column offset)
    (later : file.StartsAt otherBefore otherLine otherAfter otherColumn other)
    (order : offset < other) :
    (⟨before.length + 1, column + 1⟩ : Location).Before
      ⟨otherBefore.length + 1, otherColumn + 1⟩ := by
  by_contra notBefore
  simp only [Location.Before] at notBefore
  have notLater : other ≤ offset := by
    rcases Nat.lt_trichotomy before.length otherBefore.length with less | same | greater
    · omega
    · exact later.le_of_column starts same.symm (by omega)
    · exact later.le_of_line starts greater
  omega

/-! ## Offsets and locations -/

/--
The location is a line and a column of the file, and its character starts at the offset:
behind the start of the line and the characters in front of the column.
-/
structure Locates (file : SourceFile) (location : Location) (offset : Nat) : Prop where
  positive : 0 < location.line ∧ 0 < location.column
  reaches : ∃ range text, file.lineRanges[location.line - 1]? = some range ∧
    file.line? location.line = some text ∧ location.column ≤ text.toList.length ∧
      range.start + Text.byteLength (text.toList.take (location.column - 1)) = offset

theorem StartsAt.locates (starts : file.StartsAt before line after column offset) :
    file.Locates ⟨before.length + 1, column + 1⟩ offset := by
  refine ⟨⟨Nat.succ_pos _, Nat.succ_pos _⟩, _, _, lineRanges_of_lines starts.lines,
    line?_of_lines starts.lines, ?_, ?_⟩
  · rw [String.toList_ofList]
    exact starts.inside
  · rw [String.toList_ofList]
    exact starts.reached

/--
Locations and offsets correspond one to one. An offset has a location if and only if it is a
boundary before the end of the text; the line and the column lead back to the offset; and
later offsets have later locations.
-/
theorem locations_correspond (file : SourceFile) :
    (∀ offset, (∃ location, file.location? offset = some location) ↔
      Text.isBoundary offset file.chars = true ∧ offset < file.byteLength) ∧
    (∀ offset location, file.location? offset = some location → file.Locates location offset) ∧
    ∀ offset other location otherLocation, offset < other →
      file.location? offset = some location → file.location? other = some otherLocation →
        location.Before otherLocation := by
  refine ⟨fun offset => ⟨?_, ?_⟩, ?_, ?_⟩
  · rintro ⟨location, found⟩
    obtain ⟨_, _, _, _, starts, _⟩ := location?_eq_some_iff.1 found
    exact ⟨starts.boundary, starts.lt_byteLength⟩
  · rintro ⟨boundary, inside⟩
    obtain ⟨_, _, _, _, starts⟩ := exists_startsAt boundary inside
    exact ⟨_, starts.location?_eq⟩
  · intro offset location found
    obtain ⟨_, _, _, _, starts, rfl⟩ := location?_eq_some_iff.1 found
    exact starts.locates
  · intro offset other location otherLocation order found otherFound
    obtain ⟨_, _, _, _, starts, rfl⟩ := location?_eq_some_iff.1 found
    obtain ⟨_, _, _, _, later, rfl⟩ := location?_eq_some_iff.1 otherFound
    exact starts.location_before later order

end SourceFile

namespace LineColumns

def terminated : SourceFile :=
  .ofText 0 "terminated" "é\r\n\rx"

theorem terminated_correspond :
    (∃ location, terminated.location? 4 = some location) ∧
      terminated.location? 3 = some ⟨1, 3⟩ ∧ terminated.Locates ⟨1, 3⟩ 3 ∧
      terminated.location? 5 = some ⟨3, 1⟩ ∧ (⟨1, 3⟩ : Location).Before ⟨3, 1⟩ := by
  obtain ⟨located, leadsBack, ordered⟩ := terminated.locations_correspond
  have first : terminated.location? 3 = some ⟨1, 3⟩ := by decide +kernel
  have second : terminated.location? 5 = some ⟨3, 1⟩ := by decide +kernel
  exact ⟨(located 4).2 (by decide +kernel), first, leadsBack 3 _ first, second,
    ordered 3 5 _ _ (by decide) first second⟩

end LineColumns

end BuildScript
