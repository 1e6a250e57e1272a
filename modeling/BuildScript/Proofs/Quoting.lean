import BuildScript.Bazel.Documents
import BuildScript.Proofs.Lossless

/-!
# Text between quotes

A literal runs to the first quote that no backslash takes in. What stands between its
quotes is a sequence of units: a character other than the quote and the backslash, or a
backslash with the character behind it. Conversely, any sequence of units between two
quotes is one literal, whatever follows.
-/

namespace BuildScript

namespace Text

/-- Characters that the quote leaves together when they stand between two of them. -/
inductive Units (quote : Char) : List Char → Prop where
  | nil : Units quote []
  | plain {c : Char} {cs : List Char} (notQuote : c ≠ quote) (notBackslash : c ≠ '\\')
      (later : Units quote cs) : Units quote (c :: cs)
  | escape (c : Char) {cs : List Char} (later : Units quote cs) : Units quote ('\\' :: c :: cs)

def areUnits (quote : Char) : List Char → Bool
  | [] => true
  | '\\' :: cs =>
      match cs with
      | [] => false
      | _ :: later => areUnits quote later
  | c :: cs => c != quote && areUnits quote cs

theorem areUnits_iff {quote : Char} {cs : List Char} :
    areUnits quote cs = true ↔ Units quote cs := by
  constructor
  · intro holds
    fun_induction areUnits quote cs with
    | case1 => exact .nil
    | case2 => cases holds
    | case3 c later ih => exact .escape c (ih holds)
    | case4 c cs notBackslash ih =>
        obtain ⟨notQuote, later⟩ := Bool.and_eq_true_iff.1 holds
        exact .plain (bne_iff_ne.1 notQuote) notBackslash (ih later)
  · intro units
    induction units with
    | nil => rfl
    | plain notQuote notBackslash later ih => simp [areUnits, notQuote, ih]
    | escape c later ih => exact ih

instance (quote : Char) : DecidablePred (Units quote) :=
  fun _ => decidable_of_iff _ areUnits_iff

theorem Units.append {quote : Char} {front back : List Char} (first : Units quote front)
    (second : Units quote back) : Units quote (front ++ back) := by
  induction first with
  | nil => exact second
  | plain notQuote notBackslash later ih => exact .plain notQuote notBackslash ih
  | escape c later ih => exact .escape c ih

end Text

open Text (Units)

/-! ## Literals -/

namespace Lexeme

/-- Units in front of a quote are read up to that quote, whatever follows. -/
theorem stringBody?_of_units {quote : Char} (visible : quote ≠ '\\') {inner : List Char}
    (units : Units quote inner) (rest : List Char) :
    stringBody? quote false (inner ++ quote :: rest) = some (inner ++ [quote], rest) := by
  induction units with
  | nil => simp [stringBody?, visible]
  | plain notQuote notBackslash later ih => simp [stringBody?, notQuote, notBackslash, ih]
  | escape c later ih => by_cases again : c = '\\' <;> simp [stringBody?, again, ih]

/--
What is read up to the closing quote are units. Behind a backslash that waits for its
character they are units together with that backslash.
-/
theorem units_of_stringBody? {quote : Char} {escaped : Bool} {cs body rest : List Char}
    (found : stringBody? quote escaped cs = some (body, rest)) :
    ∃ inner, body = inner ++ [quote] ∧
      Units quote (if escaped then '\\' :: inner else inner) := by
  fun_induction stringBody? quote escaped cs generalizing body rest with
  | case1 => cases found
  | case2 escaped cs ih =>
      obtain ⟨⟨later, after⟩, laterFound, same⟩ := Option.map_eq_some_iff.1 found
      cases same
      obtain ⟨inner, rfl, units⟩ := ih laterFound
      refine ⟨'\\' :: inner, rfl, ?_⟩
      cases escaped with
      | false => exact units
      | true => exact .escape _ units
  | case3 escaped c cs notBackslash closes =>
      cases found
      obtain ⟨rfl, rfl⟩ := closes
      exact ⟨[], rfl, .nil⟩
  | case4 escaped c cs notBackslash open? ih =>
      obtain ⟨⟨later, after⟩, laterFound, same⟩ := Option.map_eq_some_iff.1 found
      cases same
      obtain ⟨inner, rfl, units⟩ := ih laterFound
      refine ⟨c :: inner, rfl, ?_⟩
      cases escaped with
      | false => exact .plain (fun isQuote => open? ⟨isQuote, rfl⟩) notBackslash units
      | true => exact .escape c units

/-- A literal is its first character, units, and that character again. -/
theorem first_units {c : Char} {cs : List Char} {lexeme : Lexeme}
    (found : first c cs = .ok lexeme) (isString : lexeme.kind = .stringLiteral) :
    ∃ inner, lexeme.text = c :: (inner ++ [c]) ∧ c.utf8Size = 1 ∧ Units c inner := by
  have begins := first_begins c cs
  rw [found] at begins
  cases begins with
  | string isQuote closed =>
      obtain ⟨inner, rfl, units⟩ := units_of_stringBody? closed
      refine ⟨inner, rfl, ?_, units⟩
      rcases isQuote with rfl | rfl <;> decide
  | word solid start =>
      rcases word_kind_cases c cs with kind | ⟨_, kind⟩ <;> cases kind.symm.trans isString
  | blanks | lineComment | delimitedComment | slash | number | punctuation => cases isString

end Lexeme

/-- The content of a literal is what stands between its quotes. -/
theorem StringLiteral.content_part {file : SourceFile} {front inner back : List Char}
    {quote : Char} (narrow : quote.utf8Size = 1)
    (text : file.chars = front ++ ((quote :: (inner ++ [quote])) ++ back)) :
    (⟨file.part front (quote :: (inner ++ [quote]))⟩ : StringLiteral).content =
      String.ofList inner := by
  have between : (⟨file, Text.byteLength front + 1,
      Text.byteLength front + Text.byteLength (quote :: (inner ++ [quote])) - 1⟩ : Span) =
        file.part (front ++ [quote]) inner := by
    have one : Text.byteLength [quote] = 1 := by
      rw [Text.byteLength, narrow]
      rfl
    have whole : Text.byteLength (quote :: (inner ++ [quote])) =
        1 + (Text.byteLength inner + 1) := by
      rw [← List.singleton_append, Text.byteLength_append, Text.byteLength_append, one]
    rw [SourceFile.part, Text.byteLength_append, one, whole]
    congr 1
    omega
  have parts : file.chars = (front ++ [quote]) ++ (inner ++ ([quote] ++ back)) := by
    rw [text]
    simp
  have chars := SourceFile.part_chars parts
  change String.ofList (Span.chars ⟨file, _, _⟩) = _
  rw [SourceFile.part_start, SourceFile.part_stop, between, chars]

/-- A literal that a file is split into holds units of its quote. -/
theorem SourceFile.Reads.literal_units {file : SourceFile} {front last : List Char}
    {tokens : List Token} (reads : file.Reads front tokens last) {literal : StringLiteral}
    (member : literal.toToken ∈ tokens) : Units literal.quote literal.content.toList := by
  obtain ⟨before, c, cs, lexeme, text, found, same⟩ := reads.mem_cases member
  obtain ⟨inner, lexemeText, narrow, units⟩ :=
    Lexeme.first_units found (congrArg Token.kind same).symm
  rw [← Lexeme.first_append found, lexemeText] at text
  have spanEq : literal.span = file.part before (c :: (inner ++ [c])) := by
    rw [← lexemeText]
    exact congrArg Token.span same
  have content : literal.content = String.ofList inner := by
    have part := StringLiteral.content_part narrow text
    rw [← spanEq] at part
    exact part
  rw [StringLiteral.quote, spanEq, SourceFile.part_chars text, content, String.toList_ofList]
  exact units

/-! ## Strings that can be quoted -/

/-- The string can be written between double quotes as it is. -/
def WellQuoted (text : String) : Prop :=
  Units '"' text.toList

instance : DecidablePred WellQuoted :=
  fun text => inferInstanceAs (Decidable (Units '"' text.toList))

/-- The label of a coordinate can be quoted if the coordinate can. -/
theorem WellQuoted.label {coordinate : String} (quoted : WellQuoted coordinate) :
    WellQuoted (Bazel.label coordinate) := by
  have replaced : ∀ cs, Units '"' cs → Units '"' (cs.map fun c => if c = ':' then '_' else c) := by
    intro cs units
    induction units with
    | nil => exact .nil
    | @plain c cs notQuote notBackslash later ih =>
        by_cases isColon : c = ':'
        · rw [List.map_cons, if_pos isColon]
          exact .plain (by decide) (by decide) ih
        · rw [List.map_cons, if_neg isColon]
          exact .plain notQuote notBackslash ih
    | escape c later ih => exact .escape _ ih
  have front : Units '"' "@maven//:".toList := by decide
  have units := front.append (replaced _ quoted)
  rw [WellQuoted, Bazel.label, String.toList_append]
  simpa only [String.toList_ofList] using units

end BuildScript
