import BuildScript.Proofs.WrittenText

/-!
# Texts that close

Behind a quote stands a string if and only if units of that quote and then the quote itself
follow. There is one way at most to take units up to such a quote, and the string ends there.
Behind `/*` stands a comment if and only if `*/` follows somewhere, and the comment ends with
the first one. Where nothing closes the text, the reading ends with an error at its opening.
-/

namespace BuildScript

/-! ## What closes a text -/

namespace Text

/-- The text begins with units of the quote, and the quote behind them. -/
structure ClosesAfter (quote : Char) (inner text : List Char) : Prop where
  units : Units quote inner
  closes : inner ++ [quote] <+: text

/-- The mark stands in the text behind the given front, and nowhere earlier. -/
structure FirstBehind (mark front text : List Char) : Prop where
  stands : front ++ mark <+: text
  first : ∀ other, other ++ mark <+: text → front.length ≤ other.length

theorem FirstBehind.cons {mark front text : List Char} (later : FirstBehind mark front text)
    {c : Char} (notHere : ¬mark <+: c :: text) : FirstBehind mark (c :: front) (c :: text) := by
  refine ⟨(List.prefix_cons_inj c).2 later.stands, ?_⟩
  intro other stands
  cases other with
  | nil => exact absurd stands notHere
  | cons d other =>
      have inside := later.first other (List.cons_prefix_cons.1 stands).2
      exact Nat.succ_le_succ inside

end Text

open Text (ClosesAfter FirstBehind Units)

namespace Lexeme

/-! ## Strings -/

theorem ne_backslash_of_quote {quote : Char} (isQuote : quote = '"' ∨ quote = '\x27') :
    quote ≠ '\\' := by
  rcases isQuote with rfl | rfl <;> decide

theorem utf8Size_of_quote {quote : Char} (isQuote : quote = '"' ∨ quote = '\x27') :
    quote.utf8Size = 1 := by
  rcases isQuote with rfl | rfl <;> decide

theorem first_of_quote {quote : Char} (isQuote : quote = '"' ∨ quote = '\x27') (cs : List Char) :
    first quote cs = quoted quote cs := by
  rcases isQuote with rfl | rfl <;> rfl

theorem stringBody?_of_closesAfter {quote : Char} (visible : quote ≠ '\\')
    {inner text : List Char} (closes : ClosesAfter quote inner text) :
    ∃ rest, stringBody? quote false text = some (inner ++ [quote], rest) := by
  obtain ⟨units, rest, rfl⟩ := closes
  refine ⟨rest, ?_⟩
  rw [List.append_assoc, List.singleton_append]
  exact stringBody?_of_units visible units rest

/-- Without units and a quote behind them no string is found. -/
theorem stringBody?_eq_none {quote : Char} {text : List Char}
    (open? : ¬∃ inner, ClosesAfter quote inner text) : stringBody? quote false text = none := by
  cases found : stringBody? quote false text with
  | none => rfl
  | some parts =>
      obtain ⟨body, rest⟩ := parts
      obtain ⟨inner, rfl, units⟩ := units_of_stringBody? found
      exact absurd ⟨inner, units, rest, stringBody?_append found⟩ open?

/-- Only one sequence of units reaches the quote that closes it. -/
theorem eq_of_closesAfter {quote : Char} (visible : quote ≠ '\\') {inner other text : List Char}
    (closes : ClosesAfter quote inner text) (closesToo : ClosesAfter quote other text) :
    inner = other := by
  obtain ⟨rest, found⟩ := stringBody?_of_closesAfter visible closes
  obtain ⟨_, foundToo⟩ := stringBody?_of_closesAfter visible closesToo
  have same := Option.some.inj (found.symm.trans foundToo)
  exact List.append_cancel_right (congrArg Prod.fst same)

/-! ## Comments -/

/-- A comment is cut behind the first `*/`, and found only if there is one. -/
theorem commentBody?_cases (text : List Char) :
    (∃ inner rest, commentBody? text = some (inner ++ ['*', '/'], rest) ∧
      FirstBehind ['*', '/'] inner text) ∨
    (commentBody? text = none ∧ ¬['*', '/'] <:+: text) := by
  fun_induction commentBody? text with
  | case1 => exact .inr ⟨rfl, by simp⟩
  | case2 cs => exact .inl ⟨[], cs, rfl, ⟨cs, rfl⟩, fun _ _ => Nat.zero_le _⟩
  | case3 c cs other ih =>
      have notHere : ¬['*', '/'] <+: c :: cs := by
        rintro ⟨later, same⟩
        obtain ⟨rfl, rfl⟩ := List.cons.inj same
        exact other later rfl rfl
      rcases ih with ⟨inner, rest, found, first⟩ | ⟨missing, absent⟩
      · exact .inl ⟨c :: inner, rest, by rw [found]; rfl, first.cons notHere⟩
      · refine .inr ⟨by rw [missing]; rfl, ?_⟩
        rw [List.infix_cons_iff]
        exact not_or_intro notHere absent

end Lexeme

/-! ## One step of the reader -/

/-- The literal stands in the file behind the front, and holds what its two quotes enclose. -/
structure StringLiteral.Encloses (literal : StringLiteral) (file : SourceFile)
    (front : List Char) (mark : Char) (inner : List Char) : Prop where
  place : literal.span = file.part front (mark :: (inner ++ [mark]))
  text : literal.toToken.text = String.ofList (mark :: (inner ++ [mark]))
  quote : literal.quote = mark
  content : literal.content = String.ofList inner
  /-- The content is cut out in order, inside the file and between characters. -/
  cut : Span.make? literal.span.file (literal.span.start + 1) (literal.span.stop - 1) =
    some (file.part (front ++ [mark]) inner)

theorem StringLiteral.encloses_part {file : SourceFile} {front inner back : List Char}
    {mark : Char} (narrow : mark.utf8Size = 1)
    (text : file.chars = front ++ ((mark :: (inner ++ [mark])) ++ back)) :
    (⟨file.part front (mark :: (inner ++ [mark]))⟩ : StringLiteral).Encloses file front mark
      inner := by
  have chars := SourceFile.part_chars text
  have parts : file.chars = (front ++ [mark]) ++ (inner ++ ([mark] ++ back)) := by
    rw [text]
    simp
  have start : Text.byteLength front + 1 = (file.part (front ++ [mark]) inner).start := by
    simp [narrow]
  have stop : Text.byteLength front + Text.byteLength (mark :: (inner ++ [mark])) - 1 =
      (file.part (front ++ [mark]) inner).stop := by
    simp only [SourceFile.part_stop, Text.byteLength_cons, Text.byteLength_append,
      Text.byteLength_nil, narrow]
    omega
  refine ⟨rfl, congrArg String.ofList chars, ?_, content_part narrow text, ?_⟩
  · rw [StringLiteral.quote, chars]
    rfl
  · rw [SourceFile.part_file, SourceFile.part_start, SourceFile.part_stop, start, stop]
    exact SourceFile.part_make? parts

/-- What a reader behind the front takes where the quote stands before the text. -/
structure Reader.TakesString (reader : Reader) (front : List Char) (quote : Char)
    (text : List Char) : Prop where
  literal_iff : (∃ literal : StringLiteral, reader.next.1 = .ok literal.toToken) ↔
    ∃ inner, ClosesAfter quote inner text
  unique : ∀ inner other, ClosesAfter quote inner text → ClosesAfter quote other text →
    inner = other
  literal : ∀ inner, ClosesAfter quote inner text → ∃ literal : StringLiteral,
    reader.next.1 = .ok literal.toToken ∧ literal.Encloses reader.file front quote inner
  fault : (¬∃ inner, ClosesAfter quote inner text) →
    reader.next.1 = .error (.fatal (.unterminatedString (reader.file.part front [quote])))

/-- What a reader behind the front takes where `/*` stands before the text. -/
structure Reader.TakesComment (reader : Reader) (front text : List Char) : Prop where
  comment_iff : (∃ span, reader.next.1 = .ok ⟨.comment .delimited, span⟩) ↔
    ['*', '/'] <:+: text
  comment : ['*', '/'] <:+: text → ∃ inner token, FirstBehind ['*', '/'] inner text ∧
    reader.next.1 = .ok token ∧ token.kind = .comment .delimited ∧
    token.span = reader.file.part front ('/' :: '*' :: (inner ++ ['*', '/'])) ∧
    token.text = String.ofList ('/' :: '*' :: (inner ++ ['*', '/']))
  fault : ¬['*', '/'] <:+: text →
    reader.next.1 = .error (.fatal (.unterminatedComment (reader.file.part front ['/', '*'])))

namespace Reader

variable {reader : Reader} {front text : List Char}

theorem takesString {quote : Char} (behind : reader.Behind front)
    (isQuote : quote = '"' ∨ quote = '\x27') (left : reader.rest = quote :: text) :
    reader.TakesString front quote text := by
  have visible := Lexeme.ne_backslash_of_quote isQuote
  have narrow := Lexeme.utf8Size_of_quote isQuote
  have literal : ∀ inner, ClosesAfter quote inner text → ∃ literal : StringLiteral,
      reader.next.1 = .ok literal.toToken ∧ literal.Encloses reader.file front quote inner := by
    intro inner closes
    obtain ⟨rest, body⟩ := Lexeme.stringBody?_of_closesAfter visible closes
    have found : Lexeme.first quote text =
        .ok ⟨.stringLiteral, quote :: (inner ++ [quote]), rest⟩ := by
      rw [Lexeme.first_of_quote isQuote, Lexeme.quoted, body]
    have parts : reader.file.chars = front ++ ((quote :: (inner ++ [quote])) ++ rest) := by
      rw [behind.text, left, ← Lexeme.first_append found]
    obtain ⟨_, step, _⟩ := next_of_first behind left found
    exact ⟨_, by rw [step]; rfl, StringLiteral.encloses_part narrow parts⟩
  have fault : (¬∃ inner, ClosesAfter quote inner text) →
      reader.next.1 = .error (.fatal (.unterminatedString (reader.file.part front [quote]))) := by
    intro open?
    have failed : Lexeme.first quote text = .error .unterminatedString := by
      rw [Lexeme.first_of_quote isQuote, Lexeme.quoted, Lexeme.stringBody?_eq_none open?]
    rw [next_of_fault behind left failed, LexicalFault.error, SourceFile.part, Text.byteLength_cons,
      narrow, Text.byteLength_nil]
  refine ⟨⟨?_, ?_⟩, fun _ _ => Lexeme.eq_of_closesAfter visible, literal, fault⟩
  · rintro ⟨_, taken⟩
    by_contra open?
    cases taken.symm.trans (fault open?)
  · rintro ⟨inner, closes⟩
    obtain ⟨found, taken, _⟩ := literal inner closes
    exact ⟨found, taken⟩

theorem takesComment (behind : reader.Behind front) (left : reader.rest = '/' :: '*' :: text) :
    reader.TakesComment front text := by
  have begins : Lexeme.first '/' ('*' :: text) = Lexeme.slash ('*' :: text) := rfl
  have comment : ['*', '/'] <:+: text → ∃ inner token, FirstBehind ['*', '/'] inner text ∧
      reader.next.1 = .ok token ∧ token.kind = .comment .delimited ∧
      token.span = reader.file.part front ('/' :: '*' :: (inner ++ ['*', '/'])) ∧
      token.text = String.ofList ('/' :: '*' :: (inner ++ ['*', '/'])) := by
    intro occurs
    rcases Lexeme.commentBody?_cases text with ⟨inner, rest, body, first⟩ | ⟨_, absent⟩
    · have found : Lexeme.first '/' ('*' :: text) =
          .ok ⟨.comment .delimited, '/' :: '*' :: (inner ++ ['*', '/']), rest⟩ := by
        rw [begins, Lexeme.slash, body]
      have parts : reader.file.chars =
          front ++ (('/' :: '*' :: (inner ++ ['*', '/'])) ++ rest) := by
        rw [behind.text, left, ← Lexeme.first_append found]
      obtain ⟨_, step, _⟩ := next_of_first behind left found
      exact ⟨inner, _, first, by rw [step], rfl, rfl,
        congrArg String.ofList (SourceFile.part_chars parts)⟩
    · exact absurd occurs absent
  have fault : ¬['*', '/'] <:+: text → reader.next.1 =
      .error (.fatal (.unterminatedComment (reader.file.part front ['/', '*']))) := by
    intro absent
    rcases Lexeme.commentBody?_cases text with ⟨inner, _, _, first⟩ | ⟨missing, _⟩
    · have occurs : ['*', '/'] <:+: text :=
        (List.suffix_append inner ['*', '/']).isInfix.trans first.stands.isInfix
      exact absurd occurs absent
    · have failed : Lexeme.first '/' ('*' :: text) = .error .unterminatedComment := by
        rw [begins, Lexeme.slash, missing]
      rw [next_of_fault behind left failed]
      rfl
  refine ⟨⟨?_, ?_⟩, comment, fault⟩
  · rintro ⟨_, taken⟩
    by_contra absent
    cases taken.symm.trans (fault absent)
  · intro occurs
    obtain ⟨_, ⟨kind, span⟩, _, taken, isComment, _⟩ := comment occurs
    cases isComment
    exact ⟨span, taken⟩

/--
Strings and delimited comments are exactly what their grammar says, wherever in a script a
quote or `/*` begins a token.
-/
theorem closed_texts_exact {reader : Reader} {front : List Char} (behind : reader.Behind front) :
    (∀ quote text, quote = '"' ∨ quote = '\x27' → reader.rest = quote :: text →
      reader.TakesString front quote text) ∧
    ∀ text, reader.rest = '/' :: '*' :: text → reader.TakesComment front text :=
  ⟨fun _ _ isQuote left => takesString behind isQuote left,
    fun _ left => takesComment behind left⟩

end Reader

namespace ClosedTexts

/-- Behind a wide character, a string with both quotes and backslashes; then a comment. -/
def mixed : SourceFile :=
  .ofText 0 "mixed" "é'a\\'\"\\\\'/*/**/"

def atString : Reader :=
  ⟨mixed, 2, mixed.chars.drop 1⟩

def atComment : Reader :=
  ⟨mixed, 10, mixed.chars.drop 9⟩

theorem mixed_texts_exact :
    atString.Behind ['é'] ∧ ClosesAfter '\x27' ['a', '\\', '\x27', '"', '\\', '\\']
        (mixed.chars.drop 2) ∧
      (∃ literal : StringLiteral, atString.next.1 = .ok literal.toToken ∧
        literal.Encloses mixed ['é'] '\x27' ['a', '\\', '\x27', '"', '\\', '\\']) ∧
      atComment.Behind (mixed.chars.take 9) ∧ ['*', '/'] <:+: mixed.chars.drop 11 ∧
      ∃ span, atComment.next.1 = .ok ⟨.comment .delimited, span⟩ := by
  have behindString : atString.Behind ['é'] := ⟨by decide +kernel, by decide +kernel⟩
  have behindComment : atComment.Behind (mixed.chars.take 9) :=
    ⟨by decide +kernel, by decide +kernel⟩
  have closes : ClosesAfter '\x27' ['a', '\\', '\x27', '"', '\\', '\\'] (mixed.chars.drop 2) :=
    ⟨by decide +kernel, by decide +kernel⟩
  have occurs : ['*', '/'] <:+: mixed.chars.drop 11 := by decide +kernel
  have strings := (Reader.closed_texts_exact behindString).1 '\x27' (mixed.chars.drop 2) (.inr rfl)
    (by decide +kernel)
  have comments := (Reader.closed_texts_exact behindComment).2 (mixed.chars.drop 11)
    (by decide +kernel)
  exact ⟨behindString, closes, strings.literal _ closes, behindComment, occurs,
    comments.comment_iff.2 occurs⟩

end ClosedTexts

end BuildScript
