import BuildScript.Proofs.Lossless

/-!
# Where a token ends

A token is decided by its own text and by the character behind it. Which characters
may stand behind a token depends on its kind alone, and what follows such a character
does not matter.
-/

namespace BuildScript

namespace TokenKind

/-- Whether a token of the kind ends where the given character follows. -/
def endsBefore (kind : TokenKind) (next : Char) : Bool :=
  match kind with
  | .blanks => !Text.isBlank next
  | .identifier | .keyword _ => !Text.isIdentifierPart next
  | .numeric => !Text.isAsciiDigit next
  | .comment .line => Text.isLineEnd next
  | .punctuation mark => mark != '/' || (next != '/' && next != '*')
  | .comment .delimited | .stringLiteral => true

def EndsAt (kind : TokenKind) (rest : List Char) : Prop :=
  ∀ next ∈ rest.head?, kind.endsBefore next = true

theorem EndsAt.nil (kind : TokenKind) : kind.EndsAt [] := by
  intro next member
  cases member

theorem endsAt_cons_iff {kind : TokenKind} {next : Char} {rest : List Char} :
    kind.EndsAt (next :: rest) ↔ kind.endsBefore next = true := by
  simp [EndsAt]

/-- Only the first character of what follows a token matters. -/
theorem endsAt_append_iff {kind : TokenKind} {front : List Char} (nonempty : front ≠ [])
    (back : List Char) : kind.EndsAt (front ++ back) ↔ kind.EndsAt front := by
  obtain ⟨c, cs, rfl⟩ := List.exists_cons_of_ne_nil nonempty
  rfl

/-- Which tokens go on into a blank: blanks, and comments that run to the end of the line. -/
theorem endsBefore_blank (kind : TokenKind) {c : Char} (blank : Text.isBlank c = true) :
    kind = .blanks ∨ kind = .comment .line ∨ kind.endsBefore c = true := by
  have notPart : Text.isIdentifierPart c = false := by
    have notUnderscore : c ≠ '_' := by
      rintro rfl
      cases blank
    simp [Text.isIdentifierPart, blank, notUnderscore]
  have notDigit : Text.isAsciiDigit c = false := by
    simp only [Text.isBlank, Text.isAsciiDigit] at blank ⊢
    grind
  have notMark : c ≠ '/' ∧ c ≠ '*' := by
    constructor <;> rintro rfl <;> cases blank
  cases kind with
  | blanks => exact .inl rfl
  | identifier | keyword => exact .inr (.inr (by simp [endsBefore, notPart]))
  | numeric => exact .inr (.inr (by simp [endsBefore, notDigit]))
  | punctuation mark => exact .inr (.inr (by simp [endsBefore, notMark]))
  | stringLiteral => exact .inr (.inr rfl)
  | comment style =>
      cases style with
      | line => exact .inr (.inl rfl)
      | delimited => exact .inr (.inr rfl)

end TokenKind

namespace Lexeme

/-! ## Runs -/

/-- A run takes the characters of its class up to one that is not. -/
theorem run_eq_iff {kind : TokenKind} {class? : Char → Bool} {c : Char} {cs rest : List Char} :
    run kind class? c (cs ++ rest) = ⟨kind, c :: cs, rest⟩ ↔
      (∀ d ∈ cs, class? d = true) ∧ ∀ d ∈ rest.head?, class? d = false := by
  rw [run]
  constructor
  · intro same
    obtain ⟨_, taken, left⟩ := Lexeme.mk.inj same
    refine ⟨fun d member => ?_, fun d isNext => ?_⟩
    · rw [← (List.cons.inj taken).2] at member
      exact List.all_eq_true.1 List.all_takeWhile d member
    · rw [← left] at isNext
      have stops := List.head?_dropWhile_not class? (cs ++ rest)
      rw [Option.mem_def.1 isNext] at stops
      exact stops
  · rintro ⟨inside, stops⟩
    have none : rest.takeWhile class? = [] ∧ rest.dropWhile class? = rest := by
      cases rest with
      | nil => exact ⟨rfl, rfl⟩
      | cons d ds => simp [stops d rfl]
    rw [List.takeWhile_append_of_pos inside, List.dropWhile_append_of_pos inside, none.1, none.2,
      List.append_nil]

/-- A run is the same by itself, and ends before what is not of its class. -/
theorem run_append_iff {found kind : TokenKind} {class? : Char → Bool}
    (decides : ∀ next, found.endsBefore next = !class? next) {c : Char} {cs rest : List Char} :
    run found class? c (cs ++ rest) = ⟨kind, c :: cs, rest⟩ ↔
      run found class? c cs = ⟨kind, c :: cs, []⟩ ∧ kind.EndsAt rest := by
  by_cases same : found = kind
  · subst same
    have alone : run found class? c (cs ++ []) = ⟨found, c :: cs, []⟩ ↔ _ := run_eq_iff
    rw [List.append_nil] at alone
    rw [run_eq_iff, alone]
    simp [TokenKind.EndsAt, decides]
  · simp [run, same]

/-- A word is the same by itself, and ends before what cannot be part of a word. -/
theorem word_append_iff {kind : TokenKind} {c : Char} {cs rest : List Char} :
    word c (cs ++ rest) = ⟨kind, c :: cs, rest⟩ ↔
      word c cs = ⟨kind, c :: cs, []⟩ ∧ kind.EndsAt rest := by
  have asRun : ∀ {ds left}, word c ds = ⟨kind, c :: cs, left⟩ ↔
      wordKind (c :: cs) = kind ∧
        run kind Text.isIdentifierPart c ds = ⟨kind, c :: cs, left⟩ := by
    intro ds left
    simp only [word, run, Lexeme.mk.injEq, List.cons.injEq, true_and]
    constructor
    · rintro ⟨same, taken, behind⟩
      exact ⟨by rw [← same, taken], taken, behind⟩
    · rintro ⟨same, taken, behind⟩
      exact ⟨by rw [← same, taken], taken, behind⟩
  rw [asRun, asRun, and_assoc]
  refine and_congr_right fun isWord => run_append_iff fun next => ?_
  subst isWord
  unfold wordKind
  cases Keyword.ofSpelling? (String.ofList (c :: cs)) <;> rfl

/-! ## Texts that close -/

theorem commentBody?_ne_nil {cs body rest : List Char}
    (found : commentBody? cs = some (body, rest)) : body ≠ [] := by
  unfold commentBody? at found
  split at found
  · cases found
  · cases found
    exact List.cons_ne_nil _ _
  · obtain ⟨_, _, same⟩ := Option.map_eq_some_iff.1 found
    cases same
    exact List.cons_ne_nil _ _

/-- The end of a comment is found in the comment alone. -/
theorem commentBody?_local {cs body rest : List Char}
    (found : commentBody? cs = some (body, rest)) (more : List Char) :
    commentBody? (body ++ more) = some (body, more) := by
  fun_induction commentBody? cs generalizing body rest with
  | case1 => cases found
  | case2 cs => cases found; rfl
  | case3 c cs other ih =>
      obtain ⟨⟨inner, after⟩, innerFound, same⟩ := Option.map_eq_some_iff.1 found
      cases same
      have innerText := commentBody?_append innerFound
      have stays : ∀ later, c = '*' → inner ++ more = '/' :: later → False := by
        rintro later isStar isSlash
        cases inner with
        | nil => exact commentBody?_ne_nil innerFound rfl
        | cons d ds =>
            obtain ⟨rfl, _⟩ := List.cons.inj isSlash
            exact other (ds ++ rest) isStar innerText.symm
      rw [List.cons_append, commentBody?, ih innerFound]
      · rfl
      · exact stays

/-- The end of a string is found in the string alone. -/
theorem stringBody?_local {quote : Char} {escaped : Bool} {cs body rest : List Char}
    (found : stringBody? quote escaped cs = some (body, rest)) (more : List Char) :
    stringBody? quote escaped (body ++ more) = some (body, more) := by
  fun_induction stringBody? quote escaped cs generalizing body rest with
  | case1 => cases found
  | case2 escaped cs ih =>
      obtain ⟨⟨inner, after⟩, innerFound, same⟩ := Option.map_eq_some_iff.1 found
      cases same
      simp [stringBody?, ih innerFound]
  | case3 escaped c cs notBackslash closes =>
      cases found
      rw [List.cons_append, stringBody?, if_neg notBackslash, if_pos closes]
      rfl
  | case4 escaped c cs notBackslash stays ih =>
      obtain ⟨⟨inner, after⟩, innerFound, same⟩ := Option.map_eq_some_iff.1 found
      cases same
      simp [stringBody?, notBackslash, stays, ih innerFound]

theorem commentBody?_append_iff {body rest : List Char} :
    commentBody? (body ++ rest) = some (body, rest) ↔ commentBody? body = some (body, []) := by
  constructor
  · intro found
    have alone := commentBody?_local found []
    rwa [List.append_nil] at alone
  · intro alone
    exact commentBody?_local alone rest

theorem stringBody?_append_iff {quote : Char} {body rest : List Char} :
    stringBody? quote false (body ++ rest) = some (body, rest) ↔
      stringBody? quote false body = some (body, []) := by
  constructor
  · intro found
    have alone := stringBody?_local found []
    rwa [List.append_nil] at alone
  · intro alone
    exact stringBody?_local alone rest

theorem delimited_append_iff {kind : TokenKind} {inside rest : List Char} :
    slash ('*' :: (inside ++ rest)) = .ok ⟨kind, '/' :: '*' :: inside, rest⟩ ↔
      slash ('*' :: inside) = .ok ⟨kind, '/' :: '*' :: inside, []⟩ ∧ kind.EndsAt rest := by
  have asBody : ∀ {ds left}, slash ('*' :: ds) = .ok ⟨kind, '/' :: '*' :: inside, left⟩ ↔
      kind = .comment .delimited ∧ commentBody? ds = some (inside, left) := by
    intro ds left
    rw [slash]
    cases commentBody? ds <;> grind
  rw [asBody, asBody, commentBody?_append_iff, and_assoc]
  refine and_congr_right fun isComment => ?_
  subst isComment
  exact (and_iff_left fun next _ => rfl).symm

theorem slash_of_other {d : Char} (notLine : d ≠ '/') (notDelimited : d ≠ '*') (ds : List Char) :
    slash (d :: ds) = .ok ⟨.punctuation '/', ['/'], d :: ds⟩ := by
  rw [slash]
  · rintro line same
    exact notLine (List.cons.inj same).1
  · rintro inside same
    exact notDelimited (List.cons.inj same).1

theorem loneSlash_append_iff {kind : TokenKind} {rest : List Char} :
    slash rest = .ok ⟨kind, ['/'], rest⟩ ↔
      slash [] = .ok ⟨kind, ['/'], []⟩ ∧ kind.EndsAt rest := by
  have lone : slash [] = .ok ⟨kind, ['/'], []⟩ ↔ .punctuation '/' = kind := by simp [slash]
  cases rest with
  | nil => exact (and_iff_left (.nil kind)).symm
  | cons d ds =>
      have ends : .punctuation '/' = kind → (kind.endsBefore d = true ↔ d ≠ '/' ∧ d ≠ '*') := by
        rintro rfl
        simp [TokenKind.endsBefore]
      rw [lone, TokenKind.endsAt_cons_iff, and_congr_right ends]
      by_cases line : d = '/'
      · simp [line, slash]
      by_cases delimited : d = '*'
      · rw [delimited, slash]
        cases commentBody? ds <;> simp
      · simp [slash_of_other line delimited, line, delimited]

/-- What a slash begins is the same by itself, and a lone slash begins no comment. -/
theorem slash_append_iff {kind : TokenKind} {cs rest : List Char} :
    slash (cs ++ rest) = .ok ⟨kind, '/' :: cs, rest⟩ ↔
      slash cs = .ok ⟨kind, '/' :: cs, []⟩ ∧ kind.EndsAt rest := by
  cases cs with
  | nil => exact loneSlash_append_iff
  | cons d ds =>
      by_cases line : d = '/'
      · -- Behind the first slash a line comment is a run.
        subst line
        have asRun : run (.comment .line) (fun c => !Text.isLineEnd c) '/' (ds ++ rest) =
            ⟨kind, '/' :: ds, rest⟩ ↔ _ :=
          run_append_iff fun next => by rw [Bool.not_not]; rfl
        simpa [slash, run] using asRun
      by_cases delimited : d = '*'
      · subst delimited
        exact delimited_append_iff
      · simp [slash_of_other line delimited]

theorem quoted_append_iff {kind : TokenKind} {quote : Char} {cs rest : List Char} :
    quoted quote (cs ++ rest) = .ok ⟨kind, quote :: cs, rest⟩ ↔
      quoted quote cs = .ok ⟨kind, quote :: cs, []⟩ ∧ kind.EndsAt rest := by
  have asBody : ∀ {ds left}, quoted quote ds = .ok ⟨kind, quote :: cs, left⟩ ↔
      kind = .stringLiteral ∧ stringBody? quote false ds = some (cs, left) := by
    intro ds left
    unfold quoted
    cases stringBody? quote false ds <;> grind
  rw [asBody, asBody, stringBody?_append_iff, and_assoc]
  refine and_congr_right fun isString => ?_
  subst isString
  exact (and_iff_left fun next _ => rfl).symm

/-! ## Tokens -/

/--
A token is the same by itself and in front of any text before whose first character it
ends.
-/
theorem first_append_iff {kind : TokenKind} {c : Char} {cs rest : List Char} :
    first c (cs ++ rest) = .ok ⟨kind, c :: cs, rest⟩ ↔
      first c cs = .ok ⟨kind, c :: cs, []⟩ ∧ kind.EndsAt rest := by
  unfold first
  by_cases blank : Text.isBlank c = true
  · rw [if_pos blank, if_pos blank, Except.ok.injEq, Except.ok.injEq]
    exact run_append_iff fun next => rfl
  rw [if_neg blank, if_neg blank]
  by_cases start : Text.isIdentifierStart c = true
  · rw [if_pos start, if_pos start, Except.ok.injEq, Except.ok.injEq]
    exact word_append_iff
  rw [if_neg start, if_neg start]
  by_cases isSlash : c = '/'
  · rw [if_pos isSlash, if_pos isSlash, isSlash]
    exact slash_append_iff
  rw [if_neg isSlash, if_neg isSlash]
  by_cases isQuote : c = '"' ∨ c = '\x27'
  · rw [if_pos isQuote, if_pos isQuote]
    exact quoted_append_iff
  rw [if_neg isQuote, if_neg isQuote]
  by_cases digit : Text.isAsciiDigit c = true
  · rw [if_pos digit, if_pos digit, Except.ok.injEq, Except.ok.injEq]
    exact run_append_iff fun next => rfl
  · rw [if_neg digit, if_neg digit]
    -- Any other character is a token alone, and no slash.
    simp only [Except.ok.injEq, Lexeme.mk.injEq, List.cons.injEq, true_and]
    constructor
    · rintro ⟨rfl, none, _⟩
      refine ⟨⟨rfl, none, none.symm⟩, fun next _ => ?_⟩
      simp [TokenKind.endsBefore, isSlash]
    · rintro ⟨⟨rfl, none, _⟩, _⟩
      exact ⟨rfl, none, by rw [← none, List.nil_append]⟩

/-- The first token of a text is one by itself, and ends where the rest begins. -/
theorem first_cases {c : Char} {cs : List Char} {lexeme : Lexeme}
    (found : first c cs = .ok lexeme) :
    ∃ body, lexeme.text = c :: body ∧ cs = body ++ lexeme.rest ∧
      first c body = .ok ⟨lexeme.kind, c :: body, []⟩ ∧ lexeme.kind.EndsAt lexeme.rest := by
  obtain ⟨kind, text, rest⟩ := lexeme
  have whole := first_append found
  cases text with
  | nil => exact absurd rfl (first_text_ne_nil found)
  | cons d body =>
      obtain ⟨rfl, rfl⟩ := List.cons.inj whole
      obtain ⟨alone, ends⟩ := first_append_iff.1 found
      exact ⟨body, rfl, rfl, alone, ends⟩

/-- Only a blank begins blanks. -/
theorem isBlank_of_kind {c : Char} {cs : List Char} {lexeme : Lexeme}
    (found : first c cs = .ok lexeme) (isBlanks : lexeme.kind = .blanks) :
    Text.isBlank c = true := by
  have begins := first_begins c cs
  rw [found] at begins
  cases begins with
  | blanks blank => exact blank
  | word solid start =>
      rcases word_kind_cases c cs with kind | ⟨_, kind⟩ <;> cases kind.symm.trans isBlanks
  | lineComment | delimitedComment | slash | string | number | punctuation => cases isBlanks

end Lexeme

end BuildScript
