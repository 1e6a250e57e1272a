import BuildScript.TokenTree.Nesting

/-!
# Grouping as a relation

The grouping of tokens is described by relations, one case for each thing that can
happen to a token, and every result about it is an induction over them. The trees it
makes are well nested: a group begins and ends with its own delimiters, and none of
the characters that would end it earlier stands in it. In the other direction, well
nested trees are what their own tokens group into.
-/

namespace BuildScript

/-! ## Tokens as delimiters -/

/-- No character both opens and closes. -/
theorem Delimiter.opening_ne_closing (first second : Delimiter) :
    first.opening ≠ second.closing := by
  cases first <;> cases second <;> decide

namespace Token

theorem opening?_eq_some_iff {token : Token} {delimiter : Delimiter} {mark : Punctuation} :
    token.opening? = some (delimiter, mark) ↔
      token = mark.toToken ∧ mark.mark = delimiter.opening := by
  obtain ⟨kind, span⟩ := token
  obtain ⟨character, markSpan⟩ := mark
  cases kind with
  | punctuation found =>
      simp only [opening?, punctuation?, Option.bind_some, Option.map_eq_some_iff, Prod.mk.injEq,
        Punctuation.mk.injEq, Punctuation.toToken, Token.mk.injEq, TokenKind.punctuation.injEq,
        Delimiter.ofOpening?]
      constructor
      · rintro ⟨other, isOpening, rfl, rfl, rfl⟩
        refine ⟨⟨rfl, rfl⟩, ?_⟩
        split at isOpening
        · cases isOpening
          assumption
        · split at isOpening
          · cases isOpening
            assumption
          · split at isOpening
            · cases isOpening
              assumption
            · cases isOpening
      · rintro ⟨⟨rfl, rfl⟩, rfl⟩
        exact ⟨delimiter, by cases delimiter <;> rfl, rfl, rfl, rfl⟩
  | blanks | identifier | keyword _ | numeric | comment _ | stringLiteral =>
      simp [opening?, punctuation?, Punctuation.toToken]

theorem closing?_eq_some_iff {token : Token} {delimiter : Delimiter} {mark : Punctuation} :
    token.closing? delimiter = some mark ↔
      token = mark.toToken ∧ mark.mark = delimiter.closing := by
  obtain ⟨kind, span⟩ := token
  obtain ⟨character, markSpan⟩ := mark
  cases kind with
  | punctuation found =>
      simp only [closing?, punctuation?, Option.filter_eq_some_iff, Option.some.injEq,
        Punctuation.mk.injEq, Punctuation.toToken, Token.mk.injEq, TokenKind.punctuation.injEq,
        beq_iff_eq]
  | blanks | identifier | keyword _ | numeric | comment _ | stringLiteral =>
      simp [closing?, punctuation?, Punctuation.toToken]

/-- A token opens nothing if it is none of the three opening characters. -/
theorem opening?_eq_none_iff {token : Token} :
    token.opening? = none ↔
      ∀ delimiter : Delimiter, token.kind ≠ .punctuation delimiter.opening := by
  constructor
  · intro plain delimiter isOpening
    have opens : token.opening? = some (delimiter, ⟨delimiter.opening, token.span⟩) :=
      opening?_eq_some_iff.2 ⟨by rw [Punctuation.toToken, ← isOpening], rfl⟩
    rw [plain] at opens
    cases opens
  · intro differs
    match opens : token.opening? with
    | none => rfl
    | some (delimiter, mark) =>
        obtain ⟨same, isOpening⟩ := opening?_eq_some_iff.1 opens
        refine absurd ?_ (differs delimiter)
        rw [same, Punctuation.toToken, isOpening]

/-- A token does not close a group if it is not the group's closing character. -/
theorem closing?_eq_none_iff {token : Token} {delimiter : Delimiter} :
    token.closing? delimiter = none ↔ token.kind ≠ .punctuation delimiter.closing := by
  constructor
  · intro stays isClosing
    have closes : token.closing? delimiter = some ⟨delimiter.closing, token.span⟩ :=
      closing?_eq_some_iff.2 ⟨by rw [Punctuation.toToken, ← isClosing], rfl⟩
    rw [stays] at closes
    cases closes
  · intro differs
    match closes : token.closing? delimiter with
    | none => rfl
    | some mark =>
        obtain ⟨same, isClosing⟩ := closing?_eq_some_iff.1 closes
        refine absurd ?_ differs
        rw [same, Punctuation.toToken, isClosing]

/-- A token that opens a group closes none. -/
theorem closing?_of_opening? {token : Token} {inner : Delimiter} {mark : Punctuation}
    (opens : token.opening? = some (inner, mark)) (delimiter : Delimiter) :
    token.closing? delimiter = none := by
  obtain ⟨same, isOpening⟩ := opening?_eq_some_iff.1 opens
  rw [closing?_eq_none_iff, same, Punctuation.toToken, isOpening]
  intro sameKind
  exact Delimiter.opening_ne_closing inner delimiter (TokenKind.punctuation.inj sameKind)

end Token

namespace Nesting

/-! ## The grouping as a relation -/

/-- A group's inside is read up to the character that closes it. -/
inductive Closes : Delimiter → List Token → List TokenTree → Punctuation → List Token → Prop where
  | here {delimiter : Delimiter} {token : Token} {rest : List Token} {mark : Punctuation}
      (closes : token.closing? delimiter = some mark) :
      Closes delimiter (token :: rest) [] mark rest
  | token {delimiter : Delimiter} {token : Token} {tokens rest : List Token}
      {trees : List TokenTree} {mark : Punctuation}
      (stays : token.closing? delimiter = none) (plain : token.opening? = none)
      (later : Closes delimiter tokens trees mark rest) :
      Closes delimiter (token :: tokens) (.token token :: trees) mark rest
  | group {delimiter inner : Delimiter} {token : Token} {tokens between rest : List Token}
      {innerTrees trees : List TokenTree} {innerOpening innerClosing mark : Punctuation}
      (stays : token.closing? delimiter = none)
      (opens : token.opening? = some (inner, innerOpening))
      (closed : Closes inner tokens innerTrees innerClosing between)
      (later : Closes delimiter between trees mark rest) :
      Closes delimiter (token :: tokens)
        (.group inner innerOpening innerTrees innerClosing :: trees) mark rest

/-- The tokens end before a group does; the reports name the groups left open in it and it. -/
inductive Unclosed : Delimiter → Punctuation → List Token → List LexicalError → Prop where
  | exhausted {delimiter : Delimiter} {opening : Punctuation} :
      Unclosed delimiter opening [] [.undelimited opening.span delimiter]
  | token {delimiter : Delimiter} {opening : Punctuation} {token : Token} {tokens : List Token}
      {reports : List LexicalError}
      (stays : token.closing? delimiter = none) (plain : token.opening? = none)
      (later : Unclosed delimiter opening tokens reports) :
      Unclosed delimiter opening (token :: tokens) reports
  | within {delimiter inner : Delimiter} {opening innerOpening : Punctuation} {token : Token}
      {tokens : List Token} {reports : List LexicalError}
      (stays : token.closing? delimiter = none)
      (opens : token.opening? = some (inner, innerOpening))
      (unclosed : Unclosed inner innerOpening tokens reports) :
      Unclosed delimiter opening (token :: tokens)
        (reports ++ [.undelimited opening.span delimiter])
  | group {delimiter inner : Delimiter} {opening innerOpening innerClosing : Punctuation}
      {token : Token} {tokens between : List Token} {innerTrees : List TokenTree}
      {reports : List LexicalError}
      (stays : token.closing? delimiter = none)
      (opens : token.opening? = some (inner, innerOpening))
      (closed : Closes inner tokens innerTrees innerClosing between)
      (later : Unclosed delimiter opening between reports) :
      Unclosed delimiter opening (token :: tokens) reports

inductive Groups : List Token → Forest → Prop where
  | nil : Groups [] ⟨[], []⟩
  | token {token : Token} {tokens : List Token} {forest : Forest}
      (plain : token.opening? = none) (later : Groups tokens forest) :
      Groups (token :: tokens) (forest.prepend (.token token))
  | unclosed {delimiter : Delimiter} {opening : Punctuation} {token : Token}
      {tokens : List Token} {reports : List LexicalError}
      (opens : token.opening? = some (delimiter, opening))
      (unclosed : Unclosed delimiter opening tokens reports) :
      Groups (token :: tokens) ⟨[], reports⟩
  | group {delimiter : Delimiter} {opening closing : Punctuation} {token : Token}
      {tokens rest : List Token} {trees : List TokenTree} {forest : Forest}
      (opens : token.opening? = some (delimiter, opening))
      (closed : Closes delimiter tokens trees closing rest)
      (later : Groups rest forest) :
      Groups (token :: tokens) (forest.prepend (.group delimiter opening trees closing))

def GroupReading.Describes {bound : Nat} (delimiter : Delimiter) (opening : Punctuation)
    (tokens : List Token) : GroupReading bound → Prop
  | .closed trees closing rest _ => Closes delimiter tokens trees closing rest
  | .unclosed reports => Unclosed delimiter opening tokens reports

/-- One more tree in front of a reading that describes the tokens behind it. -/
theorem GroupReading.Describes.prepend {bound wider : Nat} {delimiter : Delimiter}
    {opening : Punctuation} {tokens longer : List Token} {tree : TokenTree}
    {reading : GroupReading bound} (le : bound ≤ wider)
    (describes : reading.Describes delimiter opening tokens)
    (closed : ∀ trees closing rest, Closes delimiter tokens trees closing rest →
      Closes delimiter longer (tree :: trees) closing rest)
    (unclosed : ∀ reports, Unclosed delimiter opening tokens reports →
      Unclosed delimiter opening longer reports) :
    (reading.prepend tree le).Describes delimiter opening longer := by
  cases reading with
  | closed trees closing rest shorter => exact closed trees closing rest describes
  | unclosed reports => exact unclosed reports describes

/-- The reading of a group's inside does what the relations say. -/
theorem readGroup_describes (delimiter : Delimiter) (opening : Punctuation)
    (tokens : List Token) :
    (readGroup delimiter opening tokens).Describes delimiter opening tokens := by
  induction delimiter, opening, tokens using readGroup.induct with
  | case1 delimiter opening =>
      rw [readGroup]
      exact .exhausted
  | case2 delimiter opening token tokens closing closes =>
      rw [readGroup, closes]
      exact .here closes
  | case3 delimiter opening token tokens stays plain ih =>
      rw [readGroup, stays, plain]
      exact ih.prepend _ (fun _ _ _ later => .token stays plain later)
        (fun _ later => .token stays plain later)
  | case4 delimiter opening token tokens stays inner innerOpening opens reports reading ih =>
      rw [reading] at ih
      rw [readGroup, stays, opens]
      simp only [reading]
      exact .within stays opens ih
  | case5 delimiter opening token tokens stays inner innerOpening opens trees innerClosing rest
      shorter reading ihInner ihRest =>
      rw [reading] at ihInner
      rw [readGroup, stays, opens]
      simp only [reading]
      exact ihRest.prepend _ (fun _ _ _ later => .group stays opens ihInner later)
        (fun _ later => .group stays opens ihInner later)

/-- Tokens group into their forest. -/
theorem groups_ofTokens (tokens : List Token) : Groups tokens (ofTokens tokens) := by
  induction tokens using ofTokens.induct with
  | case1 =>
      rw [ofTokens]
      exact .nil
  | case2 token tokens plain ih =>
      rw [ofTokens, plain]
      exact .token plain ih
  | case3 token tokens delimiter opening opens reports reading =>
      have describes := readGroup_describes delimiter opening tokens
      rw [reading] at describes
      rw [ofTokens, opens]
      simp only [reading]
      exact .unclosed opens describes
  | case4 token tokens delimiter opening opens trees closing rest shorter reading ih =>
      have describes := readGroup_describes delimiter opening tokens
      rw [reading] at describes
      rw [ofTokens, opens]
      simp only [reading]
      exact .group opens describes ih

/-- The tokens of a closed group are its trees' tokens and its closing character. -/
theorem Closes.tokens_eq {delimiter : Delimiter} {tokens rest : List Token}
    {trees : List TokenTree} {closing : Punctuation}
    (closed : Closes delimiter tokens trees closing rest) :
    tokens = TokenTree.flattenAll trees ++ closing.toToken :: rest := by
  induction closed with
  | here closes => rw [(Token.closing?_eq_some_iff.1 closes).1]; rfl
  | token stays plain later ih =>
      rw [ih, TokenTree.flattenAll, TokenTree.flatten]
      rfl
  | group stays opens inner later ihInner ihLater =>
      rw [ihInner, ihLater, (Token.opening?_eq_some_iff.1 opens).1, TokenTree.flattenAll,
        TokenTree.flatten]
      simp only [List.cons_append, List.append_assoc, List.nil_append]

/-! ## The relation determines the forest -/

theorem Closes.readGroup_eq {delimiter : Delimiter} {tokens rest : List Token}
    {trees : List TokenTree} {closing : Punctuation}
    (closed : Closes delimiter tokens trees closing rest) (opening : Punctuation) :
    ∃ shorter, readGroup delimiter opening tokens = .closed trees closing rest shorter := by
  induction closed generalizing opening with
  | here closes =>
      rw [readGroup, closes]
      exact ⟨_, rfl⟩
  | token stays plain later ih =>
      obtain ⟨shorter, reading⟩ := ih opening
      rw [readGroup, stays, plain]
      simp only [reading]
      exact ⟨Nat.lt_succ_of_lt shorter, rfl⟩
  | @group delimiter inner token tokens between rest innerTrees trees innerOpening innerClosing
      mark stays opens closed later ihInner ihLater =>
      obtain ⟨innerShorter, innerReading⟩ := ihInner innerOpening
      obtain ⟨shorter, reading⟩ := ihLater opening
      rw [readGroup, stays, opens]
      simp only [innerReading, reading]
      exact ⟨Nat.lt_succ_of_lt (Nat.lt_trans shorter innerShorter), rfl⟩

theorem Unclosed.readGroup_eq {delimiter : Delimiter} {opening : Punctuation}
    {tokens : List Token} {reports : List LexicalError}
    (unclosed : Unclosed delimiter opening tokens reports) :
    readGroup delimiter opening tokens = .unclosed reports := by
  induction unclosed with
  | exhausted => rw [readGroup]
  | token stays plain later ih =>
      rw [readGroup, stays, plain]
      simp only [ih]
      rfl
  | within stays opens unclosed ih =>
      rw [readGroup, stays, opens]
      simp only [ih]
  | @group delimiter inner opening innerOpening innerClosing token tokens between innerTrees
      reports stays opens closed later ih =>
      obtain ⟨innerShorter, innerReading⟩ := closed.readGroup_eq innerOpening
      rw [readGroup, stays, opens]
      simp only [innerReading, ih]
      rfl

/-- Tokens group into one forest only. -/
theorem Groups.ofTokens_eq {tokens : List Token} {forest : Forest}
    (groups : Groups tokens forest) : ofTokens tokens = forest := by
  induction groups with
  | nil => rw [ofTokens]
  | token plain later ih =>
      rw [ofTokens, plain]
      simp only [ih]
  | unclosed opens unclosed =>
      rw [ofTokens, opens]
      simp only [unclosed.readGroup_eq]
  | @group delimiter opening closing token tokens rest trees forest opens closed later ih =>
      obtain ⟨shorter, reading⟩ := closed.readGroup_eq opening
      rw [ofTokens, opens]
      simp only [reading, ih]

end Nesting

/-! ## Well nested trees -/

namespace TokenTree

/--
A tree in which no leaf opens a group, and every group begins and ends with its
delimiters and ends at the first place where it can.
-/
inductive WellNested : TokenTree → Prop where
  | token {leaf : Token} (plain : leaf.opening? = none) : WellNested (.token leaf)
  | group {delimiter : Delimiter} {opening closing : Punctuation} {trees : List TokenTree}
      (begins : opening.mark = delimiter.opening) (ends : closing.mark = delimiter.closing)
      (inside : ∀ tree ∈ trees, WellNested tree)
      (stays : ∀ leaf, .token leaf ∈ trees → leaf.closing? delimiter = none) :
      WellNested (.group delimiter opening trees closing)

end TokenTree

namespace Nesting

open TokenTree (WellNested flatten flattenAll)

/-- The inside of a group that closes is well nested, and none of its leaves ends it. -/
theorem Closes.wellNested {delimiter : Delimiter} {tokens rest : List Token}
    {trees : List TokenTree} {closing : Punctuation}
    (closed : Closes delimiter tokens trees closing rest) :
    closing.mark = delimiter.closing ∧ (∀ tree ∈ trees, WellNested tree) ∧
      ∀ leaf, .token leaf ∈ trees → leaf.closing? delimiter = none := by
  induction closed with
  | here closes =>
      exact ⟨(Token.closing?_eq_some_iff.1 closes).2, by simp, by simp⟩
  | token stays plain later ih =>
      obtain ⟨ends, nested, stay⟩ := ih
      refine ⟨ends, List.forall_mem_cons.2 ⟨.token plain, nested⟩, ?_⟩
      intro leaf mem
      rcases List.mem_cons.1 mem with same | inLater
      · cases same
        exact stays
      · exact stay leaf inLater
  | group stays opens closed later ihInner ihLater =>
      obtain ⟨innerEnds, innerNested, innerStay⟩ := ihInner
      obtain ⟨ends, nested, stay⟩ := ihLater
      have begins := (Token.opening?_eq_some_iff.1 opens).2
      have group : (TokenTree.group _ _ _ _).WellNested :=
        .group begins innerEnds innerNested innerStay
      refine ⟨ends, List.forall_mem_cons.2 ⟨group, nested⟩, ?_⟩
      intro leaf mem
      rcases List.mem_cons.1 mem with impossible | inLater
      · cases impossible
      · exact stay leaf inLater

/-- Every forest is well nested. -/
theorem Groups.wellNested {tokens : List Token} {forest : Forest}
    (groups : Groups tokens forest) : ∀ tree ∈ forest.trees, WellNested tree := by
  induction groups with
  | nil => simp
  | token plain later ih => exact List.forall_mem_cons.2 ⟨.token plain, ih⟩
  | unclosed opens unclosed => simp
  | group opens closed later ih =>
      obtain ⟨ends, nested, stay⟩ := closed.wellNested
      exact List.forall_mem_cons.2
        ⟨.group (Token.opening?_eq_some_iff.1 opens).2 ends nested stay, ih⟩

/-- The opening delimiter of a group opens it. -/
theorem opening?_toToken {delimiter : Delimiter} {mark : Punctuation}
    (begins : mark.mark = delimiter.opening) : mark.toToken.opening? = some (delimiter, mark) :=
  Token.opening?_eq_some_iff.2 ⟨rfl, begins⟩

/-- Trees that are read back one by one inside a group are read back together. -/
theorem Closes.prependAll {delimiter : Delimiter} {trees : List TokenTree}
    {tokens rest : List Token} {closing : Punctuation}
    (each : ∀ tree ∈ trees, ∀ (behind : List Token) (more : List TokenTree),
      Closes delimiter behind more closing rest →
        Closes delimiter (flatten tree ++ behind) (tree :: more) closing rest)
    (ends : Closes delimiter tokens [] closing rest) :
    Closes delimiter (flattenAll trees ++ tokens) trees closing rest := by
  induction trees with
  | nil => exact ends
  | cons tree trees ih =>
      obtain ⟨first, others⟩ := List.forall_mem_cons.1 each
      rw [flattenAll, List.append_assoc]
      exact first _ _ (ih others)

/-- The tokens of a well nested tree are read back as the tree inside any group. -/
theorem Closes.prepend {tree : TokenTree} (nested : WellNested tree) {delimiter : Delimiter}
    (stays : ∀ leaf, tree = .token leaf → leaf.closing? delimiter = none)
    {tokens rest : List Token} {trees : List TokenTree} {closing : Punctuation}
    (later : Closes delimiter tokens trees closing rest) :
    Closes delimiter (flatten tree ++ tokens) (tree :: trees) closing rest := by
  induction nested generalizing delimiter tokens rest trees closing with
  | token plain => exact .token (stays _ rfl) plain later
  | @group inner opening innerClosing innerTrees begins ends inside innerStays ih =>
      have opens := opening?_toToken begins
      have innerRead : Closes inner (flattenAll innerTrees ++ innerClosing.toToken :: tokens)
          innerTrees innerClosing tokens := by
        refine Closes.prependAll ?_ (.here (Token.closing?_eq_some_iff.2 ⟨rfl, ends⟩))
        intro tree mem behind more read
        refine ih tree mem ?_ read
        rintro leaf rfl
        exact innerStays leaf mem
      rw [flatten, List.cons_append, List.append_assoc]
      exact .group (Token.closing?_of_opening? opens delimiter) opens innerRead later

/-- The tokens of a well nested tree are read back as the tree. -/
theorem Groups.prepend {tree : TokenTree} (nested : WellNested tree) {tokens : List Token}
    {forest : Forest} (later : Groups tokens forest) :
    Groups (flatten tree ++ tokens) (forest.prepend tree) := by
  cases nested with
  | token plain => exact .token plain later
  | @group delimiter opening closing trees begins ends inside stays =>
      have read : Closes delimiter (flattenAll trees ++ closing.toToken :: tokens) trees closing
          tokens := by
        refine Closes.prependAll ?_ (.here (Token.closing?_eq_some_iff.2 ⟨rfl, ends⟩))
        intro tree mem behind more read
        refine Closes.prepend (inside tree mem) ?_ read
        rintro leaf rfl
        exact stays leaf mem
      rw [flatten, List.cons_append, List.append_assoc]
      exact .group (opening?_toToken begins) read later

theorem Unclosed.reports_ne_nil {delimiter : Delimiter} {opening : Punctuation}
    {tokens : List Token} {reports : List LexicalError}
    (unclosed : Unclosed delimiter opening tokens reports) : reports ≠ [] := by
  induction unclosed with
  | exhausted => exact List.cons_ne_nil _ _
  | token stays plain later ih => exact ih
  | within stays opens unclosed ih => exact List.append_ne_nil_of_left_ne_nil ih _
  | group stays opens closed later ih => exact ih

/-- Where every group is closed, the trees hold all the tokens. -/
theorem Groups.flattenAll_eq {tokens : List Token} {forest : Forest}
    (groups : Groups tokens forest) (clean : forest.reports = []) :
    flattenAll forest.trees = tokens := by
  induction groups with
  | nil => rfl
  | token plain later ih => exact congrArg (_ :: ·) (ih clean)
  | unclosed opens unclosed => exact absurd clean unclosed.reports_ne_nil
  | group opens closed later ih =>
      change _ :: _ ++ flattenAll _ = _
      rw [ih clean, closed.tokens_eq, (Token.opening?_eq_some_iff.1 opens).1, List.cons_append,
        List.append_assoc]
      rfl

/-- Well nested trees are what their tokens group into. -/
theorem ofTokens_flattenAll {trees : List TokenTree} (nested : ∀ tree ∈ trees, WellNested tree) :
    ofTokens (flattenAll trees) = ⟨trees, []⟩ := by
  apply Groups.ofTokens_eq
  induction trees with
  | nil => exact .nil
  | cons tree trees ih =>
      obtain ⟨first, others⟩ := List.forall_mem_cons.1 nested
      exact Groups.prepend first (ih others)

end Nesting

end BuildScript
