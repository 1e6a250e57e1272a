import BuildScript.Proofs.Operations
import Mathlib.Data.List.TakeWhile

/-!
# Rules only move on

Every rule of the grammar leaves the parser in the frame where it found it, at the
same place or further on, with the frames that were set aside untouched and its
reports after the earlier ones. A rule that yields a node has passed a tree, and an
attempt at a declaration passes one even when it fails, so no loop of the grammar
stops before its frame does.
-/

namespace BuildScript.Grammar

/-! ## Frames -/

namespace Frame

variable (frame : Frame)

theorem remaining_eq : frame.remaining = frame.rest.length := by
  rw [remaining, rest, List.length_drop]

theorem isEnd_iff : frame.isEnd = true ↔ frame.rest = [] := by
  rw [isEnd, rest, decide_eq_true_iff, List.drop_eq_nil_iff]

@[simp]
theorem rest_advance (count : Nat) : (frame.advance count).rest = frame.rest.drop count := by
  rw [rest, rest, List.drop_drop]
  rfl

@[simp]
theorem advance_zero : frame.advance 0 = frame := rfl

theorem advance_advance (first second : Nat) :
    (frame.advance first).advance second = frame.advance (first + second) := by
  rw [advance, advance, advance, Nat.add_assoc]

/-- Trees that are passed while a condition holds are trees that are left. -/
theorem length_takeWhile_le_remaining (passes : TokenTree → Bool) :
    (frame.rest.takeWhile passes).length ≤ frame.remaining := by
  rw [remaining_eq]
  exact (List.takeWhile_prefix passes).length_le

theorem forward_of_rest_eq_nil (empty : frame.rest = []) : frame.forward = frame := by
  rw [forward, if_pos (frame.isEnd_iff.2 empty)]

theorem forward_of_rest_eq_cons {tree : TokenTree} {trees : List TokenTree}
    (restEq : frame.rest = tree :: trees) : frame.forward = frame.advance 1 := by
  rw [forward, if_neg]
  intro atEnd
  rw [frame.isEnd_iff, restEq] at atEnd
  cases atEnd

theorem isExhausted_iff : frame.isExhausted = true ↔
    ∀ tree ∈ frame.rest, tree.isSignificant = false := by
  simp only [isExhausted, List.all_eq_true, Bool.not_eq_true']

/-- What is left from the next tree on that counts for the grammar. -/
theorem rest_toSignificant :
    frame.toSignificant.rest = frame.rest.dropWhile fun tree => !tree.isSignificant := by
  rw [toSignificant, rest_advance]
  generalize frame.rest = trees
  induction trees with
  | nil => rfl
  | cons tree trees ih =>
      cases significant : tree.isSignificant
      · rw [List.takeWhile_cons_of_pos (by rw [significant]; rfl),
          List.dropWhile_cons_of_pos (by rw [significant]; rfl), List.length_cons,
          List.drop_succ_cons, ih]
      · rw [List.takeWhile_cons_of_neg (by rw [significant]; decide),
          List.dropWhile_cons_of_neg (by rw [significant]; decide)]
        rfl

variable {frame}

/-- A token that the parser sees is the next tree. -/
theorem rest_of_peek_atomic {leaf : Token}
    (peeked : frame.peek = .atomic leaf) : ∃ trees, frame.rest = .token leaf :: trees := by
  rw [peek] at peeked
  cases left : frame.rest with
  | nil =>
      rw [left] at peeked
      cases closing : frame.closing <;> rw [closing] at peeked <;> cases peeked
  | cons tree trees =>
      rw [left] at peeked
      cases tree with
      | token other =>
          cases peeked
          exact ⟨trees, rfl⟩
      | group delimiter opening inner closing => cases peeked

end Frame

/-! ## Parsers that went on -/

/-- A parser that went on in its frame, perhaps with more reports. -/
structure Parser.Continues (before after : Parser) : Prop where
  trees : after.frame.trees = before.frame.trees
  closing : after.frame.closing = before.frame.closing
  index : before.frame.index ≤ after.frame.index
  stack : after.stack = before.stack
  reports : before.reports <+: after.reports

namespace Parser.Continues

variable {first second third : Parser}

theorem refl (parser : Parser) : parser.Continues parser :=
  ⟨rfl, rfl, Nat.le_refl _, rfl, List.prefix_rfl⟩

theorem trans (earlier : first.Continues second) (later : second.Continues third) :
    first.Continues third :=
  ⟨later.trees.trans earlier.trees, later.closing.trans earlier.closing,
    Nat.le_trans earlier.index later.index, later.stack.trans earlier.stack,
    earlier.reports.trans later.reports⟩

/-- Advancing in the frame is going on. -/
theorem advance (parser : Parser) (count : Nat) :
    parser.Continues { parser with frame := parser.frame.advance count } :=
  ⟨rfl, rfl, Nat.le_add_right _ _, rfl, List.prefix_rfl⟩

theorem remaining_le (continues : first.Continues second) :
    second.frame.remaining ≤ first.frame.remaining := by
  have index := continues.index
  rw [Frame.remaining, Frame.remaining, continues.trees]
  omega

end Parser.Continues

namespace Rule

variable {α β : Type}

/-! ## Rules as functions of the parser -/

theorem peekSignificant_apply (parser : Parser) : peekSignificant parser =
    (some parser.frame.toSignificant.peek, { parser with frame := parser.frame.toSignificant }) :=
  rfl

theorem nextSignificant_apply (parser : Parser) : nextSignificant parser =
    (some parser.frame.toSignificant.peek,
      { parser with frame := parser.frame.toSignificant.forward }) :=
  rfl

theorem bind_of_some {first : Rule α} {next : α → Rule β} {parser after : Parser} {value : α}
    (step : first parser = (some value, after)) : (first >>= next) parser = next value after := by
  change andThen first next parser = _
  rw [andThen, step]

theorem bind_of_none {first : Rule α} {next : α → Rule β} {parser after : Parser}
    (step : first parser = (none, after)) : (first >>= next) parser = (none, after) := by
  change andThen first next parser = _
  rw [andThen, step]

/-- A rule after another yields a node if both do. -/
theorem bind_eq_some_iff {first : Rule α} {next : α → Rule β} {parser last : Parser} {node : β} :
    (first >>= next) parser = (some node, last) ↔
      ∃ value after, first parser = (some value, after) ∧ next value after = (some node, last) := by
  match step : first parser with
  | (some value, after) =>
      rw [bind_of_some step]
      constructor
      · intro found
        exact ⟨value, after, rfl, found⟩
      · rintro ⟨_, _, same, found⟩
        cases same
        exact found
  | (none, after) =>
      rw [bind_of_none step]
      constructor
      · intro impossible
        cases impossible
      · rintro ⟨_, _, impossible, _⟩
        cases impossible

/-! ## Advancing -/

/-- The rule leaves the parser where it was or further on. -/
def Advances (rule : Rule α) : Prop :=
  ∀ parser : Parser, parser.Continues (rule parser).2

theorem Advances.pure (value : α) : Advances (pure value : Rule α) :=
  fun parser => .refl parser

theorem Advances.bind {first : Rule α} {next : α → Rule β} (advances : Advances first)
    (later : ∀ value, Advances (next value)) : Advances (first >>= next) := by
  intro parser
  have moved := advances parser
  match step : first parser with
  | (some value, after) =>
      rw [bind_of_some step]
      rw [step] at moved
      exact moved.trans (later value after)
  | (none, after) =>
      rw [bind_of_none step]
      rw [step] at moved
      exact moved

theorem Advances.fail : Advances (fail : Rule α) :=
  fun parser => .refl parser

theorem Advances.reject (error : SyntaxError) : Advances (reject error : Rule α) :=
  fun _ => ⟨rfl, rfl, Nat.le_refl _, rfl, List.prefix_append _ _⟩

theorem Advances.unexpected (expected : Expectation) (found : Reading) :
    Advances (unexpected expected found : Rule α) :=
  .reject _

theorem Advances.peek : Advances peek :=
  fun parser => .refl parser

theorem Advances.isExhausted : Advances isExhausted :=
  fun parser => .refl parser

theorem Advances.toSignificant : Advances (move Frame.toSignificant) :=
  fun parser => .advance parser _

theorem Advances.forward : Advances forward := by
  intro parser
  change parser.Continues { parser with frame := parser.frame.forward }
  rw [Frame.forward]
  split
  · exact .refl parser
  · exact .advance parser 1

theorem Advances.peekSignificant : Advances peekSignificant :=
  .bind .toSignificant fun _ => .peek

theorem Advances.nextSignificant : Advances nextSignificant :=
  .bind .peekSignificant fun _ => .bind .forward fun _ => .pure _

/-! ## Groups -/

theorem Advances.require (inside : Option α) : Advances (require inside) := by
  cases inside with
  | none => exact .fail
  | some node => exact .pure node

theorem Advances.closeGroup (delimiter : Delimiter) (inside : Option α) :
    Advances (closeGroup delimiter inside) := by
  intro parser
  rw [Rule.closeGroup.eq_def]
  split
  · exact .refl parser
  · split
    · exact .refl parser
    · exact (Advances.toSignificant parser).trans (Advances.unexpected (α := α) _ _ _)

/-- The group that comes next stands at the next significant place. -/
theorem groupAhead?_eq_some_iff {delimiter : Delimiter} {frame : Frame}
    {opening closing : Punctuation} {trees : List TokenTree} :
    groupAhead? delimiter frame = some (opening, trees, closing) ↔
      ∃ behind, frame.toSignificant.rest =
        .group delimiter opening trees closing :: behind := by
  rw [groupAhead?]
  constructor
  · intro ahead
    split at ahead
    · rename_i found opens inner closes behind restEq
      split at ahead
      · rename_i same
        cases ahead
        exact ⟨behind, by rw [restEq, same]⟩
      · cases ahead
    · cases ahead
  · rintro ⟨behind, restEq⟩
    rw [restEq]
    exact if_pos rfl

/-- Behind a group the parser is in the outer frame again, one tree further on. -/
theorem leave_of_continues {trees : List TokenTree} {closing : Punctuation}
    {parser within : Parser} (continues : (enter trees closing parser).Continues within) :
    leave within = { parser with
      frame := parser.frame.toSignificant.forward
      reports := within.reports } := by
  rw [leave, continues.stack]
  rfl

theorem Advances.enclosed (delimiter : Delimiter) {inside : Rule α} (advances : Advances inside) :
    Advances (enclosed delimiter inside) := by
  intro parser
  rw [Rule.enclosed.eq_def]
  split
  · rename_i opening trees closing ahead
    have entered := (advances (enter trees closing parser)).trans
      (Advances.closeGroup delimiter (inside (enter trees closing parser)).1
        (inside (enter trees closing parser)).2)
    have outside : parser.Continues
        { parser with frame := parser.frame.toSignificant.forward } :=
      (Advances.toSignificant parser).trans (Advances.forward _)
    change parser.Continues (leave _)
    rw [leave_of_continues entered]
    exact ⟨outside.trees, outside.closing, outside.index, rfl, entered.reports⟩
  · exact (Advances.toSignificant parser).trans (Advances.unexpected (α := α) _ _ _)

/-! ## Rules that are made of operations -/

theorem Advances.stopAt (wanted : Reading → Bool) : Advances (stopAt wanted) :=
  fun parser => .advance parser _

/-- One operation after another goes on in the frame, also when a group is entered and left. -/
theorem continues_of_runs {before after : Parser} (runs : before.Runs after) :
    before.Continues after := by
  induction runs with
  | stay parser => exact .refl parser
  | forward _ ih => exact ih.trans (Advances.forward _)
  | skip _ ih => exact ih.trans (Advances.peekSignificant _)
  | stopAt _ wanted ih => exact ih.trans (Advances.stopAt wanted _)
  | report _ error ih => exact ih.trans (Advances.reject (α := Unit) error _)
  | group _ delimiter _ ih inside => exact ih.trans (Advances.enclosed delimiter inside _)

theorem Operates.advances {rule : Rule α} (operates : Operates rule) : Advances rule :=
  fun parser => continues_of_runs (operates parser)

/-! ## Consuming -/

/-- The rule passes a tree whenever it yields a node. -/
def Consumes (rule : Rule α) : Prop :=
  ∀ (parser : Parser) (node : α) (after : Parser), rule parser = (some node, after) →
    after.frame.remaining < parser.frame.remaining

theorem Consumes.bind {first : Rule α} {next : α → Rule β} (consumes : Consumes first)
    (later : ∀ value, Advances (next value)) : Consumes (first >>= next) := by
  intro parser node last found
  obtain ⟨value, after, step, rest⟩ := bind_eq_some_iff.1 found
  have moved := (later value after).remaining_le
  rw [rest] at moved
  exact Nat.lt_of_le_of_lt moved (consumes parser value after step)

theorem Advances.bind_consumes {first : Rule α} {next : α → Rule β} (advances : Advances first)
    (later : ∀ value, Consumes (next value)) : Consumes (first >>= next) := by
  intro parser node last found
  obtain ⟨value, after, step, rest⟩ := bind_eq_some_iff.1 found
  have moved := (advances parser).remaining_le
  rw [step] at moved
  exact Nat.lt_of_lt_of_le (later value after node last rest) moved

theorem Consumes.reject (error : SyntaxError) : Consumes (reject error : Rule α) := by
  intro parser node after impossible
  cases impossible

theorem Consumes.unexpected (expected : Expectation) (found : Reading) :
    Consumes (unexpected expected found : Rule α) :=
  .reject _

/-- Passing a tree that is there leaves fewer. -/
theorem forward_remaining_lt (parser : Parser) (left : parser.frame.rest ≠ []) :
    (forward parser).2.frame.remaining < parser.frame.remaining := by
  obtain ⟨tree, trees, restEq⟩ := List.exists_cons_of_ne_nil left
  change parser.frame.forward.remaining < _
  rw [Frame.remaining_eq, Frame.remaining_eq, Frame.forward_of_rest_eq_cons _ restEq,
    Frame.rest_advance, restEq]
  exact Nat.lt_succ_self _

/-- A reading of a token stands for a tree that is passed. -/
theorem nextSignificant_remaining_lt {parser after : Parser} {leaf : Token}
    (step : nextSignificant parser = (some (.atomic leaf), after)) :
    after.frame.remaining < parser.frame.remaining := by
  rw [nextSignificant_apply] at step
  obtain ⟨isAtomic, rfl⟩ := Prod.mk.inj step
  obtain ⟨trees, restEq⟩ := Frame.rest_of_peek_atomic (Option.some.inj isAtomic)
  have left : parser.frame.toSignificant.rest ≠ [] := by
    rw [restEq]
    exact List.cons_ne_nil _ _
  have moved := (Advances.toSignificant parser).remaining_le
  exact Nat.lt_of_lt_of_le
    (forward_remaining_lt { parser with frame := parser.frame.toSignificant } left) moved

/-- A rule that reads the next token and yields a node only for a token consumes it. -/
theorem Consumes.ofNext {next : Reading → Rule α} (advances : ∀ found, Advances (next found))
    (atomic : ∀ found parser node after, next found parser = (some node, after) →
      ∃ leaf, found = .atomic leaf) : Consumes (nextSignificant >>= next) := by
  intro parser node last yielded
  obtain ⟨found, after, step, rest⟩ := bind_eq_some_iff.1 yielded
  obtain ⟨leaf, isAtomic⟩ := atomic found after node last rest
  have moved := (advances found after).remaining_le
  rw [rest] at moved
  rw [isAtomic] at step
  exact Nat.lt_of_le_of_lt moved (nextSignificant_remaining_lt step)

/-! ## Single tokens -/

theorem Advances.identifier : Advances identifier :=
  Operates.identifier.advances

theorem Advances.name : Advances name :=
  Operates.name.advances

theorem Advances.contextualKeyword (word : String) : Advances (contextualKeyword word) :=
  (Operates.contextualKeyword word).advances

theorem Advances.keyword (expected : Keyword) : Advances (keyword expected) :=
  (Operates.keyword expected).advances

theorem Advances.punctuation (expected : Char) (skip : Bool) :
    Advances (punctuation expected skip) :=
  (Operates.punctuation expected skip).advances

theorem Advances.stringLiteral : Advances stringLiteral :=
  Operates.stringLiteral.advances

theorem Advances.punctuation? (expected : Char) : Advances (punctuation? expected) :=
  (Operates.punctuation? expected).advances

theorem Advances.stringLiteral? : Advances stringLiteral? :=
  Operates.stringLiteral?.advances

theorem Consumes.name : Consumes name := by
  refine .ofNext (fun found => ?_) fun found parser node after yielded => ?_
  · split
    · exact .pure _
    · exact .pure _
    · exact .unexpected _ _
  · split at yielded
    · exact ⟨_, rfl⟩
    · exact ⟨_, rfl⟩
    · cases yielded

theorem Consumes.stringLiteral : Consumes stringLiteral := by
  refine .ofNext (fun found => ?_) fun found parser node after yielded => ?_
  · split
    · exact .pure _
    · exact .unexpected _ _
  · split at yielded
    · exact ⟨_, rfl⟩
    · cases yielded

/-! ## Groups and loops -/

/-- Whatever a group's inside yields, the group is passed. -/
theorem Consumes.enclosed (delimiter : Delimiter) {inside : Rule α} (advances : Advances inside) :
    Consumes (enclosed delimiter inside) := by
  intro parser node after found
  rw [Rule.enclosed.eq_def] at found
  split at found
  · rename_i opening trees closing ahead
    obtain ⟨behind, restEq⟩ := groupAhead?_eq_some_iff.1 ahead
    have entered := (advances (enter trees closing parser)).trans
      (Advances.closeGroup delimiter (inside (enter trees closing parser)).1
        (inside (enter trees closing parser)).2)
    have afterEq : leave _ = after := congrArg Prod.snd found
    rw [leave_of_continues entered] at afterEq
    rw [← afterEq]
    have passed := forward_remaining_lt { parser with frame := parser.frame.toSignificant }
      (by rw [restEq]; exact List.cons_ne_nil _ _)
    exact Nat.lt_of_lt_of_le passed (Advances.toSignificant parser).remaining_le
  · cases found

theorem untilExhausted_of_exhausted {entry : Rule α} {parser : Parser}
    (exhausted : parser.frame.isExhausted = true) :
    untilExhausted entry parser = (some [], parser) := by
  rw [untilExhausted, if_pos exhausted]

theorem untilExhausted_of_none {entry : Rule α} {parser after : Parser}
    (goes : parser.frame.isExhausted = false) (step : entry parser = (none, after)) :
    untilExhausted entry parser = (none, after) := by
  rw [untilExhausted, if_neg (by rw [goes]; decide), step]

/-- The loop goes on behind an entry that passed a tree. -/
theorem untilExhausted_of_some {entry : Rule α} (consumes : Consumes entry)
    {parser after : Parser} {node : α} (goes : parser.frame.isExhausted = false)
    (step : entry parser = (some node, after)) :
    untilExhausted entry parser =
      ((untilExhausted entry after).1.map (node :: ·), (untilExhausted entry after).2) := by
  rw [untilExhausted, if_neg (by rw [goes]; decide), step]
  simp only [if_pos (consumes parser node after step)]
  rcases untilExhausted entry after with ⟨_ | nodes, last⟩
  · rfl
  · rfl

theorem Advances.untilExhausted {entry : Rule α} (advances : Advances entry)
    (consumes : Consumes entry) : Advances (untilExhausted entry) := by
  intro parser
  -- What is left of the frame gets less with every entry, since an entry that succeeds
  -- passes a tree; the recursion is on that, not on the trees.
  induction size : parser.frame.remaining using Nat.strongRecOn generalizing parser with
  | ind size ih =>
      match exhausted : parser.frame.isExhausted with
      | true =>
          rw [untilExhausted_of_exhausted exhausted]
          exact .refl parser
      | false =>
          have moved := advances parser
          match step : entry parser with
          | (none, after) =>
              rw [untilExhausted_of_none exhausted step]
              rwa [step] at moved
          | (some node, after) =>
              have fewer := consumes parser node after step
              rw [untilExhausted_of_some consumes exhausted step]
              rw [step] at moved
              exact moved.trans (ih _ (by rw [← size]; exact fewer) after rfl)

theorem Advances.block {entry : Rule α} (advances : Advances entry) (consumes : Consumes entry) :
    Advances (block entry) :=
  .bind (.enclosed _ (.untilExhausted advances consumes)) fun _ =>
    .bind (.require _) fun _ => .pure _

/-! ## Nodes -/

theorem pathRest_of_absent {parser after : Parser}
    (absent : punctuation? '.' parser = (some none, after)) :
    pathRest parser = (some [], after) := by
  rw [pathRest, absent]

theorem pathRest_of_none {parser after last : Parser} {dot : Punctuation}
    (dotted : punctuation? '.' parser = (some (some dot), after))
    (failed : name after = (none, last)) : pathRest parser = (none, last) := by
  rw [pathRest, dotted]
  simp only [failed]

/-- The path goes on behind a dot and a name. -/
theorem pathRest_of_some {parser after last : Parser} {dot : Punctuation} {segment : Identifier}
    (dotted : punctuation? '.' parser = (some (some dot), after))
    (named : name after = (some segment, last)) :
    pathRest parser = ((pathRest last).1.map ((dot, segment) :: ·), (pathRest last).2) := by
  have advances := Advances.punctuation? '.' parser
  rw [dotted] at advances
  have fewer : last.frame.remaining < parser.frame.remaining :=
    Nat.lt_of_lt_of_le (Consumes.name after segment last named) advances.remaining_le
  rw [pathRest, dotted]
  simp only [named, if_pos fewer]
  rcases pathRest last with ⟨_ | rest, final⟩
  · rfl
  · rfl

/-- A punctuation character that may be missing is there and passed, or nothing is. -/
theorem punctuation?_cases (expected : Char) (parser : Parser) :
    (∃ span, parser.frame.toSignificant.peek = .atomic ⟨.punctuation expected, span⟩ ∧
      punctuation? expected parser = (some (some ⟨expected, span⟩),
        { parser with frame := parser.frame.toSignificant.forward })) ∨
    ((∀ span, parser.frame.toSignificant.peek ≠ .atomic ⟨.punctuation expected, span⟩) ∧
      punctuation? expected parser =
        (some none, { parser with frame := parser.frame.toSignificant })) := by
  rw [punctuation?, bind_of_some (peekSignificant_apply parser)]
  by_cases present :
      ∃ span, parser.frame.toSignificant.peek = .atomic ⟨.punctuation expected, span⟩
  · obtain ⟨span, peeked⟩ := present
    refine .inl ⟨span, peeked, ?_⟩
    rw [peeked]
    simp only [if_true]
    rfl
  · refine .inr ⟨fun span same => present ⟨span, same⟩, ?_⟩
    generalize parser.frame.toSignificant.peek = found at present
    cases found with
    | atomic leaf =>
        obtain ⟨kind, span⟩ := leaf
        cases kind with
        | punctuation mark =>
            simp only
            rw [if_neg]
            · rfl
            · rintro rfl
              exact present ⟨span, rfl⟩
        | blanks | identifier | keyword _ | numeric | comment _ | stringLiteral => rfl
    | opening mark | closing mark | eof => rfl

theorem Advances.pathRest : Advances pathRest :=
  Operates.pathRest.advances

theorem Advances.identifierPath : Advances identifierPath :=
  Operates.identifierPath.advances

theorem Advances.expression : Advances expression :=
  Operates.expression.advances

theorem Consumes.assignment : Consumes assignment :=
  .bind .name fun _ => .bind (.punctuation? _) fun _ => .bind .expression fun _ => .pure _

theorem Advances.taskStatement : Advances taskStatement :=
  Operates.taskStatement.advances

theorem Consumes.taskStatement : Consumes taskStatement := by
  refine Advances.bind_consumes .peekSignificant fun found => ?_
  split
  · exact .assignment
  · exact .assignment
  · exact Advances.bind_consumes .forward fun _ => .unexpected _ _

theorem Advances.pluginVersion : Advances pluginVersion :=
  Operates.pluginVersion.advances

theorem Advances.pluginEntry : Advances pluginEntry :=
  Operates.pluginEntry.advances

theorem Consumes.pluginEntry : Consumes pluginEntry := by
  refine Advances.bind_consumes .peekSignificant fun found => ?_
  split
  · split
    · exact Advances.bind_consumes .forward fun _ => .bind .stringLiteral fun _ =>
        .bind .pluginVersion fun _ => .pure _
    · exact .unexpected _ _
  · exact .unexpected _ _

theorem Advances.urlStatement : Advances urlStatement :=
  Operates.urlStatement.advances

theorem Advances.customUrl : Advances customUrl :=
  Operates.customUrl.advances

theorem Consumes.wellKnown (token : KeywordToken) : Consumes (wellKnown token) :=
  Advances.bind_consumes .forward fun _ => .bind (.enclosed _ (.pure _)) fun _ =>
    .bind (.require _) fun _ => .pure _

theorem Consumes.customRepository (token : KeywordToken) : Consumes (customRepository token) :=
  Advances.bind_consumes .forward fun _ => .bind (.enclosed _ .customUrl) fun _ =>
    .bind (.require _) fun _ => .pure _

theorem Advances.wellKnown (token : KeywordToken) : Advances (wellKnown token) :=
  (Operates.wellKnown token).advances

theorem Advances.customRepository (token : KeywordToken) : Advances (customRepository token) :=
  (Operates.customRepository token).advances

theorem Advances.repositoryEntry : Advances repositoryEntry :=
  Operates.repositoryEntry.advances

theorem Consumes.repositoryEntry : Consumes repositoryEntry := by
  refine Advances.bind_consumes .peekSignificant fun found => ?_
  split
  · exact .bind (.wellKnown _) fun _ => .pure _
  · exact .bind (.wellKnown _) fun _ => .pure _
  · exact .bind (.customRepository _) fun _ => .pure _
  · exact Advances.bind_consumes .forward fun _ => .reject _
  · exact Advances.bind_consumes .forward fun _ => .unexpected _ _

theorem Consumes.coordinate (configuration : Identifier) : Consumes (coordinate configuration) := by
  refine Advances.bind_consumes .peekSignificant fun found => ?_
  split
  · split
    · exact .bind (.enclosed _ .stringLiteral) fun _ => .bind (.require _) fun _ => .pure _
    · exact .bind .stringLiteral fun _ => .pure _
  · exact .bind .stringLiteral fun _ => .pure _

theorem Advances.dependencyEntry : Advances dependencyEntry :=
  Operates.dependencyEntry.advances

theorem Consumes.dependencyEntry : Consumes dependencyEntry := by
  refine Advances.bind_consumes .peekSignificant fun found => ?_
  split
  · exact Advances.bind_consumes .forward fun _ => .coordinate _
  · exact Advances.bind_consumes .forward fun _ => .unexpected _ _

theorem Advances.taskType : Advances taskType :=
  Operates.taskType.advances

theorem Advances.taskArguments : Advances taskArguments :=
  Operates.taskArguments.advances

/-! ## Declarations -/

/-- The rule passes a tree whenever one is left that counts, even if it fails. -/
def Passes (rule : Rule α) : Prop :=
  ∀ parser : Parser, parser.frame.isExhausted = false →
    (rule parser).2.frame.remaining < parser.frame.remaining

/-- In a frame that is not exhausted a tree is left. -/
theorem rest_ne_nil_of_left {frame : Frame} (left : frame.isExhausted = false) :
    frame.rest ≠ [] := by
  intro empty
  rw [Frame.isExhausted, empty] at left
  cases left

/-- Passing blanks and comments does not exhaust a frame. -/
theorem isExhausted_toSignificant (frame : Frame) :
    frame.toSignificant.isExhausted = frame.isExhausted := by
  rw [Frame.isExhausted, Frame.isExhausted, Frame.rest_toSignificant]
  generalize frame.rest = trees
  induction trees with
  | nil => rfl
  | cons tree trees ih =>
      cases significant : tree.isSignificant
      · rw [List.dropWhile_cons_of_pos (by rw [significant]; rfl), ih, List.all_cons,
          significant]
        rfl
      · rw [List.dropWhile_cons_of_neg (by rw [significant]; decide)]

theorem Passes.forward : Passes forward :=
  fun parser left => forward_remaining_lt parser (rest_ne_nil_of_left left)

theorem Passes.bind {first : Rule α} {next : α → Rule β} (passes : Passes first)
    (later : ∀ value, Advances (next value)) : Passes (first >>= next) := by
  intro parser left
  have moved := passes parser left
  match step : first parser with
  | (some value, after) =>
      rw [bind_of_some step]
      rw [step] at moved
      exact Nat.lt_of_le_of_lt (later value after).remaining_le moved
  | (none, after) =>
      rw [bind_of_none step]
      rwa [step] at moved

/-- A look at the next significant tree passes nothing that counts. -/
theorem Passes.ofPeek {next : Reading → Rule α} (passes : ∀ found, Passes (next found)) :
    Passes (peekSignificant >>= next) := by
  intro parser left
  rw [bind_of_some (peekSignificant_apply parser)]
  have moved := passes parser.frame.toSignificant.peek
    { parser with frame := parser.frame.toSignificant }
    (by rw [← left]; exact isExhausted_toSignificant parser.frame)
  exact Nat.lt_of_lt_of_le moved (Advances.toSignificant parser).remaining_le

theorem Passes.nextSignificant : Passes nextSignificant :=
  .ofPeek fun _ => .bind .forward fun _ => .pure _

theorem Passes.keyword (expected : Keyword) : Passes (keyword expected) := by
  refine .bind .nextSignificant fun found => ?_
  split
  · split
    · exact .pure _
    · exact .unexpected _ _
  · exact .unexpected _ _

theorem Passes.taskRegistration : Passes taskRegistration :=
  .bind (.keyword _) fun _ => .bind (.punctuation _ _) fun _ =>
    .bind (.contextualKeyword _) fun _ => .bind (.enclosed _ .taskArguments) fun _ =>
      .bind (.require _) fun _ => .bind (.block .taskStatement .taskStatement) fun _ => .pure _

/-- An attempt at a declaration passes a tree, whether it fails or not. -/
theorem Passes.declaration : Passes declaration := by
  refine .ofPeek fun found => ?_
  split
  · exact .bind .forward fun _ => .bind (.block .pluginEntry .pluginEntry) fun _ => .pure _
  · exact .bind .forward fun _ =>
      .bind (.block .repositoryEntry .repositoryEntry) fun _ => .pure _
  · exact .bind .forward fun _ =>
      .bind (.block .dependencyEntry .dependencyEntry) fun _ => .pure _
  · exact .bind .taskRegistration fun _ => .pure _
  · exact .bind .forward fun _ => .unexpected _ _

/-! ## Attempts -/

def resume : Option Declaration × Parser → Parser
  | (some _, after) => after
  | (none, after) => { after with frame := after.frame.stopAt startsDeclaration }

theorem resume_continues (outcome : Option Declaration × Parser) :
    outcome.2.Continues (resume outcome) := by
  match outcome with
  | (some _, after) => exact .refl after
  | (none, after) => exact .advance after _

/-- Every attempt leaves fewer trees. -/
theorem resume_remaining_lt {parser : Parser} (left : parser.frame.isExhausted = false) :
    (resume (declaration parser)).frame.remaining < parser.frame.remaining :=
  Nat.lt_of_le_of_lt (resume_continues _).remaining_le (Passes.declaration parser left)

theorem attempts_of_exhausted {parser : Parser} (exhausted : parser.frame.isExhausted = true) :
    attempts parser = ([], parser) := by
  rw [attempts, if_pos exhausted]

/-- The loop over attempts is not cut short. -/
theorem attempts_of_left {parser : Parser} (left : parser.frame.isExhausted = false) :
    attempts parser =
      (⟨parser.frame.toSignificant.index, (declaration parser).1⟩ ::
          (attempts (resume (declaration parser))).1,
        (attempts (resume (declaration parser))).2) := by
  have fewer := resume_remaining_lt left
  rw [attempts, if_neg (by rw [left]; decide)]
  match step : declaration parser with
  | (some node, after) =>
      rw [step] at fewer
      exact if_pos fewer
  | (none, after) =>
      rw [step] at fewer
      exact if_pos fewer

/-- What holds of exhausted parsers and is passed back over an attempt holds of every parser. -/
theorem attempts_induction {motive : Parser → Prop}
    (exhausted : ∀ parser, parser.frame.isExhausted = true → motive parser)
    (left : ∀ parser, parser.frame.isExhausted = false →
      motive (resume (declaration parser)) → motive parser) (parser : Parser) :
    motive parser := by
  induction size : parser.frame.remaining using Nat.strongRecOn generalizing parser with
  | ind size ih =>
      cases ended : parser.frame.isExhausted
      · apply left parser ended
        exact ih _ (by rw [← size]; exact resume_remaining_lt ended) _ rfl
      · exact exhausted parser ended

end Rule

end BuildScript.Grammar
