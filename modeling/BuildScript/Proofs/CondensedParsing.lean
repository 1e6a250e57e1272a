import BuildScript.Proofs.Advance
import BuildScript.Proofs.Condensation

/-!
# Parsing without blanks and comments

A parser over condensed trees goes through the condensed states of the parser over
the trees themselves: it yields the same nodes and makes the same reports, each with
its spans moved. A rule may stop before blanks or behind them, but both places
condense to one, so a single relation between rules covers the whole grammar.
-/

namespace BuildScript.Grammar

open TokenTree (condenseAll)

section

variable (move : Span → Span)

def Reading.relocate : Reading → Reading
  | .atomic leaf => .atomic (leaf.relocate move)
  | .opening mark => .opening (mark.relocate move)
  | .closing mark => .closing (mark.relocate move)
  | .eof => .eof

/-- The frame over the condensed trees, at the place that corresponds. -/
def Frame.condense (frame : Frame) : Frame :=
  ⟨condenseAll move frame.trees, (condenseAll move (frame.trees.take frame.index)).length,
    frame.closing.map (Punctuation.relocate move)⟩

def Parser.condense (parser : Parser) : Parser :=
  ⟨parser.frame.condense move, parser.stack.map (Frame.condense move),
    parser.reports.map (SyntaxError.relocate move)⟩

def Enclosed.relocate {α : Type} (change : α → α) (node : Enclosed α) : Enclosed α :=
  ⟨node.opening.relocate move, node.inside.map change, node.closing.relocate move⟩

/-! ## Frames -/

namespace Frame

variable (frame : Frame)

/-- What is left in the condensed frame is what is left, condensed. -/
theorem rest_condense : (frame.condense move).rest = condenseAll move frame.rest := by
  have parts := TokenTree.condenseAll_append move (frame.trees.take frame.index) frame.rest
  rw [rest, List.take_append_drop] at parts
  change (condenseAll move frame.trees).drop _ = _
  rw [parts]
  exact List.drop_left

/-- The condensed frame moves on by the trees that count. -/
theorem condense_advance (count : Nat) :
    (frame.advance count).condense move =
      (frame.condense move).advance (condenseAll move (frame.rest.take count)).length := by
  change Frame.mk _ (condenseAll move (frame.trees.take (frame.index + count))).length _ = _
  rw [List.take_add, TokenTree.condenseAll_append, List.length_append]
  rfl

/-- Blanks and comments before the next tree condense to nothing. -/
theorem condense_toSignificant : frame.toSignificant.condense move = frame.condense move := by
  have passed : frame.rest.take
      (frame.rest.takeWhile fun tree => !tree.isSignificant).length =
        frame.rest.takeWhile fun tree => !tree.isSignificant :=
    List.prefix_iff_eq_take.1 (List.takeWhile_prefix _) |>.symm
  rw [toSignificant, condense_advance, passed, TokenTree.condenseAll_eq_nil, List.length_nil,
    advance_zero]
  intro tree member
  have blank := List.mem_takeWhile_imp member
  rwa [Bool.not_eq_true'] at blank

/-- A condensed frame has no blanks to pass. -/
theorem toSignificant_condense : (frame.condense move).toSignificant = frame.condense move := by
  rw [toSignificant, rest_condense]
  cases left : condenseAll move frame.rest with
  | nil => rfl
  | cons tree trees =>
      have significant : tree.isSignificant = true :=
        TokenTree.isSignificant_of_mem_condenseAll move (by rw [left]; exact List.mem_cons_self)
      rw [List.takeWhile_cons_of_neg (by rw [significant]; decide)]
      rfl

theorem isExhausted_condense : (frame.condense move).isExhausted = frame.isExhausted := by
  rw [isExhausted, isExhausted, rest_condense]
  generalize frame.rest = trees
  induction trees with
  | nil => rfl
  | cons tree trees ih =>
      cases significant : tree.isSignificant
      · rw [condenseAll, if_neg (by rw [significant]; decide), ih, List.all_cons, significant]
        rfl
      · rw [condenseAll, if_pos significant, List.all_cons, List.all_cons,
          TokenTree.isSignificant_condense, significant]
        rfl

/-- The next tree counts for the grammar, unless the frame is at its end. -/
def Settled : Prop :=
  ∀ tree trees, frame.rest = tree :: trees → tree.isSignificant = true

theorem settled_toSignificant : frame.toSignificant.Settled := by
  intro tree trees restEq
  rw [rest_toSignificant] at restEq
  have notBlank := List.head_dropWhile_not (fun tree : TokenTree => !tree.isSignificant)
    (show frame.rest.dropWhile _ ≠ [] by rw [restEq]; exact List.cons_ne_nil _ _)
  simp only [restEq, List.head_cons, Bool.not_eq_false'] at notBlank
  exact notBlank

variable {frame}

theorem toSignificant_of_settled (settled : frame.Settled) : frame.toSignificant = frame := by
  rw [toSignificant]
  cases left : frame.rest with
  | nil => rfl
  | cons tree trees =>
      rw [List.takeWhile_cons_of_neg (by rw [settled tree trees left]; decide)]
      rfl

theorem peek_condense (settled : frame.Settled) :
    (frame.condense move).peek = frame.peek.relocate move := by
  rw [peek, peek, rest_condense]
  cases left : frame.rest with
  | nil =>
      change readingOf (frame.closing.map (Punctuation.relocate move)) [] = _
      cases frame.closing <;> rfl
  | cons tree trees =>
      rw [condenseAll, if_pos (settled tree trees left)]
      cases tree <;> rfl

theorem forward_condense (settled : frame.Settled) :
    (frame.condense move).forward = frame.forward.condense move := by
  cases left : frame.rest with
  | nil =>
      have empty : (frame.condense move).rest = [] := by
        rw [rest_condense, left]
        rfl
      rw [forward_of_rest_eq_nil _ left, forward_of_rest_eq_nil _ empty]
  | cons tree trees =>
      have counts := settled tree trees left
      have there : (frame.condense move).rest =
          tree.condense move :: condenseAll move trees := by
        rw [rest_condense, left, condenseAll, if_pos counts]
      rw [forward_of_rest_eq_cons _ left, forward_of_rest_eq_cons _ there, condense_advance, left,
        List.take_succ_cons, List.take_zero, condenseAll, if_pos counts]
      rfl

/-- Where reading stops before a declaration corresponds, since such a place counts. -/
theorem stopAt_condense (wanted : Reading → Bool)
    (moved : ∀ found : Reading, wanted (found.relocate move) = wanted found)
    (counts : ∀ leaf : Token, wanted (.atomic leaf) = true → leaf.isSignificant = true)
    (frame : Frame) :
    (frame.condense move).stopAt wanted = (frame.stopAt wanted).condense move := by
  have passed : frame.rest.take (frame.rest.takeWhile fun tree =>
      !wanted (readingOf frame.closing [tree])).length =
        frame.rest.takeWhile fun tree => !wanted (readingOf frame.closing [tree]) :=
    List.prefix_iff_eq_take.1 (List.takeWhile_prefix _) |>.symm
  rw [stopAt, stopAt, condense_advance, passed, rest_condense]
  refine congrArg (fun trees : List TokenTree => (frame.condense move).advance trees.length) ?_
  generalize frame.rest = trees
  have seen : ∀ tree : TokenTree,
      wanted (readingOf (frame.condense move).closing [tree.condense move]) =
        wanted (readingOf frame.closing [tree]) := by
    intro tree
    rw [← moved (readingOf frame.closing [tree])]
    cases tree <;> rfl
  induction trees with
  | nil => rfl
  | cons tree trees ih =>
      cases significant : tree.isSignificant
      · cases tree with
        | token leaf =>
            -- A blank or a comment never stops the search, so leaving it out changes nothing.
            have passes : wanted (.atomic leaf) = false := by
              rw [Bool.eq_false_iff]
              intro stops
              have impossible := significant.symm.trans (counts leaf stops)
              cases impossible
            rw [List.takeWhile_cons_of_pos (by rw [readingOf, passes]; rfl), condenseAll,
              condenseAll, if_neg (by rw [significant]; decide),
              if_neg (by rw [significant]; decide), ih]
        | group delimiter opening inner closing => cases significant
      · rw [condenseAll, if_pos significant]
        cases stops : wanted (readingOf frame.closing [tree])
        · rw [List.takeWhile_cons_of_pos (by rw [seen, stops]; rfl),
            List.takeWhile_cons_of_pos (by rw [stops]; rfl), condenseAll, if_pos significant, ih]
        · rw [List.takeWhile_cons_of_neg (by rw [seen, stops]; decide),
            List.takeWhile_cons_of_neg (by rw [stops]; decide)]
          rfl

end Frame

/-! ## Rules and their images -/

namespace Rule

variable {α β : Type}

def condensed (change : α → α) (outcome : Option α × Parser) : Option α × Parser :=
  (outcome.1.map change, outcome.2.condense move)

/-- From the condensed parser the image leads to the condensed outcome of the rule. -/
def Mirrors (change : α → α) (rule image : Rule α) : Prop :=
  ∀ parser : Parser, image (parser.condense move) = condensed move change (rule parser)

/-- The image mirrors the rule at places where no blanks or comments come next. -/
def MirrorsAhead (change : α → α) (rule image : Rule α) : Prop :=
  ∀ parser : Parser, parser.frame.Settled →
    image (parser.condense move) = condensed move change (rule parser)

variable {move} {change : α → α} {rule image : Rule α}

theorem Mirrors.ahead (mirrors : Mirrors move change rule image) :
    MirrorsAhead move change rule image :=
  fun parser _ => mirrors parser

theorem Mirrors.pure (node : α) :
    Mirrors move change (pure node) (pure (change node)) :=
  fun _ => rfl

theorem Mirrors.fail : Mirrors move change fail fail :=
  fun _ => rfl

theorem Mirrors.reject (error : SyntaxError) :
    Mirrors move change (reject error) (reject (error.relocate move)) := by
  intro parser
  have moved : (parser.reports ++ [error]).map (SyntaxError.relocate move) =
      parser.reports.map (SyntaxError.relocate move) ++ [error.relocate move] :=
    List.map_append
  exact congrArg (fun reports => (none, Parser.mk (parser.frame.condense move)
    (parser.stack.map (Frame.condense move)) reports)) moved.symm

theorem token?_relocate (found : Reading) :
    (found.relocate move).token? = found.token?.map (Token.relocate move) := by
  cases found <;> rfl

theorem Mirrors.unexpected (expected : Expectation) (found : Reading) :
    Mirrors move change (unexpected expected found)
      (unexpected expected (found.relocate move)) := by
  rw [Rule.unexpected, Rule.unexpected, token?_relocate]
  exact .reject (.unexpected expected found.token?)

theorem Mirrors.isExhausted : Mirrors move id isExhausted isExhausted := by
  intro parser
  change (some (parser.frame.condense move).isExhausted, _) = _
  rw [Frame.isExhausted_condense]
  rfl

theorem Mirrors.ite {images rules : Prop} [Decidable images] [Decidable rules]
    {otherImage otherRule : Rule α} (agree : images ↔ rules)
    (yes : Mirrors move change rule image) (no : Mirrors move change otherRule otherImage) :
    Mirrors move change (if rules then rule else otherRule)
      (if images then image else otherImage) := by
  by_cases holds : rules
  · rw [if_pos holds, if_pos (agree.2 holds)]
    exact yes
  · rw [if_neg holds, if_neg (fun image => holds (agree.1 image))]
    exact no

theorem MirrorsAhead.ite {images rules : Prop} [Decidable images] [Decidable rules]
    {otherImage otherRule : Rule α} (agree : images ↔ rules)
    (yes : MirrorsAhead move change rule image)
    (no : MirrorsAhead move change otherRule otherImage) :
    MirrorsAhead move change (if rules then rule else otherRule)
      (if images then image else otherImage) := by
  by_cases holds : rules
  · rw [if_pos holds, if_pos (agree.2 holds)]
    exact yes
  · rw [if_neg holds, if_neg (fun image => holds (agree.1 image))]
    exact no

/-- A rule after another, at a place where the first is mirrored. -/
theorem bind_condensed {alter : β → β} {next imageNext : α → Rule β} {parser : Parser}
    (first : image (parser.condense move) = condensed move change (rule parser))
    (later : ∀ node, Mirrors move alter (next node) (imageNext (change node))) :
    (image >>= imageNext) (parser.condense move) =
      condensed move alter ((rule >>= next) parser) := by
  match step : rule parser with
  | (some node, after) =>
      rw [step] at first
      rw [bind_of_some step, bind_of_some first]
      exact later node after
  | (none, after) =>
      rw [step] at first
      rw [bind_of_none step, bind_of_none first]
      rfl

theorem Mirrors.bind {alter : β → β} {next imageNext : α → Rule β}
    (mirrors : Mirrors move change rule image)
    (later : ∀ node, Mirrors move alter (next node) (imageNext (change node))) :
    Mirrors move alter (rule >>= next) (image >>= imageNext) :=
  fun parser => bind_condensed (mirrors parser) later

theorem MirrorsAhead.bind {alter : β → β} {next imageNext : α → Rule β}
    (mirrors : MirrorsAhead move change rule image)
    (later : ∀ node, Mirrors move alter (next node) (imageNext (change node))) :
    MirrorsAhead move alter (rule >>= next) (image >>= imageNext) :=
  fun parser settled => bind_condensed (mirrors parser settled) later

/-- A look past blanks and comments is mirrored, and what follows is at a place ahead of them. -/
theorem Mirrors.ofPeek {imageNext next : Reading → Rule α}
    (later : ∀ found, MirrorsAhead move change (next found) (imageNext (found.relocate move))) :
    Mirrors move change (peekSignificant >>= next) (peekSignificant >>= imageNext) := by
  intro parser
  have settled := parser.frame.settled_toSignificant
  have place : (parser.frame.condense move).toSignificant =
      parser.frame.toSignificant.condense move := by
    rw [Frame.toSignificant_condense, Frame.condense_toSignificant]
  rw [bind_of_some (peekSignificant_apply parser),
    bind_of_some (peekSignificant_apply (parser.condense move))]
  change imageNext (parser.frame.condense move).toSignificant.peek
    ⟨(parser.frame.condense move).toSignificant, _, _⟩ = _
  rw [place, Frame.peek_condense move settled]
  exact later _ { parser with frame := parser.frame.toSignificant } settled

/-- Passing the next tree is mirrored where no blanks come before it. -/
theorem MirrorsAhead.forward (mirrors : Mirrors move change rule image) :
    MirrorsAhead move change (do Rule.forward; rule) (do Rule.forward; image) := by
  intro parser settled
  change image ⟨(parser.frame.condense move).forward, _, _⟩ = _
  rw [Frame.forward_condense move settled]
  exact mirrors { parser with frame := parser.frame.forward }

theorem Mirrors.ofNext {imageNext next : Reading → Rule α}
    (later : ∀ found, Mirrors move change (next found) (imageNext (found.relocate move))) :
    Mirrors move change (nextSignificant >>= next) (nextSignificant >>= imageNext) := by
  have peeked : Mirrors move change
      (peekSignificant >>= fun found => do Rule.forward; next found)
      (peekSignificant >>= fun found => do Rule.forward; imageNext found) :=
    .ofPeek fun found => .forward (later found)
  exact peeked

/-! ## Single tokens -/

theorem Mirrors.identifier :
    Mirrors move (Identifier.relocate move) identifier identifier := by
  refine .ofNext fun found => ?_
  match found with
  | .atomic ⟨.identifier, span⟩ => exact .pure _
  | .atomic ⟨.blanks, _⟩ | .atomic ⟨.keyword _, _⟩ | .atomic ⟨.numeric, _⟩
  | .atomic ⟨.comment _, _⟩ | .atomic ⟨.punctuation _, _⟩ | .atomic ⟨.stringLiteral, _⟩
  | .opening _ | .closing _ | .eof => exact .unexpected _ _

theorem Mirrors.name : Mirrors move (Identifier.relocate move) name name := by
  refine .ofNext fun found => ?_
  match found with
  | .atomic ⟨.identifier, span⟩ | .atomic ⟨.keyword _, span⟩ => exact .pure _
  | .atomic ⟨.blanks, _⟩ | .atomic ⟨.numeric, _⟩ | .atomic ⟨.comment _, _⟩
  | .atomic ⟨.punctuation _, _⟩ | .atomic ⟨.stringLiteral, _⟩
  | .opening _ | .closing _ | .eof => exact .unexpected _ _

theorem Mirrors.contextualKeyword (keeps : ∀ span, (move span).text = span.text) (word : String) :
    Mirrors move (Identifier.relocate move) (contextualKeyword word) (contextualKeyword word) := by
  refine .ofNext fun found => ?_
  match found with
  | .atomic ⟨.identifier, span⟩ =>
      exact .ite (by rw [keeps]) (.pure _) (.unexpected _ (.atomic ⟨.identifier, span⟩))
  | .atomic ⟨.blanks, _⟩ | .atomic ⟨.keyword _, _⟩ | .atomic ⟨.numeric, _⟩
  | .atomic ⟨.comment _, _⟩ | .atomic ⟨.punctuation _, _⟩ | .atomic ⟨.stringLiteral, _⟩
  | .opening _ | .closing _ | .eof => exact .unexpected _ _

theorem Mirrors.keyword (expected : Keyword) :
    Mirrors move (KeywordToken.relocate move) (keyword expected) (keyword expected) := by
  refine .ofNext fun found => ?_
  match found with
  | .atomic ⟨.keyword word, span⟩ =>
      exact .ite Iff.rfl (.pure _) (.unexpected _ (.atomic ⟨.keyword word, span⟩))
  | .atomic ⟨.identifier, _⟩ | .atomic ⟨.blanks, _⟩ | .atomic ⟨.numeric, _⟩
  | .atomic ⟨.comment _, _⟩ | .atomic ⟨.punctuation _, _⟩ | .atomic ⟨.stringLiteral, _⟩
  | .opening _ | .closing _ | .eof => exact .unexpected _ _

/-- The reading of a punctuation character is mirrored only where blanks may be skipped. -/
theorem Mirrors.punctuation (expected : Char) :
    Mirrors move (Punctuation.relocate move) (punctuation expected true)
      (punctuation expected true) := by
  refine .ofNext fun found => ?_
  match found with
  | .atomic ⟨.punctuation mark, span⟩ =>
      exact .ite Iff.rfl (.pure _) (.unexpected _ (.atomic ⟨.punctuation mark, span⟩))
  | .atomic ⟨.identifier, _⟩ | .atomic ⟨.blanks, _⟩ | .atomic ⟨.keyword _, _⟩
  | .atomic ⟨.numeric, _⟩ | .atomic ⟨.comment _, _⟩ | .atomic ⟨.stringLiteral, _⟩
  | .opening _ | .closing _ | .eof => exact .unexpected _ _

theorem Mirrors.stringLiteral :
    Mirrors move (StringLiteral.relocate move) stringLiteral stringLiteral := by
  refine .ofNext fun found => ?_
  match found with
  | .atomic ⟨.stringLiteral, span⟩ => exact .pure _
  | .atomic ⟨.identifier, _⟩ | .atomic ⟨.blanks, _⟩ | .atomic ⟨.keyword _, _⟩
  | .atomic ⟨.numeric, _⟩ | .atomic ⟨.comment _, _⟩ | .atomic ⟨.punctuation _, _⟩
  | .opening _ | .closing _ | .eof => exact .unexpected _ _

theorem Mirrors.punctuation? (expected : Char) :
    Mirrors move (Option.map (Punctuation.relocate move)) (punctuation? expected)
      (punctuation? expected) := by
  refine .ofPeek fun found => ?_
  match found with
  | .atomic ⟨.punctuation mark, span⟩ =>
      exact .ite Iff.rfl (.forward (.pure _)) (Mirrors.pure none).ahead
  | .atomic ⟨.identifier, _⟩ | .atomic ⟨.blanks, _⟩ | .atomic ⟨.keyword _, _⟩
  | .atomic ⟨.numeric, _⟩ | .atomic ⟨.comment _, _⟩ | .atomic ⟨.stringLiteral, _⟩
  | .opening _ | .closing _ | .eof => exact (Mirrors.pure none).ahead

theorem Mirrors.stringLiteral? :
    Mirrors move (Option.map (StringLiteral.relocate move)) stringLiteral? stringLiteral? := by
  refine .ofPeek fun found => ?_
  match found with
  | .atomic ⟨.stringLiteral, span⟩ => exact .forward (.pure _)
  | .atomic ⟨.identifier, _⟩ | .atomic ⟨.blanks, _⟩ | .atomic ⟨.keyword _, _⟩
  | .atomic ⟨.numeric, _⟩ | .atomic ⟨.comment _, _⟩ | .atomic ⟨.punctuation _, _⟩
  | .opening _ | .closing _ | .eof => exact (Mirrors.pure none).ahead

/-! ## Groups and loops -/

theorem Mirrors.require (inside : Option α) :
    Mirrors move change (require inside) (require (inside.map change)) := by
  cases inside with
  | none => exact .fail
  | some node => exact .pure node

theorem closeGroup_of_exhausted {delimiter : Delimiter} {parser : Parser} (node : α)
    (exhausted : parser.frame.isExhausted = true) :
    closeGroup delimiter (some node) parser = (some node, parser) :=
  if_pos exhausted

theorem closeGroup_of_left {delimiter : Delimiter} {parser : Parser} (node : α)
    (left : parser.frame.isExhausted = false) :
    closeGroup delimiter (some node) parser =
      (peekSignificant >>= unexpected (α := α) (.punctuation delimiter.closing)) parser :=
  if_neg (by rw [left]; decide)

theorem Mirrors.closeGroup (delimiter : Delimiter) (inside : Option α) :
    Mirrors move change (closeGroup delimiter inside)
      (closeGroup delimiter (inside.map change)) := by
  cases inside with
  | none => exact .fail
  | some node =>
      intro parser
      have same := Frame.isExhausted_condense move parser.frame
      cases exhausted : parser.frame.isExhausted
      · rw [closeGroup_of_left node exhausted]
        refine (closeGroup_of_left (change node) (same.trans exhausted)).trans ?_
        exact Mirrors.ofPeek (fun found => (Mirrors.unexpected _ found).ahead) parser
      · rw [closeGroup_of_exhausted node exhausted]
        exact closeGroup_of_exhausted (change node) (same.trans exhausted)

/-- The group that comes next in a condensed frame is the one that comes next, condensed. -/
theorem groupAhead?_condense (delimiter : Delimiter) (frame : Frame) :
    groupAhead? delimiter (frame.condense move) = (groupAhead? delimiter frame).map
      fun (opening, trees, closing) =>
        (opening.relocate move, condenseAll move trees, closing.relocate move) := by
  rw [groupAhead?, groupAhead?, Frame.toSignificant_condense, ← Frame.condense_toSignificant,
    Frame.rest_condense]
  cases left : frame.toSignificant.rest with
  | nil => rfl
  | cons tree trees =>
      rw [condenseAll, if_pos (frame.settled_toSignificant tree trees left)]
      cases tree with
      | token leaf => rfl
      | group found opening inner closing =>
          by_cases same : found = delimiter
          · simp only [TokenTree.condense, if_pos same, Option.map_some]
          · simp only [TokenTree.condense, if_neg same, Option.map_none]

theorem enter_condense (trees : List TokenTree) (closing : Punctuation) (parser : Parser) :
    enter (condenseAll move trees) (closing.relocate move) (parser.condense move) =
      (enter trees closing parser).condense move := by
  have place : (parser.frame.condense move).toSignificant.forward =
      parser.frame.toSignificant.forward.condense move := by
    rw [Frame.toSignificant_condense, ← Frame.condense_toSignificant,
      Frame.forward_condense move parser.frame.settled_toSignificant]
  change Parser.mk _ ((parser.frame.condense move).toSignificant.forward :: _) _ = _
  rw [place]
  rfl

theorem leave_condense (parser : Parser) :
    leave (parser.condense move) = (leave parser).condense move := by
  obtain ⟨frame, stack, reports⟩ := parser
  cases stack <;> rfl

theorem enclosed_of_group {delimiter : Delimiter} {inside : Rule α} {parser : Parser}
    {opening closing : Punctuation} {trees : List TokenTree}
    (ahead : groupAhead? delimiter parser.frame = some (opening, trees, closing)) :
    enclosed delimiter inside parser =
      (some ⟨opening, (closeGroup delimiter (inside (enter trees closing parser)).1
          (inside (enter trees closing parser)).2).1, closing⟩,
        leave (closeGroup delimiter (inside (enter trees closing parser)).1
          (inside (enter trees closing parser)).2).2) := by
  rw [enclosed, ahead]

theorem enclosed_of_absent {delimiter : Delimiter} {inside : Rule α} {parser : Parser}
    (absent : groupAhead? delimiter parser.frame = none) :
    enclosed delimiter inside parser =
      (peekSignificant >>= unexpected (.punctuation delimiter.opening)) parser := by
  rw [enclosed, absent]
  rfl

theorem Mirrors.enclosed (delimiter : Delimiter) (mirrors : Mirrors move change rule image) :
    Mirrors move (Enclosed.relocate move change) (enclosed delimiter rule)
      (enclosed delimiter image) := by
  intro parser
  have ahead : groupAhead? delimiter (parser.frame.condense move) = _ :=
    groupAhead?_condense delimiter parser.frame
  cases found : groupAhead? delimiter parser.frame with
  | none =>
      rw [found] at ahead
      rw [enclosed_of_absent found]
      refine (enclosed_of_absent ahead).trans ?_
      exact Mirrors.ofPeek (fun found => (Mirrors.unexpected _ found).ahead) parser
  | some group =>
      obtain ⟨opening, trees, closing⟩ := group
      rw [found] at ahead
      have inside := mirrors (enter trees closing parser)
      rw [← enter_condense] at inside
      rw [enclosed_of_group found]
      refine (enclosed_of_group ahead).trans ?_
      have closes : Mirrors move change _ _ :=
        .closeGroup delimiter (rule (enter trees closing parser)).1
      have closed := closes (rule (enter trees closing parser)).2
      simp only [inside]
      change (some (Enclosed.mk _ (Rule.closeGroup delimiter
          ((rule (enter trees closing parser)).1.map change)
          ((rule (enter trees closing parser)).2.condense move)).1 _),
        leave (Rule.closeGroup delimiter ((rule (enter trees closing parser)).1.map change)
          ((rule (enter trees closing parser)).2.condense move)).2) = _
      rw [closed]
      change (_, leave (Parser.condense move _)) = _
      rw [leave_condense]
      rfl

theorem Mirrors.untilExhausted {entry : Rule α} (mirrors : Mirrors move change entry entry)
    (consumes : Consumes entry) :
    Mirrors move (List.map change) (untilExhausted entry) (untilExhausted entry) := by
  intro parser
  induction size : parser.frame.remaining using Nat.strongRecOn generalizing parser with
  | ind size ih =>
      have same := Frame.isExhausted_condense move parser.frame
      cases exhausted : parser.frame.isExhausted
      · have image := mirrors parser
        match step : entry parser with
        | (none, after) =>
            rw [step] at image
            rw [untilExhausted_of_none exhausted step]
            exact untilExhausted_of_none (same.trans exhausted) image
        | (some node, after) =>
            rw [step] at image
            have fewer := consumes parser node after step
            have later := ih _ (by rw [← size]; exact fewer) after rfl
            rw [untilExhausted_of_some consumes exhausted step]
            refine (untilExhausted_of_some consumes (same.trans exhausted) image).trans ?_
            change (Option.map _ (Rule.untilExhausted entry (after.condense move)).1,
              (Rule.untilExhausted entry (after.condense move)).2) = _
            rw [later]
            cases found : (Rule.untilExhausted entry after).1 <;>
              simp only [condensed, found, Option.map_some, Option.map_none, List.map_cons]
      · rw [untilExhausted_of_exhausted exhausted]
        exact untilExhausted_of_exhausted (same.trans exhausted)

theorem Mirrors.block {entry : Rule α} (mirrors : Mirrors move change entry entry)
    (consumes : Consumes entry) :
    Mirrors move (Block.relocate move change) (block entry) (block entry) :=
  .bind (.enclosed _ (.untilExhausted mirrors consumes)) fun group =>
    .bind (.require group.inside) fun _ => .pure _

/-! ## Nodes -/

theorem Mirrors.pathRest :
    Mirrors move (List.map (Prod.map (Punctuation.relocate move) (Identifier.relocate move)))
      pathRest pathRest := by
  intro parser
  induction size : parser.frame.remaining using Nat.strongRecOn generalizing parser with
  | ind size ih =>
      have dotted : Rule.punctuation? '.' (parser.condense move) = _ :=
        Mirrors.punctuation? '.' parser
      have advances := Advances.punctuation? '.' parser
      rcases punctuation?_cases '.' parser with ⟨span, peeked, step⟩ | ⟨absent, step⟩
      · rw [step] at dotted advances
        have named : Rule.name (Parser.condense move _) = _ :=
          Mirrors.name { parser with frame := parser.frame.toSignificant.forward }
        match segmentStep :
            Rule.name { parser with frame := parser.frame.toSignificant.forward } with
        | (none, last) =>
            rw [segmentStep] at named
            rw [pathRest_of_none step segmentStep]
            exact pathRest_of_none dotted named
        | (some segment, last) =>
            rw [segmentStep] at named
            have fewer := Consumes.name _ segment last segmentStep
            have smaller := Nat.lt_of_lt_of_le fewer advances.remaining_le
            have later := ih _ (by rw [← size]; exact smaller) last rfl
            rw [pathRest_of_some step segmentStep]
            refine (pathRest_of_some dotted named).trans ?_
            rw [later]
            cases found : (Rule.pathRest last).1 <;>
              simp only [condensed, found, Option.map_some, Option.map_none, List.map_cons,
                Prod.map_apply]
      · rw [step] at dotted
        rw [pathRest_of_absent step]
        exact pathRest_of_absent dotted

theorem Mirrors.identifierPath :
    Mirrors move (IdentifierPath.relocate move) identifierPath identifierPath :=
  .bind .name fun _ => .bind .pathRest fun _ => .pure _

theorem Mirrors.expression : Mirrors move (Expression.relocate move) expression expression := by
  refine .ofPeek fun found => ?_
  match found with
  | .atomic ⟨.stringLiteral, span⟩ => exact .forward (.pure _)
  | .atomic ⟨.identifier, _⟩ | .atomic ⟨.keyword _, _⟩ =>
      exact Mirrors.ahead (.bind .identifierPath fun _ => .pure _)
  | .atomic ⟨.blanks, _⟩ | .atomic ⟨.numeric, _⟩ | .atomic ⟨.comment _, _⟩
  | .atomic ⟨.punctuation _, _⟩ | .opening _ | .closing _ | .eof =>
      exact .forward (.unexpected _ _)

theorem Mirrors.assignment :
    Mirrors move (TaskStatement.relocate move) assignment assignment :=
  .bind .name fun _ => .bind (.punctuation? _) fun _ => .bind .expression fun _ => .pure _

theorem Mirrors.taskStatement :
    Mirrors move (TaskStatement.relocate move) taskStatement taskStatement := by
  refine .ofPeek fun found => ?_
  match found with
  | .atomic ⟨.identifier, _⟩ | .atomic ⟨.keyword _, _⟩ => exact Mirrors.assignment.ahead
  | .atomic ⟨.blanks, _⟩ | .atomic ⟨.numeric, _⟩ | .atomic ⟨.comment _, _⟩
  | .atomic ⟨.punctuation _, _⟩ | .atomic ⟨.stringLiteral, _⟩
  | .opening _ | .closing _ | .eof => exact .forward (.unexpected _ _)

theorem MirrorsAhead.wellKnown (token : KeywordToken) :
    MirrorsAhead move (WellKnownRepository.relocate move) (wellKnown token)
      (wellKnown (token.relocate move)) := by
  have nothing : Mirrors move id (Pure.pure ()) (Pure.pure ()) := .pure ()
  exact .forward (.bind (.enclosed _ nothing) fun group =>
    .bind (.require group.inside) fun _ => .pure _)

theorem Mirrors.coordinate (configuration : Identifier) :
    Mirrors move (DependencyEntry.relocate move) (coordinate configuration)
      (coordinate (configuration.relocate move)) := by
  have bare : Mirrors move (DependencyEntry.relocate move)
      (do
        let literal ← Rule.stringLiteral
        Pure.pure ⟨configuration, none, literal⟩)
      (do
        let literal ← Rule.stringLiteral
        Pure.pure ⟨configuration.relocate move, none, literal⟩) :=
    .bind .stringLiteral fun _ => .pure _
  refine .ofPeek fun found => ?_
  match found with
  | .opening mark =>
      exact .ite Iff.rfl
        (Mirrors.ahead (.bind (.enclosed _ .stringLiteral) fun group =>
          .bind (.require group.inside) fun _ => .pure _)) bare.ahead
  | .atomic _ | .closing _ | .eof => exact bare.ahead

theorem Mirrors.dependencyEntry :
    Mirrors move (DependencyEntry.relocate move) dependencyEntry dependencyEntry := by
  refine .ofPeek fun found => ?_
  match found with
  | .atomic ⟨.identifier, span⟩ => exact .forward (.coordinate _)
  | .atomic ⟨.blanks, _⟩ | .atomic ⟨.keyword _, _⟩ | .atomic ⟨.numeric, _⟩
  | .atomic ⟨.comment _, _⟩ | .atomic ⟨.punctuation _, _⟩ | .atomic ⟨.stringLiteral, _⟩
  | .opening _ | .closing _ | .eof => exact .forward (.unexpected _ _)

theorem Mirrors.taskType : Mirrors move (TaskRegistration.relocateType move) taskType taskType := by
  refine .bind (.punctuation? _) fun found => ?_
  cases found with
  | none => exact .pure none
  | some comma => exact .bind .identifier fun _ => .pure _

theorem Mirrors.taskArguments :
    Mirrors move (Prod.map (StringLiteral.relocate move) (TaskRegistration.relocateType move))
      taskArguments taskArguments :=
  .bind .stringLiteral fun _ => .bind .taskType fun _ => .pure _

/-! ## Nodes that ask for a word

These look at the text of an identifier, which a move of spans has to keep.
-/

section Words

variable (keeps : ∀ span, (move span).text = span.text)

include keeps

theorem Mirrors.pluginVersion :
    Mirrors move (Option.map (Prod.map (Identifier.relocate move) (StringLiteral.relocate move)))
      pluginVersion pluginVersion := by
  refine .ofPeek fun found => ?_
  match found with
  | .atomic ⟨.identifier, span⟩ =>
      exact .ite (by rw [keeps]) (.forward (.bind .stringLiteral fun _ => .pure _))
        (Mirrors.pure none).ahead
  | .atomic ⟨.blanks, _⟩ | .atomic ⟨.keyword _, _⟩ | .atomic ⟨.numeric, _⟩
  | .atomic ⟨.comment _, _⟩ | .atomic ⟨.punctuation _, _⟩ | .atomic ⟨.stringLiteral, _⟩
  | .opening _ | .closing _ | .eof => exact (Mirrors.pure none).ahead

theorem Mirrors.pluginEntry :
    Mirrors move (PluginEntry.relocate move) pluginEntry pluginEntry := by
  refine .ofPeek fun found => ?_
  match found with
  | .atomic ⟨.identifier, span⟩ =>
      exact .ite (by rw [keeps])
        (.forward (.bind .stringLiteral fun _ => .bind (.pluginVersion keeps) fun _ => .pure _))
        (Mirrors.unexpected _ (.atomic ⟨.identifier, span⟩)).ahead
  | .atomic ⟨.blanks, _⟩ | .atomic ⟨.keyword _, _⟩ | .atomic ⟨.numeric, _⟩
  | .atomic ⟨.comment _, _⟩ | .atomic ⟨.punctuation _, _⟩ | .atomic ⟨.stringLiteral, _⟩
  | .opening _ | .closing _ | .eof => exact (Mirrors.unexpected _ _).ahead

theorem Mirrors.urlStatement :
    Mirrors move (UrlStatement.relocate move) urlStatement urlStatement :=
  .bind (.contextualKeyword keeps _) fun _ => .bind (.punctuation? _) fun _ =>
    .bind .stringLiteral? fun _ => .pure _

theorem Mirrors.customUrl :
    Mirrors move (Option.map (UrlStatement.relocate move)) customUrl customUrl :=
  .bind .isExhausted fun _ =>
    .ite Iff.rfl (.pure none) (.bind (.urlStatement keeps) fun _ => .pure _)

theorem MirrorsAhead.customRepository (token : KeywordToken) :
    MirrorsAhead move (CustomRepository.relocate move) (customRepository token)
      (customRepository (token.relocate move)) :=
  .forward (.bind (.enclosed _ (.customUrl keeps)) fun group =>
    .bind (.require group.inside) fun _ => .pure _)

theorem Mirrors.repositoryEntry :
    Mirrors move (RepositoryEntry.relocate move) repositoryEntry repositoryEntry := by
  refine .ofPeek fun found => ?_
  match found with
  | .atomic ⟨.keyword .mavenCentral, span⟩ | .atomic ⟨.keyword .jcenter, span⟩ =>
      exact .bind (.wellKnown _) fun _ => .pure _
  | .atomic ⟨.keyword .maven, span⟩ =>
      exact .bind (.customRepository keeps _) fun _ => .pure _
  | .atomic ⟨.identifier, span⟩ =>
      refine .forward ?_
      have rejected : Mirrors move (RepositoryEntry.relocate move)
          (Rule.reject (.unknownRepository span (SyntaxError.alternatives span.text)))
          (Rule.reject (.unknownRepository (move span) (SyntaxError.alternatives span.text))) :=
        .reject (.unknownRepository span (SyntaxError.alternatives span.text))
      rw [← keeps span] at rejected
      rw [← keeps span]
      exact rejected
  | .atomic ⟨.keyword .plugins, _⟩ | .atomic ⟨.keyword .repositories, _⟩
  | .atomic ⟨.keyword .dependencies, _⟩ | .atomic ⟨.keyword .tasks, _⟩
  | .atomic ⟨.blanks, _⟩ | .atomic ⟨.numeric, _⟩ | .atomic ⟨.comment _, _⟩
  | .atomic ⟨.punctuation _, _⟩ | .atomic ⟨.stringLiteral, _⟩
  | .opening _ | .closing _ | .eof => exact .forward (.unexpected _ _)

theorem Mirrors.taskRegistration :
    Mirrors move (TaskRegistration.relocate move) taskRegistration taskRegistration :=
  .bind (.keyword _) fun _ => .bind (.punctuation _) fun _ =>
    .bind (.contextualKeyword keeps _) fun _ => .bind (.enclosed _ .taskArguments) fun group =>
      .bind (.require group.inside) fun _ =>
        .bind (.block .taskStatement .taskStatement) fun _ => .pure _

theorem Mirrors.declaration :
    Mirrors move (Declaration.relocate move) declaration declaration := by
  refine .ofPeek fun found => ?_
  match found with
  | .atomic ⟨.keyword .plugins, span⟩ =>
      exact .forward (.bind (.block (.pluginEntry keeps) .pluginEntry) fun _ => .pure _)
  | .atomic ⟨.keyword .repositories, span⟩ =>
      exact .forward (.bind (.block (.repositoryEntry keeps) .repositoryEntry) fun _ => .pure _)
  | .atomic ⟨.keyword .dependencies, span⟩ =>
      exact .forward (.bind (.block .dependencyEntry .dependencyEntry) fun _ => .pure _)
  | .atomic ⟨.keyword .tasks, _⟩ =>
      exact Mirrors.ahead (.bind (.taskRegistration keeps) fun _ => .pure _)
  | .atomic ⟨.keyword .mavenCentral, _⟩ | .atomic ⟨.keyword .jcenter, _⟩
  | .atomic ⟨.keyword .maven, _⟩ | .atomic ⟨.identifier, _⟩ | .atomic ⟨.blanks, _⟩
  | .atomic ⟨.numeric, _⟩ | .atomic ⟨.comment _, _⟩ | .atomic ⟨.punctuation _, _⟩
  | .atomic ⟨.stringLiteral, _⟩ | .opening _ | .closing _ | .eof =>
      exact .forward (.unexpected _ _)

/-! ## Scripts -/

omit keeps in
theorem resume_condensed (outcome : Option Declaration × Parser) :
    resume (condensed move (Declaration.relocate move) outcome) =
      (resume outcome).condense move := by
  have stops := Frame.stopAt_condense move startsDeclaration
    (fun found => by
      match found with
      | .atomic ⟨.keyword _, _⟩ => rfl
      | .atomic ⟨.identifier, _⟩ | .atomic ⟨.blanks, _⟩ | .atomic ⟨.numeric, _⟩
      | .atomic ⟨.comment _, _⟩ | .atomic ⟨.punctuation _, _⟩ | .atomic ⟨.stringLiteral, _⟩
      | .opening _ | .closing _ | .eof => rfl)
    (fun leaf starts => by
      match leaf with
      | ⟨.keyword _, _⟩ => rfl
      | ⟨.identifier, _⟩ | ⟨.numeric, _⟩ | ⟨.punctuation _, _⟩ | ⟨.stringLiteral, _⟩ => rfl
      | ⟨.blanks, _⟩ | ⟨.comment _, _⟩ => cases starts)
  match outcome with
  | (some node, after) => rfl
  | (none, after) =>
      change Parser.mk ((after.frame.condense move).stopAt startsDeclaration) _ _ = _
      rw [stops]
      rfl

/-- The attempts over condensed trees yield the same declarations, with their spans moved. -/
theorem attempts_condense (parser : Parser) :
    (attempts (parser.condense move)).1.map Attempt.node =
        ((attempts parser).1.map Attempt.node).map (Option.map (Declaration.relocate move)) ∧
      (attempts (parser.condense move)).2 = (attempts parser).2.condense move := by
  -- The parser as it is decides the recursion: the condensed one makes the same attempts in
  -- a frame that may be shorter.
  induction size : parser.frame.remaining using Nat.strongRecOn generalizing parser with
  | ind size ih =>
      have same := Frame.isExhausted_condense move parser.frame
      cases exhausted : parser.frame.isExhausted
      · have fewer := resume_remaining_lt exhausted
        have image : declaration (parser.condense move) = _ := Mirrors.declaration keeps parser
        have resumed : resume (declaration (parser.condense move)) =
            (resume (declaration parser)).condense move := by
          rw [image, resume_condensed]
        obtain ⟨nodes, last⟩ := ih _ (by rw [← size]; exact fewer) _ rfl
        have goes : attempts (parser.condense move) = _ :=
          attempts_of_left (same.trans exhausted)
        rw [goes, attempts_of_left exhausted, resumed]
        refine ⟨?_, last⟩
        rw [List.map_cons, nodes, image]
        rfl
      · have stays : attempts (parser.condense move) = _ :=
          attempts_of_exhausted (same.trans exhausted)
        rw [stays, attempts_of_exhausted exhausted]
        exact ⟨rfl, rfl⟩

theorem Mirrors.script : Mirrors move (Script.relocate move) script script := by
  intro parser
  obtain ⟨nodes, last⟩ := attempts_condense keeps parser
  change ((if ((attempts (parser.condense move)).1.map Attempt.node).all Option.isSome then
      some (Script.mk (((attempts (parser.condense move)).1.map Attempt.node).filterMap id))
    else none), (attempts (parser.condense move)).2) = _
  rw [nodes, last]
  generalize made : (attempts parser).1.map Attempt.node = found
  have all : (found.map (Option.map (Declaration.relocate move))).all Option.isSome =
      found.all Option.isSome := by
    rw [List.all_map]
    exact congrArg found.all (funext fun node => by cases node <;> rfl)
  have kept : (found.map (Option.map (Declaration.relocate move))).filterMap id =
      (found.filterMap id).map (Declaration.relocate move) := by
    rw [List.filterMap_map, List.map_filterMap]
    rfl
  have outcome : Rule.script parser =
      (if found.all Option.isSome then some ⟨found.filterMap id⟩ else none,
        (attempts parser).2) := by
    rw [← made]
    rfl
  rw [outcome, all, kept, condensed]
  split <;> rfl

end Words

end Rule

end

end BuildScript.Grammar
