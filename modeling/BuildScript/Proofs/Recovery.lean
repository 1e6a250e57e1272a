import BuildScript.Proofs.Blame

/-!
# Recovery skips no block

A run over a script is a chain of attempts at a declaration. What one attempt does to the
top level is said once: which trees it passes, what it may pass by mistake and where the
next attempt begins. A keyword that begins a declaration is passed by an attempt that does
not start at it only where a task registration expects its dot or the word behind the dot.
-/

namespace BuildScript

def Declaration.closing : Declaration → Punctuation
  | .plugins _ block => block.closing
  | .repositories _ block => block.closing
  | .dependencies _ block => block.closing
  | .task registration => registration.block.closing

namespace Grammar

/-! ## Places -/

/-- A keyword that begins a declaration stands at the place. -/
def BeginsAt (trees : List TokenTree) (place : Nat) : Prop :=
  ∃ word ∈ [Keyword.plugins, .repositories, .dependencies, .tasks], ∃ span,
    trees[place]? = some (.token ⟨.keyword word, span⟩)

/-- The first place that counts for the grammar when so many trees were passed. -/
structure IsNext (trees : List TokenTree) (passed place : Nat) : Prop where
  reached : passed ≤ place
  counts : ∃ tree, trees[place]? = some tree ∧ tree.isSignificant = true
  blank : ∀ index tree, passed ≤ index → index < place → trees[index]? = some tree →
    tree.isSignificant = false

/-- Where a task registration expects its dot, or behind a dot the word that follows it. -/
inductive Expects (trees : List TokenTree) (start : Nat) : Nat → Prop where
  | dot {span : Span} {place : Nat}
      (tasks : trees[start]? = some (.token ⟨.keyword .tasks, span⟩))
      (next : IsNext trees (start + 1) place) : Expects trees start place
  | register {span dot : Span} {middle place : Nat}
      (tasks : trees[start]? = some (.token ⟨.keyword .tasks, span⟩))
      (next : IsNext trees (start + 1) middle)
      (dotted : trees[middle]? = some (.token ⟨.punctuation '.', dot⟩))
      (after : IsNext trees (middle + 1) place) : Expects trees start place

variable {trees : List TokenTree}

theorem BeginsAt.counts {place : Nat} (begins : BeginsAt trees place) :
    ∃ tree, trees[place]? = some tree ∧ tree.isSignificant = true := by
  obtain ⟨word, _, span, found⟩ := begins
  exact ⟨_, found, rfl⟩

namespace IsNext

variable {passed place other : Nat}

/-- What counts is not before the first place that does. -/
theorem le (next : IsNext trees passed place) (reached : passed ≤ other)
    (counts : ∃ tree, trees[other]? = some tree ∧ tree.isSignificant = true) : place ≤ other := by
  obtain ⟨tree, found, significant⟩ := counts
  apply Nat.le_of_not_lt
  intro before
  rw [next.blank other tree reached before found] at significant
  cases significant

theorem unique (next : IsNext trees passed place) (again : IsNext trees passed other) :
    place = other :=
  Nat.le_antisymm (next.le again.reached again.counts) (again.le next.reached next.counts)

end IsNext

theorem Expects.lt {start place : Nat} (expects : Expects trees start place) : start < place := by
  cases expects with
  | dot tasks next => exact next.reached
  | register tasks next dotted after =>
      exact Nat.lt_of_lt_of_le next.reached (Nat.le_of_lt after.reached)

/-- Only a registration expects anything at the top level behind its keyword. -/
theorem Expects.tasks {start place : Nat} (expects : Expects trees start place) :
    ∃ span, trees[start]? = some (.token ⟨.keyword .tasks, span⟩) := by
  cases expects with
  | dot tasks _ => exact ⟨_, tasks⟩
  | register tasks _ _ _ => exact ⟨_, tasks⟩

/-! ## Frames -/

namespace Frame

variable {frame : Frame}

theorem rest_getElem? (offset : Nat) :
    frame.rest[offset]? = frame.trees[frame.index + offset]? :=
  List.getElem?_drop

theorem getElem?_of_rest_eq_cons {tree : TokenTree} {later : List TokenTree}
    (restEq : frame.rest = tree :: later) : frame.trees[frame.index]? = some tree := by
  have first := frame.rest_getElem? 0
  rw [restEq] at first
  exact first.symm

/-- Trees that are skipped while a condition holds satisfy it. -/
theorem of_skipped (condition : TokenTree → Bool) {index : Nat} {tree : TokenTree}
    (reached : frame.index ≤ index)
    (before : index < (frame.advance (frame.rest.takeWhile condition).length).index)
    (found : frame.trees[index]? = some tree) : condition tree = true := by
  obtain ⟨offset, rfl⟩ := Nat.exists_eq_add_of_le reached
  have inside : offset < (frame.rest.takeWhile condition).length :=
    Nat.lt_of_add_lt_add_left before
  rw [← rest_getElem?, ← List.takeWhile_append_dropWhile (p := condition) (l := frame.rest),
    List.getElem?_append_left inside] at found
  exact List.mem_takeWhile_imp (List.mem_of_getElem? found)

/-- The tree at which skipping ends does not satisfy the condition. -/
theorem not_of_reached (condition : TokenTree → Bool) {tree : TokenTree}
    (found : frame.trees[(frame.advance (frame.rest.takeWhile condition).length).index]? =
      some tree) : condition tree = false := by
  have whole := List.takeWhile_append_dropWhile (p := condition) (l := frame.rest)
  have stopped := List.head?_dropWhile_not condition frame.rest
  change frame.trees[frame.index + (frame.rest.takeWhile condition).length]? = _ at found
  rw [← rest_getElem?] at found
  generalize frame.rest.takeWhile condition = front at found whole
  rw [← whole, List.getElem?_append_right (Nat.le_refl _), Nat.sub_self,
    ← List.head?_eq_getElem?] at found
  rw [found] at stopped
  exact stopped

/-- The frame at the next tree that counts, unless none is left. -/
theorem isNext_toSignificant (left : frame.isExhausted = false) :
    IsNext frame.trees frame.index frame.toSignificant.index := by
  refine ⟨Nat.le_add_right _ _, ?_, ?_⟩
  · obtain ⟨tree, later, restEq⟩ := List.exists_cons_of_ne_nil
      (Rule.rest_ne_nil_of_left ((Rule.isExhausted_toSignificant frame).trans left))
    exact ⟨tree, getElem?_of_rest_eq_cons restEq,
      frame.settled_toSignificant tree later restEq⟩
  · intro index tree reached before found
    have blank := of_skipped (fun tree => !tree.isSignificant) reached before found
    rwa [Bool.not_eq_true'] at blank

/-- Where something counts the frame is not exhausted. -/
theorem left_of_counts {place : Nat} (reached : frame.index ≤ place)
    (counts : ∃ tree, frame.trees[place]? = some tree ∧ tree.isSignificant = true) :
    frame.isExhausted = false := by
  obtain ⟨tree, found, significant⟩ := counts
  obtain ⟨offset, rfl⟩ := Nat.exists_eq_add_of_le reached
  rw [← rest_getElem?] at found
  rw [Bool.eq_false_iff]
  intro exhausted
  rw [frame.isExhausted_iff.1 exhausted tree (List.mem_of_getElem? found)] at significant
  cases significant

theorem index_forward_of_left (left : frame.isExhausted = false) :
    frame.toSignificant.forward.index = frame.toSignificant.index + 1 := by
  obtain ⟨tree, later, restEq⟩ := List.exists_cons_of_ne_nil
    (Rule.rest_ne_nil_of_left ((Rule.isExhausted_toSignificant frame).trans left))
  rw [forward_of_rest_eq_cons _ restEq]
  rfl

/-- The next tree that counts is where the frame goes. -/
theorem index_toSignificant {place : Nat} (next : IsNext frame.trees frame.index place) :
    frame.toSignificant.index = place :=
  (isNext_toSignificant (left_of_counts next.reached next.counts)).unique next

theorem lt_of_isNext {place : Nat} (next : IsNext frame.trees frame.index place) :
    place < frame.toSignificant.forward.index := by
  rw [index_forward_of_left (left_of_counts next.reached next.counts), index_toSignificant next]
  exact Nat.lt_succ_self place

/-- Of the trees up to the next that counts, only that one counts. -/
theorem isNext_of_lt {place : Nat} (reached : frame.index ≤ place)
    (before : place < frame.toSignificant.forward.index)
    (counts : ∃ tree, frame.trees[place]? = some tree ∧ tree.isSignificant = true) :
    IsNext frame.trees frame.index place := by
  have left := left_of_counts reached counts
  have next := isNext_toSignificant left
  rw [index_forward_of_left left] at before
  have same : frame.toSignificant.index = place :=
    Nat.le_antisymm (next.le reached counts) (Nat.le_of_lt_succ before)
  rwa [same] at next

/-- A token that is seen behind blanks is the next tree that counts. -/
theorem isNext_of_peek_atomic {leaf : Token}
    (peeked : frame.toSignificant.peek = .atomic leaf) :
    IsNext frame.trees frame.index frame.toSignificant.index ∧
      frame.trees[frame.toSignificant.index]? = some (.token leaf) := by
  obtain ⟨later, restEq⟩ := rest_of_peek_atomic peeked
  have found : frame.trees[frame.toSignificant.index]? = some (.token leaf) :=
    getElem?_of_rest_eq_cons restEq
  have left := left_of_counts (Nat.le_add_right frame.index _)
    ⟨_, found, frame.settled_toSignificant _ later restEq⟩
  exact ⟨isNext_toSignificant left, found⟩

theorem peek_of_getElem? {leaf : Token} (found : frame.trees[frame.index]? = some (.token leaf)) :
    frame.peek = .atomic leaf := by
  have first := frame.rest_getElem? 0
  rw [Nat.add_zero, found] at first
  obtain ⟨later, restEq⟩ : ∃ later, frame.rest = .token leaf :: later := by
    cases restEq : frame.rest with
    | nil =>
        rw [restEq] at first
        cases first
    | cons tree later =>
        rw [restEq] at first
        cases first
        exact ⟨later, rfl⟩
  rw [peek, restEq]
  rfl

end Frame

/-! ## Rules that spare keywords -/

/-- On the way from one place to the other no keyword that begins a declaration is passed. -/
structure Parser.Spares (before after : Parser) : Prop extends before.Continues after where
  spared : ∀ place, before.frame.index ≤ place → place < after.frame.index →
    ¬BeginsAt before.frame.trees place

namespace Parser.Spares

variable {first second third : Parser}

theorem refl (parser : Parser) : parser.Spares parser :=
  ⟨.refl parser, fun _ reached before => absurd before (Nat.not_lt_of_le reached)⟩

theorem trans (earlier : first.Spares second) (later : second.Spares third) :
    first.Spares third := by
  refine ⟨earlier.toContinues.trans later.toContinues, ?_⟩
  intro place reached before
  rcases Nat.lt_or_ge place second.frame.index with inFirst | inSecond
  · exact earlier.spared place reached inFirst
  · have spared := later.spared place inSecond before
    rwa [earlier.trees] at spared

theorem toSignificant (parser : Parser) :
    parser.Spares { parser with frame := parser.frame.toSignificant } := by
  refine ⟨.advance parser _, ?_⟩
  intro place reached before begins
  obtain ⟨tree, found, significant⟩ := begins.counts
  have blank := Frame.of_skipped (fun tree => !tree.isSignificant) reached before found
  rw [significant] at blank
  cases blank

end Parser.Spares

namespace Rule

variable {α β : Type}

/-- The rule passes no keyword that begins a declaration, whether it yields a node or fails. -/
def Spares (rule : Rule α) : Prop :=
  ∀ parser : Parser, parser.Spares (rule parser).2

theorem Spares.pure (value : α) : Spares (pure value : Rule α) :=
  fun parser => .refl parser

theorem Spares.require (inside : Option α) : Spares (require inside) := by
  intro parser
  cases inside <;> exact .refl parser

theorem Spares.bind {first : Rule α} {next : α → Rule β} (spares : Spares first)
    (later : ∀ value, Spares (next value)) : Spares (first >>= next) := by
  intro parser
  have moved := spares parser
  match step : first parser with
  | (some value, after) =>
      rw [bind_of_some step]
      rw [step] at moved
      exact moved.trans (later value after)
  | (none, after) =>
      rw [bind_of_none step]
      rwa [step] at moved

/-- Behind a group the outer frame is one tree further on. -/
theorem enclosed_frame {delimiter : Delimiter} {inside : Rule α} (advances : Advances inside)
    {parser : Parser} {group : Punctuation × List TokenTree × Punctuation}
    (ahead : groupAhead? delimiter parser.frame = some group) :
    (enclosed delimiter inside parser).2.frame = parser.frame.toSignificant.forward := by
  obtain ⟨opening, trees, closing⟩ := group
  have entered := (advances (enter trees closing parser)).trans
    (Advances.closeGroup delimiter (inside (enter trees closing parser)).1
      (inside (enter trees closing parser)).2)
  rw [enclosed_of_group ahead]
  change (leave _).frame = _
  rw [leave_of_continues entered]

/-- A group that comes next stands where the frame goes, and is passed by one step. -/
theorem groupAhead?_place {delimiter : Delimiter} {frame : Frame}
    {opening closing : Punctuation} {inner : List TokenTree}
    (ahead : groupAhead? delimiter frame = some (opening, inner, closing)) :
    frame.trees[frame.toSignificant.index]? = some (.group delimiter opening inner closing) ∧
      frame.toSignificant.forward.index = frame.toSignificant.index + 1 := by
  obtain ⟨behind, restEq⟩ := groupAhead?_eq_some_iff.1 ahead
  refine ⟨Frame.getElem?_of_rest_eq_cons restEq, ?_⟩
  rw [Frame.forward_of_rest_eq_cons _ restEq]
  rfl

/-- Of the outer frame only the group is passed, or nothing that counts. -/
theorem Spares.enclosed (delimiter : Delimiter) {inside : Rule α} (advances : Advances inside) :
    Spares (enclosed delimiter inside) := by
  intro parser
  have blanks := (Parser.Spares.toSignificant parser).spared
  refine ⟨Advances.enclosed delimiter advances parser, ?_⟩
  cases ahead : groupAhead? delimiter parser.frame with
  | none =>
      rw [enclosed_of_absent ahead]
      exact blanks
  | some group =>
      obtain ⟨isGroup, index⟩ := groupAhead?_place ahead
      rw [enclosed_frame advances ahead, index]
      intro place reached before
      rcases Nat.lt_or_eq_of_le (Nat.le_of_lt_succ before) with blank | rfl
      · exact blanks place reached blank
      · rintro ⟨word, _, span, isKeyword⟩
        cases isGroup.symm.trans isKeyword

theorem Spares.block {entry : Rule α} (advances : Advances entry) (consumes : Consumes entry) :
    Spares (block entry) :=
  .bind (.enclosed _ (.untilExhausted advances consumes)) fun _ =>
    .bind (.require _) fun _ => .pure _

/-- The delimiters are those of a group, and the parser is behind it. -/
theorem enclosed_place {delimiter : Delimiter} {inside : Rule α} (advances : Advances inside)
    {parser after : Parser} {node : Enclosed α}
    (yielded : enclosed delimiter inside parser = (some node, after)) :
    ∃ place inner, after.frame.index = place + 1 ∧
      parser.frame.trees[place]? = some (.group delimiter node.opening inner node.closing) := by
  cases ahead : groupAhead? delimiter parser.frame with
  | none =>
      rw [enclosed_of_absent ahead] at yielded
      cases yielded
  | some group =>
      obtain ⟨opening, inner, closing⟩ := group
      obtain ⟨isGroup, index⟩ := groupAhead?_place ahead
      have frame := enclosed_frame advances ahead
      rw [yielded] at frame
      rw [enclosed_of_group ahead] at yielded
      obtain ⟨made, _⟩ := Prod.mk.inj yielded
      obtain rfl := Option.some.inj made
      exact ⟨_, inner, (congrArg Frame.index frame).trans index, isGroup⟩

/-- A block ends with the group that its braces make. -/
theorem block_place {entry : Rule α} (advances : Advances entry) (consumes : Consumes entry)
    {parser after : Parser} {node : Block α} (yielded : block entry parser = (some node, after)) :
    ∃ place inner, after.frame.index = place + 1 ∧
      parser.frame.trees[place]? = some (.group .brace node.opening inner node.closing) := by
  obtain ⟨group, middle, grouped, later⟩ := bind_eq_some_iff.1 yielded
  obtain ⟨entries, last, required, ended⟩ := bind_eq_some_iff.1 later
  have found := enclosed_place (.untilExhausted advances consumes) grouped
  cases ended
  cases inside : group.inside with
  | none =>
      rw [inside] at required
      cases required
  | some nodes =>
      rw [inside] at required
      cases required
      exact found

/-! ## One attempt -/

/-- A step that only judges a reading leaves the parser where it is. -/
theorem Verdict.frame {found : Reading} {rule : Rule α} (verdict : Verdict found rule)
    (parser : Parser) : (rule parser).2.frame = parser.frame := by
  cases verdict with
  | accept node => rfl
  | refuse about => rfl

/-- A rule for one token passes the next tree that counts, whatever it is. -/
theorem ofNext_frame {next : Reading → Rule α} (verdict : ∀ found, Verdict found (next found))
    (parser : Parser) :
    ((nextSignificant >>= next) parser).2.frame = parser.frame.toSignificant.forward := by
  rw [bind_of_some (nextSignificant_apply parser)]
  exact (verdict _).frame _

theorem punctuation_of_peek (parser : Parser) {mark : Char} {span : Span}
    (peeked : parser.frame.toSignificant.peek = .atomic ⟨.punctuation mark, span⟩) :
    punctuation mark true parser =
      (some ⟨mark, span⟩, { parser with frame := parser.frame.toSignificant.forward }) := by
  change (nextSignificant >>= _) parser = _
  rw [bind_of_some (nextSignificant_apply parser), peeked]
  exact congrFun (if_pos rfl) _

theorem punctuation_peek {expected : Char} {parser after : Parser} {node : Punctuation}
    (yielded : punctuation expected true parser = (some node, after)) :
    parser.frame.toSignificant.peek = .atomic ⟨.punctuation expected, node.span⟩ := by
  change (nextSignificant >>= _) parser = _ at yielded
  rw [bind_of_some (nextSignificant_apply parser)] at yielded
  generalize parser.frame.toSignificant.peek = found at yielded
  split at yielded
  · split at yielded
    · rename_i same
      cases yielded
      rw [same]
    · cases yielded
  · cases yielded

theorem contextualKeyword_peek {word : String} {parser after : Parser} {node : Identifier}
    (yielded : contextualKeyword word parser = (some node, after)) :
    parser.frame.toSignificant.peek = .atomic ⟨.identifier, node.span⟩ := by
  rw [contextualKeyword, bind_of_some (nextSignificant_apply parser)] at yielded
  generalize parser.frame.toSignificant.peek = found at yielded
  split at yielded
  · split at yielded <;> cases yielded
    rfl
  · cases yielded

/-- The rule passes the next tree that counts, and fails if a declaration begins there. -/
structure TakesOther (rule : Rule α) : Prop where
  frame : ∀ parser, (rule parser).2.frame = parser.frame.toSignificant.forward
  other : ∀ parser node after, rule parser = (some node, after) →
    ¬BeginsAt parser.frame.trees parser.frame.toSignificant.index

theorem TakesOther.punctuation (expected : Char) : TakesOther (punctuation expected true) := by
  constructor
  · refine ofNext_frame fun found => ?_
    split
    · split
      · exact .accept _
      · exact .refuse rfl
    · exact .refuse rfl
  · rintro parser node after yielded ⟨word, _, span, found⟩
    have isMark := punctuation_peek yielded
    rw [Frame.peek_of_getElem? found] at isMark
    cases isMark

theorem TakesOther.contextualKeyword (word : String) : TakesOther (contextualKeyword word) := by
  constructor
  · refine ofNext_frame fun found => ?_
    split
    · split
      · exact .accept _
      · exact .refuse rfl
    · exact .refuse rfl
  · rintro parser node after yielded ⟨_, _, span, found⟩
    have isName := contextualKeyword_peek yielded
    rw [Frame.peek_of_getElem? found] at isName
    cases isName

/-- A keyword is passed by the rule that takes one tree and then fails, or behind that tree. -/
theorem TakesOther.bind_begins {first : Rule α} {next : α → Rule β} (takes : TakesOther first)
    {parser : Parser} {place : Nat} (reached : parser.frame.index ≤ place)
    (before : place < ((first >>= next) parser).2.frame.index)
    (begins : BeginsAt parser.frame.trees place) :
    ((first >>= next) parser).1 = none ∧ IsNext parser.frame.trees parser.frame.index place ∨
      ∃ value after, first parser = (some value, after) ∧ after.frame.index ≤ place := by
  have frame := takes.frame parser
  match step : first parser with
  | (none, after) =>
      rw [step] at frame
      rw [bind_of_none step] at before ⊢
      rw [frame] at before
      exact .inl ⟨rfl, Frame.isNext_of_lt reached before begins.counts⟩
  | (some value, after) =>
      rw [step] at frame
      refine .inr ⟨value, after, rfl, Nat.le_of_not_lt fun passed => ?_⟩
      rw [frame] at passed
      have next := Frame.isNext_of_lt reached passed begins.counts
      rw [← Frame.index_toSignificant next] at begins
      exact takes.other parser value after step begins

/-- If what follows the one tree spares keywords, only that tree can be a keyword. -/
theorem TakesOther.begins_of_spares {first : Rule α} {next : α → Rule β}
    (takes : TakesOther first) (advances : Advances first) (spares : ∀ value, Spares (next value))
    {parser : Parser} {place : Nat} (reached : parser.frame.index ≤ place)
    (before : place < ((first >>= next) parser).2.frame.index)
    (begins : BeginsAt parser.frame.trees place) :
    ((first >>= next) parser).1 = none ∧ IsNext parser.frame.trees parser.frame.index place := by
  rcases takes.bind_begins reached before begins with failed | ⟨value, after, step, further⟩
  · exact failed
  · have continues := advances parser
    rw [step] at continues
    rw [bind_of_some step] at before
    rw [← continues.trees] at begins
    exact absurd begins ((spares value after).spared place further before)

/-- A keyword is taken for the dot of a registration, or behind the dot for its word. -/
theorem registration_mistaken (token : KeywordToken) {parser : Parser} {start place : Nat}
    {span : Span} (tasks : parser.frame.trees[start]? = some (.token ⟨.keyword .tasks, span⟩))
    (behind : parser.frame.index = start + 1) (reached : parser.frame.index ≤ place)
    (before : place < (registration token parser).2.frame.index)
    (begins : BeginsAt parser.frame.trees place) :
    (registration token parser).1 = none ∧ Expects parser.frame.trees start place := by
  have dots := TakesOther.punctuation '.'
  rcases dots.bind_begins reached before begins with
    ⟨failed, next⟩ | ⟨dot, after, step, further⟩
  · rw [behind] at next
    exact ⟨failed, .dot tasks next⟩
  · have rest : registration token parser = _ := bind_of_some step
    have continues := Advances.punctuation '.' true parser
    have frame := dots.frame parser
    rw [step] at continues frame
    rw [rest] at before ⊢
    rw [← continues.trees] at begins
    obtain ⟨failed, next⟩ := (TakesOther.contextualKeyword "register").begins_of_spares
      (.contextualKeyword _) (fun _ => .bind (.enclosed _ .taskArguments) fun _ =>
        .bind (.require _) fun _ => .bind (.block .taskStatement .taskStatement) fun _ => .pure _)
      further before begins
    obtain ⟨middle, dotted⟩ := Frame.isNext_of_peek_atomic (punctuation_peek step)
    have index := Frame.index_forward_of_left
      (Frame.left_of_counts middle.reached middle.counts)
    rw [continues.trees, frame, index] at next
    rw [behind] at middle
    exact ⟨failed, .register tasks middle dotted next⟩

/-- A tree that one rule takes is passed when another follows. -/
theorem TakesOther.lt_of_isNext {first : Rule α} {next : α → Rule β} (takes : TakesOther first)
    (later : ∀ value, Advances (next value)) {parser : Parser} {place : Nat}
    (comes : IsNext parser.frame.trees parser.frame.index place) :
    place < ((first >>= next) parser).2.frame.index := by
  have passed := Frame.lt_of_isNext comes
  rw [← takes.frame parser] at passed
  match step : first parser with
  | (none, after) =>
      rw [bind_of_none step]
      rwa [step] at passed
  | (some value, after) =>
      rw [bind_of_some step]
      rw [step] at passed
      exact Nat.lt_of_lt_of_le passed (later value after).index

/-- What stands where a registration expects its dot or its word is passed. -/
theorem registration_expected (token : KeywordToken) {parser : Parser} {start place : Nat}
    (behind : parser.frame.index = start + 1)
    (expects : Expects parser.frame.trees start place) :
    place < (registration token parser).2.frame.index := by
  cases expects with
  | dot tasks next =>
      rw [← behind] at next
      exact (TakesOther.punctuation '.').lt_of_isNext (fun _ => .bind (.contextualKeyword _)
        fun _ => .bind (.enclosed _ .taskArguments) fun _ => .bind (.require _) fun _ =>
          .bind (.block .taskStatement .taskStatement) fun _ => .pure _) next
  | @register _ dot middle _ tasks next dotted after =>
      rw [← behind] at next
      have index := Frame.index_toSignificant next
      have forward := Frame.index_forward_of_left
        (Frame.left_of_counts next.reached next.counts)
      rw [← index] at dotted after
      have step := punctuation_of_peek parser (Frame.peek_of_getElem? dotted)
      have rest : registration token parser = _ := bind_of_some step
      have sameTrees : parser.frame.toSignificant.forward.trees = parser.frame.trees :=
        (Advances.nextSignificant parser).trees
      rw [rest]
      rw [← forward, ← sameTrees] at after
      exact (TakesOther.contextualKeyword "register").lt_of_isNext
        (fun _ => .bind (.enclosed _ .taskArguments) fun _ => .bind (.require _) fun _ =>
          .bind (.block .taskStatement .taskStatement) fun _ => .pure _) after

/-- A registration ends with the group that the braces of its block make. -/
theorem registration_place {token : KeywordToken} {parser after : Parser}
    {node : TaskRegistration} (yielded : registration token parser = (some node, after)) :
    ∃ place inner, after.frame.index = place + 1 ∧ parser.frame.trees[place]? =
      some (.group .brace node.block.opening inner node.block.closing) := by
  obtain ⟨dot, first, dotStep, rest⟩ := bind_eq_some_iff.1 yielded
  obtain ⟨word, second, wordStep, rest⟩ := bind_eq_some_iff.1 rest
  obtain ⟨group, third, groupStep, rest⟩ := bind_eq_some_iff.1 rest
  obtain ⟨arguments, fourth, required, rest⟩ := bind_eq_some_iff.1 rest
  obtain ⟨body, last, bodyStep, ended⟩ := bind_eq_some_iff.1 rest
  have toDot := Advances.punctuation '.' true parser
  have toWord := Advances.contextualKeyword "register" first
  have toGroup := Advances.enclosed .parenthesis .taskArguments second
  have toInside := Advances.require group.inside third
  rw [dotStep] at toDot
  rw [wordStep] at toWord
  rw [groupStep] at toGroup
  rw [required] at toInside
  have continues := ((toDot.trans toWord).trans toGroup).trans toInside
  have found := block_place .taskStatement .taskStatement bodyStep
  rw [continues.trees] at found
  cases ended
  exact found

/-- What is made of a node changes nothing about the parser. -/
theorem bind_pure_apply (rule : Rule α) (make : α → β) (parser : Parser) :
    (do let node ← rule; pure (make node) : Rule β) parser =
      ((rule parser).1.map make, (rule parser).2) := by
  match step : rule parser with
  | (none, after) => exact bind_of_none step
  | (some node, after) => exact bind_of_some step

/--
What an attempt that starts at a place passes behind it: a keyword that begins a declaration
only by mistake, where a task registration expects something else, and then it fails. An
attempt that yields a declaration stops behind its last brace.
-/
structure Covers (trees : List TokenTree) (start : Nat) (outcome : Option Declaration × Parser) :
    Prop where
  passed : start < outcome.2.frame.index
  mistaken : ∀ place, start < place → place < outcome.2.frame.index → BeginsAt trees place →
    outcome.1 = none ∧ Expects trees start place
  expected : ∀ place, Expects trees start place → place < outcome.2.frame.index
  ended : ∀ declaration, outcome.1 = some declaration → ∃ place opening inner,
    outcome.2.frame.index = place + 1 ∧
      trees[place]? = some (.group .brace opening inner declaration.closing)

/-- A declaration that is a keyword and a block passes the one group of the block. -/
theorem block_covers {entry : Rule α} (advances : Advances entry) (consumes : Consumes entry)
    {make : Block α → Declaration} (closing : ∀ body, (make body).closing = body.closing)
    (parser : Parser) {start : Nat} (behind : parser.frame.index = start + 1)
    (other : ∀ span, parser.frame.trees[start]? ≠ some (.token ⟨.keyword .tasks, span⟩)) :
    Covers parser.frame.trees start
      ((do let body ← block entry; pure (make body) : Rule Declaration) parser) := by
  have spares := Spares.block advances consumes parser
  have index := spares.index
  rw [behind] at index
  rw [bind_pure_apply]
  constructor
  · exact index
  · intro place above before begins
    exact absurd begins (spares.spared place (by rw [behind]; exact above) before)
  · intro place expects
    obtain ⟨span, isTasks⟩ := expects.tasks
    exact absurd isTasks (other span)
  · intro declaration yielded
    obtain ⟨body, made, rfl⟩ := Option.map_eq_some_iff.1 yielded
    obtain ⟨place, inner, index, isGroup⟩ := block_place advances consumes (Prod.ext made rfl)
    rw [closing]
    exact ⟨place, body.opening, inner, index, isGroup⟩

theorem registration_covers (token : KeywordToken) (parser : Parser) {start : Nat} {span : Span}
    (tasks : parser.frame.trees[start]? = some (.token ⟨.keyword .tasks, span⟩))
    (behind : parser.frame.index = start + 1) :
    Covers parser.frame.trees start
      ((do let node ← registration token; pure (.task node) : Rule Declaration) parser) := by
  have index := (Advances.registration token parser).index
  rw [behind] at index
  rw [bind_pure_apply]
  constructor
  · exact index
  · intro place above before begins
    obtain ⟨failed, expects⟩ := registration_mistaken token tasks behind
      (by rw [behind]; exact above) before begins
    exact ⟨by rw [failed]; rfl, expects⟩
  · intro place expects
    exact registration_expected token behind expects
  · intro declaration yielded
    obtain ⟨node, made, rfl⟩ := Option.map_eq_some_iff.1 yielded
    obtain ⟨place, inner, index, isGroup⟩ := registration_place (Prod.ext made rfl)
    exact ⟨place, node.block.opening, inner, index, isGroup⟩

/-- Where no declaration begins an attempt passes one tree. -/
theorem other_covers (parser : Parser) {start : Nat} (expected : Expectation) (found : Reading)
    (behind : parser.frame.index = start + 1)
    (other : ∀ span, parser.frame.trees[start]? ≠ some (.token ⟨.keyword .tasks, span⟩)) :
    Covers parser.frame.trees start ((unexpected expected found : Rule Declaration) parser) := by
  constructor
  · exact Nat.lt_of_lt_of_eq (Nat.lt_succ_self start) behind.symm
  · intro place above before begins
    change place < parser.frame.index at before
    omega
  · intro place expects
    obtain ⟨span, isTasks⟩ := expects.tasks
    exact absurd isTasks (other span)
  · intro declaration yielded
    cases yielded

theorem declaration_covers {parser : Parser} (left : parser.frame.isExhausted = false) :
    Covers parser.frame.trees parser.frame.toSignificant.index (declaration parser) := by
  let begun : Parser := { parser with frame := parser.frame.toSignificant.forward }
  have behind : begun.frame.index = _ := Frame.index_forward_of_left left
  have sameTrees : begun.frame.trees = parser.frame.trees :=
    (Advances.nextSignificant parser).trees
  rw [← sameTrees]
  by_cases isTasks : ∃ span, parser.frame.toSignificant.peek = .atomic ⟨.keyword .tasks, span⟩
  · obtain ⟨span, peeked⟩ := isTasks
    have tasks := (Frame.isNext_of_peek_atomic peeked).2
    rw [← sameTrees] at tasks
    rw [declaration_of_tasks parser peeked]
    exact registration_covers _ begun tasks behind
  · have other : ∀ span, begun.frame.trees[parser.frame.toSignificant.index]? ≠
        some (.token ⟨.keyword .tasks, span⟩) := by
      intro span found
      rw [sameTrees] at found
      exact isTasks ⟨span, Frame.peek_of_getElem? found⟩
    rw [declaration, bind_of_some (peekSignificant_apply parser)]
    generalize parser.frame.toSignificant.peek = found at isTasks
    split
    · exact block_covers .pluginEntry .pluginEntry (fun _ => rfl) begun behind other
    · exact block_covers .repositoryEntry .repositoryEntry (fun _ => rfl) begun behind other
    · exact block_covers .dependencyEntry .dependencyEntry (fun _ => rfl) begun behind other
    · exact absurd ⟨_, rfl⟩ isTasks
    · exact other_covers begun _ _ behind other

/-! ## Runs -/

/-- One attempt of a run, from the place where it is made to the place where the next one is. -/
structure Step (trees : List TokenTree) (here : Nat) (attempt : Attempt) (resumed : Nat) :
    Prop where
  begins : IsNext trees here attempt.start
  passes : attempt.start < resumed
  mistaken : ∀ place, attempt.start < place → place < resumed → BeginsAt trees place →
    attempt.node = none ∧ Expects trees attempt.start place
  expected : ∀ place, Expects trees attempt.start place → place < resumed
  failed : attempt.node = none → ∀ tree, trees[resumed]? = some tree → BeginsAt trees resumed
  ended : ∀ declaration, attempt.node = some declaration → ∃ place opening inner,
    resumed = place + 1 ∧
      trees[place]? = some (.group .brace opening inner declaration.closing)

/-- A run from a place on: attempts up to where nothing counts any more. -/
inductive Run (trees : List TokenTree) : Nat → List Attempt → Prop where
  | done {here : Nat}
      (nothing : ∀ place tree, here ≤ place → trees[place]? = some tree →
        tree.isSignificant = false) : Run trees here []
  | step {here resumed : Nat} {attempt : Attempt} {later : List Attempt}
      (first : Step trees here attempt resumed) (rest : Run trees resumed later) :
      Run trees here (attempt :: later)

theorem startsDeclaration_readingOf_iff {closing : Option Punctuation} {place : Nat}
    {tree : TokenTree} (found : trees[place]? = some tree) :
    startsDeclaration (Frame.readingOf closing [tree]) = true ↔ BeginsAt trees place := by
  rw [startsDeclaration_iff]
  constructor
  · rintro ⟨word, span, isKeyword, starts⟩
    cases tree with
    | token leaf =>
        cases isKeyword
        refine ⟨word, ?_, span, found⟩
        cases word <;> simp_all [Keyword.startsDeclaration]
    | group delimiter opening inner closes => cases isKeyword
  · rintro ⟨word, member, span, isKeyword⟩
    cases found.symm.trans isKeyword
    refine ⟨word, span, rfl, ?_⟩
    simp only [List.mem_cons, List.not_mem_nil, or_false] at member
    rcases member with rfl | rfl | rfl | rfl <;> rfl

/-- Recovery passes no keyword that begins a declaration and stops at the next one. -/
theorem stopAt_spares (frame : Frame) :
    (∀ place, frame.index ≤ place → place < (frame.stopAt startsDeclaration).index →
      ¬BeginsAt frame.trees place) ∧
    ∀ tree, frame.trees[(frame.stopAt startsDeclaration).index]? = some tree →
      BeginsAt frame.trees (frame.stopAt startsDeclaration).index := by
  constructor
  · intro place reached before begins
    obtain ⟨tree, found, _⟩ := begins.counts
    have skipped := Frame.of_skipped _ reached before found
    rw [(startsDeclaration_readingOf_iff found).2 begins] at skipped
    cases skipped
  · intro tree found
    have stopped := Frame.not_of_reached _ found
    rw [Bool.not_eq_false'] at stopped
    exact (startsDeclaration_readingOf_iff found).1 stopped

theorem declaration_step {parser : Parser} (left : parser.frame.isExhausted = false) :
    Step parser.frame.trees parser.frame.index
      ⟨parser.frame.toSignificant.index, (declaration parser).1⟩
      (resume (declaration parser)).frame.index := by
  have covers := declaration_covers left
  have moved := (parser.continues_begun.trans (declaration_continues parser)).trees
  have begins := Frame.isNext_toSignificant left
  generalize declaration parser = outcome at covers moved
  rcases outcome with ⟨_ | declaration, after⟩
  · obtain ⟨spared, stopped⟩ := stopAt_spares after.frame
    have further : after.frame.index ≤ (after.frame.stopAt startsDeclaration).index :=
      Nat.le_add_right _ _
    rw [moved] at spared stopped
    refine ⟨begins, Nat.lt_of_lt_of_le covers.passed further, ?_, ?_, fun _ => stopped, ?_⟩
    · intro place above before keyword
      rcases Nat.lt_or_ge place after.frame.index with inside | behind
      · exact covers.mistaken place above inside keyword
      · exact absurd keyword (spared place behind before)
    · intro place expects
      exact Nat.lt_of_lt_of_le (covers.expected place expects) further
    · intro declaration yielded
      cases yielded
  · refine ⟨begins, covers.passed, covers.mistaken, covers.expected, ?_, covers.ended⟩
    intro impossible
    cases impossible

theorem attempts_run (parser : Parser) :
    Run parser.frame.trees parser.frame.index (attempts parser).1 := by
  induction parser using attempts_induction with
  | exhausted parser exhausted =>
      rw [attempts_of_exhausted exhausted]
      refine .done fun place tree reached found => ?_
      obtain ⟨offset, rfl⟩ := Nat.exists_eq_add_of_le reached
      rw [← Frame.rest_getElem?] at found
      exact parser.frame.isExhausted_iff.1 exhausted tree (List.mem_of_getElem? found)
  | left parser left ih =>
      have continues := (parser.continues_begun.trans (declaration_continues parser)).trans
        (resume_continues (declaration parser))
      rw [attempts_of_left left]
      rw [continues.trees] at ih
      exact .step (declaration_step left) ih

end Rule

namespace Rule.Run

variable {here : Nat} {run : List Attempt}

/-- Attempts start further on than where they are made. -/
theorem le_start (made : Run trees here run) : ∀ attempt ∈ run, here ≤ attempt.start := by
  induction made with
  | done nothing => simp
  | step first rest ih =>
      intro attempt member
      rcases List.mem_cons.1 member with rfl | later
      · exact first.begins.reached
      · have order := ih attempt later
        have passes := first.passes
        have reached := first.begins.reached
        omega

theorem count_eq_zero (made : Run trees here run) {place : Nat} (before : place < here) :
    (run.map Attempt.start).count place = 0 := by
  rw [List.count_eq_zero]
  intro member
  obtain ⟨attempt, inRun, rfl⟩ := List.mem_map.1 member
  exact Nat.lt_irrefl _ (Nat.lt_of_lt_of_le before (made.le_start attempt inRun))

/-- No attempt of a run expects anything before the run begins. -/
theorem not_expects (made : Run trees here run) {place : Nat} (before : place ≤ here) :
    ∀ attempt ∈ run, ¬Expects trees attempt.start place := by
  intro attempt member expects
  have start := made.le_start attempt member
  have behind := expects.lt
  omega

/--
From where a run begins, every keyword that begins a declaration starts one attempt, or it
stands where an attempt that fails expects something else and starts none.
-/
theorem keyword_cases (made : Run trees here run) {place : Nat} (reached : here ≤ place)
    (begins : BeginsAt trees place) :
    (run.map Attempt.start).count place = 1 ∧
        (∀ attempt ∈ run, ¬Expects trees attempt.start place) ∨
      (run.map Attempt.start).count place = 0 ∧
        ∃ attempt ∈ run, attempt.node = none ∧ Expects trees attempt.start place := by
  induction made with
  | done nothing =>
      obtain ⟨tree, found, significant⟩ := begins.counts
      rw [nothing place tree reached found] at significant
      cases significant
  | @step here resumed attempt later first rest ih =>
      have atLeast := first.begins.le reached begins.counts
      have passes := first.passes
      rw [List.map_cons]
      rcases Nat.lt_or_ge place resumed with inside | behind
      · have without := rest.count_eq_zero inside
        rcases Nat.eq_or_lt_of_le atLeast with rfl | above
        · -- The keyword starts this attempt, and all others start behind it.
          refine .inl ⟨?_, List.forall_mem_cons.2 ⟨?_, ?_⟩⟩
          · rw [List.count_cons_self, without]
          · intro expects
            exact Nat.lt_irrefl _ expects.lt
          · exact rest.not_expects (Nat.le_of_lt inside)
        · -- This attempt passes the keyword by mistake.
          refine .inr ⟨?_, attempt, List.mem_cons_self, first.mistaken place above inside begins⟩
          rw [List.count_cons_of_ne (Nat.ne_of_lt above), without]
      · have apart : attempt.start ≠ place := Nat.ne_of_lt (Nat.lt_of_lt_of_le passes behind)
        rw [List.count_cons_of_ne apart]
        rcases ih behind with ⟨once, none⟩ | ⟨without, other, member, mistaken⟩
        · refine .inl ⟨once, List.forall_mem_cons.2 ⟨?_, none⟩⟩
          intro expects
          exact Nat.not_lt_of_le behind (first.expected place expects)
        · exact .inr ⟨without, other, List.mem_cons_of_mem _ member, mistaken⟩

/--
An attempt that starts at anything else is the first of the run, or it is made directly
behind a declaration.
-/
theorem other_cases (made : Run trees here run) {position : Nat} {attempt : Attempt}
    (isAt : run[position]? = some attempt) (other : ¬BeginsAt trees attempt.start) :
    (position = 0 ∧ IsNext trees here attempt.start) ∨
      ∃ previous earlier declaration place opening inner, position = previous + 1 ∧
        run[previous]? = some earlier ∧ earlier.node = some declaration ∧
        trees[place]? = some (.group .brace opening inner declaration.closing) ∧
        IsNext trees (place + 1) attempt.start := by
  induction made generalizing position with
  | done nothing => cases isAt
  | @step here resumed first later step rest ih =>
      cases position with
      | zero =>
          cases isAt
          exact .inl ⟨rfl, step.begins⟩
      | succ position =>
          rw [List.getElem?_cons_succ] at isAt
          rcases ih isAt with ⟨rfl, next⟩ | ⟨previous, earlier, declaration, place, opening, inner,
            rfl, isEarlier, found⟩
          · cases node : first.node with
            | none =>
                -- Recovery stopped at a keyword, and the next attempt starts there.
                obtain ⟨_, isStart, _⟩ := next.counts
                have short := (List.getElem?_eq_some_iff.1 isStart).1
                have inside : resumed < trees.length := Nat.lt_of_le_of_lt next.reached short
                have begins := step.failed node _ (List.getElem?_eq_getElem inside)
                have atMost := next.le (Nat.le_refl resumed) begins.counts
                rw [Nat.le_antisymm next.reached atMost] at begins
                exact absurd begins other
            | some declaration =>
                obtain ⟨place, opening, inner, rfl, isGroup⟩ := step.ended declaration node
                exact .inr ⟨0, first, declaration, place, opening, inner, rfl, rfl, node, isGroup,
                  next⟩
          · exact .inr ⟨previous + 1, earlier, declaration, place, opening, inner, rfl, isEarlier,
              found⟩

end Rule.Run

/--
Error recovery skips no block. At the top level of a script every keyword that begins a
declaration starts exactly one attempt; only one that stands where an attempt at a task
registration expects its dot or its word starts none, and that attempt fails. An attempt
starts at anything else only at the beginning or directly behind a declaration.
-/
theorem Rule.attempts_skip_no_block (trees : List TokenTree) :
    let run := (attempts (Parser.ofTrees trees)).1
    (∀ place, BeginsAt trees place →
      (run.map Attempt.start).count place = 1 ∧
          (∀ attempt ∈ run, ¬Expects trees attempt.start place) ∨
        (run.map Attempt.start).count place = 0 ∧
          ∃ attempt ∈ run, attempt.node = none ∧ Expects trees attempt.start place) ∧
    ∀ position attempt, run[position]? = some attempt → ¬BeginsAt trees attempt.start →
      (position = 0 ∧ IsNext trees 0 attempt.start) ∨
        ∃ previous earlier declaration place opening inner, position = previous + 1 ∧
          run[previous]? = some earlier ∧ earlier.node = some declaration ∧
          trees[place]? = some (.group .brace opening inner declaration.closing) ∧
          IsNext trees (place + 1) attempt.start := by
  intro run
  have made : Run trees 0 run := attempts_run (Parser.ofTrees trees)
  constructor
  · intro place begins
    exact made.keyword_cases (Nat.zero_le place) begins
  · intro position attempt isAt other
    exact made.other_cases isAt other

/-- Behind `tasks` a keyword is taken for the dot; the one behind the braces starts an attempt. -/
example :
    let file := SourceFile.ofText 0 "build" "tasks plugins {} dependencies {}"
    (Rule.attempts (Parser.ofTrees file.trees.trees)).1.map Attempt.start = [0, 6] := by
  decide +kernel

end Grammar

end BuildScript
