import BuildScript.Proofs.CondensedParsing

/-!
# What a failure is blamed for

A rule of the grammar that yields a node reports nothing, and one that fails reports
one error. The error blames a token that the rule has passed or the one that comes
next. What goes wrong inside a group blames a token of the group, which is passed as a
whole, so the same can be said of the rule around it.
-/

namespace BuildScript

def TokenTree.head : TokenTree → Token
  | .token leaf => leaf
  | .group _ opening _ _ => opening.toToken

/-- The token that an error blames; none at the end of the script. -/
def SyntaxError.blamed? : SyntaxError → Option Token
  | .unexpected _ found => found
  | .unknownRepository name _ => some ⟨.identifier, name⟩

namespace TokenTree

theorem head_mem_flatten (tree : TokenTree) : tree.head ∈ tree.flatten := by
  cases tree <;> simp [head, flatten]

theorem flattenAll_append (front back : List TokenTree) :
    flattenAll (front ++ back) = flattenAll front ++ flattenAll back := by
  induction front with
  | nil => rfl
  | cons tree trees ih => simp only [List.cons_append, flattenAll, ih, List.append_assoc]

theorem mem_flattenAll_of_mem {trees : List TokenTree} {tree : TokenTree} {token : Token}
    (member : tree ∈ trees) (inTree : token ∈ tree.flatten) : token ∈ flattenAll trees := by
  induction trees with
  | nil => cases member
  | cons first later ih =>
      rw [flattenAll, List.mem_append]
      rcases List.mem_cons.1 member with rfl | inLater
      · exact .inl inTree
      · exact .inr (ih inLater)

end TokenTree

namespace Grammar

open TokenTree (flatten flattenAll)

/-! ## The token ahead -/

namespace Frame

theorem peek_token?_of_rest_eq_cons {frame : Frame} {tree : TokenTree} {trees : List TokenTree}
    (restEq : frame.rest = tree :: trees) : frame.peek.token? = some tree.head := by
  rw [peek, restEq]
  cases tree <;> rfl

/-- Inside a group something always comes next, if only the group's end. -/
theorem peek_token?_inside {frame : Frame} {closing : Punctuation}
    (inside : frame.closing = some closing) :
    ∃ token, frame.peek.token? = some token ∧
      token ∈ flattenAll frame.trees ++ [closing.toToken] := by
  cases left : frame.rest with
  | nil =>
      refine ⟨closing.toToken, ?_, by simp⟩
      rw [peek, left, inside]
      rfl
  | cons tree trees =>
      have member : tree ∈ frame.trees := List.mem_of_mem_drop (left ▸ List.mem_cons_self)
      exact ⟨tree.head, peek_token?_of_rest_eq_cons left, List.mem_append_left _
        (TokenTree.mem_flattenAll_of_mem member tree.head_mem_flatten)⟩

end Frame

/-! ## Blame -/

/-- Where a blamed token stands: among what was passed, or ahead. -/
inductive Frame.Blames (before after : Frame) : Option Token → Prop where
  | passed {trees : List TokenTree} {token : Token} (way : before.rest = trees ++ after.rest)
      (among : token ∈ flattenAll trees) : Blames before after (some token)
  | ahead {found : Option Token} (comes : after.peek.token? = found) : Blames before after found

/-- A parser that went on has passed a front of what was left. -/
theorem Parser.Continues.rest_eq_append {before after : Parser}
    (continues : before.Continues after) :
    ∃ passed, before.frame.rest = passed ++ after.frame.rest := by
  have order := continues.index
  refine ⟨before.frame.rest.take (after.frame.index - before.frame.index), ?_⟩
  have left : after.frame.rest =
      before.frame.rest.drop (after.frame.index - before.frame.index) := by
    rw [Frame.rest, Frame.rest, continues.trees, List.drop_drop, Nat.add_sub_cancel' order]
  rw [left, List.take_append_drop]

namespace Frame.Blames

variable {before middle after : Frame} {found : Option Token}

/-- What is blamed from some place on is blamed from any earlier place on. -/
theorem since {passed : List TokenTree} (way : before.rest = passed ++ middle.rest)
    (blames : middle.Blames after found) : before.Blames after found := by
  cases blames with
  | passed later among =>
      rw [later, ← List.append_assoc] at way
      refine .passed way ?_
      rw [TokenTree.flattenAll_append]
      exact List.mem_append_right _ among
  | ahead comes => exact .ahead comes

/-- A tree that is passed may be blamed for any of its tokens. -/
theorem tree {tree : TokenTree} {trees : List TokenTree} {token : Token}
    (restEq : before.rest = tree :: trees) (member : token ∈ tree.flatten) :
    before.Blames before.forward (some token) := by
  have way : before.rest = [tree] ++ before.forward.rest := by
    rw [forward_of_rest_eq_cons _ restEq, rest_advance, restEq]
    rfl
  exact .passed way (TokenTree.mem_flattenAll_of_mem List.mem_cons_self member)

/-- A reading that is passed is a token of what is passed, unless nothing was left to pass. -/
theorem forward (frame : Frame) : frame.Blames frame.forward frame.peek.token? := by
  cases left : frame.rest with
  | nil =>
      apply Blames.ahead
      rw [forward_of_rest_eq_nil _ left]
  | cons tree trees =>
      rw [peek_token?_of_rest_eq_cons left]
      exact .tree left tree.head_mem_flatten

/-- What is blamed inside a group is a token of the group. -/
theorem inside {trees : List TokenTree} {closing : Punctuation}
    (sameTrees : after.trees = trees) (sameClosing : after.closing = some closing)
    (blames : (Frame.mk trees 0 (some closing)).Blames after found) :
    ∃ token, found = some token ∧ token ∈ flattenAll trees ++ [closing.toToken] := by
  cases blames with
  | @passed passed token way among =>
      refine ⟨token, rfl, List.mem_append_left _ ?_⟩
      have whole : trees = passed ++ after.rest := way
      rw [whole, TokenTree.flattenAll_append]
      exact List.mem_append_left _ among
  | ahead comes =>
      obtain ⟨token, isNext, member⟩ := peek_token?_inside sameClosing
      rw [sameTrees] at member
      exact ⟨token, comes.symm.trans isNext, member⟩

end Frame.Blames

namespace Parser

/-- How a rule may end: with a node and no report, or with one report that blames a token. -/
inductive Explains {α : Type} (before : Parser) : Option α × Parser → Prop where
  | silent {node : α} {after : Parser} (reports : after.reports = before.reports) :
      Explains before (some node, after)
  | blames {error : SyntaxError} {after : Parser}
      (reports : after.reports = before.reports ++ [error])
      (blames : before.frame.Blames after.frame error.blamed?) : Explains before (none, after)

/-- The end of a rule is seen in the same way from an earlier place. -/
theorem Explains.since {α : Type} {before middle : Parser} {outcome : Option α × Parser}
    (continues : before.Continues middle) (silent : middle.reports = before.reports)
    (explains : middle.Explains outcome) : before.Explains outcome := by
  cases explains with
  | silent reports => exact .silent (reports.trans silent)
  | blames reports blames =>
      obtain ⟨passed, way⟩ := continues.rest_eq_append
      rw [silent] at reports
      exact .blames reports (blames.since way)

/-- What is done with the node changes nothing about the reports. -/
theorem Explains.map {α β : Type} {before : Parser} {outcome : Option α × Parser}
    (explains : before.Explains outcome) (change : α → β) :
    before.Explains (outcome.1.map change, outcome.2) := by
  cases explains with
  | silent reports => exact .silent reports
  | blames reports blames => exact .blames reports blames

end Parser

namespace Rule

variable {α β : Type}

def Explains (rule : Rule α) : Prop :=
  ∀ parser : Parser, parser.Explains (rule parser)

def ExplainsAhead (found : Reading) (rule : Rule α) : Prop :=
  ∀ parser : Parser, parser.frame.peek = found → parser.Explains (rule parser)

/-- A step that only judges a reading: it yields a node or blames what was read. -/
inductive Verdict (found : Reading) : Rule α → Prop where
  | accept (node : α) : Verdict found (pure node)
  | refuse {error : SyntaxError} (about : error.blamed? = found.token?) :
      Verdict found (reject error)

theorem Explains.ahead {rule : Rule α} (explains : Explains rule) (found : Reading) :
    ExplainsAhead found rule :=
  fun parser _ => explains parser

theorem Explains.pure (node : α) : Explains (pure node : Rule α) :=
  fun _ => .silent rfl

theorem Explains.forward : Explains forward :=
  fun _ => .silent rfl

theorem Explains.isExhausted : Explains isExhausted :=
  fun _ => .silent rfl

theorem Explains.bind {first : Rule α} {next : α → Rule β} (advances : Advances first)
    (explains : Explains first) (later : ∀ value, Explains (next value)) :
    Explains (first >>= next) := by
  intro parser
  have moved := advances parser
  have ended := explains parser
  match step : first parser with
  | (some value, after) =>
      rw [step] at moved ended
      rw [bind_of_some step]
      cases ended with
      | silent reports => exact (later value after).since moved reports
  | (none, after) =>
      rw [step] at ended
      rw [bind_of_none step]
      cases ended with
      | blames reports blames => exact .blames reports blames

theorem ExplainsAhead.ofVerdict {found : Reading} {rule : Rule α} (verdict : Verdict found rule) :
    ExplainsAhead found rule := by
  intro parser peeked
  cases verdict with
  | accept node => exact .silent rfl
  | refuse about =>
      refine .blames rfl (.ahead ?_)
      rw [about, ← peeked]

/-- A reading that is passed before it is judged. -/
theorem ExplainsAhead.forward {found : Reading} {rule : Rule α} (verdict : Verdict found rule) :
    ExplainsAhead found (do Rule.forward; rule) := by
  intro parser peeked
  cases verdict with
  | accept node => exact .silent rfl
  | refuse about =>
      refine .blames rfl ?_
      rw [about, ← peeked]
      exact .forward parser.frame

/-- A rule that decides by the next reading explains its failures if it does for every reading. -/
theorem Explains.ofPeek {next : Reading → Rule α}
    (later : ∀ found, ExplainsAhead found (next found)) :
    Explains (peekSignificant >>= next) := by
  intro parser
  rw [bind_of_some (peekSignificant_apply parser)]
  exact (later _ { parser with frame := parser.frame.toSignificant } rfl).since
    (Advances.toSignificant parser) rfl

theorem Explains.ofNext {next : Reading → Rule α} (verdict : ∀ found, Verdict found (next found)) :
    Explains (nextSignificant >>= next) := by
  have peeked : Explains (peekSignificant >>= fun found => do Rule.forward; next found) :=
    .ofPeek fun found => .forward (verdict found)
  exact peeked

/-- The same for a rule that may also decide by the very next token, a blank one included. -/
theorem Explains.ofEither (skip : Bool) {next : Reading → Rule α}
    (verdict : ∀ found, Verdict found (next found)) :
    Explains ((if skip then nextSignificant else Rule.next) >>= next) := by
  cases skip with
  | true => exact .ofNext verdict
  | false => exact fun parser => ExplainsAhead.forward (verdict _) parser rfl

/-! ## Single tokens -/

theorem Explains.identifier : Explains identifier := by
  refine .ofNext fun found => ?_
  split
  · exact .accept _
  · exact .refuse rfl

theorem Explains.name : Explains name := by
  refine .ofNext fun found => ?_
  split
  · exact .accept _
  · exact .accept _
  · exact .refuse rfl

theorem Explains.contextualKeyword (word : String) : Explains (contextualKeyword word) := by
  refine .ofNext fun found => ?_
  split
  · split
    · exact .accept _
    · exact .refuse rfl
  · exact .refuse rfl

theorem Explains.keyword (expected : Keyword) : Explains (keyword expected) := by
  refine .ofNext fun found => ?_
  split
  · split
    · exact .accept _
    · exact .refuse rfl
  · exact .refuse rfl

theorem Explains.punctuation (expected : Char) (skip : Bool) :
    Explains (punctuation expected skip) := by
  refine .ofEither skip fun found => ?_
  split
  · split
    · exact .accept _
    · exact .refuse rfl
  · exact .refuse rfl

theorem Explains.stringLiteral : Explains stringLiteral := by
  refine .ofNext fun found => ?_
  split
  · exact .accept _
  · exact .refuse rfl

theorem Explains.punctuation? (expected : Char) : Explains (punctuation? expected) := by
  refine .ofPeek fun found => ?_
  split
  · split
    · exact .forward (.accept _)
    · exact .ofVerdict (.accept _)
  · exact .ofVerdict (.accept _)

theorem Explains.stringLiteral? : Explains stringLiteral? := by
  refine .ofPeek fun found => ?_
  split
  · exact .forward (.accept _)
  · exact .ofVerdict (.accept _)

/-! ## Groups and loops -/

/-- A node at the end of a group is kept, or what follows it in the group is blamed. -/
theorem Explains.closeGroup (delimiter : Delimiter) (node : α) :
    Explains (closeGroup delimiter (some node)) := by
  intro parser
  cases exhausted : parser.frame.isExhausted
  · rw [closeGroup_of_left node exhausted]
    exact Explains.ofPeek (fun found => .ofVerdict (.refuse rfl)) parser
  · rw [closeGroup_of_exhausted node exhausted]
    exact .silent rfl

/-- The inside of a group is read to its end, or a failure there is explained. -/
theorem closeGroup_explains {inside : Rule α} (delimiter : Delimiter) (advances : Advances inside)
    (explains : Explains inside) (parser : Parser) :
    parser.Explains (Rule.closeGroup delimiter (inside parser).1 (inside parser).2) := by
  have moved := advances parser
  have ended := explains parser
  match step : inside parser with
  | (some node, within) =>
      rw [step] at moved ended
      cases ended with
      | silent reports => exact (Explains.closeGroup delimiter node within).since moved reports
  | (none, within) =>
      rw [step] at ended
      exact ended

/--
Reading a group yields the node inside it without a report, or it is explained why there
is none; the parser may have passed the group then.
-/
theorem enclosed_explains {inside : Rule α} (delimiter : Delimiter) (advances : Advances inside)
    (explains : Explains inside) (parser : Parser) :
    (∃ opening node closing after,
      enclosed delimiter inside parser = (some ⟨opening, some node, closing⟩, after) ∧
        after.reports = parser.reports) ∨
    ∃ group error after, enclosed delimiter inside parser = (group, after) ∧
      (∀ found ∈ group, Enclosed.inside found = none) ∧
        after.reports = parser.reports ++ [error] ∧
          parser.frame.Blames after.frame error.blamed? := by
  cases ahead : groupAhead? delimiter parser.frame with
  | none =>
      obtain ⟨blanks, way⟩ := (Advances.toSignificant parser).rest_eq_append
      rw [enclosed_of_absent ahead]
      exact .inr ⟨none, _, _, rfl, by simp, rfl, .since way (.ahead rfl)⟩
  | some group =>
      obtain ⟨opening, trees, closing⟩ := group
      obtain ⟨behind, restEq⟩ := groupAhead?_eq_some_iff.1 ahead
      have ended := closeGroup_explains delimiter advances explains (enter trees closing parser)
      have continues := (advances (enter trees closing parser)).trans
        (Advances.closeGroup delimiter (inside (enter trees closing parser)).1
          (inside (enter trees closing parser)).2)
      rw [enclosed_of_group ahead]
      generalize Rule.closeGroup delimiter (inside (enter trees closing parser)).1
        (inside (enter trees closing parser)).2 = outcome at ended continues
      cases ended with
      | @silent node within reports =>
          refine .inl ⟨opening, node, closing, leave within, rfl, ?_⟩
          rw [leave_of_continues continues]
          exact reports
      | @blames error within reports blames =>
          refine .inr ⟨_, error, leave within, rfl, by simp, ?_, ?_⟩
          · rw [leave_of_continues continues]
            exact reports
          · obtain ⟨token, isFound, member⟩ := blames.inside continues.trees continues.closing
            obtain ⟨blanks, way⟩ := (Advances.toSignificant parser).rest_eq_append
            rw [leave_of_continues continues, isFound]
            exact .since way (.tree restEq (List.mem_cons_of_mem _ member))

/-- A rule that needs the node inside a group, and goes on with it. -/
theorem Explains.enclosed {inside : Rule β} {next : Enclosed β → β → Rule α}
    (delimiter : Delimiter) (advances : Advances inside) (explains : Explains inside)
    (later : ∀ group node, Explains (next group node)) :
    Explains (do
      let group ← Rule.enclosed delimiter inside
      let node ← require group.inside
      next group node) := by
  intro parser
  have moved := Advances.enclosed delimiter advances parser
  rcases enclosed_explains delimiter advances explains parser with
    ⟨opening, node, closing, after, step, silent⟩ |
    ⟨group, error, after, step, without, reports, blames⟩
  · rw [step] at moved
    rw [bind_of_some step]
    exact (later ⟨opening, some node, closing⟩ node after).since moved silent
  · cases group with
    | none =>
        rw [bind_of_none step]
        exact .blames reports blames
    | some found =>
        have failed : require found.inside after = (none, after) := by
          rw [without found rfl]
          rfl
        rw [bind_of_some step, bind_of_none failed]
        exact .blames reports blames

theorem Explains.untilExhausted {entry : Rule α} (advances : Advances entry)
    (consumes : Consumes entry) (explains : Explains entry) :
    Explains (untilExhausted entry) := by
  intro parser
  induction size : parser.frame.remaining using Nat.strongRecOn generalizing parser with
  | ind size ih =>
      match exhausted : parser.frame.isExhausted with
      | true =>
          rw [untilExhausted_of_exhausted exhausted]
          exact .silent rfl
      | false =>
          have moved := advances parser
          have ended := explains parser
          match step : entry parser with
          | (none, after) =>
              rw [untilExhausted_of_none exhausted step]
              rw [step] at ended
              cases ended with
              | blames reports blames => exact .blames reports blames
          | (some node, after) =>
              have fewer := consumes parser node after step
              rw [untilExhausted_of_some consumes exhausted step]
              rw [step] at moved ended
              cases ended with
              | silent reports =>
                  have rest := ih _ (by rw [← size]; exact fewer) after rfl
                  exact (rest.since moved reports).map _

theorem Explains.block {entry : Rule α} (advances : Advances entry) (consumes : Consumes entry)
    (explains : Explains entry) : Explains (block entry) :=
  .enclosed .brace (.untilExhausted advances consumes) (.untilExhausted advances consumes explains)
    fun _ _ => .pure _

/-! ## Nodes -/

theorem Explains.pathRest : Explains pathRest := by
  intro parser
  induction size : parser.frame.remaining using Nat.strongRecOn generalizing parser with
  | ind size ih =>
      have dotted := Advances.punctuation? '.' parser
      rcases punctuation?_cases '.' parser with ⟨span, peeked, step⟩ | ⟨absent, step⟩
      · rw [step] at dotted
        have named := Advances.name { parser with frame := parser.frame.toSignificant.forward }
        have ended := Explains.name { parser with frame := parser.frame.toSignificant.forward }
        match segmentStep :
            Rule.name { parser with frame := parser.frame.toSignificant.forward } with
        | (none, last) =>
            rw [pathRest_of_none step segmentStep]
            rw [segmentStep] at ended
            cases ended with
            | blames reports blames =>
                exact Parser.Explains.since dotted rfl (.blames reports blames)
        | (some segment, last) =>
            have fewer := Consumes.name _ segment last segmentStep
            have smaller := Nat.lt_of_lt_of_le fewer dotted.remaining_le
            rw [pathRest_of_some step segmentStep]
            rw [segmentStep] at named ended
            cases ended with
            | silent reports =>
                have rest := ih _ (by rw [← size]; exact smaller) last rfl
                exact (rest.since (dotted.trans named) reports).map _
      · rw [pathRest_of_absent step]
        exact .silent rfl

theorem Explains.identifierPath : Explains identifierPath :=
  .bind .name .name fun _ => .bind .pathRest .pathRest fun _ => .pure _

theorem Explains.expression : Explains expression := by
  refine .ofPeek fun found => ?_
  split
  · exact .forward (.accept _)
  · exact Explains.ahead (.bind .identifierPath .identifierPath fun _ => .pure _) _
  · exact Explains.ahead (.bind .identifierPath .identifierPath fun _ => .pure _) _
  · exact .forward (.refuse rfl)

theorem Explains.assignment : Explains assignment :=
  .bind .name .name fun _ => .bind (.punctuation? _) (.punctuation? _) fun _ =>
    .bind .expression .expression fun _ => .pure _

theorem Explains.taskStatement : Explains taskStatement := by
  refine .ofPeek fun found => ?_
  split
  · exact Explains.assignment.ahead _
  · exact Explains.assignment.ahead _
  · exact .forward (.refuse rfl)

theorem Explains.pluginVersion : Explains pluginVersion := by
  refine .ofPeek fun found => ?_
  split
  · split
    · exact Explains.ahead (.bind .forward .forward fun _ =>
        .bind .stringLiteral .stringLiteral fun _ => .pure _) _
    · exact .ofVerdict (.accept _)
  · exact .ofVerdict (.accept _)

theorem Explains.pluginEntry : Explains pluginEntry := by
  refine .ofPeek fun found => ?_
  split
  · split
    · exact Explains.ahead (.bind .forward .forward fun _ =>
        .bind .stringLiteral .stringLiteral fun _ =>
          .bind .pluginVersion .pluginVersion fun _ => .pure _) _
    · exact .ofVerdict (.refuse rfl)
  · exact .ofVerdict (.refuse rfl)

theorem Explains.urlStatement : Explains urlStatement :=
  .bind (.contextualKeyword _) (.contextualKeyword _) fun _ =>
    .bind (.punctuation? _) (.punctuation? _) fun _ =>
      .bind .stringLiteral? .stringLiteral? fun _ => .pure _

theorem Explains.customUrl : Explains customUrl := by
  refine .bind .isExhausted .isExhausted fun exhausted => ?_
  split
  · exact .pure _
  · exact .bind .urlStatement .urlStatement fun _ => .pure _

theorem Explains.wellKnown (token : KeywordToken) : Explains (wellKnown token) :=
  .bind .forward .forward fun _ => .enclosed _ (.pure _) (.pure _) fun _ _ => .pure _

theorem Explains.customRepository (token : KeywordToken) : Explains (customRepository token) :=
  .bind .forward .forward fun _ => .enclosed _ .customUrl .customUrl fun _ _ => .pure _

theorem Explains.repositoryEntry : Explains repositoryEntry := by
  refine .ofPeek fun found => ?_
  split
  · exact Explains.ahead (.bind (.wellKnown _) (.wellKnown _) fun _ => .pure _) _
  · exact Explains.ahead (.bind (.wellKnown _) (.wellKnown _) fun _ => .pure _) _
  · exact Explains.ahead (.bind (.customRepository _) (.customRepository _) fun _ => .pure _) _
  · exact .forward (.refuse rfl)
  · exact .forward (.refuse rfl)

theorem Explains.coordinate (configuration : Identifier) :
    Explains (coordinate configuration) := by
  have bare : Explains (do
      let literal ← Rule.stringLiteral
      Pure.pure (⟨configuration, none, literal⟩ : DependencyEntry)) :=
    .bind .stringLiteral .stringLiteral fun _ => .pure _
  refine .ofPeek fun found => ?_
  split
  · split
    · exact Explains.ahead (.enclosed _ .stringLiteral .stringLiteral fun _ _ => .pure _) _
    · exact bare.ahead _
  · exact bare.ahead _

theorem Explains.dependencyEntry : Explains dependencyEntry := by
  refine .ofPeek fun found => ?_
  split
  · exact Explains.ahead (.bind .forward .forward fun _ => .coordinate _) _
  · exact .forward (.refuse rfl)

theorem Explains.taskType : Explains taskType := by
  refine .bind (.punctuation? _) (.punctuation? _) fun found => ?_
  split
  · exact .bind .identifier .identifier fun _ => .pure _
  · exact .pure _

theorem Explains.taskArguments : Explains taskArguments :=
  .bind .stringLiteral .stringLiteral fun _ => .bind .taskType .taskType fun _ => .pure _

/-! ## Declarations -/

theorem startsDeclaration_iff {found : Reading} :
    startsDeclaration found = true ↔
      ∃ word span, found = .atomic ⟨.keyword word, span⟩ ∧ word.startsDeclaration = true := by
  constructor
  · intro starts
    unfold startsDeclaration at starts
    split at starts
    · exact ⟨_, _, rfl, starts⟩
    · cases starts
  · rintro ⟨word, span, rfl, starts⟩
    exact starts

def registration (token : KeywordToken) : Rule TaskRegistration := do
  let dot ← punctuation '.' true
  let registerWord ← contextualKeyword "register"
  let group ← enclosed .parenthesis taskArguments
  let (taskName, type) ← require group.inside
  let body ← block taskStatement
  pure ⟨token, dot, registerWord, group.opening, taskName, type, group.closing, body⟩

theorem Advances.registration (token : KeywordToken) : Advances (registration token) :=
  .bind (.punctuation _ _) fun _ => .bind (.contextualKeyword _) fun _ =>
    .bind (.enclosed _ .taskArguments) fun _ => .bind (.require _) fun _ =>
      .bind (.block .taskStatement .taskStatement) fun _ => .pure _

theorem Explains.registration (token : KeywordToken) : Explains (registration token) :=
  .bind (.punctuation _ _) (.punctuation _ _) fun _ =>
    .bind (.contextualKeyword _) (.contextualKeyword _) fun _ =>
      .enclosed _ .taskArguments .taskArguments fun _ _ =>
        .bind (.block .taskStatement .taskStatement)
          (.block .taskStatement .taskStatement .taskStatement) fun _ => .pure _

theorem Explains.taskRegistration : Explains taskRegistration :=
  .bind (.keyword _) (.keyword _) .registration

end Rule

/--
The parser where the content of a declaration begins: behind blanks and comments, and
behind the keyword if one comes next that begins a declaration.
-/
def Parser.begun (parser : Parser) : Parser :=
  if Rule.startsDeclaration parser.frame.toSignificant.peek then
    { parser with frame := parser.frame.toSignificant.forward }
  else { parser with frame := parser.frame.toSignificant }

theorem Parser.continues_begun (parser : Parser) : parser.Continues parser.begun := by
  rw [begun]
  split
  · exact Rule.Advances.nextSignificant parser
  · exact Rule.Advances.toSignificant parser

theorem Parser.begun_reports (parser : Parser) : parser.begun.reports = parser.reports := by
  rw [begun]
  split <;> rfl

namespace Rule

theorem keyword_of_peek (parser : Parser) {word : Keyword} {span : Span}
    (peeked : parser.frame.toSignificant.peek = .atomic ⟨.keyword word, span⟩) :
    keyword word parser =
      (some ⟨word, span⟩, { parser with frame := parser.frame.toSignificant.forward }) := by
  rw [keyword, bind_of_some (nextSignificant_apply parser), peeked]
  simp only [if_true]
  rfl

/-- The rule for registrations looks for the keyword once more, and finds it. -/
theorem declaration_of_tasks (parser : Parser) {span : Span}
    (peeked : parser.frame.toSignificant.peek = .atomic ⟨.keyword .tasks, span⟩) :
    declaration parser =
      (do let node ← registration ⟨.tasks, span⟩; pure (.task node) : Rule Declaration)
        { parser with frame := parser.frame.toSignificant.forward } := by
  have settled := Frame.toSignificant_of_settled parser.frame.settled_toSignificant
  have step := keyword_of_peek { parser with frame := parser.frame.toSignificant }
    (by rw [settled, peeked])
  rw [settled] at step
  have registered : taskRegistration { parser with frame := parser.frame.toSignificant } =
      registration ⟨.tasks, span⟩ { parser with frame := parser.frame.toSignificant.forward } :=
    bind_of_some step
  rw [declaration, bind_of_some (peekSignificant_apply parser), peeked]
  change andThen taskRegistration _ _ = _
  rw [andThen, registered]
  rfl

/--
An attempt at a declaration is a step that starts where the content begins: the keyword
in front of it is taken for granted.
-/
theorem declaration_begins (parser : Parser) :
    ∃ rule : Rule Declaration, declaration parser = rule parser.begun ∧ Advances rule ∧
      parser.begun.Explains (rule parser.begun) := by
  rw [declaration, bind_of_some (peekSignificant_apply parser), Parser.begun]
  split
  · rename_i starts
    obtain ⟨word, span, peeked, begins⟩ := startsDeclaration_iff.1 starts
    rw [peeked]
    cases word with
    | plugins =>
        exact ⟨_, rfl, .bind (.block .pluginEntry .pluginEntry) fun _ => .pure _,
          Explains.bind (.block .pluginEntry .pluginEntry)
            (.block .pluginEntry .pluginEntry .pluginEntry) (fun _ => .pure _) _⟩
    | repositories =>
        exact ⟨_, rfl, .bind (.block .repositoryEntry .repositoryEntry) fun _ => .pure _,
          Explains.bind (.block .repositoryEntry .repositoryEntry)
            (.block .repositoryEntry .repositoryEntry .repositoryEntry) (fun _ => .pure _) _⟩
    | dependencies =>
        exact ⟨_, rfl, .bind (.block .dependencyEntry .dependencyEntry) fun _ => .pure _,
          Explains.bind (.block .dependencyEntry .dependencyEntry)
            (.block .dependencyEntry .dependencyEntry .dependencyEntry) (fun _ => .pure _) _⟩
    | tasks =>
        have registered := declaration_of_tasks parser peeked
        rw [declaration, bind_of_some (peekSignificant_apply parser), peeked] at registered
        exact ⟨_, registered, .bind (.registration _) fun _ => .pure _,
          Explains.bind (.registration _) (.registration _) (fun _ => .pure _) _⟩
    | mavenCentral | jcenter | maven => cases begins
  · rename_i stays
    generalize peeked : parser.frame.toSignificant.peek = found at stays
    split
    · exact absurd rfl stays
    · exact absurd rfl stays
    · exact absurd rfl stays
    · exact absurd rfl stays
    · exact ⟨_, rfl, .bind .forward fun _ => .unexpected _ _,
        ExplainsAhead.forward (.refuse rfl) _ peeked⟩

/-- A declaration that fails does not blame the keyword that begins it. -/
theorem declaration_explains (parser : Parser) :
    parser.begun.Explains (declaration parser) := by
  obtain ⟨rule, same, _, explains⟩ := declaration_begins parser
  rw [same]
  exact explains

theorem declaration_continues (parser : Parser) :
    parser.begun.Continues (declaration parser).2 := by
  obtain ⟨rule, same, advances, _⟩ := declaration_begins parser
  rw [same]
  exact advances parser.begun

theorem Explains.declaration : Explains declaration :=
  fun parser => (declaration_explains parser).since parser.continues_begun parser.begun_reports

end Rule

end Grammar

end BuildScript
