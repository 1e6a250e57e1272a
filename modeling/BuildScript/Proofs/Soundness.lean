import BuildScript.Proofs.CondensedParsing
import BuildScript.Proofs.Derivation

/-!
# Nodes come from the trees that are passed

Whatever node a rule of the grammar yields, the trees that the parser passes for it,
blanks and comments apart, spell that node. A rule is followed piece by piece: the
parts of the node that were read before, then those that the rest of the rule reads.
-/

namespace BuildScript.Grammar

open Shape (SpellsAll)
open TokenTree (condenseAll)

/-- What stands between two places of a parser, without blanks and comments. -/
def Parser.Passed (before after : Parser) (trees : List TokenTree) : Prop :=
  ∃ passed, before.frame.rest = passed ++ after.frame.rest ∧ condenseAll id passed = trees

namespace Parser.Passed

variable {first second third : Parser} {front back : List TokenTree}

theorem refl (parser : Parser) : parser.Passed parser [] :=
  ⟨[], rfl, rfl⟩

theorem trans (earlier : first.Passed second front) (later : second.Passed third back) :
    first.Passed third (front ++ back) := by
  obtain ⟨before, firstRest, rfl⟩ := earlier
  obtain ⟨after, secondRest, rfl⟩ := later
  refine ⟨before ++ after, ?_, TokenTree.condenseAll_append id before after⟩
  rw [firstRest, secondRest, List.append_assoc]

/-- On the way to the next tree that counts nothing is passed. -/
theorem toSignificant (parser : Parser) :
    parser.Passed { parser with frame := parser.frame.toSignificant } [] := by
  refine ⟨parser.frame.rest.takeWhile fun tree => !tree.isSignificant, ?_, ?_⟩
  · change _ = _ ++ parser.frame.toSignificant.rest
    rw [Frame.rest_toSignificant, List.takeWhile_append_dropWhile]
  · refine TokenTree.condenseAll_eq_nil id fun tree member => ?_
    have blank := List.mem_takeWhile_imp member
    rwa [Bool.not_eq_true'] at blank

/-- Passing the next tree passes just that, if it counts. -/
theorem forward (parser : Parser) {tree : TokenTree} {trees : List TokenTree}
    (restEq : parser.frame.rest = tree :: trees) (counts : tree.isSignificant = true) :
    parser.Passed { parser with frame := parser.frame.forward } [tree.condense id] := by
  refine ⟨[tree], ?_, ?_⟩
  · change _ = _ ++ parser.frame.forward.rest
    rw [Frame.forward_of_rest_eq_cons _ restEq, Frame.rest_advance, restEq]
    rfl
  · rw [condenseAll, if_pos counts]
    rfl

end Parser.Passed

namespace Rule

variable {α β : Type} {front : List Shape} {shapes : α → List Shape}

/-! ## Spelling -/

/-- Behind the front of a node the rule passes trees that spell the rest of the node. -/
def Spelling (front : List Shape) (shapes : α → List Shape) (rule : Rule α) : Prop :=
  ∀ parser node after, rule parser = (some node, after) →
    ∃ back trees, shapes node = front ++ back ∧ parser.Passed after trees ∧ SpellsAll back trees

/-- The rule passes trees that spell the node it yields. -/
def Sound (shapes : α → List Shape) (rule : Rule α) : Prop :=
  Spelling [] shapes rule

def SpellingAhead (found : Reading) (front : List Shape) (shapes : α → List Shape)
    (rule : Rule α) : Prop :=
  ∀ parser node after, parser.frame.Settled → parser.frame.peek = found →
    rule parser = (some node, after) →
      ∃ back trees, shapes node = front ++ back ∧ parser.Passed after trees ∧ SpellsAll back trees

def Fails (rule : Rule α) : Prop :=
  ∀ parser, (rule parser).1 = none

theorem Fails.unexpected (expected : Expectation) (found : Reading) :
    Fails (unexpected expected found : Rule α) :=
  fun _ => rfl

theorem Fails.forward {rule : Rule α} (fails : Fails rule) :
    Fails (do Rule.forward; rule) :=
  fun _ => fails _

theorem Fails.spelling {rule : Rule α} (fails : Fails rule) : Spelling front shapes rule := by
  intro parser node after yielded
  have impossible := fails parser
  rw [yielded] at impossible
  cases impossible

theorem Spelling.ahead {rule : Rule α} (spelling : Spelling front shapes rule) (found : Reading) :
    SpellingAhead found front shapes rule :=
  fun parser node after _ _ yielded => spelling parser node after yielded

theorem Spelling.pure (node : α) (whole : shapes node = front) :
    Spelling front shapes (pure node) := by
  intro parser _ _ yielded
  cases yielded
  exact ⟨[], [], by rw [whole, List.append_nil], .refl parser, rfl⟩

/-- Parts that were passed before a rule spells on. -/
theorem spelling_trans {parser middle after : Parser} {part back : List Shape}
    {trees later : List TokenTree} {node : α} (passed : parser.Passed middle trees)
    (spells : SpellsAll part trees) (whole : shapes node = (front ++ part) ++ back)
    (more : middle.Passed after later) (spellsMore : SpellsAll back later) :
    ∃ back trees, shapes node = front ++ back ∧ parser.Passed after trees ∧
      SpellsAll back trees :=
  ⟨part ++ back, trees ++ later, by rw [whole, List.append_assoc], passed.trans more,
    Shape.spellsAll_append_iff.2 ⟨trees, later, rfl, spells, spellsMore⟩⟩

theorem Spelling.bind {part : β → List Shape} {first : Rule β} {next : β → Rule α}
    (sound : Sound part first)
    (later : ∀ value, Spelling (front ++ part value) shapes (next value)) :
    Spelling front shapes (first >>= next) := by
  intro parser node after yielded
  obtain ⟨value, middle, step, rest⟩ := bind_eq_some_iff.1 yielded
  obtain ⟨_, trees, rfl, passed, spells⟩ := sound parser value middle step
  obtain ⟨back, more, whole, morePassed, spellsMore⟩ := later value middle node after rest
  exact spelling_trans passed spells whole morePassed spellsMore

theorem SpellingAhead.bind {part : β → List Shape} {found : Reading} {first : Rule β}
    {next : β → Rule α} (sound : SpellingAhead found [] part first)
    (later : ∀ value, Spelling (front ++ part value) shapes (next value)) :
    SpellingAhead found front shapes (first >>= next) := by
  intro parser node after settled peeked yielded
  obtain ⟨value, middle, step, rest⟩ := bind_eq_some_iff.1 yielded
  obtain ⟨_, trees, rfl, passed, spells⟩ := sound parser value middle settled peeked step
  obtain ⟨back, more, whole, morePassed, spellsMore⟩ := later value middle node after rest
  exact spelling_trans passed spells whole morePassed spellsMore

/-- A rule that decides by the next reading spells if it does for every reading. -/
theorem Spelling.ofPeek {next : Reading → Rule α}
    (later : ∀ found, SpellingAhead found front shapes (next found)) :
    Spelling front shapes (peekSignificant >>= next) := by
  intro parser node after yielded
  rw [bind_of_some (peekSignificant_apply parser)] at yielded
  obtain ⟨back, trees, whole, passed, spells⟩ := later _
    { parser with frame := parser.frame.toSignificant } node after
    parser.frame.settled_toSignificant rfl yielded
  exact ⟨back, [] ++ trees, whole, (Parser.Passed.toSignificant parser).trans passed, spells⟩

/-- Passing a token reads the leaf that keeps it. -/
theorem SpellingAhead.forward {leaf stored : Token} {rule : Rule α} (slot : Slot)
    (reads : Leaf.Reads ⟨slot.symbol, stored⟩ leaf)
    (later : Spelling (front ++ [.leaf slot stored]) shapes rule) :
    SpellingAhead (.atomic leaf) front shapes (do Rule.forward; rule) := by
  intro parser node after settled peeked yielded
  obtain ⟨trees, restEq⟩ := Frame.rest_of_peek_atomic peeked
  have passed := Parser.Passed.forward _ restEq (settled _ _ restEq)
  obtain ⟨back, more, whole, morePassed, spellsMore⟩ := later _ node after yielded
  have spells : SpellsAll [.leaf slot stored] [(TokenTree.token leaf).condense id] :=
    ⟨.token leaf, [], rfl, ⟨leaf, rfl, reads⟩, rfl⟩
  exact spelling_trans passed spells whole morePassed spellsMore

/-- A rule that reads the next token and keeps it. -/
theorem Sound.ofNext {next : Reading → Rule α} {slot : Slot} (toToken : α → Token)
    (keeps : ∀ found parser node after, next found parser = (some node, after) →
      after = parser ∧ ∃ leaf, found = .atomic leaf ∧
        Leaf.Reads ⟨slot.symbol, toToken node⟩ leaf) :
    Sound (fun node => [.leaf slot (toToken node)]) (nextSignificant >>= next) := by
  have peeked : Sound (fun node => [.leaf slot (toToken node)])
      (peekSignificant >>= fun found => do Rule.forward; next found) := by
    refine .ofPeek fun found parser node after settled peeked yielded => ?_
    obtain ⟨rfl, leaf, rfl, reads⟩ := keeps found _ node after yielded
    obtain ⟨trees, restEq⟩ := Frame.rest_of_peek_atomic peeked
    exact ⟨_, _, rfl, Parser.Passed.forward _ restEq (settled _ _ restEq),
      .token leaf, [], rfl, ⟨leaf, rfl, reads⟩, rfl⟩
  exact peeked

/-! ## Single tokens -/

theorem Sound.identifier : Sound (Identifier.shapes .identifier) identifier := by
  refine .ofNext Identifier.toToken fun found parser node after yielded => ?_
  split at yielded
  · cases yielded
    exact ⟨rfl, _, rfl, .same (.token (.identifier _))⟩
  · cases yielded

theorem Sound.name : Sound (Identifier.shapes .name) name := by
  refine .ofNext Identifier.toToken fun found parser node after yielded => ?_
  split at yielded
  · cases yielded
    exact ⟨rfl, _, rfl, .same (.rule (.left (.token (.identifier _))))⟩
  · cases yielded
    exact ⟨rfl, _, rfl, .keywordName _ _⟩
  · cases yielded

theorem Sound.contextualKeyword (word : String) :
    Sound (Identifier.shapes (.word word)) (contextualKeyword word) := by
  refine .ofNext Identifier.toToken fun found parser node after yielded => ?_
  split at yielded
  · split at yielded
    · rename_i spelled
      cases yielded
      exact ⟨rfl, _, rfl, .same (.token (.word spelled))⟩
    · cases yielded
  · cases yielded

theorem Sound.keyword (expected : Keyword) :
    Sound (KeywordToken.shapes expected) (keyword expected) := by
  refine .ofNext KeywordToken.toToken fun found parser node after yielded => ?_
  split at yielded
  · split at yielded
    · rename_i same
      cases yielded
      subst same
      exact ⟨rfl, _, rfl, .same (.token (.keyword _ _))⟩
    · cases yielded
  · cases yielded

theorem Sound.stringLiteral : Sound StringLiteral.shapes stringLiteral := by
  refine .ofNext StringLiteral.toToken fun found parser node after yielded => ?_
  split at yielded
  · cases yielded
    exact ⟨rfl, _, rfl, .same (.token (.stringLiteral _))⟩
  · cases yielded

theorem Sound.punctuation (between : Separator) :
    Sound (Punctuation.shapes between) (punctuation between.mark true) := by
  refine .ofNext Punctuation.toToken fun found parser node after yielded => ?_
  split at yielded
  · split at yielded
    · rename_i same
      cases yielded
      subst same
      exact ⟨rfl, _, rfl, .same (.token (.mark _ _))⟩
    · cases yielded
  · cases yielded

theorem Sound.punctuation? (between : Separator) :
    Sound (Shape.ofOption (Punctuation.shapes between)) (punctuation? between.mark) := by
  refine .ofPeek fun found => ?_
  split
  · rename_i mark span
    by_cases same : mark = between.mark
    · subst same
      rw [if_pos rfl]
      exact .forward (.separator between) (.same (.token (.mark _ _))) (.pure _ rfl)
    · rw [if_neg same]
      exact Spelling.ahead (.pure _ rfl) _
  · exact Spelling.ahead (.pure _ rfl) _

theorem Sound.stringLiteral? : Sound (Shape.ofOption StringLiteral.shapes) stringLiteral? := by
  refine .ofPeek fun found => ?_
  split
  · exact .forward .stringLiteral (.same (.token (.stringLiteral _))) (.pure _ rfl)
  · exact Spelling.ahead (.pure _ rfl) _

/-! ## Groups and loops -/

/-- A node that is kept when its group closes was read to the end of the group. -/
theorem closeGroup_eq_some {delimiter : Delimiter} {inside : Option α} {parser after : Parser}
    {node : α} (kept : closeGroup delimiter inside parser = (some node, after)) :
    inside = some node ∧ parser.frame.isExhausted = true := by
  cases inside with
  | none => cases kept
  | some found =>
      cases exhausted : parser.frame.isExhausted
      · rw [closeGroup_of_left found exhausted] at kept
        cases kept
      · rw [closeGroup_of_exhausted found exhausted] at kept
        cases kept
        exact ⟨rfl, rfl⟩

/-- What is left of an exhausted frame is nothing that counts. -/
theorem condenseAll_of_exhausted {frame : Frame} (exhausted : frame.isExhausted = true) :
    condenseAll id frame.rest = [] :=
  TokenTree.condenseAll_eq_nil id (frame.isExhausted_iff.1 exhausted)

/-- A group whose inside was read passes one tree, which the inside's node spells. -/
theorem enclosed_eq_some {part : β → List Shape} {delimiter : Delimiter} {inside : Rule β}
    (sound : Sound part inside) (advances : Advances inside) {parser after : Parser}
    {opening closing : Punctuation} {node : β}
    (yielded : enclosed delimiter inside parser = (some ⟨opening, some node, closing⟩, after)) :
    ∃ trees, parser.Passed after [.group delimiter opening trees closing] ∧
      SpellsAll (part node) trees := by
  cases ahead : groupAhead? delimiter parser.frame with
  | none =>
      rw [enclosed_of_absent ahead] at yielded
      cases yielded
  | some group =>
      obtain ⟨opens, trees, closes⟩ := group
      obtain ⟨behind, restEq⟩ := groupAhead?_eq_some_iff.1 ahead
      rw [enclosed_of_group ahead] at yielded
      obtain ⟨nodeEq, afterEq⟩ := Prod.mk.inj yielded
      obtain ⟨rfl, keptEq, rfl⟩ := Enclosed.mk.inj (Option.some.inj nodeEq)
      have entered := advances (enter trees closes parser)
      match step : inside (enter trees closes parser) with
      | (found, within) =>
          rw [step] at keptEq afterEq entered
          have closed := entered.trans (Advances.closeGroup delimiter found within)
          have left := leave_of_continues closed
          obtain ⟨rfl, exhausted⟩ := closeGroup_eq_some (Prod.ext keptEq rfl)
          obtain ⟨_, inner, rfl, ⟨passed, insideEq, condensedEq⟩, spells⟩ :=
            sound _ node within step
          refine ⟨inner, ?_, spells⟩
          have whole : condenseAll id trees = inner := by
            change trees = passed ++ within.frame.rest at insideEq
            rw [insideEq, TokenTree.condenseAll_append, condensedEq,
              condenseAll_of_exhausted exhausted, List.append_nil]
          have group := Parser.Passed.forward
            { parser with frame := parser.frame.toSignificant } restEq rfl
          have moved := (Parser.Passed.toSignificant parser).trans group
          rw [← afterEq, left]
          rw [TokenTree.condense, whole] at moved
          exact moved

/-- The node inside a group is a part of the node that the group belongs to. -/
theorem Spelling.enclosed {part : β → List Shape} {delimiter : Delimiter} {inside : Rule β}
    {next : Enclosed β → β → Rule α} (sound : Sound part inside) (advances : Advances inside)
    (later : ∀ opening node closing,
      Spelling (front ++ [.group delimiter opening (part node) closing]) shapes
        (next ⟨opening, some node, closing⟩ node)) :
    Spelling front shapes (do
      let group ← Rule.enclosed delimiter inside
      let node ← require group.inside
      next group node) := by
  intro parser node after yielded
  obtain ⟨⟨opening, kept, closing⟩, middle, step, rest⟩ := bind_eq_some_iff.1 yielded
  obtain ⟨inner, same, required, rest⟩ := bind_eq_some_iff.1 rest
  cases kept with
  | none => cases required
  | some found =>
      cases required
      obtain ⟨trees, passed, spells⟩ := enclosed_eq_some sound advances step
      obtain ⟨back, more, whole, morePassed, spellsMore⟩ :=
        later opening inner closing middle node after rest
      have group : SpellsAll [.group delimiter opening (part inner) closing]
          [.group delimiter opening trees closing] :=
        ⟨_, [], rfl, ⟨trees, rfl, spells⟩, rfl⟩
      exact spelling_trans passed group whole morePassed spellsMore

theorem Sound.untilExhausted {entry : Rule α} (sound : Sound shapes entry)
    (consumes : Consumes entry) :
    Sound (fun nodes : List α => nodes.flatMap shapes) (untilExhausted entry) := by
  intro parser nodes after yielded
  induction size : parser.frame.remaining using Nat.strongRecOn generalizing parser nodes with
  | ind size ih =>
      cases exhausted : parser.frame.isExhausted
      · match step : entry parser with
        | (none, middle) =>
            rw [untilExhausted_of_none exhausted step] at yielded
            cases yielded
        | (some node, middle) =>
            have fewer := consumes parser node middle step
            rw [untilExhausted_of_some consumes exhausted step] at yielded
            obtain ⟨nodesEq, afterEq⟩ := Prod.mk.inj yielded
            obtain ⟨others, laterEq, rfl⟩ := Option.map_eq_some_iff.1 nodesEq
            obtain ⟨_, trees, rfl, passed, spells⟩ := sound parser node middle step
            obtain ⟨_, more, rfl, morePassed, spellsMore⟩ :=
              ih _ (by rw [← size]; exact fewer) middle others (Prod.ext laterEq afterEq) rfl
            exact ⟨_, _, rfl, passed.trans morePassed,
              Shape.spellsAll_append_iff.2 ⟨trees, more, rfl, spells, spellsMore⟩⟩
      · rw [untilExhausted_of_exhausted exhausted] at yielded
        cases yielded
        exact ⟨[], [], rfl, .refl _, rfl⟩

theorem Sound.block {entry : Rule α} (sound : Sound shapes entry) (advances : Advances entry)
    (consumes : Consumes entry) : Sound (Block.shapes shapes) (block entry) :=
  .enclosed (.untilExhausted sound consumes) (.untilExhausted advances consumes)
    fun _ _ _ => .pure _ rfl

/-! ## Nodes -/

theorem Sound.pathRest :
    Sound (fun rest : List (Punctuation × Identifier) =>
      rest.flatMap fun (dot, segment) => dot.shapes .dot ++ segment.shapes .name) pathRest := by
  intro parser rest after yielded
  induction size : parser.frame.remaining using Nat.strongRecOn generalizing parser rest with
  | ind size ih =>
      have advances := Advances.punctuation? '.' parser
      rcases step : Rule.punctuation? '.' parser with ⟨_ | _ | dot, middle⟩
      · rw [Rule.pathRest, step] at yielded
        cases yielded
      · obtain ⟨_, trees, rfl, passed, spells⟩ := Sound.punctuation? .dot parser none middle step
        rw [pathRest_of_absent step] at yielded
        cases yielded
        exact ⟨_, trees, rfl, passed, spells⟩
      · rw [step] at advances
        obtain ⟨_, trees, rfl, passed, spells⟩ :=
          Sound.punctuation? .dot parser (some dot) middle step
        rcases segmentStep : Rule.name middle with ⟨_ | segment, last⟩
        · rw [pathRest_of_none step segmentStep] at yielded
          cases yielded
        · have fewer := Nat.lt_of_lt_of_le (Consumes.name middle segment last segmentStep)
            advances.remaining_le
          rw [pathRest_of_some step segmentStep] at yielded
          obtain ⟨restEq, afterEq⟩ := Prod.mk.inj yielded
          obtain ⟨others, laterEq, rfl⟩ := Option.map_eq_some_iff.1 restEq
          obtain ⟨_, named, rfl, namePassed, spellsName⟩ :=
            Sound.name middle segment last segmentStep
          obtain ⟨_, more, rfl, morePassed, spellsMore⟩ :=
            ih _ (by rw [← size]; exact fewer) last others (Prod.ext laterEq afterEq) rfl
          have part : SpellsAll (dot.shapes .dot ++ segment.shapes .name) (trees ++ named) :=
            Shape.spellsAll_append_iff.2 ⟨trees, named, rfl, spells, spellsName⟩
          exact ⟨_, _, rfl, (passed.trans namePassed).trans morePassed,
            Shape.spellsAll_append_iff.2 ⟨_, more, rfl, part, spellsMore⟩⟩

theorem Sound.identifierPath : Sound IdentifierPath.shapes identifierPath :=
  .bind .name fun _ => .bind .pathRest fun _ => .pure _ rfl

theorem Sound.expression : Sound Expression.shapes expression := by
  have path : Sound Expression.shapes (do
      let path ← Rule.identifierPath
      Pure.pure (.path path)) :=
    .bind .identifierPath fun _ => .pure _ rfl
  refine .ofPeek fun found => ?_
  split
  · exact .forward .stringLiteral (.same (.token (.stringLiteral _))) (.pure _ rfl)
  · exact path.ahead _
  · exact path.ahead _
  · exact Spelling.ahead (Fails.forward (.unexpected _ _)).spelling _

theorem Sound.assignment : Sound TaskStatement.shapes assignment :=
  .bind .name fun _ => .bind (.punctuation? .equals) fun _ =>
    .bind .expression fun _ => .pure _ rfl

theorem Sound.taskStatement : Sound TaskStatement.shapes taskStatement := by
  refine .ofPeek fun found => ?_
  split
  · exact Spelling.ahead Sound.assignment _
  · exact Spelling.ahead Sound.assignment _
  · exact Spelling.ahead (Fails.forward (.unexpected _ _)).spelling _

theorem Sound.pluginVersion : Sound (Shape.ofOption PluginEntry.versionShapes) pluginVersion := by
  refine .ofPeek fun found => ?_
  split
  · rename_i span
    by_cases spelled : span.text = "version"
    · rw [if_pos spelled]
      exact .forward (.word "version") (.same (.token (.word spelled)))
        (.bind .stringLiteral fun _ => .pure _ rfl)
    · rw [if_neg spelled]
      exact Spelling.ahead (.pure _ rfl) _
  · exact Spelling.ahead (.pure _ rfl) _

theorem Sound.pluginEntry : Sound PluginEntry.shapes pluginEntry := by
  refine .ofPeek fun found => ?_
  split
  · rename_i span
    by_cases spelled : span.text = "id"
    · rw [if_pos spelled]
      exact .forward (.word "id") (.same (.token (.word spelled)))
        (.bind .stringLiteral fun _ => .bind .pluginVersion fun _ => .pure _ rfl)
    · rw [if_neg spelled]
      exact (Fails.unexpected _ _).spelling.ahead _
  · exact (Fails.unexpected _ _).spelling.ahead _

theorem Sound.urlStatement : Sound UrlStatement.shapes urlStatement :=
  .bind (.contextualKeyword "url") fun _ => .bind (.punctuation? .equals) fun _ =>
    .bind .stringLiteral? fun _ => .pure _ rfl

theorem Sound.isExhausted : Sound (fun _ => []) isExhausted := by
  intro parser found after yielded
  cases yielded
  exact ⟨[], [], rfl, .refl parser, rfl⟩

theorem Sound.customUrl : Sound (Shape.ofOption UrlStatement.shapes) customUrl := by
  refine .bind .isExhausted fun exhausted => ?_
  split
  · exact .pure _ rfl
  · exact .bind .urlStatement fun _ => .pure _ rfl

theorem SpellingAhead.wellKnown (expected : Keyword) (span : Span) :
    SpellingAhead (.atomic ⟨.keyword expected, span⟩) [] (WellKnownRepository.shapes expected)
      (wellKnown ⟨expected, span⟩) := by
  have nothing : Sound (fun _ : Unit => []) (pure () : Rule Unit) := .pure () rfl
  exact .forward (.keyword expected) (.same (.token (.keyword expected span)))
    (.enclosed nothing (.pure ()) fun _ _ _ => .pure _ rfl)

theorem SpellingAhead.customRepository (span : Span) :
    SpellingAhead (.atomic ⟨.keyword .maven, span⟩) [] CustomRepository.shapes
      (customRepository ⟨.maven, span⟩) :=
  .forward (.keyword .maven) (.same (.token (.keyword .maven span)))
    (.enclosed Sound.customUrl .customUrl fun _ _ _ => .pure _ rfl)

theorem Sound.repositoryEntry : Sound RepositoryEntry.shapes repositoryEntry := by
  refine .ofPeek fun found => ?_
  split
  · exact .bind (.wellKnown .mavenCentral _) fun _ => .pure _ rfl
  · exact .bind (.wellKnown .jcenter _) fun _ => .pure _ rfl
  · exact .bind (.customRepository _) fun _ => .pure _ rfl
  · exact Spelling.ahead (Fails.forward fun _ => rfl).spelling _
  · exact Spelling.ahead (Fails.forward (.unexpected _ _)).spelling _

theorem Spelling.coordinate (configuration : Identifier) :
    Spelling (configuration.shapes .identifier) DependencyEntry.shapes
      (coordinate configuration) := by
  have bare : Spelling (configuration.shapes .identifier) DependencyEntry.shapes (do
      let literal ← stringLiteral
      Pure.pure ⟨configuration, none, literal⟩) :=
    .bind .stringLiteral fun _ => .pure _ rfl
  refine .ofPeek fun found => ?_
  split
  · split
    · exact Spelling.ahead (.enclosed .stringLiteral .stringLiteral fun _ _ _ => .pure _ rfl) _
    · exact bare.ahead _
  · exact bare.ahead _

theorem Sound.dependencyEntry : Sound DependencyEntry.shapes dependencyEntry := by
  refine .ofPeek fun found => ?_
  split
  · exact .forward .identifier (.same (.token (.identifier _))) (.coordinate ⟨_⟩)
  · exact Spelling.ahead (Fails.forward (.unexpected _ _)).spelling _

theorem Sound.taskType : Sound (Shape.ofOption TaskRegistration.typeShapes) taskType := by
  refine .bind (.punctuation? .comma) fun found => ?_
  split
  · exact .bind .identifier fun _ => .pure _ rfl
  · exact .pure _ rfl

theorem Sound.taskArguments : Sound TaskRegistration.argumentShapes taskArguments :=
  .bind .stringLiteral fun _ => .bind .taskType fun _ => .pure _ rfl

theorem Sound.taskRegistration : Sound TaskRegistration.shapes taskRegistration :=
  .bind (.keyword .tasks) fun _ => .bind (.punctuation .dot) fun _ =>
    .bind (.contextualKeyword "register") fun _ =>
      .enclosed .taskArguments .taskArguments fun _ _ _ =>
        .bind (.block .taskStatement .taskStatement .taskStatement) fun _ => .pure _ rfl

/-! ## Scripts -/

theorem Sound.declaration : Sound Declaration.shapes declaration := by
  refine .ofPeek fun found => ?_
  split
  · exact .forward (.keyword .plugins) (.same (.token (.keyword .plugins _)))
      (.bind (.block .pluginEntry .pluginEntry .pluginEntry) fun _ => .pure _ rfl)
  · exact .forward (.keyword .repositories) (.same (.token (.keyword .repositories _)))
      (.bind (.block .repositoryEntry .repositoryEntry .repositoryEntry) fun _ => .pure _ rfl)
  · exact .forward (.keyword .dependencies) (.same (.token (.keyword .dependencies _)))
      (.bind (.block .dependencyEntry .dependencyEntry .dependencyEntry) fun _ => .pure _ rfl)
  · refine Spelling.ahead ?_ _
    exact .bind .taskRegistration fun _ => .pure _ rfl
  · exact Spelling.ahead (Fails.forward (.unexpected _ _)).spelling _

/-- Attempts that all succeed read everything that is left. -/
theorem attempts_spell {parser : Parser} {declarations : List Declaration}
    (found : (attempts parser).1.map Attempt.node = declarations.map some) :
    SpellsAll (declarations.flatMap Declaration.shapes) (condenseAll id parser.frame.rest) := by
  induction size : parser.frame.remaining using Nat.strongRecOn
    generalizing parser declarations with
  | ind size ih =>
      cases exhausted : parser.frame.isExhausted
      · have fewer := resume_remaining_lt exhausted
        rw [attempts_of_left exhausted, List.map_cons] at found
        cases declarations with
        | nil => cases found
        | cons node others =>
            obtain ⟨nodeEq, othersEq⟩ := List.cons.inj found
            -- Every attempt found its node, so this one consumed just the trees that spell it.
            have step : declaration parser = (some node, (declaration parser).2) :=
              Prod.ext nodeEq rfl
            obtain ⟨_, trees, rfl, ⟨passed, restEq, rfl⟩, spells⟩ :=
              Sound.declaration parser node _ step
            have more := ih _ (by rw [← size]; exact fewer) othersEq rfl
            rw [step] at more
            rw [restEq, TokenTree.condenseAll_append]
            exact Shape.spellsAll_append_iff.2 ⟨_, _, rfl, spells, more⟩
      · rw [attempts_of_exhausted exhausted] at found
        rw [condenseAll_of_exhausted exhausted, List.map_eq_nil_iff.1 found.symm]
        rfl

/-- A script that is read is spelled by all the trees there are. -/
theorem script_spells {parser after : Parser} {tree : Script}
    (yielded : script parser = (some tree, after)) :
    SpellsAll tree.shapes (condenseAll id parser.frame.rest) := by
  refine attempts_spell ?_
  have outcome : (if ((attempts parser).1.map Attempt.node).all Option.isSome then
      some (Script.mk (((attempts parser).1.map Attempt.node).filterMap id)) else none) =
        some tree :=
    congrArg Prod.fst yielded
  generalize (attempts parser).1.map Attempt.node = found at outcome
  split at outcome
  · rename_i all
    cases outcome
    clear yielded
    induction found with
    | nil => rfl
    | cons node others ih =>
        obtain ⟨isSome, more⟩ := Bool.and_eq_true_iff.1 all
        obtain ⟨declaration, rfl⟩ := Option.isSome_iff_exists.1 isSome
        exact congrArg (some declaration :: ·) (ih more)
  · cases outcome

end Rule

end BuildScript.Grammar
