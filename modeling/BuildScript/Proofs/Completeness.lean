import BuildScript.Proofs.CondensedParsing
import BuildScript.Proofs.Derivation

/-!
# Trees that spell a node are read as that node

Where trees without blanks and comments spell a node and something follows that cannot
belong to it, the rule for the node yields it, passes just these trees and reports
nothing. What may follow is needed only where the grammar has an optional end.
-/

namespace BuildScript.Grammar

/-! ## Trees that fit -/

/-- Well-nested trees that spell the parts. -/
structure Shape.Fits (shapes : List Shape) (trees : List TokenTree) : Prop where
  spells : SpellsAll shapes trees
  nested : ∀ tree ∈ trees, tree.WellNested

namespace Shape.Fits

variable {shapes : List Shape} {trees : List TokenTree}

theorem nil : Fits [] trees ↔ trees = [] := by
  constructor
  · intro fits
    exact fits.spells
  · rintro rfl
    exact ⟨rfl, fun _ member => absurd member List.not_mem_nil⟩

theorem append {front back : List Shape} (fits : Fits (front ++ back) trees) :
    ∃ before after, trees = before ++ after ∧ Fits front before ∧ Fits back after := by
  obtain ⟨before, after, rfl, first, second⟩ := spellsAll_append_iff.1 fits.spells
  exact ⟨before, after, rfl,
    ⟨first, fun tree member => fits.nested tree (List.mem_append_left _ member)⟩,
    ⟨second, fun tree member => fits.nested tree (List.mem_append_right _ member)⟩⟩

theorem leaf {slot : Slot} {stored : Token} (fits : Fits (.leaf slot stored :: shapes) trees) :
    ∃ token later, trees = .token token :: later ∧ Leaf.Reads ⟨slot.symbol, stored⟩ token ∧
      Fits shapes later := by
  obtain ⟨spells, nested⟩ := fits
  obtain ⟨_, later, rfl, ⟨token, rfl, reads⟩, more⟩ := spells
  exact ⟨token, later, rfl, reads, more, (List.forall_mem_cons.1 nested).2⟩

theorem group {delimiter : Delimiter} {opening closing : Punctuation} {inside : List Shape}
    (fits : Fits (.group delimiter opening inside closing :: shapes) trees) :
    ∃ inner later, trees = .group delimiter opening inner closing :: later ∧
      opening.mark = delimiter.opening ∧ Fits inside inner ∧ Fits shapes later := by
  obtain ⟨spells, nested⟩ := fits
  obtain ⟨_, later, rfl, ⟨inner, rfl, within⟩, more⟩ := spells
  obtain ⟨first, others⟩ := List.forall_mem_cons.1 nested
  cases first with
  | group begins ends insideNested stays =>
      exact ⟨inner, later, rfl, begins, ⟨within, insideNested⟩, ⟨more, others⟩⟩

end Shape.Fits

open Shape (Fits)

/-- The tree that comes next counts and is no token for the place of the grammar. -/
def FreeOf (slot : Slot) (rest : List TokenTree) : Prop :=
  ∀ tree later, rest = tree :: later →
    tree.isSignificant = true ∧ ∀ token, tree = .token token → ¬slot.Takes token

theorem FreeOf.nil (slot : Slot) : FreeOf slot [] :=
  nofun

theorem FreeOf.token {slot : Slot} {token : Token} {later : List TokenTree}
    (counts : token.isSignificant = true) (other : ¬slot.Takes token) :
    FreeOf slot (.token token :: later) := by
  intro tree trees same
  cases same
  refine ⟨counts, fun leaf same => ?_⟩
  cases same
  exact other

/-- No separator stands at a place for another token. -/
theorem Slot.not_separator {slot : Slot} {token : Token} (takes : slot.Takes token)
    (plain : ∀ between, slot ≠ .separator between) (between : Separator) :
    ¬(Slot.separator between).Takes token := by
  intro isMark
  cases slot with
  | separator other => exact plain other rfl
  | name =>
      rcases takes with same | ⟨found, same⟩ <;> cases same.symm.trans isMark
  | word text => cases takes.1.symm.trans isMark
  | keyword expected | identifier | stringLiteral => cases takes.symm.trans isMark

/-- Trees for the parts come next, and then something that satisfies the condition. -/
def Before (shapes : List Shape) (follow : List TokenTree → Prop) (rest : List TokenTree) : Prop :=
  ∃ trees more, rest = trees ++ more ∧ Fits shapes trees ∧ follow more

theorem Before.of_nil {follow : List TokenTree → Prop} {rest : List TokenTree}
    (before : Before [] follow rest) : follow rest := by
  obtain ⟨trees, more, rfl, fits, follows⟩ := before
  rw [Shape.Fits.nil.1 fits]
  exact follows

/-- Another token comes next, so no separator does. -/
theorem Before.freeOf {slot : Slot} {stored : Token} {shapes : List Shape}
    {follow : List TokenTree → Prop} {rest : List TokenTree}
    (before : Before (.leaf slot stored :: shapes) follow rest)
    (plain : ∀ between, slot ≠ .separator between) (between : Separator) :
    FreeOf (.separator between) rest := by
  obtain ⟨trees, more, rfl, fits, _⟩ := before
  obtain ⟨token, later, rfl, reads, _⟩ := fits.leaf
  exact .token (Slot.reads_plain reads).1
    (Slot.not_separator (Slot.reads_iff.1 reads).1 plain between)

/-! ## Parsers that pass trees -/

def Parser.skip (parser : Parser) (count : Nat) : Parser :=
  { parser with frame := parser.frame.advance count }

theorem Parser.skip_skip (parser : Parser) (first second : Nat) :
    (parser.skip first).skip second = parser.skip (first + second) := by
  change Parser.mk ⟨_, parser.frame.index + first + second, _⟩ _ _ = _
  rw [Nat.add_assoc]
  rfl

theorem Parser.rest_skip {parser : Parser} {trees more : List TokenTree}
    (restEq : parser.frame.rest = trees ++ more) :
    (parser.skip trees.length).frame.rest = more := by
  change (parser.frame.advance trees.length).rest = more
  rw [Frame.rest_advance, restEq, List.drop_left]

namespace Rule

variable {α β : Type} {follow : List TokenTree → Prop} {node : α} {back : List Shape}

theorem peekSignificant_of_settled {parser : Parser} (settled : parser.frame.Settled) :
    peekSignificant parser = (some parser.frame.peek, parser) := by
  rw [peekSignificant_apply, Frame.toSignificant_of_settled settled]

theorem forward_of_rest {parser : Parser} {tree : TokenTree} {trees : List TokenTree}
    (restEq : parser.frame.rest = tree :: trees) : forward parser = (some (), parser.skip 1) := by
  change (some (), { parser with frame := parser.frame.forward }) = _
  rw [Frame.forward_of_rest_eq_cons _ restEq]
  rfl

/-! ## Completeness of rules -/

/-- The rule completes the node from trees for the rest of its parts, if the right thing follows. -/
def Completes (follow : List TokenTree → Prop) (node : α) (back : List Shape) (rule : Rule α) :
    Prop :=
  ∀ parser trees more, Fits back trees → parser.frame.rest = trees ++ more → follow more →
    rule parser = (some node, parser.skip trees.length)

theorem Completes.pure (node : α) : Completes follow node [] (pure node) := by
  intro parser trees more fits _ _
  rw [Shape.Fits.nil.1 fits]
  rfl

theorem Completes.mono {weaker : List TokenTree → Prop} {rule : Rule α}
    (completes : Completes weaker node back rule) (implies : ∀ rest, follow rest → weaker rest) :
    Completes follow node back rule :=
  fun parser trees more fits restEq follows =>
    completes parser trees more fits restEq (implies more follows)

theorem Completes.bind {part : List Shape} {value : β} {first : Rule β} {next : β → Rule α}
    (completes : Completes (Before back follow) value part first)
    (later : Completes follow node back (next value)) :
    Completes follow node (part ++ back) (first >>= next) := by
  intro parser trees more fits restEq follows
  obtain ⟨before, after, rfl, fitsFirst, fitsLater⟩ := fits.append
  rw [List.append_assoc] at restEq
  have step := completes parser before (after ++ more) fitsFirst restEq
    ⟨after, more, rfl, fitsLater, follows⟩
  rw [bind_of_some step, later _ after more fitsLater (Parser.rest_skip restEq) follows,
    Parser.skip_skip, List.length_append]

theorem Completes.map {part : List Shape} {value : β} {first : Rule β} {make : β → α}
    (completes : Completes follow value part first) :
    Completes follow (make value) part (first >>= fun found => Pure.pure (make found)) := by
  intro parser trees more fits restEq follows
  rw [bind_of_some (completes parser trees more fits restEq follows)]
  rfl

/-- A rule that decides by the next token, which is for the first leaf. -/
theorem Completes.ofPeek {slot : Slot} {stored : Token} {next : Reading → Rule α}
    (later : ∀ token, Leaf.Reads ⟨slot.symbol, stored⟩ token →
      Completes follow node (.leaf slot stored :: back) (next (.atomic token))) :
    Completes follow node (.leaf slot stored :: back) (peekSignificant >>= next) := by
  intro parser trees more fits restEq follows
  obtain ⟨token, others, rfl, reads, _⟩ := fits.leaf
  have settled : parser.frame.Settled := by
    intro tree trees same
    rw [restEq] at same
    cases same
    exact (Slot.reads_plain reads).1
  have peeked : parser.frame.peek = .atomic token := by
    rw [Frame.peek, restEq]
    rfl
  rw [bind_of_some (peekSignificant_of_settled settled), peeked]
  exact later token reads parser _ more fits restEq follows

/-- A rule that decides by the next token, where a group comes first. -/
theorem Completes.ofPeekGroup {delimiter : Delimiter} {opening closing : Punctuation}
    {inside : List Shape} {next : Reading → Rule α}
    (later : opening.mark = delimiter.opening →
      Completes follow node (.group delimiter opening inside closing :: back)
        (next (.opening opening))) :
    Completes follow node (.group delimiter opening inside closing :: back)
      (peekSignificant >>= next) := by
  intro parser trees more fits restEq follows
  obtain ⟨inner, others, rfl, begins, _⟩ := fits.group
  have settled : parser.frame.Settled := by
    intro tree trees same
    rw [restEq] at same
    cases same
    rfl
  have peeked : parser.frame.peek = .opening opening := by
    rw [Frame.peek, restEq]
    rfl
  rw [bind_of_some (peekSignificant_of_settled settled), peeked]
  exact later begins parser _ more fits restEq follows

/-- A rule that decides by the next tree and finds nothing for the node there. -/
theorem Completes.ofPeekAbsent {slot : Slot} {next : Reading → Rule α}
    (later : ∀ found, (∀ token, found = .atomic token → ¬slot.Takes token) →
      next found = Pure.pure node) :
    Completes (FreeOf slot) node [] (peekSignificant >>= next) := by
  intro parser trees more fits restEq free
  rw [Shape.Fits.nil.1 fits] at restEq ⊢
  have settled : parser.frame.Settled := fun tree trees same => (free tree trees
    (restEq.symm.trans same)).1
  rw [bind_of_some (peekSignificant_of_settled settled), later]
  · rfl
  · intro token peeked takes
    obtain ⟨later, restIs⟩ := Frame.rest_of_peek_atomic peeked
    exact (free _ later (restEq.symm.trans restIs)).2 token rfl takes

theorem Completes.forward {slot : Slot} {stored : Token} {rule : Rule α}
    (completes : Completes follow node back rule) :
    Completes follow node (.leaf slot stored :: back) (do Rule.forward; rule) := by
  intro parser trees more fits restEq follows
  obtain ⟨token, others, rfl, _, fitsLater⟩ := fits.leaf
  have restIs : (parser.skip [TokenTree.token token].length).frame.rest = others ++ more :=
    Parser.rest_skip restEq
  have step : Rule.forward parser = (some (), parser.skip 1) := forward_of_rest restEq
  change (Rule.forward >>= fun _ => rule) parser = _
  have later := completes (parser.skip 1) others more fitsLater restIs follows
  rw [bind_of_some step, later, Parser.skip_skip, List.length_cons, Nat.add_comm]

theorem Completes.ofNext {slot : Slot} {stored : Token} {next : Reading → Rule α}
    (later : ∀ token, Leaf.Reads ⟨slot.symbol, stored⟩ token →
      next (.atomic token) = Pure.pure node) :
    Completes follow node [.leaf slot stored] (nextSignificant >>= next) := by
  have peeked : Completes follow node [.leaf slot stored]
      (peekSignificant >>= fun found => do Rule.forward; next found) := by
    refine .ofPeek fun token reads => ?_
    rw [later token reads]
    exact .forward (.pure node)
  exact peeked

/-! ## Single tokens -/

theorem Completes.identifier (identifier : Identifier) :
    Completes follow identifier (identifier.shapes .identifier) Rule.identifier := by
  refine .ofNext fun token reads => ?_
  obtain ⟨takes, rfl | ⟨impossible, _⟩⟩ := Slot.reads_iff.1 reads
  · rfl
  · cases impossible

theorem Completes.name (identifier : Identifier) :
    Completes follow identifier (identifier.shapes .name) Rule.name := by
  refine .ofNext fun token reads => ?_
  obtain ⟨takes, same⟩ := Slot.reads_iff.1 reads
  obtain ⟨kind, span⟩ := token
  have sameSpan : identifier.span = span := by
    rcases same with same | ⟨_, same⟩ <;> exact congrArg Token.span same
  subst sameSpan
  rcases takes with kindEq | ⟨found, kindEq⟩ <;> cases kindEq <;> rfl

theorem Completes.contextualKeyword (word : String) (identifier : Identifier) :
    Completes follow identifier (identifier.shapes (.word word)) (contextualKeyword word) := by
  refine .ofNext fun token reads => ?_
  obtain ⟨takes, rfl | ⟨impossible, _⟩⟩ := Slot.reads_iff.1 reads
  · exact if_pos takes.2
  · cases impossible

theorem Completes.keyword (expected : Keyword) (token : KeywordToken) :
    Completes follow token (token.shapes expected) (keyword expected) := by
  refine .ofNext fun found reads => ?_
  obtain ⟨takes, rfl | ⟨impossible, _⟩⟩ := Slot.reads_iff.1 reads
  · exact if_pos (TokenKind.keyword.inj takes)
  · cases impossible

theorem Completes.stringLiteral (literal : StringLiteral) :
    Completes follow literal literal.shapes stringLiteral := by
  refine .ofNext fun token reads => ?_
  obtain ⟨takes, rfl | ⟨impossible, _⟩⟩ := Slot.reads_iff.1 reads
  · rfl
  · cases impossible

theorem Completes.punctuation (between : Separator) (mark : Punctuation) :
    Completes follow mark (mark.shapes between) (punctuation between.mark true) := by
  refine .ofNext fun token reads => ?_
  obtain ⟨takes, rfl | ⟨impossible, _⟩⟩ := Slot.reads_iff.1 reads
  · exact if_pos (TokenKind.punctuation.inj takes)
  · cases impossible

theorem Completes.punctuation? (between : Separator) (mark : Option Punctuation) :
    Completes (FreeOf (.separator between)) mark
      (Shape.ofOption (Punctuation.shapes between) mark) (punctuation? between.mark) := by
  cases mark with
  | some found =>
      refine .ofPeek fun token reads => ?_
      obtain ⟨takes, rfl | ⟨impossible, _⟩⟩ := Slot.reads_iff.1 reads
      · simp only [Punctuation.toToken, if_pos (TokenKind.punctuation.inj takes)]
        exact .forward (.pure _)
      · cases impossible
  | none =>
      refine .ofPeekAbsent fun found free => ?_
      split
      · rename_i mark span
        rw [if_neg]
        rintro rfl
        exact free _ rfl rfl
      · rfl

theorem Completes.stringLiteral? (literal : Option StringLiteral) :
    Completes (FreeOf .stringLiteral) literal (Shape.ofOption StringLiteral.shapes literal)
      stringLiteral? := by
  cases literal with
  | some found =>
      refine .ofPeek fun token reads => ?_
      obtain ⟨takes, rfl | ⟨impossible, _⟩⟩ := Slot.reads_iff.1 reads
      · exact .forward (.pure _)
      · cases impossible
  | none =>
      refine .ofPeekAbsent fun found free => ?_
      split
      · exact absurd rfl (free _ rfl)
      · rfl

/-! ## Groups and loops -/

/-- A group is passed as one tree when its inside is read to its end. -/
theorem Completes.group {delimiter : Delimiter} {opening closing : Punctuation}
    {part : List Shape} {value : β} {inside : Rule β}
    (completes : Completes (· = []) value part inside) :
    Completes follow ⟨opening, some value, closing⟩ [.group delimiter opening part closing]
      (enclosed delimiter inside) := by
  intro parser trees more fits restEq _
  obtain ⟨inner, others, rfl, _, fitsInside, none⟩ := fits.group
  rw [show others = [] from none.spells] at restEq ⊢
  have settled : parser.frame.Settled := by
    intro tree trees same
    rw [restEq] at same
    cases same
    rfl
  have place := Frame.toSignificant_of_settled settled
  have ahead : groupAhead? delimiter parser.frame = some (opening, inner, closing) :=
    groupAhead?_eq_some_iff.2 ⟨more, by rw [place]; exact restEq⟩
  have entered : (enter inner closing parser).frame.rest = inner ++ [] :=
    (List.append_nil inner).symm
  have read := completes (enter inner closing parser) inner [] fitsInside entered rfl
  have exhausted : ((enter inner closing parser).skip inner.length).frame.isExhausted = true := by
    rw [Frame.isExhausted, Parser.rest_skip entered]
    rfl
  rw [enclosed_of_group ahead, read]
  simp only [closeGroup_of_exhausted value exhausted]
  change (_, Parser.mk parser.frame.toSignificant.forward _ _) = _
  rw [place, Frame.forward_of_rest_eq_cons _ restEq]
  rfl

theorem Completes.enclosed {delimiter : Delimiter} {opening closing : Punctuation}
    {part : List Shape} {value : β} {inside : Rule β} {next : Enclosed β → β → Rule α}
    (completes : Completes (· = []) value part inside)
    (later : Completes follow node back (next ⟨opening, some value, closing⟩ value)) :
    Completes follow node (.group delimiter opening part closing :: back) (do
      let group ← Rule.enclosed delimiter inside
      let value ← require group.inside
      next group value) :=
  .bind (.group completes) later

/-- A node starts with a token that may follow an entry. -/
def Leads (follow : List TokenTree → Prop) (shapes : α → List Shape) : Prop :=
  ∀ node, ∃ slot stored tail, shapes node = .leaf slot stored :: tail ∧
    ∀ token later, slot.Takes token → token.isSignificant = true →
      follow (.token token :: later)

/-- What leads a node counts, and may follow an entry. -/
theorem Leads.rest {shapes : α → List Shape} (leads : Leads follow shapes) {node : α}
    {trees : List TokenTree} (fits : Fits (shapes node) trees) (more : List TokenTree) :
    follow (trees ++ more) ∧ ∃ token later, trees = .token token :: later ∧
      token.isSignificant = true := by
  obtain ⟨slot, stored, tail, shapesEq, leading⟩ := leads node
  rw [shapesEq] at fits
  obtain ⟨token, later, rfl, reads, _⟩ := fits.leaf
  have counts := (Slot.reads_plain reads).1
  exact ⟨leading token _ (Slot.reads_iff.1 reads).1 counts, token, later, rfl, counts⟩

/-- In a frame where a token that counts comes next something is left. -/
theorem isExhausted_of_token {frame : Frame} {token : Token} {later : List TokenTree}
    (restEq : frame.rest = .token token :: later) (counts : token.isSignificant = true) :
    frame.isExhausted = false := by
  rw [Frame.isExhausted, restEq, List.all_cons]
  change (!token.isSignificant && _) = false
  rw [counts]
  rfl

theorem Completes.untilExhausted {shapes : α → List Shape} {entry : Rule α}
    (completes : ∀ node, Completes follow node (shapes node) entry) (consumes : Consumes entry)
    (ends : follow []) (leads : Leads follow shapes) (nodes : List α) :
    Completes (· = []) nodes (nodes.flatMap shapes) (untilExhausted entry) := by
  induction nodes with
  | nil =>
      intro parser trees more fits restEq none
      rw [Shape.Fits.nil.1 fits, none] at restEq
      rw [Shape.Fits.nil.1 fits]
      refine untilExhausted_of_exhausted ?_
      rw [Frame.isExhausted, restEq]
      rfl
  | cons node others ih =>
      intro parser trees more fits restEq none
      obtain ⟨before, after, rfl, first, later⟩ := fits.append
      rw [List.append_assoc] at restEq
      have follows : follow (after ++ more) := by
        cases others with
        | nil =>
            rw [show after = [] from later.spells, none]
            exact ends
        | cons next further =>
            obtain ⟨one, rest, rfl, second, _⟩ := later.append
            rw [List.append_assoc]
            exact (leads.rest second _).1
      obtain ⟨_, token, tail, rfl, counts⟩ := leads.rest first (after ++ more)
      have step := completes node parser _ _ first restEq follows
      have more' := ih _ after more later (Parser.rest_skip restEq) none
      rw [untilExhausted_of_some consumes (isExhausted_of_token restEq counts) step, more',
        Parser.skip_skip, List.length_append]
      rfl

theorem Completes.block {shapes : α → List Shape} {entry : Rule α}
    (completes : ∀ node, Completes follow node (shapes node) entry) (consumes : Consumes entry)
    (ends : follow []) (leads : Leads follow shapes) (block : Block α)
    {after : List TokenTree → Prop} :
    Completes after block (block.shapes shapes) (Rule.block entry) :=
  .enclosed (.untilExhausted completes consumes ends leads block.entries) (.pure block)

/-! ## Nodes -/

theorem Completes.pathRest (rest : List (Punctuation × Identifier)) :
    Completes (FreeOf (.separator .dot)) rest
      (rest.flatMap fun (dot, segment) => dot.shapes .dot ++ segment.shapes .name) pathRest := by
  induction rest with
  | nil =>
      intro parser trees more fits restEq free
      exact pathRest_of_absent (Completes.punctuation? .dot none parser trees more fits restEq free)
  | cons part others ih =>
      obtain ⟨dot, segment⟩ := part
      intro parser trees more fits restEq free
      obtain ⟨before, after, rfl, first, later⟩ := fits.append
      obtain ⟨dotted, named, rfl, fitsDot, fitsName⟩ := first.append
      rw [List.append_assoc, List.append_assoc] at restEq
      have nameNext : Before (segment.shapes .name) (fun _ => True) (named ++ (after ++ more)) :=
        ⟨named, after ++ more, rfl, fitsName, trivial⟩
      have dotStep := Completes.punctuation? .dot (some dot) parser dotted _ fitsDot restEq
        (nameNext.freeOf nofun .dot)
      have nameRule : Completes (fun _ => True) segment (segment.shapes .name) Rule.name :=
        .name segment
      have nameStep := nameRule _ named _ fitsName (Parser.rest_skip restEq) trivial
      have laterStep := ih _ after more later (Parser.rest_skip (Parser.rest_skip restEq)) free
      rw [pathRest_of_some dotStep nameStep, laterStep, Parser.skip_skip, Parser.skip_skip,
        List.length_append, List.length_append, Nat.add_assoc]
      rfl

theorem Completes.identifierPath (path : IdentifierPath) :
    Completes (FreeOf (.separator .dot)) path path.shapes identifierPath :=
  .bind (.name path.first) (.map (.pathRest path.rest))

theorem Completes.expression (expression : Expression) :
    Completes (FreeOf (.separator .dot)) expression expression.shapes Rule.expression := by
  cases expression with
  | string literal =>
      refine .ofPeek fun token reads => ?_
      obtain ⟨takes, rfl | ⟨impossible, _⟩⟩ := Slot.reads_iff.1 reads
      · exact .forward (.pure _)
      · cases impossible
  | path identifiers =>
      refine .ofPeek fun token reads => ?_
      obtain ⟨kind, span⟩ := token
      rcases (Slot.reads_iff.1 reads).1 with same | ⟨found, same⟩ <;> cases same <;>
        exact .map (.identifierPath identifiers)

/-- Before a value there is no equals sign. -/
theorem Expression.before_freeOf_equals {expression : Expression} {rest : List TokenTree}
    (before : Before expression.shapes follow rest) : FreeOf (.separator .equals) rest := by
  cases expression with
  | string literal => exact before.freeOf nofun .equals
  | path identifiers => exact before.freeOf nofun .equals

theorem Completes.assignment (statement : TaskStatement) :
    Completes (FreeOf (.separator .dot)) statement statement.shapes Rule.assignment := by
  have whole : statement.shapes = statement.key.shapes .name ++
      (Shape.ofOption (Punctuation.shapes .equals) statement.assignment ++
        statement.value.shapes) :=
    List.append_assoc _ _ _
  rw [whole]
  exact .bind (.name statement.key) (.bind
    ((Completes.punctuation? .equals statement.assignment).mono fun _ =>
      Expression.before_freeOf_equals)
    (.map (.expression statement.value)))

theorem Completes.taskStatement (statement : TaskStatement) :
    Completes (FreeOf (.separator .dot)) statement statement.shapes Rule.taskStatement := by
  refine .ofPeek fun token reads => ?_
  obtain ⟨kind, span⟩ := token
  rcases (Slot.reads_iff.1 reads).1 with same | ⟨found, same⟩ <;> cases same <;>
    exact .assignment statement

theorem Completes.pluginVersion (version : Option (Identifier × StringLiteral)) :
    Completes (FreeOf (.word "version")) version
      (Shape.ofOption PluginEntry.versionShapes version) pluginVersion := by
  cases version with
  | some pair =>
      obtain ⟨versionWord, literal⟩ := pair
      refine .ofPeek fun token reads => ?_
      obtain ⟨takes, rfl | ⟨impossible, _⟩⟩ := Slot.reads_iff.1 reads
      · have spelled : versionWord.span.text = "version" := takes.2
        simp only [Identifier.toToken, if_pos spelled]
        exact .forward (.map (.stringLiteral literal))
      · cases impossible
  | none =>
      refine .ofPeekAbsent fun found free => ?_
      split
      · rw [if_neg]
        intro spelled
        exact free _ rfl ⟨rfl, spelled⟩
      · rfl

theorem Completes.pluginEntry (entry : PluginEntry) :
    Completes (FreeOf (.word "version")) entry entry.shapes Rule.pluginEntry := by
  obtain ⟨idWord, plugin, version⟩ := entry
  refine .ofPeek fun token reads => ?_
  obtain ⟨takes, rfl | ⟨impossible, _⟩⟩ := Slot.reads_iff.1 reads
  · have spelled : idWord.span.text = "id" := takes.2
    simp only [Identifier.toToken, if_pos spelled]
    exact .forward (.bind (.stringLiteral plugin) (.map (.pluginVersion version)))
  · cases impossible

theorem Completes.urlStatement (statement : UrlStatement) :
    Completes (· = []) statement statement.shapes Rule.urlStatement := by
  have whole : statement.shapes = statement.urlWord.shapes (.word "url") ++
      (Shape.ofOption (Punctuation.shapes .equals) statement.assignment ++
        Shape.ofOption StringLiteral.shapes statement.value) :=
    List.append_assoc _ _ _
  have noEquals : ∀ rest, Before (Shape.ofOption StringLiteral.shapes statement.value) (· = [])
      rest → FreeOf (.separator .equals) rest := by
    intro rest before
    cases value : statement.value with
    | none =>
        rw [value] at before
        rw [show rest = [] from before.of_nil]
        exact .nil _
    | some literal =>
        rw [value] at before
        exact before.freeOf nofun .equals
  rw [whole]
  refine .bind (.contextualKeyword "url" statement.urlWord) (.bind
    ((Completes.punctuation? .equals statement.assignment).mono noEquals)
    (.map ((Completes.stringLiteral? statement.value).mono ?_)))
  rintro _ rfl
  exact .nil _

theorem Completes.customUrl (url : Option UrlStatement) :
    Completes (· = []) url (Shape.ofOption UrlStatement.shapes url) customUrl := by
  cases url with
  | none =>
      intro parser trees more fits restEq none
      rw [Shape.Fits.nil.1 fits, none] at restEq
      have exhausted : parser.frame.isExhausted = true := by
        rw [Frame.isExhausted, restEq]
        rfl
      have step : isExhausted parser = (some true, parser) :=
        congrArg (fun found => (some found, parser)) exhausted
      rw [Rule.customUrl, bind_of_some step, Shape.Fits.nil.1 fits]
      rfl
  | some statement =>
      intro parser trees more fits restEq none
      obtain ⟨token, later, rfl, reads, _⟩ := fits.leaf
      have step : isExhausted parser = (some false, parser) :=
        congrArg (fun found => (some found, parser))
          (isExhausted_of_token restEq (Slot.reads_plain reads).1)
      have rule : Completes (· = []) (some statement) statement.shapes (do
          let url ← Rule.urlStatement
          Pure.pure (some url)) :=
        .map (.urlStatement statement)
      rw [Rule.customUrl, bind_of_some step]
      exact rule parser _ more fits restEq none

theorem Completes.wellKnown (word : Keyword) (repository : WellKnownRepository) :
    Completes follow repository (repository.shapes word) (wellKnown repository.keyword) :=
  .forward (.enclosed (.pure ()) (.pure repository))

theorem Completes.customRepository (repository : CustomRepository) :
    Completes follow repository repository.shapes (customRepository repository.keyword) :=
  .forward (.enclosed (.customUrl repository.url) (.pure repository))

theorem Completes.repositoryEntry (entry : RepositoryEntry) :
    Completes follow entry entry.shapes Rule.repositoryEntry := by
  cases entry with
  | central repository | secondaryIndex repository =>
      obtain ⟨⟨word, span⟩, opening, closing⟩ := repository
      refine .ofPeek fun token reads => ?_
      obtain ⟨takes, rfl | ⟨impossible, _⟩⟩ := Slot.reads_iff.1 reads
      · cases takes
        exact .map (.wellKnown _ ⟨⟨_, span⟩, opening, closing⟩)
      · cases impossible
  | custom repository =>
      obtain ⟨⟨word, span⟩, opening, url, closing⟩ := repository
      refine .ofPeek fun token reads => ?_
      obtain ⟨takes, rfl | ⟨impossible, _⟩⟩ := Slot.reads_iff.1 reads
      · cases takes
        exact .map (.customRepository ⟨⟨.maven, span⟩, opening, url, closing⟩)
      · cases impossible

theorem Completes.dependencyEntry (entry : DependencyEntry) :
    Completes follow entry entry.shapes Rule.dependencyEntry := by
  obtain ⟨configuration, parentheses, literal⟩ := entry
  refine .ofPeek fun token reads => ?_
  obtain ⟨takes, rfl | ⟨impossible, _⟩⟩ := Slot.reads_iff.1 reads
  · refine .forward ?_
    cases parentheses with
    | none =>
        refine .ofPeek fun token reads => ?_
        exact .map (.stringLiteral literal)
    | some pair =>
        obtain ⟨opening, closing⟩ := pair
        refine .ofPeekGroup fun begins => ?_
        have isParenthesis : opening.mark = '(' := begins
        simp only [if_pos isParenthesis]
        exact .enclosed (.stringLiteral literal) (.pure _)
  · cases impossible

theorem Completes.taskType (type : Option (Punctuation × Identifier)) :
    Completes (· = []) type (Shape.ofOption TaskRegistration.typeShapes type) taskType := by
  cases type with
  | none =>
      have noComma : ∀ rest, Before [] (· = []) rest → FreeOf (.separator .comma) rest := by
        intro rest before
        rw [show rest = [] from before.of_nil]
        exact .nil _
      have absent : Completes (· = []) none ([] ++ []) Rule.taskType :=
        .bind ((Completes.punctuation? .comma none).mono noComma) (.pure none)
      exact absent
  | some pair =>
      obtain ⟨comma, type⟩ := pair
      refine .bind ((Completes.punctuation? .comma (some comma)).mono fun rest before => ?_)
        (.map (.identifier type))
      exact before.freeOf nofun .comma

theorem Completes.taskArguments
    (arguments : StringLiteral × Option (Punctuation × Identifier)) :
    Completes (· = []) arguments (TaskRegistration.argumentShapes arguments) taskArguments :=
  .bind (.stringLiteral arguments.1) (.map (.taskType arguments.2))

theorem Leads.taskStatement : Leads (FreeOf (.separator .dot)) TaskStatement.shapes :=
  fun statement => ⟨.name, statement.key.toToken, _, rfl, fun _ _ takes counts =>
    .token counts (Slot.not_separator takes nofun .dot)⟩

theorem Leads.pluginEntry : Leads (FreeOf (.word "version")) PluginEntry.shapes := by
  intro entry
  refine ⟨.word "id", entry.idWord.toToken, _, rfl, fun _ _ takes counts => .token counts ?_⟩
  rintro ⟨_, spelled⟩
  have impossible : "id" = "version" := takes.2.symm.trans spelled
  exact absurd impossible (by decide)

theorem Leads.repositoryEntry : Leads (fun _ => True) RepositoryEntry.shapes := by
  rintro (repository | repository | repository)
  all_goals exact ⟨_, repository.keyword.toToken, _, rfl, fun _ _ _ _ => trivial⟩

theorem Leads.dependencyEntry : Leads (fun _ => True) DependencyEntry.shapes :=
  fun entry => ⟨_, entry.configuration.toToken, _, rfl, fun _ _ _ _ => trivial⟩

theorem Completes.taskRegistration (task : TaskRegistration) :
    Completes follow task task.shapes taskRegistration := by
  have whole : task.shapes = task.keyword.shapes .tasks ++ (task.dot.shapes .dot ++
      (task.registerWord.shapes (.word "register") ++
        (.group .parenthesis task.opening
            (TaskRegistration.argumentShapes (task.name, task.type)) task.closing ::
          task.block.shapes TaskStatement.shapes))) :=
    rfl
  rw [whole]
  exact .bind (.keyword .tasks task.keyword) (.bind (.punctuation .dot task.dot)
    (.bind (.contextualKeyword "register" task.registerWord)
      (.enclosed (.taskArguments (task.name, task.type))
        (.map (.block .taskStatement .taskStatement (.nil _) .taskStatement task.block)))))

/-! ## Scripts -/

theorem Completes.declaration (declaration : Declaration) :
    Completes follow declaration declaration.shapes Rule.declaration := by
  cases declaration with
  | plugins token block =>
      obtain ⟨word, span⟩ := token
      refine .ofPeek fun found reads => ?_
      obtain ⟨takes, rfl | ⟨impossible, _⟩⟩ := Slot.reads_iff.1 reads
      · cases takes
        exact .forward (.map (.block .pluginEntry .pluginEntry (.nil _) .pluginEntry block))
      · cases impossible
  | repositories token block =>
      obtain ⟨word, span⟩ := token
      refine .ofPeek fun found reads => ?_
      obtain ⟨takes, rfl | ⟨impossible, _⟩⟩ := Slot.reads_iff.1 reads
      · cases takes
        exact .forward
          (.map (.block .repositoryEntry .repositoryEntry trivial .repositoryEntry block))
      · cases impossible
  | dependencies token block =>
      obtain ⟨word, span⟩ := token
      refine .ofPeek fun found reads => ?_
      obtain ⟨takes, rfl | ⟨impossible, _⟩⟩ := Slot.reads_iff.1 reads
      · cases takes
        exact .forward
          (.map (.block .dependencyEntry .dependencyEntry trivial .dependencyEntry block))
      · cases impossible
  | task registration =>
      obtain ⟨⟨word, span⟩, dot, registerWord, opening, taskName, type, closing, block⟩ :=
        registration
      refine .ofPeek fun found reads => ?_
      obtain ⟨takes, rfl | ⟨impossible, _⟩⟩ := Slot.reads_iff.1 reads
      · cases takes
        exact .map (.taskRegistration _)
      · cases impossible

theorem Leads.declaration : Leads (fun _ => True) Declaration.shapes := by
  rintro (⟨token, block⟩ | ⟨token, block⟩ | ⟨token, block⟩ | registration)
  · exact ⟨_, token.toToken, _, rfl, fun _ _ _ _ => trivial⟩
  · exact ⟨_, token.toToken, _, rfl, fun _ _ _ _ => trivial⟩
  · exact ⟨_, token.toToken, _, rfl, fun _ _ _ _ => trivial⟩
  · exact ⟨_, registration.keyword.toToken, _, rfl, fun _ _ _ _ => trivial⟩

/-- Over trees that spell declarations every attempt succeeds. -/
theorem attempts_complete {parser : Parser} {declarations : List Declaration}
    {trees : List TokenTree} (fits : Fits (declarations.flatMap Declaration.shapes) trees)
    (restEq : parser.frame.rest = trees) :
    (attempts parser).1.map Attempt.node = declarations.map some ∧
      (attempts parser).2 = parser.skip trees.length := by
  induction declarations generalizing parser trees with
  | nil =>
      rw [Shape.Fits.nil.1 fits] at restEq ⊢
      have exhausted : parser.frame.isExhausted = true := by
        rw [Frame.isExhausted, restEq]
        rfl
      rw [attempts_of_exhausted exhausted]
      exact ⟨rfl, rfl⟩
  | cons node others ih =>
      obtain ⟨before, after, rfl, first, later⟩ := fits.append
      -- The first tree of a declaration counts, so the frame is not exhausted before it.
      obtain ⟨_, token, tail, rfl, counts⟩ := Leads.declaration.rest first after
      have rule : Completes (fun _ => True) node node.shapes declaration := .declaration node
      have step := rule parser _ after first restEq trivial
      obtain ⟨nodes, last⟩ := ih later (Parser.rest_skip restEq)
      rw [attempts_of_left (isExhausted_of_token restEq counts), step]
      refine ⟨congrArg (some node :: ·) nodes, last.trans ?_⟩
      rw [Parser.skip_skip, List.length_append]

/-- Trees that spell a script are read as that script, without a report. -/
theorem script_complete {parser : Parser} {tree : Script} {trees : List TokenTree}
    (fits : Fits tree.shapes trees) (restEq : parser.frame.rest = trees) :
    script parser = (some tree, parser.skip trees.length) := by
  obtain ⟨nodes, last⟩ := attempts_complete fits restEq
  change ((if ((attempts parser).1.map Attempt.node).all Option.isSome then
    some (Script.mk (((attempts parser).1.map Attempt.node).filterMap id)) else none),
      (attempts parser).2) = _
  rw [nodes, last, if_pos (by simp)]
  simp

end Rule

end BuildScript.Grammar
