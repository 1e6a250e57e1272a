import BuildScript.Proofs.Grouping
import BuildScript.Proofs.Lossless

/-!
# The stack of open delimiters

Grouping tokens into trees does what a machine with a stack of open delimiters does.
The machine's final stack tells which delimiters are reported, in which order, and
where the trees end: before the bottom of the stack, or nowhere if it is empty.
-/

namespace BuildScript

namespace Nesting

/-! ## The machine -/

/-- A delimiter that was opened and not closed yet. -/
structure Opener where
  /-- How many tokens stand before it. -/
  position : Nat
  delimiter : Delimiter
  mark : Punctuation
  deriving DecidableEq, Repr

def Opener.report (opener : Opener) : LexicalError :=
  .undelimited opener.mark.span opener.delimiter

/--
One step of the machine: a character that closes the top of the stack pops it, an
opening character is pushed, and every other token is plain.
-/
def stackStep (stack : List Opener) (position : Nat) (token : Token) : List Opener :=
  match token.kind, stack with
  | .punctuation ')', ⟨_, .parenthesis, _⟩ :: below
  | .punctuation ']', ⟨_, .bracket, _⟩ :: below
  | .punctuation '}', ⟨_, .brace, _⟩ :: below => below
  | .punctuation '(', stack => ⟨position, .parenthesis, ⟨'(', token.span⟩⟩ :: stack
  | .punctuation '[', stack => ⟨position, .bracket, ⟨'[', token.span⟩⟩ :: stack
  | .punctuation '{', stack => ⟨position, .brace, ⟨'{', token.span⟩⟩ :: stack
  | _, stack => stack

/-- The stack behind the given tokens, the first of which has the given position. -/
def openStack (stack : List Opener) (position : Nat) : List Token → List Opener
  | [] => stack
  | token :: tokens => openStack (stackStep stack position token) (position + 1) tokens

/-! The tokens that open and close a group are those that push and pop. -/

theorem stackStep_of_opens {token : Token} {delimiter : Delimiter} {mark : Punctuation}
    (opens : token.opening? = some (delimiter, mark)) (stack : List Opener) (position : Nat) :
    stackStep stack position token = ⟨position, delimiter, mark⟩ :: stack := by
  obtain ⟨character, span⟩ := mark
  obtain ⟨rfl, isOpening⟩ := Token.opening?_eq_some_iff.1 opens
  cases isOpening
  cases delimiter <;> rfl

theorem stackStep_of_closes {token : Token} {top : Opener} {mark : Punctuation}
    (closes : token.closing? top.delimiter = some mark) (below : List Opener) (position : Nat) :
    stackStep (top :: below) position token = below := by
  obtain ⟨place, delimiter, opening⟩ := top
  obtain ⟨character, span⟩ := mark
  obtain ⟨rfl, isClosing⟩ := Token.closing?_eq_some_iff.1 closes
  cases isClosing
  cases delimiter <;> rfl

theorem stackStep_of_plain {token : Token} {stack : List Opener} (plain : token.opening? = none)
    (stays : ∀ top ∈ stack.head?, token.closing? top.delimiter = none) (position : Nat) :
    stackStep stack position token = stack := by
  have notOpening := Token.opening?_eq_none_iff.1 plain
  have notClosing : ∀ top ∈ stack.head?, token.kind ≠ .punctuation top.delimiter.closing :=
    fun top isTop => Token.closing?_eq_none_iff.1 (stays top isTop)
  rw [stackStep.eq_def]
  split
  · exact absurd ‹_› (notClosing _ rfl)
  · exact absurd ‹_› (notClosing _ rfl)
  · exact absurd ‹_› (notClosing _ rfl)
  · exact absurd ‹_› (notOpening .parenthesis)
  · exact absurd ‹_› (notOpening .bracket)
  · exact absurd ‹_› (notOpening .brace)
  · rfl

/-- A group that closes leaves the stack as it was below its opener. -/
theorem Closes.openStack_eq {delimiter : Delimiter} {tokens rest : List Token}
    {trees : List TokenTree} {closing : Punctuation}
    (closed : Closes delimiter tokens trees closing rest) {top : Opener}
    (same : top.delimiter = delimiter) (below : List Opener) (position : Nat) :
    openStack (top :: below) position tokens =
      openStack below (position + (TokenTree.flattenAll trees).length + 1) rest := by
  induction closed generalizing top below position with
  | here closes =>
      rw [openStack, stackStep_of_closes (same.symm ▸ closes)]
      rfl
  | token stays plain later ih =>
      rw [openStack, stackStep_of_plain plain (by rintro _ ⟨⟩; exact same.symm ▸ stays), ih same]
      congr 1
      simp only [TokenTree.flattenAll, TokenTree.flatten, List.length_append, List.length_singleton]
      omega
  | group stays opens inner later ihInner ihLater =>
      rw [openStack, stackStep_of_opens opens, ihInner rfl, ihLater same]
      congr 1
      simp only [TokenTree.flattenAll, TokenTree.flatten, List.length_append, List.length_cons,
        List.length_nil]
      omega

/-- A group that never closes stays on the stack, below the groups left open inside it. -/
theorem Unclosed.openStack_eq {delimiter : Delimiter} {opening : Punctuation}
    {tokens : List Token} {reports : List LexicalError}
    (unclosed : Unclosed delimiter opening tokens reports) (start : Nat)
    (below : List Opener) (position : Nat) :
    ∃ above, openStack (⟨start, delimiter, opening⟩ :: below) position tokens =
        above ++ ⟨start, delimiter, opening⟩ :: below ∧
      reports = above.map Opener.report ++ [.undelimited opening.span delimiter] := by
  induction unclosed generalizing start below position with
  | exhausted => exact ⟨[], rfl, rfl⟩
  | @token delimiter opening token tokens reports stays plain later ih =>
      rw [openStack, stackStep_of_plain plain (by rintro _ ⟨⟩; exact stays)]
      exact ih start below (position + 1)
  | @within delimiter inner opening innerOpening token tokens reports stays opens unclosed ih =>
      rw [openStack, stackStep_of_opens opens]
      obtain ⟨above, final, named⟩ :=
        ih position (⟨start, delimiter, opening⟩ :: below) (position + 1)
      refine ⟨above ++ [⟨position, inner, innerOpening⟩], ?_, ?_⟩
      · rw [final, List.append_assoc]
        rfl
      · rw [named, List.map_append]
        rfl
  | group stays opens inner later ih =>
      rw [openStack, stackStep_of_opens opens, inner.openStack_eq rfl]
      exact ih start below _

/--
The forest is what the machine's final stack tells: what is left on the stack is
reported, top first, and the trees end before the bottom of the stack.
-/
structure Forest.Follows (forest : Forest) (position : Nat) (tokens : List Token) : Prop where
  reported : forest.reports = (openStack [] position tokens).map Opener.report
  whole : openStack [] position tokens = [] → TokenTree.flattenAll forest.trees = tokens
  cut : ∀ bottom ∈ (openStack [] position tokens).getLast?, ∃ dropped,
    tokens = TokenTree.flattenAll forest.trees ++ bottom.mark.toToken :: dropped ∧
      bottom.position = position + (TokenTree.flattenAll forest.trees).length

/-- A tree in front that the machine passes with an empty stack changes nothing behind it. -/
theorem Forest.Follows.prepend {forest : Forest} {tree : TokenTree} {position : Nat}
    {rest : List Token} (follows : forest.Follows (position + tree.flatten.length) rest)
    (passes : openStack [] position (tree.flatten ++ rest) =
      openStack [] (position + tree.flatten.length) rest) :
    (forest.prepend tree).Follows position (tree.flatten ++ rest) := by
  have flat : TokenTree.flattenAll (forest.prepend tree).trees =
      tree.flatten ++ TokenTree.flattenAll forest.trees := rfl
  refine ⟨?_, ?_, ?_⟩
  · rw [passes]
    exact follows.reported
  · intro empty
    rw [passes] at empty
    rw [flat, follows.whole empty]
  · intro bottom isBottom
    rw [passes] at isBottom
    obtain ⟨dropped, split, place⟩ := follows.cut bottom isBottom
    refine ⟨dropped, ?_, ?_⟩
    · rw [flat, List.append_assoc, ← split]
    · rw [flat, List.length_append, ← Nat.add_assoc]
      exact place

/-- The forest of tokens is what the machine's final stack tells. -/
theorem Groups.follows {tokens : List Token} {forest : Forest} (groups : Groups tokens forest)
    (position : Nat) : forest.Follows position tokens := by
  induction groups generalizing position with
  | nil => exact ⟨rfl, fun _ => rfl, fun _ impossible => by cases impossible⟩
  | @token token tokens forest plain later ih =>
      have passes : openStack [] position (token :: tokens) =
          openStack [] (position + 1) tokens := by
        rw [openStack, stackStep_of_plain plain (by rintro _ ⟨⟩)]
      exact Forest.Follows.prepend (ih (position + 1)) passes
  | @unclosed delimiter opening token tokens reports opens unclosed =>
      have pushed : openStack [] position (token :: tokens) =
          openStack [⟨position, delimiter, opening⟩] (position + 1) tokens := by
        rw [openStack, stackStep_of_opens opens]
      obtain ⟨above, final, named⟩ := unclosed.openStack_eq position [] (position + 1)
      -- Nothing pops this opener any more: it is the bottom of the final stack, and the trees
      -- end before it.
      rw [final] at pushed
      refine ⟨?_, ?_, ?_⟩
      · rw [pushed, named, List.map_append]
        rfl
      · intro empty
        rw [pushed] at empty
        cases above <;> cases empty
      · intro bottom isBottom
        rw [pushed, List.getLast?_append_of_ne_nil _ (List.cons_ne_nil _ _)] at isBottom
        cases isBottom
        exact ⟨tokens, by rw [(Token.opening?_eq_some_iff.1 opens).1]; rfl, rfl⟩
  | @group delimiter opening closing token tokens rest trees forest opens closed later ih =>
      have tokensEq : token :: tokens =
          TokenTree.flatten (.group delimiter opening trees closing) ++ rest := by
        rw [closed.tokens_eq, (Token.opening?_eq_some_iff.1 opens).1, TokenTree.flatten]
        simp only [List.cons_append, List.append_assoc, List.nil_append]
      have passes : openStack [] position (token :: tokens) = openStack []
          (position + (TokenTree.flatten (.group delimiter opening trees closing)).length) rest := by
        rw [openStack, stackStep_of_opens opens, closed.openStack_eq rfl]
        congr 1
        rw [TokenTree.flatten, List.length_cons, List.length_append, List.length_singleton]
        omega
      rw [tokensEq] at passes ⊢
      exact Forest.Follows.prepend (ih _) passes

/-! ## The order of the stack -/

/-- The openers stand among the tokens where they say, the last of them on top. -/
structure StackOf (tokens : List Token) (stack : List Opener) : Prop where
  stands : ∀ opener ∈ stack, tokens[opener.position]? = some opener.mark.toToken
  ordered : stack.Pairwise fun inner outer => outer.position < inner.position

theorem StackOf.nil (tokens : List Token) : StackOf tokens [] :=
  ⟨by simp, .nil⟩

/-- An opener stands before the end of the tokens. -/
theorem StackOf.position_lt {tokens : List Token} {stack : List Opener}
    (stackOf : StackOf tokens stack) {opener : Opener} (mem : opener ∈ stack) :
    opener.position < tokens.length :=
  (List.getElem?_eq_some_iff.1 (stackOf.stands opener mem)).1

/-- One step keeps the openers in their places. -/
theorem StackOf.step {before : List Token} {stack : List Opener} (stackOf : StackOf before stack)
    (token : Token) : StackOf (before ++ [token]) (stackStep stack before.length token) := by
  have kept : ∀ opener ∈ stack, (before ++ [token])[opener.position]? =
      some opener.mark.toToken := by
    intro opener mem
    rw [List.getElem?_append_left (stackOf.position_lt mem)]
    exact stackOf.stands opener mem
  match opens : token.opening? with
  | some (delimiter, mark) =>
      rw [stackStep_of_opens opens]
      refine ⟨List.forall_mem_cons.2 ⟨?_, kept⟩, List.pairwise_cons.2 ⟨?_, stackOf.ordered⟩⟩
      · rw [List.getElem?_concat_length, (Token.opening?_eq_some_iff.1 opens).1]
      · intro outer mem
        exact stackOf.position_lt mem
  | none =>
      cases stack with
      | nil =>
          rw [stackStep_of_plain opens (by rintro _ ⟨⟩)]
          exact .nil _
      | cons top below =>
          match closes : token.closing? top.delimiter with
          | none =>
              rw [stackStep_of_plain opens (by rintro _ ⟨⟩; exact closes)]
              exact ⟨kept, stackOf.ordered⟩
          | some mark =>
              rw [stackStep_of_closes closes]
              exact ⟨fun opener mem => kept opener (List.mem_cons_of_mem _ mem),
                (List.pairwise_cons.1 stackOf.ordered).2⟩

/-- A run keeps the openers in their places. -/
theorem StackOf.run {before : List Token} {stack : List Opener} (stackOf : StackOf before stack)
    (after : List Token) : StackOf (before ++ after) (openStack stack before.length after) := by
  induction after generalizing before stack with
  | nil =>
      rw [List.append_nil]
      exact stackOf
  | cons token after ih =>
      have moved := ih (stackOf.step token)
      rwa [List.append_assoc, List.length_append, List.length_singleton] at moved

/-- The spans on the stack of a whole file go from the last to the first. -/
theorem openStack_spans_ordered (file : SourceFile) :
    (openStack [] 0 file.lex.tokens).Pairwise fun inner outer =>
      outer.mark.span.start < inner.mark.span.start := by
  obtain ⟨last, reads, -⟩ := file.lex_reads
  have stackOf := (StackOf.nil []).run file.lex.tokens
  refine stackOf.ordered.imp_of_mem ?_
  intro inner outer innerMem outerMem earlier
  obtain ⟨innerBound, innerToken⟩ := List.getElem?_eq_some_iff.1 (stackOf.stands inner innerMem)
  obtain ⟨outerBound, outerToken⟩ := List.getElem?_eq_some_iff.1 (stackOf.stands outer outerMem)
  have apart := List.pairwise_iff_getElem.1 reads.pairwise _ _ outerBound innerBound earlier
  change outer.mark.toToken.span.start < inner.mark.toToken.span.start
  rw [← innerToken, ← outerToken]
  exact Nat.lt_of_lt_of_le apart.1 apart.2

end Nesting

/-! ## Trees and the machine -/

/-- Grouping makes no tokens, and drops some behind an unclosed group only. -/
theorem SourceFile.flattenAll_trees_prefix (file : SourceFile) :
    TokenTree.flattenAll file.trees.trees <+: file.lex.tokens := by
  have follows := (Nesting.groups_ofTokens file.lex.tokens).follows 0
  cases unclosed : (Nesting.openStack [] 0 file.lex.tokens).getLast? with
  | none =>
      have whole : TokenTree.flattenAll file.trees.trees = file.lex.tokens :=
        follows.whole (List.getLast?_eq_none_iff.1 unclosed)
      exact ⟨[], by rw [whole, List.append_nil]⟩
  | some bottom =>
      obtain ⟨dropped, split, _⟩ := follows.cut bottom unclosed
      exact ⟨_, split.symm⟩

/-- The tree stands somewhere in the list, perhaps deep inside its groups. -/
inductive TokenTree.Occurs (tree : TokenTree) : List TokenTree → Prop where
  | here {trees : List TokenTree} (mem : tree ∈ trees) : Occurs tree trees
  | within {trees inner : List TokenTree} {delimiter : Delimiter}
      {opening closing : Punctuation} (mem : .group delimiter opening inner closing ∈ trees)
      (occurs : Occurs tree inner) : Occurs tree trees

/-- Every tree inside well nested trees is well nested. -/
theorem TokenTree.Occurs.wellNested {tree : TokenTree} {trees : List TokenTree}
    (occurs : tree.Occurs trees) (nested : ∀ tree ∈ trees, tree.WellNested) :
    tree.WellNested := by
  induction occurs with
  | here mem => exact nested _ mem
  | within mem occurs ih =>
      cases nested _ mem with
      | group begins ends inside stays => exact ih inside

/--
Grouping a file's tokens is the work of the stack machine. The delimiters left on its
final stack are reported from top to bottom, that is from the last to the first; the
trees hold all the tokens, or all before the bottom of the stack; and every group
stands between its own delimiters, with no opening character and no character that
would close it among its direct leaves.
-/
theorem SourceFile.trees_follow_openStack (file : SourceFile) :
    let final := Nesting.openStack [] 0 file.lex.tokens
    file.trees.reports = file.lex.ending.reports ++ final.map Nesting.Opener.report ∧
    (final.Pairwise fun inner outer => outer.mark.span.start < inner.mark.span.start) ∧
    (final = [] → TokenTree.flattenAll file.trees.trees = file.lex.tokens) ∧
    (∀ bottom ∈ final.getLast?, ∃ dropped,
      file.lex.tokens =
        TokenTree.flattenAll file.trees.trees ++ bottom.mark.toToken :: dropped ∧
      bottom.position = (TokenTree.flattenAll file.trees.trees).length) ∧
    (∀ delimiter opening inner closing,
      TokenTree.Occurs (.group delimiter opening inner closing) file.trees.trees →
      opening.mark = delimiter.opening ∧ closing.mark = delimiter.closing ∧
      ∀ leaf, .token leaf ∈ inner →
        (∀ other : Delimiter, leaf.kind ≠ .punctuation other.opening) ∧
        leaf.kind ≠ .punctuation delimiter.closing) := by
  have groups := Nesting.groups_ofTokens file.lex.tokens
  have follows := groups.follows 0
  refine ⟨congrArg _ follows.reported, Nesting.openStack_spans_ordered file, follows.whole, ?_, ?_⟩
  · intro bottom isBottom
    obtain ⟨dropped, split, place⟩ := follows.cut bottom isBottom
    rw [Nat.zero_add] at place
    exact ⟨dropped, split, place⟩
  · intro delimiter opening inner closing occurs
    cases occurs.wellNested groups.wellNested with
    | group begins ends inside stays =>
        refine ⟨begins, ends, ?_⟩
        intro leaf mem
        cases inside _ mem with
        | token plain =>
            exact ⟨Token.opening?_eq_none_iff.1 plain,
              Token.closing?_eq_none_iff.1 (stays leaf mem)⟩

end BuildScript
