import BuildScript.Proofs.Recovery

/-!
# Reading a group keeps the frames balanced

To read the inside of a group the parser sets its frame aside and takes it up again behind the
group. Whatever the rule for the inside does in between, reading and failing in groups of its
own included, the frames set aside are the same afterwards and the parser stands where the
trees of its frame say: at a tree that is no such group, or one tree behind the group.
-/

namespace BuildScript.Grammar

/-- The place of the first tree ahead that counts for the grammar, or the end if there is none. -/
structure Frame.SkipsTo (frame : Frame) (place : Nat) : Prop where
  reached : frame.index ≤ place
  blank : ∀ index, frame.index ≤ index → index < place →
    ∃ tree, frame.trees[index]? = some tree ∧ tree.isSignificant = false
  counts : ∀ tree, frame.trees[place]? = some tree → tree.isSignificant = true

theorem Frame.skipsTo_toSignificant (frame : Frame) :
    frame.SkipsTo frame.toSignificant.index := by
  refine ⟨Nat.le_add_right _ _, ?_, ?_⟩
  · intro index reached before
    have inside : index < frame.trees.length := by
      have skipped := frame.length_takeWhile_le_remaining fun tree => !tree.isSignificant
      rw [remaining] at skipped
      change index < frame.index + (frame.rest.takeWhile _).length at before
      omega
    have found := List.getElem?_eq_getElem inside
    have blank := of_skipped (fun tree => !tree.isSignificant) reached before found
    rw [Bool.not_eq_true'] at blank
    exact ⟨_, found, blank⟩
  · intro tree found
    have counts := not_of_reached (fun tree => !tree.isSignificant) found
    rwa [Bool.not_eq_false'] at counts

namespace Rule

variable {α : Type}

/-- A node is kept at the end of a group if nothing behind it in the group counts. -/
theorem closeGroup_eq_some_iff {delimiter : Delimiter} {node : Option α} {parser : Parser}
    {value : α} : (closeGroup delimiter node parser).1 = some value ↔
      node = some value ∧ ∀ tree ∈ parser.frame.rest, tree.isSignificant = false := by
  rw [← Frame.isExhausted_iff]
  cases node with
  | none => simp [closeGroup]
  | some node =>
      cases exhausted : parser.frame.isExhausted with
      | false =>
          rw [closeGroup_of_left node exhausted]
          constructor
          · intro impossible
            cases impossible
          · rintro ⟨_, impossible⟩
            cases impossible
      | true =>
          rw [closeGroup_of_exhausted node exhausted]
          exact (and_iff_left rfl).symm

/-- The group that comes next is the first tree ahead that counts. -/
theorem groupAhead?_iff_getElem? {delimiter : Delimiter} {frame : Frame}
    {opening closing : Punctuation} {trees : List TokenTree} :
    groupAhead? delimiter frame = some (opening, trees, closing) ↔
      frame.trees[frame.toSignificant.index]? =
        some (.group delimiter opening trees closing) := by
  constructor
  · intro ahead
    exact (groupAhead?_place ahead).1
  · intro found
    have first : frame.toSignificant.rest.head? = some (.group delimiter opening trees closing) :=
      List.head?_drop.trans found
    obtain ⟨behind, restEq⟩ := List.head?_eq_some_iff.1 first
    exact groupAhead?_eq_some_iff.2 ⟨behind, restEq⟩

/--
What reading a group does to a parser, by the tree at the place. The rule for the inside starts
at the first tree of the group, with the frame behind the group set aside.
-/
structure Balanced (delimiter : Delimiter) (inside : Rule α) (parser : Parser) (place : Nat)
    (node : Option (Enclosed α)) (after : Parser) : Prop where
  stack : after.stack = parser.stack
  trees : after.frame.trees = parser.frame.trees
  closing : after.frame.closing = parser.frame.closing
  /-- No such group stands at the place: it is not passed, and one error is reported. -/
  refused : (∀ opening trees closing,
      parser.frame.trees[place]? ≠ some (.group delimiter opening trees closing)) →
    node = none ∧ after.frame.index = place ∧ ∃ error, after.reports = parser.reports ++ [error]
  /-- Such a group is passed; its node is the one inside, if nothing that counts is left there. -/
  entered : ∀ opening trees closing,
      parser.frame.trees[place]? = some (.group delimiter opening trees closing) →
    after.frame.index = place + 1 ∧ ∃ kept, node = some ⟨opening, kept, closing⟩ ∧
      ∀ found within, inside ⟨⟨trees, 0, some closing⟩,
          ⟨parser.frame.trees, place + 1, parser.frame.closing⟩ :: parser.stack,
          parser.reports⟩ = (found, within) →
        ∀ value, kept = some value ↔ found = some value ∧
          ∀ tree ∈ trees.drop within.frame.index, tree.isSignificant = false

/--
However the rule for the inside is made of operations, and whether it fails or not, the frames
are balanced behind it.
-/
theorem enclosed_balanced {inside : Rule α} (operates : Operates inside) (delimiter : Delimiter)
    (parser : Parser) :
    ∃ place, parser.frame.SkipsTo place ∧
      Balanced delimiter inside parser place (enclosed delimiter inside parser).1
        (enclosed delimiter inside parser).2 := by
  have continues := Advances.enclosed delimiter operates.advances parser
  refine ⟨parser.frame.toSignificant.index, parser.frame.skipsTo_toSignificant,
    continues.stack, continues.trees, continues.closing, ?_, ?_⟩
  · intro other
    have absent : groupAhead? delimiter parser.frame = none := by
      cases ahead : groupAhead? delimiter parser.frame with
      | none => rfl
      | some group => exact absurd (groupAhead?_iff_getElem?.1 ahead) (other _ _ _)
    rw [enclosed_of_absent absent]
    exact ⟨rfl, rfl, _, rfl⟩
  · intro opening trees closing found
    have ahead := groupAhead?_iff_getElem?.2 found
    have behind : parser.frame.toSignificant.forward =
        ⟨parser.frame.trees, parser.frame.toSignificant.index + 1, parser.frame.closing⟩ := by
      obtain ⟨_, restEq⟩ := groupAhead?_eq_some_iff.1 ahead
      rw [Frame.forward_of_rest_eq_cons _ restEq]
      rfl
    refine ⟨?_, ?_⟩
    · rw [enclosed_frame operates.advances ahead, behind]
    · rw [enclosed_of_group ahead, enter, behind]
      refine ⟨_, rfl, ?_⟩
      intro node within step value
      have inGroup : within.frame.trees = trees := (continues_of_runs (operates.runs step)).trees
      rw [step, closeGroup_eq_some_iff, Frame.rest, inGroup]

end Rule

namespace FrameBalance

open Rule

/-- Reads a string behind a group that has more in it than a string, and one that is missing. -/
def stubborn : Rule StringLiteral := do
  let _ ← (enclosed .bracket stringLiteral).tried
  let _ ← (enclosed .parenthesis (pure ())).tried
  stringLiteral

def nested : Parser :=
  .ofTrees (SourceFile.ofText 0 "nested" "/**/\x7b['b' c] 'a' \x7d").trees.trees

theorem nested_balanced :
    Operates stubborn ∧ (enclosed .brace stubborn nested).2.frame.index = 2 ∧
      (enclosed .brace stubborn nested).2.reports.length = 2 ∧
      ∃ place, nested.frame.SkipsTo place ∧
        Balanced .brace stubborn nested place (enclosed .brace stubborn nested).1
          (enclosed .brace stubborn nested).2 := by
  have operates : Operates stubborn :=
    .bind (.tried (.enclosed _ .stringLiteral)) fun _ =>
      .bind (.tried (.enclosed _ (.pure _))) fun _ => .stringLiteral
  exact ⟨operates, by decide +kernel, by decide +kernel, enclosed_balanced operates .brace nested⟩

end FrameBalance

end BuildScript.Grammar
