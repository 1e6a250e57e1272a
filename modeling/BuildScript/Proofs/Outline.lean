import BuildScript.Proofs.Acceptance

/-!
# Outlines

What a text says apart from blanks, comments and places: words, marks and the contents
of literals, nested by delimiters. The outline of a file is read off its token trees,
and it is known as soon as the atoms are known that its tokens stand for.
-/

namespace BuildScript

open TokenTree (condense condenseAll flattenAll)

inductive Atom where
  | word (text : String)
  | mark (mark : Char)
  | literal (content : String)
  deriving DecidableEq, Repr

def Atom.isPlain : Atom → Bool
  | .mark sign => !(['(', ')', '[', ']', '{', '}'].contains sign)
  | _ => true

/-- Atoms nested by delimiters. -/
inductive Outline where
  | atom (atom : Atom)
  | group (delimiter : Delimiter) (inside : List Outline)
  deriving Repr

/-- What a token stands for: a character, the content of a literal, or the token's text. -/
def Token.atom (token : Token) : Atom :=
  match token.kind with
  | .punctuation mark => .mark mark
  | .stringLiteral => .literal (⟨token.span⟩ : StringLiteral).content
  | _ => .word token.text

namespace TokenTree

mutual

def outline : TokenTree → Outline
  | .token leaf => .atom leaf.atom
  | .group delimiter _ trees _ => .group delimiter (outlineAll trees)

def outlineAll : List TokenTree → List Outline
  | [] => []
  | tree :: trees =>
      if tree.isSignificant then outline tree :: outlineAll trees else outlineAll trees

end

theorem outlineAll_token {leaf : Token} (counts : leaf.isSignificant = true)
    (trees : List TokenTree) :
    outlineAll (.token leaf :: trees) = .atom leaf.atom :: outlineAll trees := by
  have significant : (TokenTree.token leaf).isSignificant = true := counts
  rw [outlineAll, if_pos significant, outline]

theorem outlineAll_group (delimiter : Delimiter) (opening closing : Punctuation)
    (inside trees : List TokenTree) :
    outlineAll (.group delimiter opening inside closing :: trees) =
      .group delimiter (outlineAll inside) :: outlineAll trees := rfl

end TokenTree

open TokenTree (outline outlineAll)

def SourceFile.outline (file : SourceFile) : List Outline :=
  outlineAll file.trees.trees

namespace Outline

@[match_pattern]
abbrev word (text : String) : Outline :=
  .atom (.word text)

@[match_pattern]
abbrev mark (sign : Char) : Outline :=
  .atom (.mark sign)

@[match_pattern]
abbrev literal (content : String) : Outline :=
  .atom (.literal content)

/-! ## Looking something up -/

/-- The value, if the outlines begin with an assignment to the name. -/
def assignedHere? (name : String) : List Outline → Option Outline
  | .word text :: .mark '=' :: value :: _ => if text = name then some value else none
  | _ => none

def assigned (name : String) (outlines : List Outline) : List Outline :=
  outlines.tails.filterMap (assignedHere? name)

/-- The arguments, if the outlines begin with a call of the name. -/
def calledHere? (name : String) : List Outline → Option (List Outline)
  | .word text :: .group .parenthesis inside :: _ => if text = name then some inside else none
  | _ => none

def calls (name : String) (outlines : List Outline) : List (List Outline) :=
  outlines.tails.filterMap (calledHere? name)

def literal? : Outline → Option String
  | .literal content => some content
  | _ => none

/-- The contents of the literals in a bracket group, in order. -/
def listed? : Outline → Option (List String)
  | .group .bracket inside => some (inside.filterMap literal?)
  | _ => none

/-! ## Atoms -/

mutual

/-- The atoms of an outline, the delimiters of its groups among them. -/
def atoms : Outline → List Atom
  | .atom leaf => [leaf]
  | .group delimiter inside =>
      .mark delimiter.opening :: (atomsAll inside ++ [.mark delimiter.closing])

def atomsAll : List Outline → List Atom
  | [] => []
  | outline :: outlines => atoms outline ++ atomsAll outlines

end

theorem atomsAll_append (front back : List Outline) :
    atomsAll (front ++ back) = atomsAll front ++ atomsAll back := by
  induction front with
  | nil => rfl
  | cons outline outlines ih => simp only [List.cons_append, atomsAll, ih, List.append_assoc]

theorem atomsAll_flatMap {α : Type} (say : α → List Outline) (values : List α) :
    atomsAll (values.flatMap say) = values.flatMap fun value => atomsAll (say value) := by
  induction values with
  | nil => rfl
  | cons value values ih => rw [List.flatMap_cons, atomsAll_append, ih, List.flatMap_cons]

mutual

/-- Whether delimiters occur around groups only. -/
def isNested : Outline → Bool
  | .atom leaf => leaf.isPlain
  | .group _ inside => areNested inside

def areNested : List Outline → Bool
  | [] => true
  | outline :: outlines => isNested outline && areNested outlines

end

theorem areNested_append (front back : List Outline) :
    areNested (front ++ back) = (areNested front && areNested back) := by
  induction front with
  | nil => rfl
  | cons outline outlines ih => simp only [List.cons_append, areNested, ih, Bool.and_assoc]

theorem areNested_flatMap {α : Type} {say : α → List Outline}
    (each : ∀ value, areNested (say value) = true) (values : List α) :
    areNested (values.flatMap say) = true := by
  induction values with
  | nil => rfl
  | cons value values ih => rw [List.flatMap_cons, areNested_append, each, ih, Bool.and_true]

end Outline

namespace Token

variable {token : Token}

/-- A token that stands for a mark is that punctuation character. -/
theorem eq_toToken_of_atom {mark : Char} (stands : token.atom = .mark mark) :
    token = (⟨mark, token.span⟩ : Punctuation).toToken := by
  obtain ⟨kind, span⟩ := token
  cases kind <;> cases stands
  rfl

/-- A token that stands for a plain atom neither opens nor closes a group. -/
theorem plain_of_atom (plain : token.atom.isPlain = true) :
    token.opening? = none ∧ ∀ delimiter, token.closing? delimiter = none := by
  obtain ⟨kind, span⟩ := token
  cases kind with
  | punctuation mark =>
      simp only [atom, Atom.isPlain, List.contains_eq_mem, List.mem_cons, List.not_mem_nil,
        Bool.not_eq_true', decide_eq_false_iff_not, not_or, or_false] at plain
      refine ⟨?_, fun delimiter => ?_⟩
      · simp [opening?, punctuation?, Delimiter.ofOpening?, plain]
      · cases delimiter <;> simp [closing?, punctuation?, Delimiter.closing, plain]
  | blanks | identifier | keyword | numeric | comment | stringLiteral => exact ⟨rfl, fun _ => rfl⟩

end Token

namespace Outline

/-- Tokens that stand for the atoms of nested outlines are those of trees with these outlines. -/
theorem exists_trees : {outlines : List Outline} → areNested outlines = true →
    {tokens : List Token} → (∀ token ∈ tokens, token.isSignificant = true) →
    tokens.map Token.atom = atomsAll outlines →
    ∃ trees, flattenAll trees = tokens ∧ outlineAll trees = outlines ∧
      (∀ tree ∈ trees, tree.WellNested) ∧
        ∀ leaf, .token leaf ∈ trees → ∀ delimiter, leaf.closing? delimiter = none
  | [], _, tokens, _, stand => by
      rw [atomsAll, List.map_eq_nil_iff] at stand
      subst stand
      exact ⟨[], rfl, rfl, by simp, by simp⟩
  | .atom leaf :: outlines, nested, tokens, significant, stand => by
      obtain ⟨plain, others⟩ := Bool.and_eq_true_iff.1 nested
      obtain ⟨token, later, rfl, rfl, more⟩ := List.map_eq_cons_iff.1 stand
      obtain ⟨counts, laterCount⟩ := List.forall_mem_cons.1 significant
      obtain ⟨trees, flat, outlined, wellNested, stay⟩ := exists_trees others laterCount more
      obtain ⟨opensNone, closesNone⟩ : token.opening? = none ∧ _ := Token.plain_of_atom plain
      refine ⟨.token token :: trees, ?_, ?_, ?_, ?_⟩
      · rw [flattenAll, flat]
        rfl
      · rw [TokenTree.outlineAll_token counts, outlined]
      · exact List.forall_mem_cons.2 ⟨.token opensNone, wellNested⟩
      · intro other member
        rcases List.mem_cons.1 member with same | inLater
        · cases same
          exact closesNone
        · exact stay other inLater
  | .group delimiter inside :: outlines, nested, tokens, significant, stand => by
      obtain ⟨nestedInside, others⟩ := Bool.and_eq_true_iff.1 nested
      obtain ⟨first, rest, rfl, isOpening, more⟩ := List.map_eq_cons_iff.1 stand
      have split := more.trans (List.append_assoc _ _ _)
      obtain ⟨inner, behind, rfl, within, after⟩ := List.map_eq_append_iff.1 split
      obtain ⟨last, later, rfl, isClosing, further⟩ := List.map_eq_cons_iff.1 after
      simp only [List.forall_mem_cons, List.forall_mem_append] at significant
      obtain ⟨_, innerCount, _, laterCount⟩ := significant
      obtain ⟨insideTrees, insideFlat, insideOutlined, insideNested, insideStay⟩ :=
        exists_trees nestedInside innerCount within
      obtain ⟨trees, flat, outlined, wellNested, stay⟩ := exists_trees others laterCount further
      refine ⟨.group delimiter ⟨delimiter.opening, first.span⟩ insideTrees
        ⟨delimiter.closing, last.span⟩ :: trees, ?_, ?_, ?_, ?_⟩
      · rw [flattenAll, TokenTree.flatten, insideFlat, flat, ← Token.eq_toToken_of_atom isOpening,
          ← Token.eq_toToken_of_atom isClosing]
        simp
      · rw [TokenTree.outlineAll_group, insideOutlined, outlined]
      · exact List.forall_mem_cons.2
          ⟨.group rfl rfl insideNested fun leaf member => insideStay leaf member delimiter,
            wellNested⟩
      · intro leaf member
        rcases List.mem_cons.1 member with impossible | inLater
        · cases impossible
        · exact stay leaf inLater

end Outline

/-! ## Files -/

namespace TokenTree

mutual

theorem outline_condense : (tree : TokenTree) → outline (tree.condense id) = outline tree
  | .token leaf => rfl
  | .group delimiter opening trees closing => by
      rw [condense, outline, outline, outlineAll_condenseAll trees]

/-- Nothing of an outline is lost when the trees are condensed. -/
theorem outlineAll_condenseAll : (trees : List TokenTree) →
    outlineAll (condenseAll id trees) = outlineAll trees
  | [] => rfl
  | tree :: trees => by
      rw [condenseAll, outlineAll]
      by_cases counts : tree.isSignificant = true
      · rw [if_pos counts, if_pos counts, outlineAll, isSignificant_condense, if_pos counts,
          outline_condense tree, outlineAll_condenseAll trees]
      · rw [if_neg counts, if_neg counts, outlineAll_condenseAll trees]

end

end TokenTree

/--
A file that is read to its end and whose tokens stand for the atoms of nested outlines
has these outlines, and nothing is reported about it.
-/
theorem SourceFile.outline_of_atoms {file : SourceFile} {outlines : List Outline}
    (nested : Outline.areNested outlines = true) (ending : file.lex.ending = .endOfSource)
    (stand : file.significantTokens.map Token.atom = Outline.atomsAll outlines) :
    file.tokenize.reports = [] ∧ file.outline = outlines := by
  have significant : ∀ token ∈ file.significantTokens, token.isSignificant = true :=
    fun token member => (List.mem_filter.1 member).2
  obtain ⟨trees, flat, outlined, wellNested, _⟩ := Outline.exists_trees nested significant stand
  have grouped := Nesting.ofTokens_flattenAll wellNested
  rw [flat] at grouped
  have condensed : Nesting.ofTokens (Token.condenseAll id file.lex.tokens) = _ :=
    Nesting.ofTokens_condenseAll file.lex.tokens
  rw [Token.condenseAll_id] at condensed
  have forest := condensed.symm.trans grouped
  constructor
  · have unreported : (Nesting.ofTokens file.lex.tokens).reports = [] :=
      List.map_eq_nil_iff.1 (congrArg Nesting.Forest.reports forest)
    rw [file.tokenize_reports_eq_nil_iff]
    change file.lex.ending.reports ++ _ = []
    rw [ending, unreported]
    rfl
  · rw [SourceFile.outline, ← TokenTree.outlineAll_condenseAll, file.condenseAll_trees, grouped]
    exact outlined

end BuildScript
