import BuildScript.Proofs.Grouping
import BuildScript.Proofs.Relocation

/-!
# Tokens and trees without blanks and comments

The condensed form of tokens or trees: blanks and comments are left out at every
depth, and every span is moved. Grouping and condensing can change places, so the
trees of a script depend on its blanks and comments only in where these stand.
-/

namespace BuildScript

section

variable (move : Span → Span)

/-- The tokens that count for the grammar, with their spans moved. -/
def Token.condenseAll (tokens : List Token) : List Token :=
  (tokens.filter Token.isSignificant).map (Token.relocate move)

namespace TokenTree

mutual

/-- A tree without blanks and comments inside, its spans moved. -/
def condense : TokenTree → TokenTree
  | .token leaf => .token (leaf.relocate move)
  | .group delimiter opening trees closing =>
      .group delimiter (opening.relocate move) (condenseAll trees) (closing.relocate move)

def condenseAll : List TokenTree → List TokenTree
  | [] => []
  | tree :: trees =>
      if tree.isSignificant then condense tree :: condenseAll trees else condenseAll trees

end

end TokenTree

def Nesting.Forest.condense (forest : Nesting.Forest) : Nesting.Forest :=
  ⟨TokenTree.condenseAll move forest.trees, forest.reports.map (LexicalError.relocate move)⟩

/-! ## Tokens -/

namespace Token

variable {move}

theorem condenseAll_cons_of_significant {token : Token} (significant : token.isSignificant = true)
    (tokens : List Token) :
    condenseAll move (token :: tokens) = token.relocate move :: condenseAll move tokens := by
  rw [condenseAll, List.filter_cons_of_pos significant]
  rfl

theorem condenseAll_cons_of_insignificant {token : Token}
    (insignificant : token.isSignificant = false) (tokens : List Token) :
    condenseAll move (token :: tokens) = condenseAll move tokens := by
  rw [condenseAll, List.filter_cons_of_neg (by rw [insignificant]; decide)]
  rfl

theorem condenseAll_append (front back : List Token) :
    condenseAll move (front ++ back) = condenseAll move front ++ condenseAll move back := by
  rw [condenseAll, List.filter_append, List.map_append]
  rfl

theorem isSignificant_of_opening? {token : Token} {delimiter : Delimiter} {mark : Punctuation}
    (opens : token.opening? = some (delimiter, mark)) : token.isSignificant = true := by
  rw [(opening?_eq_some_iff.1 opens).1]
  rfl

theorem isSignificant_of_closing? {token : Token} {delimiter : Delimiter} {mark : Punctuation}
    (closes : token.closing? delimiter = some mark) : token.isSignificant = true := by
  rw [(closing?_eq_some_iff.1 closes).1]
  rfl

theorem opening?_relocate_of_opens {token : Token} {delimiter : Delimiter} {mark : Punctuation}
    (opens : token.opening? = some (delimiter, mark)) :
    (token.relocate move).opening? = some (delimiter, mark.relocate move) := by
  obtain ⟨same, begins⟩ := opening?_eq_some_iff.1 opens
  exact opening?_eq_some_iff.2 ⟨by rw [same]; rfl, begins⟩

theorem opening?_relocate_of_plain {token : Token} (plain : token.opening? = none) :
    (token.relocate move).opening? = none := by
  have noOpening := opening?_eq_none_iff.1 plain
  exact opening?_eq_none_iff.2 noOpening

theorem closing?_relocate_of_closes {token : Token} {delimiter : Delimiter} {mark : Punctuation}
    (closes : token.closing? delimiter = some mark) :
    (token.relocate move).closing? delimiter = some (mark.relocate move) := by
  obtain ⟨same, ends⟩ := closing?_eq_some_iff.1 closes
  exact closing?_eq_some_iff.2 ⟨by rw [same]; rfl, ends⟩

theorem closing?_relocate_of_stays {token : Token} {delimiter : Delimiter}
    (stays : token.closing? delimiter = none) :
    (token.relocate move).closing? delimiter = none := by
  have noClosing := closing?_eq_none_iff.1 stays
  exact closing?_eq_none_iff.2 noClosing

end Token

/-! ## Trees -/

namespace TokenTree

theorem isSignificant_condense (tree : TokenTree) :
    (tree.condense move).isSignificant = tree.isSignificant := by
  cases tree <;> rfl

theorem condenseAll_eq (trees : List TokenTree) :
    condenseAll move trees = (trees.filter isSignificant).map (condense move) := by
  induction trees with
  | nil => rfl
  | cons tree trees ih =>
      cases significant : tree.isSignificant
      · rw [condenseAll, if_neg (by rw [significant]; decide), ih,
          List.filter_cons_of_neg (by rw [significant]; decide)]
      · rw [condenseAll, if_pos significant, ih, List.filter_cons_of_pos significant,
          List.map_cons]

theorem condenseAll_append (front back : List TokenTree) :
    condenseAll move (front ++ back) = condenseAll move front ++ condenseAll move back := by
  rw [condenseAll_eq, List.filter_append, List.map_append, ← condenseAll_eq, ← condenseAll_eq]

/-- Trees that do not count leave nothing behind. -/
theorem condenseAll_eq_nil {trees : List TokenTree}
    (blank : ∀ tree ∈ trees, tree.isSignificant = false) : condenseAll move trees = [] := by
  rw [condenseAll_eq, List.filter_eq_nil_iff.2, List.map_nil]
  intro tree member
  rw [blank tree member]
  decide

/-- All trees of a condensed list count. -/
theorem isSignificant_of_mem_condenseAll {trees : List TokenTree} {tree : TokenTree}
    (member : tree ∈ condenseAll move trees) : tree.isSignificant = true := by
  rw [condenseAll_eq] at member
  obtain ⟨source, kept, rfl⟩ := List.mem_map.1 member
  rw [isSignificant_condense]
  exact (List.mem_filter.1 kept).2

theorem condenseAll_token (leaf : Token) (trees : List TokenTree) :
    condenseAll move (.token leaf :: trees) =
      if leaf.isSignificant then .token (leaf.relocate move) :: condenseAll move trees
      else condenseAll move trees := rfl

theorem condenseAll_group (delimiter : Delimiter) (opening closing : Punctuation)
    (inner trees : List TokenTree) :
    condenseAll move (.group delimiter opening inner closing :: trees) =
      .group delimiter (opening.relocate move) (condenseAll move inner)
        (closing.relocate move) :: condenseAll move trees := rfl

mutual

/-- The tokens of a condensed tree that counts are the tree's condensed tokens. -/
theorem flatten_condense : (tree : TokenTree) → tree.isSignificant = true →
    flatten (tree.condense move) = Token.condenseAll move (flatten tree)
  | .token leaf, significant => by
      change [leaf.relocate move] = Token.condenseAll move [leaf]
      rw [Token.condenseAll_cons_of_significant significant]
      rfl
  | .group delimiter opening trees closing, _ => by
      rw [condense, flatten, flatten, flattenAll_condenseAll trees,
        Token.condenseAll_cons_of_significant rfl, Token.condenseAll_append]
      rfl

/-- The tokens of condensed trees are the trees' condensed tokens. -/
theorem flattenAll_condenseAll : (trees : List TokenTree) →
    flattenAll (condenseAll move trees) = Token.condenseAll move (flattenAll trees)
  | [] => rfl
  | tree :: trees => by
      rw [flattenAll, Token.condenseAll_append, ← flattenAll_condenseAll trees]
      cases significant : tree.isSignificant
      · rw [condenseAll, if_neg (by rw [significant]; decide)]
        cases tree with
        | token leaf =>
            rw [flatten, Token.condenseAll_cons_of_insignificant significant]
            rfl
        | group delimiter opening inner closing => cases significant
      · rw [condenseAll, if_pos significant, flattenAll, flatten_condense tree significant]

end

end TokenTree

/-! ## Grouping condensed tokens -/

namespace Nesting

open TokenTree (condenseAll)

variable {move}

/-- A group closes among the condensed tokens where it closes among the tokens. -/
theorem Closes.condense {delimiter : Delimiter} {tokens rest : List Token}
    {trees : List TokenTree} {closing : Punctuation}
    (closed : Closes delimiter tokens trees closing rest) :
    Closes delimiter (Token.condenseAll move tokens) (condenseAll move trees)
      (closing.relocate move) (Token.condenseAll move rest) := by
  induction closed with
  | here closes =>
      rw [Token.condenseAll_cons_of_significant (Token.isSignificant_of_closing? closes)]
      exact .here (Token.closing?_relocate_of_closes closes)
  | @token delimiter token tokens rest trees mark stays plain later ih =>
      rw [TokenTree.condenseAll_token]
      cases significant : token.isSignificant
      · rw [Token.condenseAll_cons_of_insignificant significant]
        exact ih
      · rw [Token.condenseAll_cons_of_significant significant]
        exact .token (Token.closing?_relocate_of_stays stays)
          (Token.opening?_relocate_of_plain plain) ih
  | group stays opens closed later ihInner ihLater =>
      rw [Token.condenseAll_cons_of_significant (Token.isSignificant_of_opening? opens),
        TokenTree.condenseAll_group]
      exact .group (Token.closing?_relocate_of_stays stays)
        (Token.opening?_relocate_of_opens opens) ihInner ihLater

/-- A group that never closes does not close among the condensed tokens either. -/
theorem Unclosed.condense {delimiter : Delimiter} {opening : Punctuation} {tokens : List Token}
    {reports : List LexicalError} (unclosed : Unclosed delimiter opening tokens reports) :
    Unclosed delimiter (opening.relocate move) (Token.condenseAll move tokens)
      (reports.map (LexicalError.relocate move)) := by
  induction unclosed with
  | exhausted => exact .exhausted
  | @token delimiter opening token tokens reports stays plain later ih =>
      cases significant : token.isSignificant
      · rw [Token.condenseAll_cons_of_insignificant significant]
        exact ih
      · rw [Token.condenseAll_cons_of_significant significant]
        exact .token (Token.closing?_relocate_of_stays stays)
          (Token.opening?_relocate_of_plain plain) ih
  | within stays opens unclosed ih =>
      rw [Token.condenseAll_cons_of_significant (Token.isSignificant_of_opening? opens),
        List.map_append]
      exact .within (Token.closing?_relocate_of_stays stays)
        (Token.opening?_relocate_of_opens opens) ih
  | group stays opens closed later ih =>
      rw [Token.condenseAll_cons_of_significant (Token.isSignificant_of_opening? opens)]
      exact .group (Token.closing?_relocate_of_stays stays)
        (Token.opening?_relocate_of_opens opens) closed.condense ih

/-- Condensed tokens group into the condensed forest. -/
theorem Groups.condense {tokens : List Token} {forest : Forest} (groups : Groups tokens forest) :
    Groups (Token.condenseAll move tokens) (forest.condense move) := by
  induction groups with
  | nil => exact .nil
  | @token token tokens forest plain later ih =>
      rw [Forest.condense, Forest.prepend, TokenTree.condenseAll_token]
      cases significant : token.isSignificant
      · rw [Token.condenseAll_cons_of_insignificant significant]
        exact ih
      · rw [Token.condenseAll_cons_of_significant significant]
        exact .token (Token.opening?_relocate_of_plain plain) ih
  | unclosed opens unclosed =>
      rw [Token.condenseAll_cons_of_significant (Token.isSignificant_of_opening? opens)]
      exact .unclosed (Token.opening?_relocate_of_opens opens) unclosed.condense
  | group opens closed later ih =>
      rw [Token.condenseAll_cons_of_significant (Token.isSignificant_of_opening? opens)]
      exact .group (Token.opening?_relocate_of_opens opens) closed.condense ih

/-- Grouping and condensing can change places. -/
theorem ofTokens_condenseAll (tokens : List Token) :
    ofTokens (Token.condenseAll move tokens) = (ofTokens tokens).condense move :=
  (groups_ofTokens tokens).condense.ofTokens_eq

end Nesting

end

end BuildScript
