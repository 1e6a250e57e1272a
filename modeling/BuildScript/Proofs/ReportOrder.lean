import BuildScript.Proofs.Acceptance
import BuildScript.Proofs.Blame
import BuildScript.Proofs.OpenStack
import Mathlib.Order.WithBot

/-!
# Syntax errors come in the order of the text

Every attempt at a declaration that fails blames one token. Reading resumes behind that
token, or at it when it is a keyword that begins a declaration; such a keyword is never
blamed by the attempt that it begins. So no error blames a token at or before one that
was blamed earlier, and nothing is reported behind the end of the script.
-/

namespace BuildScript

open Grammar (Frame Parser Rule)
open TokenTree (flattenAll)

/-! ## Positions -/

/-- Where the blamed token starts; the end of the script is behind everything. -/
def SyntaxError.position : SyntaxError → WithTop Nat
  | .unexpected _ (some token) => WithTop.some token.span.start
  | .unexpected _ none => ⊤
  | .unknownRepository name _ => WithTop.some name.start

def Token.Before (first second : Token) : Prop :=
  first.span.start < second.span.start

namespace SyntaxError

variable {error other : SyntaxError}

theorem position_of_some {token : Token} (blamed : error.blamed? = some token) :
    error.position = WithTop.some token.span.start := by
  cases error with
  | unexpected expected found =>
      cases found <;> cases blamed
      rfl
  | unknownRepository name alternatives =>
      cases blamed
      rfl

theorem position_of_none (blamed : error.blamed? = none) : error.position = ⊤ := by
  cases error with
  | unexpected expected found =>
      cases blamed
      rfl
  | unknownRepository name alternatives => cases blamed

/-- The error blames a token of the trees, or the end of the script. -/
def Within (error : SyntaxError) (trees : List TokenTree) : Prop :=
  ∀ token, error.blamed? = some token → token ∈ flattenAll trees

theorem Within.append {trees : List TokenTree} (within : error.Within trees)
    (front : List TokenTree) : error.Within (front ++ trees) := by
  intro token blamed
  rw [TokenTree.flattenAll_append]
  exact List.mem_append_right _ (within token blamed)

/-- A token of some trees stands before whatever is blamed behind them. -/
theorem position_lt {front back : List TokenTree} {token : Token}
    (ordered : (flattenAll (front ++ back)).Pairwise Token.Before)
    (blamed : error.blamed? = some token) (among : token ∈ flattenAll front)
    (behind : other.Within back) : error.position < other.position := by
  rw [position_of_some blamed]
  cases otherBlamed : other.blamed? with
  | none =>
      rw [position_of_none otherBlamed]
      exact WithTop.coe_lt_top _
  | some later =>
      rw [TokenTree.flattenAll_append] at ordered
      have apart := (List.pairwise_append.1 ordered).2.2
      rw [position_of_some otherBlamed]
      exact WithTop.coe_lt_coe.2 (apart token among later (behind later otherBlamed))

end SyntaxError

namespace Grammar

/-! ## One attempt -/

/-- What is left behind a place is in order if what is left at it is. -/
theorem Parser.Continues.ordered {before after : Parser} (continues : before.Continues after)
    (ordered : (flattenAll before.frame.rest).Pairwise Token.Before) :
    (flattenAll after.frame.rest).Pairwise Token.Before := by
  obtain ⟨passed, way⟩ := continues.rest_eq_append
  rw [way, TokenTree.flattenAll_append] at ordered
  exact (List.pairwise_append.1 ordered).2.1

theorem Parser.Continues.within {before after : Parser} (continues : before.Continues after)
    {error : SyntaxError} (within : error.Within after.frame.rest) :
    error.Within before.frame.rest := by
  obtain ⟨passed, way⟩ := continues.rest_eq_append
  rw [way]
  exact within.append passed

/-- Outside all groups a token that comes next is one of those that are left. -/
theorem Frame.mem_of_peek_token? {frame : Frame} (top : frame.closing = none) {token : Token}
    (comes : frame.peek.token? = some token) : token ∈ flattenAll frame.rest := by
  cases left : frame.rest with
  | nil =>
      rw [peek, left, top] at comes
      cases comes
  | cons tree trees =>
      rw [peek_token?_of_rest_eq_cons left] at comes
      cases comes
      exact TokenTree.mem_flattenAll_of_mem List.mem_cons_self tree.head_mem_flatten

/-- A blamed token is one of those that were left. -/
theorem Frame.Blames.within {before after : Parser} {error : SyntaxError}
    (continues : before.Continues after) (top : after.frame.closing = none)
    (blames : before.frame.Blames after.frame error.blamed?) : error.Within before.frame.rest := by
  intro token blamed
  rw [blamed] at blames
  obtain ⟨passed, way⟩ := continues.rest_eq_append
  cases blames with
  | passed way among =>
      rw [way, TokenTree.flattenAll_append]
      exact List.mem_append_left _ among
  | ahead comes =>
      rw [way, TokenTree.flattenAll_append]
      exact List.mem_append_right _ (mem_of_peek_token? top comes)

namespace Rule

/--
Behind a failed attempt the next one has its content behind the tree that comes next: that
tree is skipped, or it is the keyword in front of the content.
-/
theorem rest_resume_begun {after : Parser} {tree : TokenTree} {later : List TokenTree}
    (restEq : after.frame.rest = tree :: later) :
    ∃ passed, later = passed ++ (resume (none, after)).begun.frame.rest := by
  have ahead : after.frame.peek = Frame.readingOf after.frame.closing [tree] := by
    rw [Frame.peek, restEq]
    cases tree <;> rfl
  by_cases starts : startsDeclaration after.frame.peek = true
  · have stays : after.frame.stopAt startsDeclaration = after.frame := by
      rw [Frame.stopAt, restEq, List.takeWhile_cons_of_neg (by rw [← ahead, starts]; decide)]
      rfl
    obtain ⟨word, span, peeked, _⟩ := startsDeclaration_iff.1 starts
    have settled : after.frame.Settled := by
      intro first others same
      obtain ⟨trees, isToken⟩ := Frame.rest_of_peek_atomic peeked
      cases same.symm.trans isToken
      rfl
    refine ⟨[], ?_⟩
    change later = (Parser.begun { after with frame := after.frame.stopAt _ }).frame.rest
    rw [stays, Parser.begun, Frame.toSignificant_of_settled settled, if_pos starts]
    change later = after.frame.forward.rest
    rw [Frame.forward_of_rest_eq_cons _ restEq, Frame.rest_advance, restEq]
    rfl
  · have skips : startsDeclaration (Frame.readingOf after.frame.closing [tree]) = false := by
      rw [← ahead, Bool.eq_false_iff]
      exact starts
    obtain ⟨blanks, way⟩ := (resume (none, after)).continues_begun.rest_eq_append
    change (after.frame.stopAt startsDeclaration).rest = _ at way
    rw [Frame.stopAt, Frame.rest_advance, restEq,
      List.takeWhile_cons_of_pos (by rw [skips]; rfl), List.length_cons, List.drop_succ_cons] at way
    exact ⟨_ ++ blanks, by rw [List.append_assoc, ← way, List.take_append_drop]⟩

/-- What is reported behind a failed attempt blames what comes behind its blamed token. -/
theorem position_lt_of_resumed {before after : Parser} {error other : SyntaxError}
    (ordered : (flattenAll before.frame.rest).Pairwise Token.Before)
    (continues : before.Continues after) (left : after.frame.rest ≠ [])
    (blames : before.frame.Blames after.frame error.blamed?)
    (behind : other.Within (resume (none, after)).begun.frame.rest) :
    error.position < other.position := by
  obtain ⟨tree, later, restEq⟩ := List.exists_cons_of_ne_nil left
  cases found : error.blamed? with
  | none =>
      rw [found] at blames
      cases blames with
      | ahead comes =>
          rw [Frame.peek_token?_of_rest_eq_cons restEq] at comes
          cases comes
  | some token =>
      rw [found] at blames
      cases blames with
      | passed way among =>
          have resumed := (resume_continues (none, after)).trans
            (resume (none, after)).continues_begun
          rw [way] at ordered
          exact SyntaxError.position_lt ordered found among (resumed.within behind)
      | ahead comes =>
          obtain ⟨passed, way⟩ := rest_resume_begun restEq
          have rest := continues.ordered ordered
          rw [restEq] at rest
          rw [Frame.peek_token?_of_rest_eq_cons restEq] at comes
          cases comes
          have isFirst : tree.head ∈ flattenAll [tree] :=
            TokenTree.mem_flattenAll_of_mem List.mem_cons_self tree.head_mem_flatten
          have further : other.Within later := by
            rw [way]
            exact behind.append passed
          exact SyntaxError.position_lt rest found isFirst further

/-! ## A whole run -/

/-- Errors in the order of the text, all of them about what is left to read. -/
structure Orderly (trees : List TokenTree) (errors : List SyntaxError) : Prop where
  increasing : (errors.map SyntaxError.position).Pairwise (· < ·)
  within : ∀ error ∈ errors, error.Within trees

/-- Behind the end of the script nothing is reported. -/
theorem reports_of_end {after : Parser} {errors : List SyntaxError} (atEnd : after.frame.rest = [])
    (reports : (attempts (resume (none, after))).2.reports =
      (resume (none, after)).reports ++ errors) : errors = [] := by
  have exhausted : (resume (none, after)).frame.isExhausted = true := by
    change (after.frame.stopAt startsDeclaration).isExhausted = true
    rw [Frame.isExhausted, Frame.stopAt, Frame.rest_advance, atEnd]
    rfl
  rw [attempts_of_exhausted exhausted] at reports
  simpa using reports

/-- A run over what is left reports errors in the order of the text. -/
theorem attempts_orderly (parser : Parser) (top : parser.frame.closing = none)
    (ordered : (flattenAll parser.frame.rest).Pairwise Token.Before) :
    ∃ errors, (attempts parser).2.reports = parser.reports ++ errors ∧
      Orderly parser.begun.frame.rest errors := by
  induction parser using attempts_induction with
  | exhausted parser exhausted =>
      rw [attempts_of_exhausted exhausted]
      exact ⟨[], by simp, .nil, by simp⟩
  | left parser left ih =>
      have begun := parser.continues_begun
      have moved := declaration_continues parser
      have ended := declaration_explains parser
      rw [attempts_of_left left]
      generalize declaration parser = outcome at moved ended ih ⊢
      have resumed := resume_continues outcome
      have whole := begun.trans (moved.trans resumed)
      have onward := (moved.trans resumed).trans (resume outcome).continues_begun
      obtain ⟨errors, reports, orderly⟩ :=
        ih (whole.closing.trans top) (whole.ordered ordered)
      have within : ∀ error ∈ errors, error.Within parser.begun.frame.rest :=
        fun error member => onward.within (orderly.within error member)
      cases ended with
      | @silent node after silent =>
          refine ⟨errors, ?_, orderly.increasing, within⟩
          rw [reports, ← parser.begun_reports, ← silent]
          rfl
      | @blames error after reported blames =>
          have first : error.Within parser.begun.frame.rest :=
            blames.within moved ((begun.trans moved).closing.trans top)
          have apart : ∀ other ∈ errors, error.position < other.position := by
            intro other member
            by_cases atEnd : after.frame.rest = []
            · rw [reports_of_end atEnd reports] at member
              cases member
            · exact position_lt_of_resumed (begun.ordered ordered) moved atEnd blames
                (orderly.within other member)
          refine ⟨error :: errors, ?_, ?_, List.forall_mem_cons.2 ⟨first, within⟩⟩
          · rw [reports, ← parser.begun_reports]
            change after.reports ++ errors = _
            rw [reported, List.append_assoc]
            rfl
          · exact List.pairwise_cons.2 ⟨List.forall_mem_map.2 apart, orderly.increasing⟩

end Rule

end Grammar

/-! ## Files -/

/-- The tokens of a file's trees stand in the order of the text. -/
theorem SourceFile.trees_ordered (file : SourceFile) :
    (flattenAll file.trees.trees).Pairwise Token.Before := by
  obtain ⟨last, reads, _⟩ := file.lex_reads
  have ordered : file.lex.tokens.Pairwise Token.Before :=
    reads.pairwise.imp fun apart => Nat.lt_of_lt_of_le apart.1 apart.2
  exact ordered.sublist file.flattenAll_trees_prefix.sublist

theorem SyntaxError.ne_top_of_mem_dropLast {errors : List SyntaxError}
    (increasing : errors.Pairwise fun first second => first.position < second.position)
    {error : SyntaxError} (member : error ∈ errors.dropLast) : error.position ≠ ⊤ := by
  have nonempty : errors ≠ [] := by
    rintro rfl
    cases member
  rw [← List.dropLast_append_getLast nonempty, List.pairwise_append] at increasing
  exact ne_top_of_lt (increasing.2.2 error member _ List.mem_cons_self)

/--
The errors that the grammar reports about a file come in the order of the text, the end
of the script being behind everything. So no token is blamed twice, and only the last
error can be about the end. Without lexical errors these are all the reports there are.
-/
theorem SourceFile.syntax_errors_in_order (file : SourceFile) :
    let errors := (Rule.script (Parser.ofTrees file.trees.trees)).2.reports
    (errors.map SyntaxError.position).Pairwise (· < ·) ∧
    (errors.filterMap SyntaxError.blamed?).Nodup ∧
    (∀ error ∈ errors.dropLast, error.position ≠ ⊤) ∧
    (file.tokenize.reports = [] → file.parse.reports = errors.map Error.grammar) := by
  intro errors
  obtain ⟨found, reports, orderly⟩ :=
    Rule.attempts_orderly (Parser.ofTrees file.trees.trees) rfl file.trees_ordered
  have same : errors = found := reports
  have increasing : errors.Pairwise fun first second => first.position < second.position := by
    rw [same]
    exact List.pairwise_map.1 orderly.increasing
  refine ⟨List.pairwise_map.2 increasing, ?_,
    fun _ member => SyntaxError.ne_top_of_mem_dropLast increasing member, ?_⟩
  · refine List.pairwise_filterMap.2 (increasing.imp ?_)
    rintro first second order token blamed _ again rfl
    rw [SyntaxError.position_of_some blamed, SyntaxError.position_of_some again] at order
    exact lt_irrefl _ order
  · intro clean
    rw [file.parse_of_clean clean]
    exact Script.ofTrees_reports file.trees.trees

end BuildScript
