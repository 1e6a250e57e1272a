import BuildScript.Proofs.Outline
import BuildScript.Proofs.Quoting
import BuildScript.Proofs.TokenEnds

/-!
# Written text

A text writes the atoms that its tokens stand for. How a piece of text is split does not
depend on what follows, if the piece ends where a token has to end. So a text that is
put together from such pieces writes what the pieces write, one after another.
-/

namespace BuildScript

open Text (Units)

/-! ## Tokens and what follows them -/

namespace Lexeme

/-- Whether the token ends by itself, whatever follows. -/
def isClosed (lexeme : Lexeme) : Bool :=
  match lexeme.kind with
  | .stringLiteral | .comment .delimited => true
  | .punctuation mark => mark != '/'
  | _ => false

def extend (lexeme : Lexeme) (more : List Char) : Lexeme :=
  { lexeme with rest := lexeme.rest ++ more }

theorem endsAt_of_isClosed {lexeme : Lexeme} (closed : lexeme.isClosed = true)
    (rest : List Char) : lexeme.kind.EndsAt rest := by
  intro next _
  unfold isClosed at closed
  split at closed <;> simp_all [TokenKind.endsBefore]

/-- A token that ends by itself, or before the text does, is not changed by what follows. -/
theorem first_extend {c : Char} {cs : List Char} {lexeme : Lexeme}
    (found : first c cs = .ok lexeme) (ends : lexeme.rest ≠ [] ∨ lexeme.isClosed = true)
    (more : List Char) : first c (cs ++ more) = .ok (lexeme.extend more) := by
  obtain ⟨body, text, rfl, alone, follows⟩ := first_cases found
  have stillEnds : lexeme.kind.EndsAt (lexeme.rest ++ more) := by
    rcases ends with nonempty | closed
    · exact (TokenKind.endsAt_append_iff nonempty more).2 follows
    · exact endsAt_of_isClosed closed _
  rw [List.append_assoc, first_append_iff.2 ⟨alone, stillEnds⟩, extend, ← text]

def atom (lexeme : Lexeme) : Atom :=
  match lexeme.kind with
  | .punctuation mark => .mark mark
  | .stringLiteral => .literal (String.ofList lexeme.text.tail.dropLast)
  | _ => .word (String.ofList lexeme.text)

theorem first_of_blank {c : Char} (blank : Text.isBlank c = true) (cs : List Char) :
    first c cs = .ok (run .blanks Text.isBlank c cs) := by
  rw [first, if_pos blank]

end Lexeme

/-- In a file a token stands for the same as by itself. -/
theorem SourceFile.atom_part {file : SourceFile} {front cs : List Char} {c : Char}
    {lexeme : Lexeme} (text : file.chars = front ++ c :: cs)
    (found : Lexeme.first c cs = .ok lexeme) :
    (⟨lexeme.kind, file.part front lexeme.text⟩ : Token).atom = lexeme.atom := by
  rw [← Lexeme.first_append found] at text
  have chars := SourceFile.part_chars text
  unfold Token.atom Lexeme.atom
  cases kind : lexeme.kind with
  | stringLiteral =>
      obtain ⟨inner, lexemeText, narrow, _⟩ := Lexeme.first_units found kind
      rw [lexemeText] at text ⊢
      simp only [StringLiteral.content_part narrow text, List.tail_cons, List.dropLast_concat]
  | punctuation mark => rfl
  | blanks | identifier | keyword | numeric | comment =>
      simp only [Token.text, Span.text, chars]

/-- A reader takes the token that its text begins with. -/
theorem Reader.next_of_first {reader : Reader} {front cs : List Char} {c : Char} {lexeme : Lexeme}
    (behind : reader.Behind front) (left : reader.rest = c :: cs)
    (found : Lexeme.first c cs = .ok lexeme) :
    ∃ after, reader.next = (.ok ⟨lexeme.kind, reader.file.part front lexeme.text⟩, after) ∧
      after.Behind (front ++ lexeme.text) ∧ after.rest = lexeme.rest := by
  refine ⟨reader.advance lexeme.text lexeme.rest, ?_, ?_, rfl⟩
  · rw [Reader.next, left]
    simp only [found, behind.offset]
    rfl
  · exact behind.advance ((Lexeme.first_append found).trans left.symm)

/-- A reader reports the fault that its text begins with, and leaves nothing. -/
theorem Reader.next_of_fault {reader : Reader} {front cs : List Char} {c : Char}
    {fault : LexicalFault} (behind : reader.Behind front) (left : reader.rest = c :: cs)
    (failed : Lexeme.first c cs = .error fault) :
    reader.next =
      (.error (.fatal (fault.error reader.file (Text.byteLength front))), reader.atEnd) := by
  rw [Reader.next, left]
  simp only [failed, behind.offset]

/-! ## What a text writes -/

/-- The atoms that the tokens of a text stand for; single blanks may stand anywhere. -/
inductive Written : List Char → List Atom → Prop where
  | done : Written [] []
  | blank {c : Char} {cs : List Char} {atoms : List Atom} (isBlank : Text.isBlank c = true)
      (later : Written cs atoms) : Written (c :: cs) atoms
  | token {c : Char} {cs : List Char} {lexeme : Lexeme} {atoms : List Atom}
      (found : Lexeme.first c cs = .ok lexeme) (counts : lexeme.kind.isSignificant = true)
      (later : Written lexeme.rest atoms) : Written (c :: cs) (lexeme.atom :: atoms)

namespace Written

variable {cs : List Char} {atoms : List Atom}

/-- The lexer takes blanks together. -/
theorem dropBlanks (written : Written cs atoms) : Written (cs.dropWhile Text.isBlank) atoms := by
  induction written with
  | done => exact .done
  | blank isBlank later ih =>
      rw [List.dropWhile_cons_of_pos isBlank]
      exact ih
  | @token c cs lexeme atoms found counts later ih =>
      have solid : ¬Text.isBlank c = true := by
        intro blank
        rw [Lexeme.first, if_pos blank] at found
        cases found
        cases counts
      rw [List.dropWhile_cons_of_neg solid]
      exact .token found counts later

/-- A reader reads what is written to its end. -/
theorem tokens (reader : Reader) {front : List Char} (behind : reader.Behind front)
    (written : Written reader.rest atoms) :
    reader.tokens.ending = .endOfSource ∧
      (reader.tokens.tokens.filter Token.isSignificant).map Token.atom = atoms := by
  induction reader using Reader.tokens.induct generalizing front atoms with
  | case1 reader ending after step =>
      rw [Reader.tokens_of_error step]
      generalize left : reader.rest = cs at written
      cases written with
      | done =>
          rw [Reader.next, left] at step
          cases step
          exact ⟨rfl, rfl⟩
      | blank isBlank later =>
          obtain ⟨_, taken, _⟩ := Reader.next_of_first behind left (Lexeme.first_of_blank isBlank _)
          cases step.symm.trans taken
      | token found counts later =>
          obtain ⟨_, taken, _⟩ := Reader.next_of_first behind left found
          cases step.symm.trans taken
  | case2 reader token after step ih =>
      rw [Reader.tokens_of_ok step]
      generalize left : reader.rest = cs at written
      cases written with
      | done =>
          rw [Reader.next, left] at step
          cases step
      | blank isBlank later =>
          -- The lexer takes the whole run of blanks, and what is left writes the same.
          obtain ⟨_, taken, moved, restEq⟩ :=
            Reader.next_of_first behind left (Lexeme.first_of_blank isBlank _)
          cases step.symm.trans taken
          have remaining : Written after.rest atoms := by
            rw [restEq]
            exact later.dropBlanks
          obtain ⟨ending, stand⟩ := ih moved remaining
          exact ⟨ending, stand⟩
      | @token c cs lexeme atoms found counts later =>
          obtain ⟨_, taken, moved, restEq⟩ := Reader.next_of_first behind left found
          cases step.symm.trans taken
          rw [← restEq] at later
          obtain ⟨ending, stand⟩ := ih moved later
          have text : reader.file.chars = front ++ c :: cs := behind.text.trans (by rw [left])
          have kept : Token.isSignificant
              ⟨lexeme.kind, reader.file.part front lexeme.text⟩ = true := counts
          refine ⟨ending, ?_⟩
          rw [List.filter_cons_of_pos kept, List.map_cons, stand, SourceFile.atom_part text found]

end Written

/-- A file in which nested outlines are written has these outlines, without a report. -/
theorem SourceFile.outline_of_written {file : SourceFile} {outlines : List Outline}
    (nested : Outline.areNested outlines = true)
    (written : Written file.chars (Outline.atomsAll outlines)) :
    file.tokenize.reports = [] ∧ file.outline = outlines := by
  obtain ⟨ending, stand⟩ := Written.tokens (Reader.ofFile file) (.ofFile file) written
  exact file.outline_of_atoms nested ending stand

/-! ## Pieces of text -/

/--
The text writes the atoms in front of any other text. So it ends where a token has to
end, and texts that write something can be put together.
-/
def Writes (text : String) (atoms : List Atom) : Prop :=
  ∀ rest more, Written rest more → Written (text.toList ++ rest) (atoms ++ more)

/--
The atoms of a text, if it is split in the same way whatever follows; the fuel bounds
the number of its characters.
-/
def scan : Nat → List Char → Option (List Atom)
  | _, [] => some []
  | 0, _ :: _ => none
  | fuel + 1, c :: cs =>
      if Text.isBlank c then scan fuel cs
      else
        match Lexeme.first c cs with
        | .error _ => none
        | .ok lexeme =>
            if lexeme.kind.isSignificant && (lexeme.isClosed || !lexeme.rest.isEmpty) then
              (scan fuel lexeme.rest).map (lexeme.atom :: ·)
            else none

theorem scan_written {fuel : Nat} {cs : List Char} {atoms : List Atom}
    (found : scan fuel cs = some atoms) {rest : List Char} {more : List Atom}
    (later : Written rest more) : Written (cs ++ rest) (atoms ++ more) := by
  induction fuel generalizing cs atoms with
  | zero =>
      cases cs <;> cases found
      exact later
  | succ fuel ih =>
      cases cs with
      | nil =>
          cases found
          exact later
      | cons c cs =>
          change (if Text.isBlank c then scan fuel cs else _) = some atoms at found
          by_cases blank : Text.isBlank c = true
          · rw [if_pos blank] at found
            exact .blank blank (ih found)
          rw [if_neg blank] at found
          cases read : Lexeme.first c cs with
          | error fault =>
              rw [read] at found
              cases found
          | ok lexeme =>
              simp only [read, Option.ite_none_right_eq_some, Bool.and_eq_true, Bool.or_eq_true,
                Bool.not_eq_true', List.isEmpty_eq_false_iff] at found
              obtain ⟨⟨counts, ends⟩, scanned⟩ := found
              obtain ⟨others, othersFound, rfl⟩ := Option.map_eq_some_iff.1 scanned
              have extended := Written.token (Lexeme.first_extend read ends.symm rest) counts
                (ih othersFound)
              exact extended

namespace Writes

variable {text other : String} {atoms others : List Atom}

theorem scanned (fuel : Nat) (found : scan fuel text.toList = some atoms) : Writes text atoms :=
  fun _ _ later => scan_written found later

theorem empty : Writes "" [] :=
  fun _ _ later => later

theorem append (first : Writes text atoms) (second : Writes other others) :
    Writes (text ++ other) (atoms ++ others) := by
  intro rest more later
  rw [String.toList_append, List.append_assoc, List.append_assoc]
  exact first _ _ (second _ _ later)

/-- A string that can be quoted is one literal between quotes. -/
theorem quoted (wellQuoted : WellQuoted text) : Writes ("\"" ++ text ++ "\"") [.literal text] := by
  intro rest more later
  have found : Lexeme.first '"' (text.toList ++ '"' :: rest) =
      .ok ⟨.stringLiteral, '"' :: (text.toList ++ ['"']), rest⟩ := by
    change Lexeme.quoted '"' _ = _
    rw [Lexeme.quoted, Lexeme.stringBody?_of_units (by decide) wellQuoted]
  have literal := Written.token found rfl later
  simpa [Lexeme.atom] using literal

/-- Texts one after another write what each of them writes. -/
theorem join {α : Type} {render : α → String} {say : α → List Atom} {items : List α}
    (each : ∀ item ∈ items, Writes (render item) (say item)) :
    Writes (String.join (items.map render)) (items.flatMap say) := by
  induction items with
  | nil => exact .empty
  | cons item items ih =>
      obtain ⟨first, others⟩ := List.forall_mem_cons.1 each
      rw [List.map_cons, String.join_cons, List.flatMap_cons]
      exact first.append (ih others)

/-- Texts that are kept apart by blanks write what each of them writes. -/
theorem intercalate {separator : String} (apart : Writes separator []) {texts : List String}
    {each : List (List Atom)} (writes : List.Forall₂ Writes texts each) :
    Writes (separator.intercalate texts) each.flatten := by
  induction writes with
  | nil => exact .empty
  | @cons text atoms texts each first later ih =>
      cases texts with
      | nil =>
          cases later
          simpa using first
      | cons next texts =>
          rw [String.intercalate_cons_of_ne_nil (List.cons_ne_nil _ _), List.flatten_cons]
          simpa using (first.append apart).append ih

/-- A text that is written from its start to its end. -/
theorem written (writes : Writes text atoms) : Written text.toList atoms := by
  have whole := writes [] [] .done
  rwa [List.append_nil, List.append_nil] at whole

/-- A text that writes nested outlines has these outlines, without a report. -/
theorem outline {outlines : List Outline} (writes : Writes text (Outline.atomsAll outlines))
    (nested : Outline.areNested outlines = true) (number : Nat) (identifier : String) :
    (SourceFile.ofText number identifier text).tokenize.reports = [] ∧
      (SourceFile.ofText number identifier text).outline = outlines :=
  SourceFile.outline_of_written nested writes.written

end Writes

/-- The text writes the atoms and then opens a literal. -/
def Opens (text : String) (atoms : List Atom) : Prop :=
  ∃ front, text = front ++ "\"" ∧ Writes front atoms

namespace Opens

variable {text inside piece : String} {atoms more : List Atom}

theorem start (front : String) (same : text = front ++ "\"") (writes : Writes front atoms) :
    Opens text atoms :=
  ⟨front, same, writes⟩

/-- The literal that was opened is closed. -/
theorem close (opens : Opens text atoms) (quoted : WellQuoted inside) (back : String)
    (same : piece = "\"" ++ back) (writes : Writes back more) :
    Writes (text ++ inside ++ piece) (atoms ++ .literal inside :: more) := by
  obtain ⟨front, rfl, first⟩ := opens
  have regrouped : front ++ "\"" ++ inside ++ ("\"" ++ back) =
      front ++ ("\"" ++ inside ++ "\"") ++ back := by
    simp only [String.append_assoc]
  rw [same, regrouped]
  simpa using (first.append (.quoted quoted)).append writes

/-- The literal that was opened is closed, and another one is opened. -/
theorem next (opens : Opens text atoms) (quoted : WellQuoted inside) (middle : String)
    (same : piece = "\"" ++ middle ++ "\"") (writes : Writes middle more) :
    Opens (text ++ inside ++ piece) (atoms ++ .literal inside :: more) := by
  refine ⟨text ++ inside ++ ("\"" ++ middle), ?_, opens.close quoted middle rfl writes⟩
  rw [same]
  simp only [String.append_assoc]

end Opens

end BuildScript
