import BuildScript.Proofs.Recovery
import BuildScript.Proofs.Silence

/-!
# Reading makes progress and ends

No rule moves a frame back or beyond its trees, an entry that is read has passed a tree, and so
has every attempt at a declaration. Hence each loop of the grammar, turned for as long as its
condition holds, ends after at most as many turns as trees are left. The loops are stated here
without any bound; what they end with is what the rules of the grammar compute.
-/

namespace BuildScript.Grammar

/-! ## Loops -/

/-- One turn of a loop: its condition fails, its body leaves it, or its body goes on. -/
inductive Turn (σ ρ : Type) where
  | finish (result : ρ)
  | leave (result : ρ)
  | again (state : σ)

/-- A loop that ends with the result after its body has run so many times. -/
inductive Loop {σ ρ : Type} (turn : σ → Turn σ ρ) : σ → Nat → ρ → Prop where
  | finish {state : σ} {result : ρ} (ends : turn state = .finish result) : Loop turn state 0 result
  | leave {state : σ} {result : ρ} (ends : turn state = .leave result) : Loop turn state 1 result
  | again {state next : σ} {turns : Nat} {result : ρ} (goes : turn state = .again next)
      (later : Loop turn next turns result) : Loop turn state (turns + 1) result

def EndsWithin {σ ρ : Type} (turn : σ → Turn σ ρ) (state : σ) (bound : Nat) (result : ρ) : Prop :=
  ∃ turns, turns ≤ bound ∧ Loop turn state turns result

/-- A turn that keeps the value of the loop, and whose body leaves less to do. -/
def Turn.Progresses {σ ρ : Type} (left : σ → Nat) (value : σ → ρ) (state : σ) : Turn σ ρ → Prop
  | .finish result => value state = result
  | .leave result => value state = result ∧ 0 < left state
  | .again next => value state = value next ∧ left next < left state

/-- A loop all of whose turns progress ends with its value, in as many turns as there is to do. -/
theorem EndsWithin.of_progresses {σ ρ : Type} {turn : σ → Turn σ ρ} {left : σ → Nat} {value : σ → ρ}
    (progresses : ∀ state, (turn state).Progresses left value state) (state : σ) :
    EndsWithin turn state (left state) (value state) := by
  induction size : left state using Nat.strongRecOn generalizing state with
  | ind size ih =>
      have step := progresses state
      match taken : turn state with
      | .finish result =>
          rw [taken] at step
          have same : value state = result := step
          exact ⟨0, Nat.zero_le _, same ▸ .finish taken⟩
      | .leave result =>
          rw [taken] at step
          obtain ⟨same, more⟩ := step
          exact ⟨1, size ▸ more, same ▸ .leave taken⟩
      | .again next =>
          rw [taken] at step
          obtain ⟨same, fewer⟩ := step
          obtain ⟨turns, bound, later⟩ := ih _ (size ▸ fewer) next rfl
          exact ⟨turns + 1, Nat.lt_of_le_of_lt bound (size ▸ fewer), same ▸ .again taken later⟩

/-- Where a tree is left, there is something to do. -/
theorem Frame.remaining_pos {frame : Frame} (left : frame.rest ≠ []) : 0 < frame.remaining := by
  rw [remaining_eq]
  exact List.length_pos_iff.2 left

namespace Rule

variable {α : Type}

/-! ## Blocks -/

/-- The loop over a block: entries are read while something is left, until one fails. -/
def blockTurn (entry : Rule α) :
    List α × Parser → Turn (List α × Parser) (Option (List α) × Parser)
  | (entries, parser) =>
      if parser.frame.isExhausted then .finish (some entries, parser)
      else
        match entry parser with
        | (none, after) => .leave (none, after)
        | (some node, after) => .again (entries ++ [node], after)

/-- What the loop over a block ends with, behind the entries that were read before. -/
def blockValue (entry : Rule α) (state : List α × Parser) : Option (List α) × Parser :=
  ((untilExhausted entry state.2).1.map (state.1 ++ ·), (untilExhausted entry state.2).2)

theorem blockTurn_progresses {entry : Rule α} (consumes : Consumes entry)
    (state : List α × Parser) :
    (blockTurn entry state).Progresses (fun state => state.2.frame.remaining)
      (blockValue entry) state := by
  obtain ⟨entries, parser⟩ := state
  rw [blockTurn]
  cases ended : parser.frame.isExhausted with
  | true =>
      rw [if_pos rfl, Turn.Progresses, blockValue, untilExhausted_of_exhausted ended]
      simp
  | false =>
      rw [if_neg (by decide)]
      rcases step : entry parser with ⟨_ | node, after⟩
      · refine ⟨?_, Frame.remaining_pos (rest_ne_nil_of_left ended)⟩
        rw [blockValue, untilExhausted_of_none ended step]
        rfl
      · refine ⟨?_, consumes parser node after step⟩
        rw [blockValue, blockValue, untilExhausted_of_some consumes ended step]
        simp [Function.comp_def]

theorem block_loop_ends {entry : Rule α} (consumes : Consumes entry) (parser : Parser) :
    EndsWithin (blockTurn entry) ([], parser) parser.frame.remaining
      (untilExhausted entry parser) := by
  have ends := EndsWithin.of_progresses (blockTurn_progresses consumes) ([], parser)
  simpa [blockValue] using ends

/-! ## Paths -/

/-- The loop over a path: while punctuation follows, it has to be a dot with a name behind it. -/
def pathTurn : List (Punctuation × Identifier) × Parser →
    Turn (List (Punctuation × Identifier) × Parser)
      (Option (List (Punctuation × Identifier)) × Parser)
  | (segments, parser) =>
      let here := { parser with frame := parser.frame.toSignificant }
      match here.frame.peek with
      | .atomic ⟨.punctuation mark, span⟩ =>
          if mark = '.' then
            match name { here with frame := here.frame.forward } with
            | (none, last) => .leave (none, last)
            | (some segment, last) => .again (segments ++ [(⟨mark, span⟩, segment)], last)
          else .leave (some segments, here)
      | _ => .finish (some segments, here)

def pathValue (state : List (Punctuation × Identifier) × Parser) :
    Option (List (Punctuation × Identifier)) × Parser :=
  ((pathRest state.2).1.map (state.1 ++ ·), (pathRest state.2).2)

/-- A token that is seen behind blanks is a tree that is left. -/
theorem remaining_pos_of_peek_atomic {parser : Parser} {leaf : Token}
    (peeked : parser.frame.toSignificant.peek = .atomic leaf) : 0 < parser.frame.remaining := by
  obtain ⟨later, restEq⟩ := Frame.rest_of_peek_atomic peeked
  have left : 0 < parser.frame.toSignificant.remaining :=
    Frame.remaining_pos (restEq ▸ List.cons_ne_nil _ _)
  exact Nat.lt_of_lt_of_le left (Advances.toSignificant parser).remaining_le

theorem pathTurn_progresses (state : List (Punctuation × Identifier) × Parser) :
    (pathTurn state).Progresses (fun state => state.2.frame.remaining) pathValue state := by
  obtain ⟨segments, parser⟩ := state
  rw [pathTurn]
  rcases punctuation?_cases '.' parser with ⟨span, peeked, dotted⟩ | ⟨absent, missing⟩
  · simp only [peeked, if_true]
    rcases named : name { parser with frame := parser.frame.toSignificant.forward } with
      ⟨_ | segment, last⟩
    · refine ⟨?_, remaining_pos_of_peek_atomic peeked⟩
      rw [pathValue, pathRest_of_none dotted named]
      rfl
    · have passed := (continues_of_runs ((Operates.punctuation? '.').runs dotted)).remaining_le
      refine ⟨?_, Nat.lt_of_lt_of_le (Consumes.name _ segment last named) passed⟩
      rw [pathValue, pathValue, pathRest_of_some dotted named]
      simp [Function.comp_def]
  · have value : pathValue (segments, parser) =
        (some segments, { parser with frame := parser.frame.toSignificant }) := by
      rw [pathValue, pathRest_of_absent missing]
      simp
    generalize seen : parser.frame.toSignificant.peek = found at absent
    cases found with
    | atomic leaf =>
        obtain ⟨kind, span⟩ := leaf
        cases kind with
        | punctuation mark =>
            have other : mark ≠ '.' := by
              rintro rfl
              exact absent span rfl
            simp only [if_neg other]
            exact ⟨value, remaining_pos_of_peek_atomic seen⟩
        | blanks | identifier | keyword _ | numeric | comment _ | stringLiteral =>
            exact value
    | opening mark | closing mark | eof =>
        exact value

theorem path_loop_ends (parser : Parser) :
    EndsWithin pathTurn ([], parser) parser.frame.remaining (pathRest parser) := by
  have ends := EndsWithin.of_progresses pathTurn_progresses ([], parser)
  simpa [pathValue] using ends

/-! ## Scripts -/

/-- The loop over a script: declarations are read while something is left, those that fail too. -/
def scriptTurn : List Declaration × Bool × Parser →
    Turn (List Declaration × Bool × Parser) (Option Script × Parser)
  | (declarations, failed, parser) =>
      if parser.frame.isExhausted then
        .finish (if failed then none else some ⟨declarations⟩, parser)
      else
        match declaration parser with
        | (some node, after) => .again (declarations ++ [node], failed, after)
        | (none, after) =>
            .again (declarations, true,
              { after with frame := after.frame.stopAt startsDeclaration })

def scriptValue (state : List Declaration × Bool × Parser) : Option Script × Parser :=
  (if state.2.1 then none
    else (script state.2.2).1.map fun later => ⟨state.1 ++ later.declarations⟩,
    (script state.2.2).2)

theorem script_of_some {parser after : Parser} {node : Declaration}
    (left : parser.frame.isExhausted = false) (step : declaration parser = (some node, after)) :
    script parser = ((script after).1.map fun later => ⟨node :: later.declarations⟩,
      (script after).2) := by
  rw [script, attempts_of_left left, step, script]
  simp only [resume, List.map_cons, List.all_cons, Option.isSome_some, Bool.true_and,
    List.filterMap_cons, id_eq]
  split
  · rfl
  · rfl

theorem script_of_none {parser after : Parser} (left : parser.frame.isExhausted = false)
    (step : declaration parser = (none, after)) :
    script parser =
      (none, (script { after with frame := after.frame.stopAt startsDeclaration }).2) := by
  rw [script, attempts_of_left left, step]
  rfl

theorem scriptTurn_progresses (state : List Declaration × Bool × Parser) :
    (scriptTurn state).Progresses (fun state => state.2.2.frame.remaining) scriptValue state := by
  obtain ⟨declarations, failed, parser⟩ := state
  rw [scriptTurn]
  cases ended : parser.frame.isExhausted with
  | true =>
      rw [if_pos rfl, Turn.Progresses, scriptValue, script, attempts_of_exhausted ended]
      simp
  | false =>
      have fewer := resume_remaining_lt ended
      rw [if_neg (by decide)]
      rcases step : declaration parser with ⟨_ | node, after⟩
      · rw [step] at fewer
        refine ⟨?_, fewer⟩
        rw [scriptValue, scriptValue, script_of_none ended step]
        simp
      · rw [step] at fewer
        refine ⟨?_, fewer⟩
        rw [scriptValue, scriptValue, script_of_some ended step]
        simp [Function.comp_def]

theorem script_loop_ends (parser : Parser) :
    EndsWithin scriptTurn ([], false, parser) parser.frame.remaining (script parser) := by
  have ends := EndsWithin.of_progresses scriptTurn_progresses ([], false, parser)
  simpa [scriptValue] using ends

/-! ## Recovery -/

/-- The loop that looks for a reading: trees are passed up to the wanted one or the end. -/
def stopTurn (wanted : Reading → Bool) (frame : Frame) : Turn Frame Frame :=
  if frame.isEnd then .finish frame
  else if wanted frame.peek then .leave frame
  else .again frame.forward

theorem stopTurn_progresses (wanted : Reading → Bool) (frame : Frame) :
    (stopTurn wanted frame).Progresses Frame.remaining (Frame.stopAt wanted) frame := by
  rw [stopTurn]
  cases left : frame.rest with
  | nil =>
      rw [if_pos (frame.isEnd_iff.2 left), Turn.Progresses, Frame.stopAt, left]
      rfl
  | cons tree trees =>
      have goes : ¬frame.isEnd = true := by
        rw [frame.isEnd_iff, left]
        exact List.cons_ne_nil _ _
      have seen : frame.peek = Frame.readingOf frame.closing [tree] := by
        rw [Frame.peek, left]
        cases tree <;> rfl
      have more : 0 < frame.remaining := Frame.remaining_pos (left ▸ List.cons_ne_nil _ _)
      rw [if_neg goes, seen]
      cases found : wanted (Frame.readingOf frame.closing [tree]) with
      | true =>
          refine ⟨?_, more⟩
          rw [Frame.stopAt, left, List.takeWhile_cons_of_neg (by rw [found]; decide)]
          rfl
      | false =>
          rw [Frame.forward_of_rest_eq_cons _ left]
          refine ⟨?_, ?_⟩
          · rw [Frame.stopAt, Frame.stopAt, Frame.rest_advance, left,
              List.takeWhile_cons_of_pos (by rw [found]; rfl)]
            rw [Frame.advance_advance, Nat.add_comm]
            rfl
          · rw [Frame.remaining_eq, Frame.remaining_eq, Frame.rest_advance, left]
            exact Nat.lt_succ_self _

theorem stop_loop_ends (wanted : Reading → Bool) (frame : Frame) :
    EndsWithin (stopTurn wanted) frame frame.remaining (frame.stopAt wanted) :=
  EndsWithin.of_progresses (stopTurn_progresses wanted) frame

end Rule

/-! ## Reachable states -/

def Frame.InBounds (frame : Frame) : Prop :=
  frame.index ≤ frame.trees.length

namespace Frame.InBounds

variable {frame : Frame}

theorem forward (inBounds : frame.InBounds) : frame.forward.InBounds := by
  rw [Frame.forward]
  split
  · exact inBounds
  · rename_i more
    rw [Frame.isEnd, decide_eq_true_iff] at more
    exact Nat.lt_of_not_le more

theorem advance_takeWhile (inBounds : frame.InBounds) (passes : TokenTree → Bool) :
    (frame.advance (frame.rest.takeWhile passes).length).InBounds := by
  have passed := frame.length_takeWhile_le_remaining passes
  rw [remaining] at passed
  change frame.index + _ ≤ frame.trees.length
  rw [InBounds] at inBounds
  omega

theorem toSignificant (inBounds : frame.InBounds) : frame.toSignificant.InBounds :=
  inBounds.advance_takeWhile _

theorem stopAt (inBounds : frame.InBounds) (wanted : Reading → Bool) :
    (frame.stopAt wanted).InBounds :=
  inBounds.advance_takeWhile _

end Frame.InBounds

namespace Parser

variable {before after parser : Parser}

/-- No operation moves a frame beyond its end. -/
theorem Runs.inBounds (runs : before.Runs after) (inBounds : before.frame.InBounds) :
    after.frame.InBounds := by
  induction runs with
  | stay => exact inBounds
  | forward _ ih => exact (ih inBounds).forward
  | skip _ ih => exact (ih inBounds).toSignificant
  | stopAt _ wanted ih => exact (ih inBounds).stopAt wanted
  | report _ _ ih => exact ih inBounds
  | @group _ _ after inside _ delimiter operates ih _ =>
      -- However far the inside is read, the outer frame is one tree further on.
      cases ahead : Rule.groupAhead? delimiter after.frame with
      | none =>
          rw [Rule.enclosed_of_absent ahead]
          exact (ih inBounds).toSignificant
      | some group =>
          rw [Rule.enclosed_frame (Rule.Operates.advances operates) ahead]
          exact (ih inBounds).toSignificant.forward

/-- The states of a parser over a script: operations are run, and groups are entered. -/
inductive Reachable (trees : List TokenTree) : Parser → Prop where
  | start : Reachable trees (.ofTrees trees)
  | run {before after : Parser} (earlier : Reachable trees before) (runs : before.Runs after) :
      Reachable trees after
  | enter {parser : Parser} {delimiter : Delimiter} {opening closing : Punctuation}
      {inner : List TokenTree} (earlier : Reachable trees parser)
      (ahead : Rule.groupAhead? delimiter parser.frame = some (opening, inner, closing)) :
      Reachable trees (Rule.enter inner closing parser)

theorem Reachable.inBounds {trees : List TokenTree} (reachable : Reachable trees parser) :
    parser.frame.InBounds := by
  induction reachable with
  | start => exact Nat.zero_le _
  | run _ runs ih => exact runs.inBounds ih
  | enter _ _ _ => exact Nat.zero_le _

/-- The parser went on in its frame, and not beyond the end. -/
structure StaysWithin (before after : Parser) : Prop where
  trees : after.frame.trees = before.frame.trees
  index : before.frame.index ≤ after.frame.index
  inBounds : after.frame.InBounds

theorem Runs.staysWithin (runs : before.Runs after) (inBounds : before.frame.InBounds) :
    before.StaysWithin after :=
  have continues := Rule.continues_of_runs runs
  ⟨continues.trees, continues.index, runs.inBounds inBounds⟩

/-- Where fewer trees of the same frame are left, the place is further on. -/
theorem Continues.index_lt (continues : before.Continues after)
    (fewer : after.frame.remaining < before.frame.remaining) :
    before.frame.index < after.frame.index := by
  rw [Frame.remaining, Frame.remaining, continues.trees] at fewer
  omega

end Parser

/-! ## The grammar -/

namespace Rule

variable {α : Type} {rule : Rule α}

theorem IsEntry.operates (isEntry : IsEntry rule) : Operates rule := by
  cases isEntry with
  | plugin => exact .pluginEntry
  | repository => exact .repositoryEntry
  | dependency => exact .dependencyEntry
  | statement => exact .taskStatement

/-- Every rule of the grammar is made of operations. -/
theorem IsGrammar.operates (isGrammar : IsGrammar rule) : Operates rule := by
  cases isGrammar with
  | identifier => exact .identifier
  | name => exact .name
  | contextualKeyword word => exact .contextualKeyword word
  | keyword expected => exact .keyword expected
  | punctuation expected skip => exact .punctuation expected skip
  | stringLiteral => exact .stringLiteral
  | expression => exact .expression
  | path => exact .identifierPath
  | url => exact .urlStatement
  | entry isEntry => exact isEntry.operates
  | block isEntry => exact .block isEntry.operates
  | taskRegistration => exact .taskRegistration
  | declaration => exact .declaration

theorem resume_runs (outcome : Option Declaration × Parser) :
    outcome.2.Runs (resume outcome) := by
  match outcome with
  | (some _, after) => exact .stay after
  | (none, after) => exact (Parser.Runs.stay after).stopAt startsDeclaration

theorem Operates.script : Operates script := by
  intro parser
  change parser.Runs (attempts parser).2
  induction parser using attempts_induction with
  | exhausted parser exhausted =>
      rw [attempts_of_exhausted exhausted]
      exact .stay parser
  | left parser left ih =>
      rw [attempts_of_left left]
      exact ((Operates.declaration parser).trans (resume_runs _)).trans ih

/--
Rules stay within the frame of the parser, entries and attempts at a declaration pass a tree of
it, and every loop ends with what its rule computes.
-/
structure Progress (parser : Parser) : Prop where
  rules : ∀ {α : Type} (rule : Rule α), IsGrammar rule → parser.StaysWithin (rule parser).2
  script : parser.StaysWithin (script parser).2
  /-- An entry that is read is passed. -/
  entries : ∀ {α : Type} (rule : Rule α) (node : α) (after : Parser), IsEntry rule →
    rule parser = (some node, after) → parser.frame.index < after.frame.index
  /-- An attempt at a declaration passes a tree, whether it fails or not. -/
  attempt : parser.frame.isExhausted = false →
    parser.frame.index < (declaration parser).2.frame.index
  blockLoop : ∀ {α : Type} (rule : Rule α), IsEntry rule →
    EndsWithin (blockTurn rule) ([], parser) parser.frame.remaining (untilExhausted rule parser)
  pathLoop : EndsWithin pathTurn ([], parser) parser.frame.remaining (pathRest parser)
  scriptLoop :
    EndsWithin scriptTurn ([], false, parser) parser.frame.remaining (Rule.script parser)
  recoveryLoop : EndsWithin (stopTurn startsDeclaration) parser.frame parser.frame.remaining
    (parser.frame.stopAt startsDeclaration)

/--
At every state that a parser reaches over a script, the rules go on within the frame and pass a
tree where a loop relies on it. So no loop hangs: its turns are no more than the trees left.
-/
theorem loops_progress {trees : List TokenTree} {parser : Parser}
    (reachable : parser.Reachable trees) : Progress parser where
  rules _ isGrammar := (isGrammar.operates parser).staysWithin reachable.inBounds
  script := (Operates.script parser).staysWithin reachable.inBounds
  entries _ node after isEntry step :=
    (continues_of_runs (isEntry.operates.runs step)).index_lt
      (isEntry.consumes parser node after step)
  attempt left :=
    (Operates.declaration.advances parser).index_lt (Passes.declaration parser left)
  blockLoop _ isEntry := block_loop_ends isEntry.consumes parser
  pathLoop := path_loop_ends parser
  scriptLoop := script_loop_ends parser
  recoveryLoop := stop_loop_ends startsDeclaration parser.frame

end Rule

namespace Progress

open Rule

/-- The second entry of the block fails without passing the number. -/
def faulty : List TokenTree :=
  (SourceFile.ofText 0 "faulty" "plugins \x7bid 'a' 7\x7d 8 tasks.x").trees.trees

def behindKeyword : Parser :=
  (forward (.ofTrees faulty)).2

def inBlock : Parser :=
  match groupAhead? .brace behindKeyword.frame with
  | some (_, inner, closing) => enter inner closing behindKeyword
  | none => behindKeyword

theorem inBlock_progress :
    inBlock.Reachable faulty ∧ inBlock.stack.length = 1 ∧ inBlock.frame.remaining = 5 ∧
      (untilExhausted pluginEntry inBlock).1.isNone ∧
      (untilExhausted pluginEntry inBlock).2.frame.index = 4 ∧ Rule.Progress inBlock := by
  have outside : behindKeyword.Reachable faulty := .run .start (.forward (.stay _))
  have reachable : inBlock.Reachable faulty := by
    rw [inBlock]
    split
    · rename_i ahead
      exact .enter outside ahead
    · exact outside
  exact ⟨reachable, by decide +kernel, by decide +kernel, by decide +kernel, by decide +kernel,
    loops_progress reachable⟩

end Progress

end BuildScript.Grammar
