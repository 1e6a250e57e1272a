import BuildScript.Token

/-!
# The grammar in EBNF

The grammar of build scripts as data, written over single tokens: the delimiters are
marks like any other, and nothing is said about how a script is read. A list of
tokens is a sentence of an expression when it can be derived from it.
-/

namespace BuildScript.Grammar

/-- A class of tokens, the terminal of an expression. -/
inductive TokenClass where
  | keyword (word : Keyword)
  /-- An identifier that is a certain word. -/
  | word (text : String)
  | mark (mark : Char)
  | identifier
  | anyKeyword
  | stringLiteral
  deriving DecidableEq, Repr

inductive TokenClass.Holds : TokenClass → Token → Prop where
  | keyword (word : Keyword) (span : Span) : Holds (.keyword word) ⟨.keyword word, span⟩
  | word {text : String} {span : Span} (spelled : span.text = text) :
      Holds (.word text) ⟨.identifier, span⟩
  | mark (mark : Char) (span : Span) : Holds (.mark mark) ⟨.punctuation mark, span⟩
  | identifier (span : Span) : Holds .identifier ⟨.identifier, span⟩
  | anyKeyword (word : Keyword) (span : Span) : Holds .anyKeyword ⟨.keyword word, span⟩
  | stringLiteral (span : Span) : Holds .stringLiteral ⟨.stringLiteral, span⟩

inductive Nonterminal where
  | buildScript
  | declaration
  | pluginsBlock
  | pluginEntry
  | repositoriesBlock
  | repositoryEntry
  | urlStatement
  | dependenciesBlock
  | dependencyEntry
  | taskRegistration
  | taskStatement
  | identifierPath
  | name
  deriving DecidableEq, Repr

inductive Ebnf where
  | empty
  | token (terminal : TokenClass)
  | rule (nonterminal : Nonterminal)
  | sequence (first second : Ebnf)
  | choice (first second : Ebnf)
  | optional (inside : Ebnf)
  | many (inside : Ebnf)
  deriving DecidableEq, Repr

namespace Ebnf

def all : List Ebnf → Ebnf
  | [] => .empty
  | part :: parts => .sequence part (all parts)

def mark (mark : Char) : Ebnf :=
  .token (.mark mark)

def braced (inside : Ebnf) : Ebnf :=
  all [mark '{', inside, mark '}']

def parenthesized (inside : Ebnf) : Ebnf :=
  all [mark '(', inside, mark ')']

end Ebnf

open Ebnf in
def Nonterminal.definition : Nonterminal → Ebnf
  | .buildScript => .many (.rule .declaration)
  | .declaration =>
      .choice (.rule .pluginsBlock)
        (.choice (.rule .repositoriesBlock)
          (.choice (.rule .dependenciesBlock) (.rule .taskRegistration)))
  | .pluginsBlock =>
      all [.token (.keyword .plugins), braced (.many (.rule .pluginEntry))]
  | .pluginEntry =>
      all [.token (.word "id"), .token .stringLiteral,
        .optional (all [.token (.word "version"), .token .stringLiteral])]
  | .repositoriesBlock =>
      all [.token (.keyword .repositories), braced (.many (.rule .repositoryEntry))]
  | .repositoryEntry =>
      .choice (all [.token (.keyword .mavenCentral), parenthesized .empty])
        (.choice (all [.token (.keyword .jcenter), parenthesized .empty])
          (all [.token (.keyword .maven), braced (.optional (.rule .urlStatement))]))
  | .urlStatement =>
      all [.token (.word "url"), .optional (mark '='), .optional (.token .stringLiteral)]
  | .dependenciesBlock =>
      all [.token (.keyword .dependencies), braced (.many (.rule .dependencyEntry))]
  | .dependencyEntry =>
      all [.token .identifier,
        .choice (.token .stringLiteral) (parenthesized (.token .stringLiteral))]
  | .taskRegistration =>
      all [.token (.keyword .tasks), mark '.', .token (.word "register"),
        parenthesized
          (all [.token .stringLiteral, .optional (all [mark ',', .token .identifier])]),
        braced (.many (.rule .taskStatement))]
  | .taskStatement =>
      all [.rule .name, .optional (mark '='),
        .choice (.token .stringLiteral) (.rule .identifierPath)]
  | .identifierPath => all [.rule .name, .many (all [mark '.', .rule .name])]
  | .name => .choice (.token .identifier) (.token .anyKeyword)

/-- The tokens are a sentence of the expression. -/
inductive Derives : Ebnf → List Token → Prop where
  | empty : Derives .empty []
  | token {terminal : TokenClass} {token : Token} (holds : terminal.Holds token) :
      Derives (.token terminal) [token]
  | rule {nonterminal : Nonterminal} {tokens : List Token}
      (body : Derives nonterminal.definition tokens) : Derives (.rule nonterminal) tokens
  | sequence {first second : Ebnf} {front back : List Token} (before : Derives first front)
      (after : Derives second back) : Derives (.sequence first second) (front ++ back)
  | left {first second : Ebnf} {tokens : List Token} (chosen : Derives first tokens) :
      Derives (.choice first second) tokens
  | right {first second : Ebnf} {tokens : List Token} (chosen : Derives second tokens) :
      Derives (.choice first second) tokens
  | absent {inside : Ebnf} : Derives (.optional inside) []
  | present {inside : Ebnf} {tokens : List Token} (there : Derives inside tokens) :
      Derives (.optional inside) tokens
  | done {inside : Ebnf} : Derives (.many inside) []
  | again {inside : Ebnf} {front back : List Token} (once : Derives inside front)
      (more : Derives (.many inside) back) : Derives (.many inside) (front ++ back)

namespace Derives

variable {tokens : List Token}

theorem token_iff {terminal : TokenClass} :
    Derives (.token terminal) tokens ↔ ∃ token, tokens = [token] ∧ terminal.Holds token := by
  constructor
  · rintro ⟨⟩
    case token token holds => exact ⟨token, rfl, holds⟩
  · rintro ⟨token, rfl, holds⟩
    exact .token holds

theorem singleton_iff {terminal : TokenClass} {token : Token} :
    Derives (.token terminal) [token] ↔ terminal.Holds token := by
  rw [token_iff]
  constructor
  · rintro ⟨_, same, holds⟩
    cases same
    exact holds
  · intro holds
    exact ⟨token, rfl, holds⟩

theorem rule_iff {nonterminal : Nonterminal} :
    Derives (.rule nonterminal) tokens ↔ Derives nonterminal.definition tokens := by
  constructor
  · rintro ⟨⟩
    assumption
  · exact .rule

theorem sequence_iff {first second : Ebnf} :
    Derives (.sequence first second) tokens ↔
      ∃ front back, tokens = front ++ back ∧ Derives first front ∧ Derives second back := by
  constructor
  · rintro ⟨⟩
    case sequence front back before after => exact ⟨front, back, rfl, before, after⟩
  · rintro ⟨front, back, rfl, before, after⟩
    exact .sequence before after

theorem choice_iff {first second : Ebnf} :
    Derives (.choice first second) tokens ↔ Derives first tokens ∨ Derives second tokens := by
  constructor
  · rintro ⟨⟩
    case left chosen => exact .inl chosen
    case right chosen => exact .inr chosen
  · rintro (chosen | chosen)
    · exact .left chosen
    · exact .right chosen

theorem optional_iff {inside : Ebnf} :
    Derives (.optional inside) tokens ↔ tokens = [] ∨ Derives inside tokens := by
  constructor
  · rintro ⟨⟩
    case absent => exact .inl rfl
    case present there => exact .inr there
  · rintro (rfl | there)
    · exact .absent
    · exact .present there

theorem empty_iff : Derives .empty tokens ↔ tokens = [] := by
  constructor
  · rintro ⟨⟩
    rfl
  · rintro rfl
    exact .empty

/-- A repetition is derived in parts, one for each time. -/
theorem many_iff {inside : Ebnf} :
    Derives (.many inside) tokens ↔
      ∃ parts : List (List Token), tokens = parts.flatten ∧
        ∀ part ∈ parts, Derives inside part := by
  constructor
  · intro derived
    generalize expression : Ebnf.many inside = whole at derived
    induction derived with
    | done => exact ⟨[], rfl, fun _ member => absurd member List.not_mem_nil⟩
    | @again other front back once more _ ih =>
        cases expression
        obtain ⟨parts, rfl, each⟩ := ih rfl
        exact ⟨front :: parts, rfl, List.forall_mem_cons.2 ⟨once, each⟩⟩
    | empty | token | rule | sequence | left | right | absent | present => cases expression
  · rintro ⟨parts, rfl, each⟩
    induction parts with
    | nil => exact .done
    | cons part parts ih =>
        obtain ⟨once, more⟩ := List.forall_mem_cons.1 each
        exact .again once (ih more)

end Derives

end BuildScript.Grammar
