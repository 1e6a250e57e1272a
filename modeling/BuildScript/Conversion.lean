import BuildScript.File.Output
import BuildScript.File.Provider
import BuildScript.Grammar.Rules
import BuildScript.Model.Extraction
import BuildScript.TokenTree.Nesting

/-!
# From scripts to documents

The whole way from a script to its documents. Each step hands on its result with the
diagnostics it reported; a script with any lexical or syntactic error has no syntax
tree.
-/

namespace BuildScript

/-- The token trees of a file; lexical errors are reported and do not stop the step. -/
def SourceFile.tokenize (file : SourceFile) : Outcome (List TokenTree) :=
  ⟨file.trees.reports.map .lexical, .ok file.trees.trees⟩

def Script.ofTrees (trees : List TokenTree) : Outcome Script :=
  let (script, parser) := Grammar.Rule.script (Grammar.Parser.ofTrees trees)
  let reports := parser.reports.map Error.grammar
  match script with
  | none => ⟨reports, .error (.step .parsing)⟩
  | some tree =>
      if reports.isEmpty then ⟨reports, .ok tree⟩ else ⟨reports, .error (.step .parsing)⟩

def SourceFile.parse (file : SourceFile) : Outcome Script :=
  let forest := file.trees
  if forest.reports.isEmpty then Script.ofTrees forest.trees
  else ⟨forest.reports.map .lexical, .error (.step .tokenizing)⟩

/--
Reads the script in a file and hands every diagnostic to the receiver as it is reported.
Whether one was reported so far is asked of a tracker in front of the receiver.
-/
def SourceFile.parseInto {σ : Type} (handler : Handler σ) (state : σ) (file : SourceFile) :
    Except Error Script × σ :=
  let tracker := handler.tracking
  let lexed := tracker.deliver (state, false) file.tokenize
  if tracker.hasReceived lexed then (.error (.step .tokenizing), lexed.1)
  else
    let (script, parser) := Grammar.Rule.script (Grammar.Parser.ofTrees file.trees.trees)
    let parsed := (parser.reports.map Error.grammar).foldl tracker.receive lexed
    match script with
    | none => (.error (.step .parsing), parsed.1)
    | some tree =>
        if tracker.hasReceived parsed then (.error (.step .parsing), parsed.1)
        else (.ok tree, parsed.1)

def Script.parse (identifier text : String) : Outcome Script :=
  (SourceFile.ofText 0 identifier text).parse

namespace Conversion

def tokenize (provider : File.Provider) (path : String) : Outcome (List TokenTree) :=
  (Outcome.ofExcept (provider.load path)).andThen SourceFile.tokenize

def parse (provider : File.Provider) (path : String) : Outcome Script :=
  (Outcome.ofExcept (provider.load path)).andThen SourceFile.parse

def model (provider : File.Provider) (path : String) : Outcome Model :=
  (parse provider path).andThen Script.buildModel

def convertText (identifier text : String) (options : Bazel.Options) :
    Outcome (Model × Bazel.Documents) :=
  ((Script.parse identifier text).andThen Script.buildModel).map fun model =>
    (model, Bazel.render options model)

/-- Writes the documents of the script under a path, and tells what was reported. -/
def convert {σ : Type} (volume : File.Volume σ) (provider : File.Provider)
    (path directory : String) (options : Bazel.Options) (state : σ) : Outcome Unit × σ :=
  let outcome := model provider path
  match outcome.result with
  | .error error => (⟨outcome.reports, .error error⟩, state)
  | .ok found =>
      let (result, after) := volume.writeModel found directory options state
      (⟨outcome.reports, result⟩, after)

end Conversion

end BuildScript
