/-!
# Options

What may be chosen about the documents: the version of the rules that fetch the
dependencies, the target a program depends on, and the names of the two files.
-/

namespace BuildScript.Bazel

structure Options where
  rulesVersion : String
  runtimeTarget : String
  workspaceFileName : String
  buildFileName : String
  deriving DecidableEq, Repr

def Options.standard : Options :=
  ⟨"4.0", ":my_library", "WORKSPACE", "BUILD.bazel"⟩

end BuildScript.Bazel
