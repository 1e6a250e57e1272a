import BuildScript.Bazel.Documents
import BuildScript.File.Disk

/-!
# Writing the documents

Both documents are written into a directory, which is made if it is missing. A file
is replaced at once: the text goes into a temporary file beside the target, and that
file is renamed. If a step fails, the temporary file is removed.
-/

namespace BuildScript.File

/-- An action on a file system that may fail, and may have had some effect then. -/
abbrev Action (σ α : Type) : Type :=
  σ → Except IoCause α × σ

/-- The operations by which documents are written. -/
structure Volume (σ : Type) where
  makeDirectories : String → Action σ Unit
  /-- Makes an empty file, or empties one. -/
  create : String → Action σ Unit
  /-- Writes into the file made last under the path. -/
  write : String → ByteArray → Action σ Unit
  /-- Waits until a file is safe. -/
  sync : String → Action σ Unit
  /-- Moves a file over another. -/
  rename : String → String → Action σ Unit
  remove : String → Action σ Unit

/-- The action after another, which has to succeed. -/
def Action.andThen {σ α β : Type} (first : Action σ α) (next : Action σ β) : Action σ β :=
  fun state =>
    match first state with
    | (.ok _, after) => next after
    | (.error cause, after) => (.error cause, after)

/-- An operation of a disk as an action; a failure leaves the disk as it is. -/
def Disk.action (operation : Disk → Except IoCause Disk) : Action Disk Unit :=
  fun disk =>
    match operation disk with
    | .ok changed => (.ok (), changed)
    | .error cause => (.error cause, disk)

def Disk.volume : Volume Disk where
  makeDirectories path disk := disk.makeDirectories path
  create path := Disk.action fun disk => disk.createFile path
  write path bytes := Disk.action fun disk => disk.appendFile path bytes
  sync _ disk := (.ok (), disk)
  rename source target := Disk.action fun disk => disk.renameFile source target
  remove path := Disk.action fun disk => disk.removeFile path

namespace Volume

variable {σ : Type} (volume : Volume σ)

/-- Writes a text into a temporary file and moves that over the target. -/
def writeAndRename (temporary target contents : String) : Action σ Unit :=
  (volume.create temporary).andThen
    ((volume.write temporary contents.toUTF8).andThen
      ((volume.sync temporary).andThen (volume.rename temporary target)))

def temporaryPath (target name : String) : String :=
  Path.withFileName target ("." ++ name ++ ".tmp")

/-- Replaces the content of a file at once. -/
def writeAtomic (path contents : String) (state : σ) : Except Error Unit × σ :=
  match Path.fileName? path with
  | none => (.error (.step .namingOutput), state)
  | some name =>
      let temporary := temporaryPath path name
      match volume.writeAndRename temporary path contents state with
      | (.ok (), after) => (.ok (), after)
      | (.error cause, after) => (.error (.io path cause), (volume.remove temporary after).2)

def writeDocuments (documents : Bazel.Documents) (directory : String) (options : Bazel.Options)
    (state : σ) : Except Error Unit × σ :=
  match volume.makeDirectories directory state with
  | (.error cause, after) => (.error (.io directory cause), after)
  | (.ok (), ready) =>
      let workspacePath := Path.join directory options.workspaceFileName
      match volume.writeAtomic workspacePath documents.workspace ready with
      | (.error error, after) => (.error error, after)
      | (.ok (), half) =>
          volume.writeAtomic (Path.join directory options.buildFileName) documents.buildFile half

def writeModel (model : Model) (directory : String) (options : Bazel.Options) (state : σ) :
    Except Error Unit × σ :=
  volume.writeDocuments (Bazel.render options model) directory options state

end Volume

end BuildScript.File
