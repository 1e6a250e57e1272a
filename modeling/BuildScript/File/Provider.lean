import BuildScript.File.Disk

/-!
# Providers

Where scripts are read from: remembered texts, a directory on a disk, or bytes that
stand for every path. A provider of bytes alone reads text by decoding them.
-/

namespace BuildScript.File

structure Provider where
  bytes : String → Except Error ByteArray
  text : String → Except Error String

def Provider.decoding (bytes : String → Except Error ByteArray) : Provider where
  bytes := bytes
  text path :=
    (bytes path).bind fun content => (Text.decodeUtf8 content).mapError .encoding

structure Memory where
  texts : List (List Path.Component × String)
  deriving DecidableEq, Repr

namespace Memory

def empty : Memory :=
  ⟨[]⟩

def text? (memory : Memory) (path : String) : Option String :=
  memory.texts.lookup (Path.components path)

/-- The memory with a text under a path, in place of the one that was there. -/
def remember (memory : Memory) (path text : String) : Memory :=
  ⟨(Path.components path, text) ::
    memory.texts.filter fun (other, _) => other ≠ Path.components path⟩

def provider (memory : Memory) : Provider :=
  let read (path : String) : Except Error String :=
    match memory.text? path with
    | some text => .ok text
    | none => .error (.io path .unknownFile)
  { bytes := fun path => (read path).map String.toUTF8, text := read }

end Memory

/-- The provider of the files of a disk, seen from the directory `root`. -/
def Disk.provider (disk : Disk) (root : String) : Provider where
  bytes path :=
    let full := Path.join root path
    (disk.read full).mapError (.io full)
  text path :=
    let full := Path.join root path
    match disk.read full with
    | .error cause => .error (.io full cause)
    | .ok content => (Text.decodeUtf8 content).mapError fun _ => .io full .notText

def Provider.load (provider : Provider) (path : String) : Except Error SourceFile :=
  (provider.text path).map fun content => SourceFile.ofText 0 path content

end BuildScript.File
