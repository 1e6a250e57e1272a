import BuildScript.Error

/-!
# Disks

A file system as a value: which places hold a file or a directory, a place being the
list of names that leads to it from the root. Paths are resolved name by name: every
name but the last has to be a directory, `.` stays, `..` goes up, and the root is its
own parent. The operations either take their usual effect or fail with the cause
that a file system of this kind reports first.
-/

namespace BuildScript.File

inductive Entry where
  | file (bytes : ByteArray)
  | directory

/-- A file system with a working directory. -/
structure Disk where
  /-- What the places below the root hold. -/
  entries : List (List String × Entry)
  /-- The directory from which relative paths start. -/
  workingDirectory : List String

def nameLimit : Nat := 255

/-- The number of bytes that no path reaches. -/
def pathLimit : Nat := 4096

namespace Disk

/-- What the place holds; the root is a directory. -/
def entry? (disk : Disk) (place : List String) : Option Entry :=
  if place = [] then some .directory else disk.entries.lookup place

def erase (disk : Disk) (place : List String) : Disk :=
  { disk with entries := disk.entries.filter fun (other, _) => other ≠ place }

def set (disk : Disk) (place : List String) (entry : Entry) : Disk :=
  { disk with entries := (place, entry) :: (disk.erase place).entries }

/-- A disk with only the directories that lead to the working directory. -/
def fresh (workingDirectory : List String) : Disk :=
  ⟨(List.range workingDirectory.length).map fun count =>
      (workingDirectory.take (count + 1), .directory),
    workingDirectory⟩

/-! ## Resolving paths -/

def names (path : String) : List String :=
  ((Path.segments path.toList).filter fun segment => segment ≠ []).map String.ofList

def startOf (disk : Disk) (path : String) : List String :=
  if Path.isAbsolute path then [] else disk.workingDirectory

/-- The place that the names lead to from `place`. -/
def follow (disk : Disk) (place : List String) : List String → Except IoCause (List String)
  | [] => .ok place
  | name :: names =>
      match disk.entry? place with
      | none => .error .noEntry
      | some (.file _) => .error .notDirectory
      | some .directory =>
          if name = "." then disk.follow place names
          else if name = ".." then disk.follow place.dropLast names
          else if nameLimit < name.utf8ByteSize then .error .nameTooLong
          else
            match disk.entry? (place ++ [name]) with
            | none => .error .noEntry
            | some _ => disk.follow (place ++ [name]) names

/-- Refuses a path that cannot be looked up at all. -/
def checkPath (path : String) : Except IoCause Unit :=
  if path.toList.contains '\x00' then .error .nulInPath
  else if path.isEmpty then .error .noEntry
  else if pathLimit ≤ path.utf8ByteSize then .error .nameTooLong
  else .ok ()

def find (disk : Disk) (path : String) : Except IoCause (List String × Entry) := do
  checkPath path
  let place ← disk.follow (disk.startOf path) (names path)
  match disk.entry? place with
  | none => .error .noEntry
  | some (.file bytes) =>
      if Path.hasTrailingSlash path then .error .notDirectory else .ok (place, .file bytes)
  | some .directory => .ok (place, .directory)

/-- The directory that holds the last name of a path, and that name. -/
structure Slot where
  directory : List String
  name : String
  deriving DecidableEq, Repr

def Slot.place (slot : Slot) : List String :=
  slot.directory ++ [slot.name]

/-- Where the last name of a path stands; `refusal` if that is no name of its own. -/
def slot (disk : Disk) (path : String) (refusal : IoCause) : Except IoCause Slot := do
  checkPath path
  match (names path).getLast? with
  | none => .error refusal
  | some name =>
      let directory ← disk.follow (disk.startOf path) (names path).dropLast
      match disk.entry? directory with
      | none => .error .noEntry
      | some (.file _) => .error .notDirectory
      | some .directory =>
          if name = "." ∨ name = ".." then .error refusal else .ok ⟨directory, name⟩

def Slot.checkName (slot : Slot) : Except IoCause Unit :=
  if nameLimit < slot.name.utf8ByteSize then .error .nameTooLong else .ok ()

/-! ## Operations -/

def read (disk : Disk) (path : String) : Except IoCause ByteArray := do
  match ← disk.find path with
  | (_, .file bytes) => .ok bytes
  | (_, .directory) => .error .isDirectory

def isDirectory (disk : Disk) (path : String) : Bool :=
  match disk.find path with
  | .ok (_, .directory) => true
  | _ => false

def makeDirectory (disk : Disk) (path : String) : Except IoCause Disk := do
  let slot ← disk.slot path .alreadyExists
  slot.checkName
  match disk.entry? slot.place with
  | some _ => .error .alreadyExists
  | none => .ok (disk.set slot.place .directory)

/-- The disk with an empty file under the path, whether there was a file or none. -/
def createFile (disk : Disk) (path : String) : Except IoCause Disk := do
  let slot ← disk.slot path .isDirectory
  if Path.hasTrailingSlash path then .error .isDirectory
  slot.checkName
  match disk.entry? slot.place with
  | some .directory => .error .isDirectory
  | _ => .ok (disk.set slot.place (.file ByteArray.empty))

def appendFile (disk : Disk) (path : String) (bytes : ByteArray) : Except IoCause Disk := do
  match ← disk.find path with
  | (place, .file before) => .ok (disk.set place (.file (before ++ bytes)))
  | (_, .directory) => .error .isDirectory

/-- The disk with a file moved from one path to another, over a file that was there. -/
def renameFile (disk : Disk) (source target : String) : Except IoCause Disk := do
  let old ← disk.slot source .busy
  let new ← disk.slot target .busy
  old.checkName
  new.checkName
  match disk.entry? old.place with
  | none => .error .noEntry
  | some .directory => .error .isDirectory
  | some (.file bytes) =>
      if Path.hasTrailingSlash source ∨ Path.hasTrailingSlash target then .error .notDirectory
      else
        match disk.entry? new.place with
        | some .directory => .error .isDirectory
        | _ => .ok ((disk.erase old.place).set new.place (.file bytes))

def removeFile (disk : Disk) (path : String) : Except IoCause Disk := do
  let slot ← disk.slot path .isDirectory
  slot.checkName
  match disk.entry? slot.place with
  | none => .error .noEntry
  | some .directory => .error .isDirectory
  | some (.file _) =>
      if Path.hasTrailingSlash path then .error .notDirectory else .ok (disk.erase slot.place)

/-- A path and the paths of its parents, innermost first, up to the start of the path. -/
def ancestors (path : String) : List String :=
  let steps := Path.components path
  let parents := (List.range steps.length).reverse.map fun count => steps.take count
  let proper := parents.filter fun parent => parent ≠ [] ∧ parent ≠ [.root]
  if steps = [] ∨ steps = [.root] then [] else path :: proper.map Path.ofComponents

/-- Makes the first of the directories, and before it those of its parents that are missing. -/
def makeMissing (disk : Disk) : List String → Except IoCause Unit × Disk
  | [] => (.ok (), disk)
  | path :: parents =>
      match disk.makeDirectory path with
      | .ok made => (.ok (), made)
      | .error .noEntry =>
          match disk.makeMissing parents with
          | (.error cause, partly) => (.error cause, partly)
          | (.ok (), ready) =>
              match ready.makeDirectory path with
              | .ok made => (.ok (), made)
              | .error cause =>
                  if ready.isDirectory path then (.ok (), ready) else (.error cause, ready)
      | .error cause => if disk.isDirectory path then (.ok (), disk) else (.error cause, disk)

/-- Makes a directory with all its parents; an existing directory is left as it is. -/
def makeDirectories (disk : Disk) (path : String) : Except IoCause Unit × Disk :=
  disk.makeMissing (ancestors path)

/-! ## Listing -/

/-- The order in which places are listed: a directory before its content, names ascending. -/
def listedBefore : List String → List String → Bool
  | [], _ => true
  | _ :: _, [] => false
  | a :: as, b :: bs => a < b || (a == b && listedBefore as bs)

/-- All places below the working directory, as paths from there. -/
def listing (disk : Disk) : List (List String × Entry) :=
  let depth := disk.workingDirectory.length
  let below := disk.entries.filterMap fun (place, entry) =>
    if place.take depth = disk.workingDirectory ∧ depth < place.length then
      some (place.drop depth, entry)
    else none
  below.mergeSort fun first second => listedBefore first.1 second.1

end Disk

end BuildScript.File
