import BuildScript.Proofs.Siblings

/-!
# What the operations of a disk do

Every operation that succeeds changes one place, a renaming two, and the place is found
through directories only. So whatever happens to files, as long as the directories stay
the same paths lead to the same places. An operation is described once, by what it needs
in order to succeed and by the disk that it leaves.
-/

namespace BuildScript.File

namespace Disk

variable {disk first second : Disk} {place target : List String} {path name : String}

/-! ## Places -/

/-- Looking a place up among the entries of the other places. -/
theorem lookup_filter_ne (entries : List (List String × Entry)) (place other : List String) :
    (entries.filter fun (key, _) => key ≠ place).lookup other =
      if other = place then none else entries.lookup other := by
  induction entries with
  | nil => simp
  | cons head tail ih =>
      rw [List.filter_cons, List.lookup_cons]
      grind

theorem entry?_erase (nonempty : place ≠ []) (disk : Disk) (other : List String) :
    entry? (disk.erase place) other = if other = place then none else disk.entry? other := by
  unfold entry?
  by_cases root : other = []
  · rw [if_pos root, if_pos root, if_neg (by rw [root]; exact nonempty.symm)]
  · rw [if_neg root, if_neg root]
    exact lookup_filter_ne disk.entries place other

theorem entry?_set (nonempty : place ≠ []) (disk : Disk) (entry : Entry) (other : List String) :
    entry? (disk.set place entry) other =
      if other = place then some entry else disk.entry? other := by
  have behind := entry?_erase nonempty disk other
  unfold entry? at behind ⊢
  by_cases same : other = place
  · rw [if_neg (by rw [same]; exact nonempty), if_pos same, same]
    exact List.lookup_cons_self
  · rw [if_neg same] at behind ⊢
    rw [← behind, set, List.lookup_cons, beq_false_of_ne same]

theorem erase_erase (disk : Disk) (place : List String) :
    (disk.erase place).erase place = disk.erase place := by
  simp [erase, List.filter_filter]

theorem erase_set (disk : Disk) (place : List String) (entry : Entry) :
    (disk.set place entry).erase place = disk.erase place := by
  simp [erase, set, List.filter_filter]

/-- Only the last entry written to a place counts. -/
theorem set_set (disk : Disk) (place : List String) (entry later : Entry) :
    (disk.set place entry).set place later = disk.set place later := by
  rw [set, erase_set, set, set]

theorem Slot.place_ne_nil (slot : Slot) : slot.place ≠ [] :=
  List.append_ne_nil_of_right_ne_nil _ (List.cons_ne_nil _ _)

attribute [ext] Slot

theorem Slot.place_inj {one two : Slot} : one.place = two.place ↔ one = two := by
  refine ⟨fun same => ?_, fun same => by rw [same]⟩
  obtain ⟨directories, names⟩ := List.append_inj' same rfl
  exact Slot.ext directories (List.cons.inj names).1

/-! ## Ways through directories -/

/-- What one more name needs in order to lead on. -/
theorem follow_cons_eq_ok {names : List String}
    (follows : disk.follow place (name :: names) = .ok target) :
    disk.entry? place = some .directory ∧
      (name = "." ∧ disk.follow place names = .ok target ∨
        name = ".." ∧ disk.follow place.dropLast names = .ok target ∨
          (name ≠ "." ∧ name ≠ "..") ∧ name.utf8ByteSize ≤ nameLimit ∧
            disk.follow (place ++ [name]) names = .ok target) := by
  rw [follow] at follows
  split at follows
  · cases follows
  · cases follows
  · rename_i passes
    refine ⟨passes, ?_⟩
    split at follows
    · rename_i dot
      exact .inl ⟨dot, follows⟩
    · rename_i notDot
      split at follows
      · rename_i dots
        exact .inr (.inl ⟨dots, follows⟩)
      · rename_i notDots
        split at follows
        · cases follows
        · rename_i short
          split at follows
          · cases follows
          · exact .inr (.inr ⟨⟨notDot, notDots⟩, Nat.not_lt.1 short, follows⟩)

/-- From a directory, a proper name leads on to what the directory holds under it. -/
theorem follow_proper (isDirectory : disk.entry? place = some .directory)
    (proper : name ≠ "." ∧ name ≠ "..") (later : List String) :
    disk.follow place (name :: later) =
      if nameLimit < name.utf8ByteSize then .error .nameTooLong
      else
        match disk.entry? (place ++ [name]) with
        | none => .error .noEntry
        | some _ => disk.follow (place ++ [name]) later := by
  rw [follow, isDirectory]
  exact (if_neg proper.1).trans (if_neg proper.2)

/-- The names lead from a place to another, and every place on the way is a directory. -/
inductive Leads (disk : Disk) : List String → List String → List String → Prop
  | here {place : List String} (isDirectory : disk.entry? place = some .directory) :
      Leads disk place [] place
  | stay {place target : List String} {names : List String}
      (isDirectory : disk.entry? place = some .directory) (later : Leads disk place names target) :
      Leads disk place ("." :: names) target
  | up {place target : List String} {names : List String}
      (isDirectory : disk.entry? place = some .directory)
      (later : Leads disk place.dropLast names target) :
      Leads disk place (".." :: names) target
  | down {place target : List String} {name : String} {names : List String}
      (isDirectory : disk.entry? place = some .directory) (proper : name ≠ "." ∧ name ≠ "..")
      (short : name.utf8ByteSize ≤ nameLimit) (later : Leads disk (place ++ [name]) names target) :
      Leads disk place (name :: names) target

/-- Dots lead nowhere else. -/
theorem follow_dots_eq_ok {dots : List String} (isDots : ∀ dot ∈ dots, dot = ".")
    (follows : disk.follow place dots = .ok target) : target = place := by
  induction dots with
  | nil =>
      cases follows
      rfl
  | cons dot dots ih =>
      obtain ⟨isDot, areDots⟩ := List.forall_mem_cons.1 isDots
      rw [isDot] at follows
      obtain ⟨_, ⟨_, later⟩ | ⟨impossible, _⟩ | ⟨⟨impossible, _⟩, _⟩⟩ := follow_cons_eq_ok follows
      · exact ih areDots later
      · exact absurd impossible (by decide)
      · exact absurd rfl impossible

/-- Where dots lead depends on what stands at the place alone. -/
theorem follow_dots_congr {dots : List String} (isDots : ∀ dot ∈ dots, dot = ".")
    (agree : first.entry? place = second.entry? place) :
    first.follow place dots = second.follow place dots := by
  induction dots with
  | nil => rfl
  | cons dot dots ih =>
      obtain ⟨isDot, areDots⟩ := List.forall_mem_cons.1 isDots
      rw [follow, follow, agree, isDot, if_pos rfl, if_pos rfl, ih areDots]

namespace Leads

variable {names later : List String}

theorem start (leads : disk.Leads place names target) : disk.entry? place = some .directory := by
  cases leads <;> assumption

theorem finish (leads : disk.Leads place names target) : disk.entry? target = some .directory := by
  induction leads <;> assumption

/-- Following the names behind a way goes on where the way ends. -/
theorem follow_append (leads : disk.Leads place names target) (later : List String) :
    disk.follow place (names ++ later) = disk.follow target later := by
  induction leads with
  | here isDirectory => rfl
  | stay isDirectory _ ih =>
      rw [List.cons_append, follow, isDirectory]
      exact ih
  | up isDirectory _ ih =>
      rw [List.cons_append, follow, isDirectory]
      exact ih
  | down isDirectory proper short below ih =>
      rw [List.cons_append, follow_proper isDirectory proper, if_neg (Nat.not_lt.2 short),
        below.start]
      exact ih

theorem follow_eq (leads : disk.Leads place names target) :
    disk.follow place names = .ok target := by
  have ends := leads.follow_append []
  rwa [List.append_nil] at ends

theorem unique (leads : disk.Leads place names target) {other : List String}
    (also : disk.Leads place names other) : target = other :=
  Except.ok.inj (leads.follow_eq.symm.trans also.follow_eq)

theorem append (leads : disk.Leads place names target) {last : List String}
    (goesOn : disk.Leads target later last) : disk.Leads place (names ++ later) last := by
  induction leads with
  | here _ => exact goesOn
  | stay isDirectory _ ih => exact .stay isDirectory (ih goesOn)
  | up isDirectory _ ih => exact .up isDirectory (ih goesOn)
  | down isDirectory proper short _ ih => exact .down isDirectory proper short (ih goesOn)

/-- Dots are a way that stays in a directory. -/
theorem of_dots {dots : List String} (isDots : ∀ dot ∈ dots, dot = ".")
    (isDirectory : disk.entry? place = some .directory) : disk.Leads place dots place := by
  induction dots with
  | nil => exact .here isDirectory
  | cons dot dots ih =>
      rw [isDots dot List.mem_cons_self]
      exact .stay isDirectory (ih fun other member => isDots other (List.mem_cons_of_mem _ member))

/-- Following names to a directory passes only directories. -/
theorem of_follow (follows : disk.follow place names = .ok target)
    (isDirectory : disk.entry? target = some .directory) : disk.Leads place names target := by
  induction names generalizing place with
  | nil =>
      cases follows
      exact .here isDirectory
  | cons name names ih =>
      obtain ⟨passes, ⟨rfl, later⟩ | ⟨rfl, later⟩ | ⟨proper, short, later⟩⟩ :=
        follow_cons_eq_ok follows
      · exact .stay passes (ih later)
      · exact .up passes (ih later)
      · exact .down passes proper short (ih later)

/-- Following names to a last one that is proper passes only directories before it. -/
theorem of_follow_concat (proper : name ≠ "." ∧ name ≠ "..")
    (follows : disk.follow place (names ++ [name]) = .ok target) :
    ∃ directory, disk.Leads place names directory ∧ name.utf8ByteSize ≤ nameLimit ∧
      target = directory ++ [name] := by
  induction names generalizing place with
  | nil =>
      obtain ⟨passes, ⟨dot, _⟩ | ⟨dots, _⟩ | ⟨_, short, follows⟩⟩ := follow_cons_eq_ok follows
      · exact absurd dot proper.1
      · exact absurd dots proper.2
      · cases follows
        exact ⟨place, .here passes, short, rfl⟩
  | cons next names ih =>
      obtain ⟨passes, ⟨rfl, later⟩ | ⟨rfl, later⟩ | ⟨inner, below, later⟩⟩ :=
        follow_cons_eq_ok follows
      · obtain ⟨directory, leads, ends⟩ := ih later
        exact ⟨directory, .stay passes leads, ends⟩
      · obtain ⟨directory, leads, ends⟩ := ih later
        exact ⟨directory, .up passes leads, ends⟩
      · obtain ⟨directory, leads, ends⟩ := ih later
        exact ⟨directory, .down passes inner below leads, ends⟩

end Leads

structure SameDirectories (first second : Disk) : Prop where
  workingDirectory_eq : first.workingDirectory = second.workingDirectory
  entry?_iff : ∀ place, first.entry? place = some .directory ↔ second.entry? place = some .directory

namespace SameDirectories

theorem refl (disk : Disk) : SameDirectories disk disk :=
  ⟨rfl, fun _ => .rfl⟩

theorem symm (same : SameDirectories first second) : SameDirectories second first :=
  ⟨same.workingDirectory_eq.symm, fun place => (same.entry?_iff place).symm⟩

theorem trans {third : Disk} (same : SameDirectories first second)
    (also : SameDirectories second third) : SameDirectories first third :=
  ⟨same.workingDirectory_eq.trans also.workingDirectory_eq,
    fun place => (same.entry?_iff place).trans (also.entry?_iff place)⟩

theorem startOf_eq (same : SameDirectories first second) (path : String) :
    first.startOf path = second.startOf path := by
  rw [startOf, startOf, same.workingDirectory_eq]

/-- The same directories make the same ways. -/
theorem leads (same : SameDirectories first second) {names : List String}
    (isWay : first.Leads place names target) : second.Leads place names target := by
  induction isWay with
  | here isDirectory => exact .here ((same.entry?_iff _).1 isDirectory)
  | stay isDirectory _ ih => exact .stay ((same.entry?_iff _).1 isDirectory) ih
  | up isDirectory _ ih => exact .up ((same.entry?_iff _).1 isDirectory) ih
  | down isDirectory proper short _ ih =>
      exact .down ((same.entry?_iff _).1 isDirectory) proper short ih

/-- A file in the place of a file, or in an empty place, leaves the directories as they are. -/
theorem set_file (nonempty : place ≠ []) (free : disk.entry? place ≠ some .directory)
    (bytes : ByteArray) : SameDirectories disk (disk.set place (.file bytes)) where
  workingDirectory_eq := rfl
  entry?_iff other := by
    rw [entry?_set nonempty]
    split
    · rename_i same
      exact iff_of_false (same ▸ free) nofun
    · exact .rfl

theorem erase (nonempty : place ≠ []) (free : disk.entry? place ≠ some .directory) :
    SameDirectories disk (disk.erase place) where
  workingDirectory_eq := rfl
  entry?_iff other := by
    rw [entry?_erase nonempty]
    split
    · rename_i same
      exact iff_of_false (same ▸ free) nofun
    · exact .rfl

end SameDirectories

/-! ## What each operation needs and leaves -/

theorem bind_eq_ok_iff {α β : Type} {first : Except IoCause α} {next : α → Except IoCause β}
    {result : β} :
    first >>= next = .ok result ↔ ∃ value, first = .ok value ∧ next value = .ok result := by
  cases first with
  | error cause => exact iff_of_false nofun (by rintro ⟨_, impossible, _⟩; cases impossible)
  | ok value => exact ⟨fun ended => ⟨value, rfl, ended⟩, by rintro ⟨_, ⟨⟩, ended⟩; exact ended⟩

theorem Slot.checkName_eq_ok_iff {slot : Slot} {done : Unit} :
    slot.checkName = .ok done ↔ slot.name.utf8ByteSize ≤ nameLimit := by
  rw [Slot.checkName]
  split
  · rename_i long
    exact iff_of_false nofun (Nat.not_le.2 long)
  · rename_i short
    exact iff_of_true rfl (Nat.not_lt.1 short)

/-- The slot of a path, whatever it is refused for. -/
structure HasSlot (disk : Disk) (path : String) (slot : Slot) : Prop where
  checked : checkPath path = .ok ()
  names_eq : names path = (names path).dropLast ++ [slot.name]
  proper : slot.name ≠ "." ∧ slot.name ≠ ".."
  leads : disk.Leads (disk.startOf path) (names path).dropLast slot.directory

theorem slot_eq_ok_iff {refusal : IoCause} {slot : Slot} :
    disk.slot path refusal = .ok slot ↔ disk.HasSlot path slot := by
  constructor
  · intro found
    obtain ⟨⟨⟩, checked, found⟩ := bind_eq_ok_iff.1 found
    split at found
    · cases found
    · rename_i name last
      obtain ⟨directory, follows, found⟩ := bind_eq_ok_iff.1 found
      split at found
      · cases found
      · cases found
      · rename_i isDirectory
        split at found
        · cases found
        · rename_i proper
          cases found
          refine ⟨checked, ?_, not_or.1 proper, .of_follow follows isDirectory⟩
          exact (List.dropLast_append_getLast? name last).symm
  · intro has
    have last : (names path).getLast? = some slot.name := by
      rw [has.names_eq]
      exact List.getLast?_concat
    rw [Disk.slot, has.checked]
    refine bind_eq_ok_iff.2 ⟨(), rfl, ?_⟩
    rw [last]
    refine bind_eq_ok_iff.2 ⟨slot.directory, has.leads.follow_eq, ?_⟩
    rw [has.leads.finish]
    exact if_neg (not_or.2 has.proper)

namespace HasSlot

variable {slot : Slot}

theorem congr (same : SameDirectories first second) (has : first.HasSlot path slot) :
    second.HasSlot path slot :=
  ⟨has.checked, has.names_eq, has.proper, same.startOf_eq path ▸ same.leads has.leads⟩

theorem unique (has : disk.HasSlot path slot) {other : Slot} (also : disk.HasSlot path other) :
    slot = other :=
  Except.ok.inj ((@slot_eq_ok_iff _ _ .busy _).2 has |>.symm.trans (slot_eq_ok_iff.2 also))

end HasSlot

/-- A file can be put under the path: no directory is there, and none is asked for. -/
structure Takes (disk : Disk) (path : String) (slot : Slot) : Prop extends
    HasSlot disk path slot where
  short : slot.name.utf8ByteSize ≤ nameLimit
  solid : Path.hasTrailingSlash path = false
  free : disk.entry? slot.place ≠ some .directory

/-- A file of the given content is under the path. -/
structure Holds (disk : Disk) (path : String) (slot : Slot) (bytes : ByteArray) : Prop extends
    Takes disk path slot where
  held : disk.entry? slot.place = some (.file bytes)

theorem Takes.congr {slot : Slot} (same : SameDirectories first second)
    (takes : first.Takes path slot) : second.Takes path slot :=
  ⟨takes.toHasSlot.congr same, takes.short, takes.solid,
    fun isDirectory => takes.free ((same.entry?_iff _).2 isDirectory)⟩

theorem Takes.sameDirectories {slot : Slot} (takes : disk.Takes path slot) (bytes : ByteArray) :
    disk.SameDirectories (disk.set slot.place (.file bytes)) :=
  .set_file slot.place_ne_nil takes.free bytes

/-- A file that was put where the path takes one is under the path. -/
theorem Takes.holds_set {slot : Slot} (takes : disk.Takes path slot) (bytes : ByteArray) :
    (disk.set slot.place (.file bytes)).Holds path slot bytes := by
  refine ⟨takes.congr (takes.sameDirectories bytes), ?_⟩
  rw [entry?_set slot.place_ne_nil, if_pos rfl]

theorem createFile_eq_ok_iff {made : Disk} :
    disk.createFile path = .ok made ↔
      ∃ slot, disk.Takes path slot ∧ made = disk.set slot.place (.file ByteArray.empty) := by
  constructor
  · intro created
    obtain ⟨slot, isSlot, created⟩ := bind_eq_ok_iff.1 created
    dsimp only at created
    by_cases solid : Path.hasTrailingSlash path = true
    · rw [if_pos solid] at created
      cases created
    · rw [if_neg solid] at created
      obtain ⟨⟨⟩, short, created⟩ := bind_eq_ok_iff.1 created
      split at created
      · cases created
      · rename_i free
        cases created
        exact ⟨slot, ⟨slot_eq_ok_iff.1 isSlot, Slot.checkName_eq_ok_iff.1 short,
          eq_false_of_ne_true solid, free⟩, rfl⟩
  · rintro ⟨slot, takes, rfl⟩
    refine bind_eq_ok_iff.2 ⟨slot, slot_eq_ok_iff.2 takes.toHasSlot, ?_⟩
    refine (if_neg (by rw [takes.solid]; decide)).trans ?_
    refine bind_eq_ok_iff.2 ⟨(), Slot.checkName_eq_ok_iff.2 takes.short, ?_⟩
    split
    · rename_i isDirectory
      exact absurd isDirectory takes.free
    · rfl

theorem renameFile_eq_ok_iff {source : String} {moved : Disk} :
    disk.renameFile source path = .ok moved ↔
      ∃ old new bytes, disk.Holds source old bytes ∧ disk.Takes path new ∧
        moved = (disk.erase old.place).set new.place (.file bytes) := by
  constructor
  · intro renamed
    obtain ⟨old, isOld, renamed⟩ := bind_eq_ok_iff.1 renamed
    obtain ⟨new, isNew, renamed⟩ := bind_eq_ok_iff.1 renamed
    obtain ⟨⟨⟩, oldShort, renamed⟩ := bind_eq_ok_iff.1 renamed
    obtain ⟨⟨⟩, newShort, renamed⟩ := bind_eq_ok_iff.1 renamed
    split at renamed
    · cases renamed
    · cases renamed
    · rename_i bytes held
      split at renamed
      · cases renamed
      · rename_i solid
        obtain ⟨oldSolid, newSolid⟩ := not_or.1 solid
        split at renamed
        · cases renamed
        · rename_i free
          cases renamed
          refine ⟨old, new, bytes, ⟨⟨slot_eq_ok_iff.1 isOld, Slot.checkName_eq_ok_iff.1 oldShort,
            eq_false_of_ne_true oldSolid, ?_⟩, held⟩, ⟨slot_eq_ok_iff.1 isNew,
            Slot.checkName_eq_ok_iff.1 newShort, eq_false_of_ne_true newSolid, free⟩, rfl⟩
          rw [held]
          exact nofun
  · rintro ⟨old, new, bytes, holds, takes, rfl⟩
    refine bind_eq_ok_iff.2 ⟨old, slot_eq_ok_iff.2 holds.toHasSlot, ?_⟩
    refine bind_eq_ok_iff.2 ⟨new, slot_eq_ok_iff.2 takes.toHasSlot, ?_⟩
    refine bind_eq_ok_iff.2 ⟨(), Slot.checkName_eq_ok_iff.2 holds.short, ?_⟩
    refine bind_eq_ok_iff.2 ⟨(), Slot.checkName_eq_ok_iff.2 takes.short, ?_⟩
    rw [holds.held]
    refine (if_neg (by rw [holds.solid, takes.solid]; decide)).trans ?_
    split
    · rename_i isDirectory
      exact absurd isDirectory takes.free
    · rfl

theorem removeFile_eq_ok_iff {left : Disk} :
    disk.removeFile path = .ok left ↔
      ∃ slot bytes, disk.Holds path slot bytes ∧ left = disk.erase slot.place := by
  constructor
  · intro removed
    obtain ⟨slot, isSlot, removed⟩ := bind_eq_ok_iff.1 removed
    obtain ⟨⟨⟩, short, removed⟩ := bind_eq_ok_iff.1 removed
    split at removed
    · cases removed
    · cases removed
    · rename_i bytes held
      split at removed
      · cases removed
      · rename_i solid
        cases removed
        refine ⟨slot, bytes, ⟨⟨slot_eq_ok_iff.1 isSlot, Slot.checkName_eq_ok_iff.1 short,
          eq_false_of_ne_true solid, ?_⟩, held⟩, rfl⟩
        rw [held]
        exact nofun
  · rintro ⟨slot, bytes, holds, rfl⟩
    refine bind_eq_ok_iff.2 ⟨slot, slot_eq_ok_iff.2 holds.toHasSlot, ?_⟩
    refine bind_eq_ok_iff.2 ⟨(), Slot.checkName_eq_ok_iff.2 holds.short, ?_⟩
    rw [holds.held]
    exact if_neg (by rw [holds.solid]; decide)

theorem makeDirectory_eq_ok {made : Disk} (isMade : disk.makeDirectory path = .ok made) :
    ∃ slot, disk.HasSlot path slot ∧ disk.entry? slot.place = none ∧
      made = disk.set slot.place .directory := by
  obtain ⟨slot, isSlot, isMade⟩ := bind_eq_ok_iff.1 isMade
  obtain ⟨⟨⟩, _, isMade⟩ := bind_eq_ok_iff.1 isMade
  split at isMade
  · cases isMade
  · rename_i empty
    cases isMade
    exact ⟨slot, slot_eq_ok_iff.1 isSlot, empty, rfl⟩

/-! ## Reading and appending -/

theorem Holds.find_eq {slot : Slot} {bytes : ByteArray} (holds : disk.Holds path slot bytes) :
    disk.find path = .ok (slot.place, .file bytes) := by
  have reached : disk.follow (disk.startOf path) (names path) = .ok slot.place := by
    rw [holds.names_eq, holds.leads.follow_append,
      follow_proper holds.leads.finish holds.proper, if_neg (Nat.not_lt.2 holds.short)]
    have held := holds.held
    rw [Slot.place] at held
    rw [held]
    rfl
  refine bind_eq_ok_iff.2 ⟨(), holds.checked, bind_eq_ok_iff.2 ⟨slot.place, reached, ?_⟩⟩
  rw [holds.held]
  exact if_neg (by rw [holds.solid]; decide)

theorem Holds.read_eq {slot : Slot} {bytes : ByteArray} (holds : disk.Holds path slot bytes) :
    disk.read path = .ok bytes := by
  rw [read, holds.find_eq]
  rfl

theorem Holds.appendFile_eq {slot : Slot} {bytes : ByteArray} (holds : disk.Holds path slot bytes)
    (more : ByteArray) :
    disk.appendFile path more = .ok (disk.set slot.place (.file (bytes ++ more))) := by
  rw [appendFile, holds.find_eq]
  rfl

/-- What is read under a path whose last name is proper is held in its slot. -/
theorem holds_of_read {front : List String} {bytes : ByteArray}
    (split : names path = front ++ [name]) (proper : name ≠ "." ∧ name ≠ "..")
    (isRead : disk.read path = .ok bytes) : ∃ slot, disk.Holds path slot bytes := by
  obtain ⟨⟨place, entry⟩, found, isRead⟩ := bind_eq_ok_iff.1 isRead
  obtain ⟨⟨⟩, checked, found⟩ := bind_eq_ok_iff.1 found
  obtain ⟨reached, follows, found⟩ := bind_eq_ok_iff.1 found
  rw [split] at follows
  obtain ⟨directory, leads, short, rfl⟩ := Leads.of_follow_concat proper follows
  cases entry with
  | directory => cases isRead
  | file held =>
      cases isRead
      split at found
      · cases found
      · rename_i isFile
        split at found
        · cases found
        · rename_i solid
          cases found
          refine ⟨⟨directory, name⟩,
            ⟨⟨checked, ?_, proper, ?_⟩, short, eq_false_of_ne_true solid, ?_⟩, isFile⟩
          · rw [split, List.dropLast_concat]
          · rwa [split, List.dropLast_concat]
          · exact fun isDirectory => nomatch isFile.symm.trans isDirectory
      · cases found

/-- Nothing is read under a path from which the file has been removed. -/
theorem read_ne_ok_of_removeFile {front : List String} {left : Disk}
    (split : names path = front ++ [name]) (proper : name ≠ "." ∧ name ≠ "..")
    (removed : disk.removeFile path = .ok left) (bytes : ByteArray) :
    left.read path ≠ .ok bytes := by
  intro isRead
  obtain ⟨slot, old, holds, rfl⟩ := removeFile_eq_ok_iff.1 removed
  obtain ⟨also, alsoHolds⟩ := holds_of_read split proper isRead
  have same := SameDirectories.erase slot.place_ne_nil holds.free
  obtain rfl : slot = also := (holds.toHasSlot.congr same).unique alsoHolds.toHasSlot
  have held := alsoHolds.held
  rw [entry?_erase slot.place_ne_nil, if_pos rfl] at held
  cases held

/-! ## A file and the temporary file beside it -/

def Slot.temporary (slot : Slot) : Slot :=
  ⟨slot.directory, temporaryName slot.name⟩

structure Targets (disk : Disk) (path : String) (slot : Slot) : Prop where
  named : Path.fileName? path = some slot.name
  leads : disk.Leads (disk.startOf path) (names (home path)) slot.directory

theorem Slot.temporary_ne (slot : Slot) : slot.temporary.place ≠ slot.place := by
  intro same
  exact temporaryName_ne slot.name (congrArg Slot.name (Slot.place_inj.1 same))

/-- The temporary file of a path stands in the slot beside the one of the path. -/
theorem HasSlot.targets {slot : Slot} (named : Path.fileName? path = some name)
    (has : disk.HasSlot (Volume.temporaryPath path name) slot) :
    ∃ target, disk.Targets path target ∧ slot = target.temporary := by
  have split := names_temporaryPath named
  have start : disk.startOf (Volume.temporaryPath path name) = disk.startOf path := by
    rw [startOf, startOf, isAbsolute_temporaryPath named]
  have isName : slot.name = temporaryName name := by
    have ends := has.names_eq
    rw [split, List.dropLast_concat] at ends
    exact (List.cons.inj (List.append_cancel_left ends)).1.symm
  have leads := has.leads
  rw [split, List.dropLast_concat, start] at leads
  refine ⟨⟨slot.directory, name⟩, ⟨named, leads⟩, ?_⟩
  rw [Slot.temporary, ← isName]

namespace Targets

variable {slot : Slot}

theorem congr (same : SameDirectories first second) (targets : first.Targets path slot) :
    second.Targets path slot :=
  ⟨targets.named, same.startOf_eq path ▸ same.leads targets.leads⟩

theorem unique (targets : disk.Targets path slot) {other : Slot}
    (also : disk.Targets path other) : slot = other :=
  Slot.ext (targets.leads.unique also.leads)
    (Option.some.inj (targets.named.symm.trans also.named))

/-- The path leads to its slot, unless dots stand behind its last name. -/
theorem eq_of_hasSlot (targets : disk.Targets path slot) {other : Slot}
    (has : disk.HasSlot path other) : slot = other := by
  obtain ⟨between, behind, split, betweenDots, behindDots⟩ := names_of_fileName targets.named
  have dots := Leads.of_dots betweenDots targets.leads.finish
  have ends := has.names_eq
  rcases List.eq_nil_or_concat' behind with rfl | ⟨front, dot, rfl⟩
  · have whole : names path = (names (home path) ++ between) ++ [slot.name] := by
      rw [split, List.append_assoc]
    rw [whole, List.dropLast_concat] at ends
    have isName : slot.name = other.name := (List.cons.inj (List.append_cancel_left ends)).1
    have leads := has.leads
    rw [whole, List.dropLast_concat] at leads
    exact Slot.ext ((targets.leads.append dots).unique leads) isName
  · -- with dots behind the last name, the path would end in a dot, which has no slot
    have whole : names path = (names (home path) ++ (between ++ slot.name :: front)) ++ [dot] := by
      rw [split]
      simp
    rw [whole, List.dropLast_concat] at ends
    have isDot : dot = other.name := (List.cons.inj (List.append_cancel_left ends)).1
    exact absurd (isDot.symm.trans (behindDots dot (by simp))) has.proper.1

/-- Reading a path depends only on the directories and on what stands in its slot. -/
theorem read_congr (targets : first.Targets path slot) (same : SameDirectories first second)
    (agree : first.entry? slot.place = second.entry? slot.place) :
    first.read path = second.read path := by
  obtain ⟨between, behind, split, betweenDots, behindDots⟩ := names_of_fileName targets.named
  have proper := fileName_proper targets.named
  have walks : ∀ disk : Disk, disk.Targets path slot →
      disk.follow (disk.startOf path) (names path) =
        if nameLimit < slot.name.utf8ByteSize then .error .nameTooLong
        else
          match disk.entry? slot.place with
          | none => .error .noEntry
          | some _ => disk.follow slot.place behind := by
    intro disk targets
    have dots := Leads.of_dots betweenDots targets.leads.finish
    rw [split, targets.leads.follow_append, dots.follow_append]
    exact follow_proper targets.leads.finish proper behind
  -- so the walk looks at nothing but the slot once it has reached the directory
  have same : first.follow (first.startOf path) (names path) =
      second.follow (second.startOf path) (names path) := by
    rw [walks first targets, walks second (targets.congr same), agree,
      follow_dots_congr behindDots agree]
  have found : first.find path = second.find path := by
    rw [find, find, same]
    cases checkPath path with
    | error cause => rfl
    | ok done =>
        cases reached : second.follow (second.startOf path) (names path) with
        | error cause => rfl
        | ok place =>
            have ends : place = slot.place := by
              have walked := same.trans reached
              rw [walks first targets] at walked
              split at walked
              · cases walked
              · split at walked
                · cases walked
                · exact follow_dots_eq_ok behindDots walked
            rw [ends]
            simp only [bind, Except.bind, agree]
  rw [read, read, found]

end Targets

/-- The path can take a file, and so can the path of the temporary file beside it. -/
structure Admits (disk : Disk) (path : String) (slot : Slot) : Prop where
  targets : disk.Targets path slot
  drafts : disk.Takes (Volume.temporaryPath path slot.name) slot.temporary
  takes : disk.Takes path slot

/-- The disk with the content of the file in a slot replaced, and the temporary file gone. -/
def replace (disk : Disk) (slot : Slot) (bytes : ByteArray) : Disk :=
  (disk.erase slot.temporary.place).set slot.place (.file bytes)

theorem entry?_replace (disk : Disk) (slot : Slot) (bytes : ByteArray) (place : List String) :
    entry? (disk.replace slot bytes) place =
      if place = slot.place then some (.file bytes)
      else if place = slot.temporary.place then none
      else disk.entry? place := by
  rw [replace, entry?_set slot.place_ne_nil, entry?_erase slot.temporary.place_ne_nil]

namespace Admits

variable {slot : Slot}

theorem sameDirectories (admits : disk.Admits path slot) (bytes : ByteArray) :
    disk.SameDirectories (disk.replace slot bytes) :=
  have erased := SameDirectories.erase slot.temporary.place_ne_nil admits.drafts.free
  erased.trans (.set_file slot.place_ne_nil (admits.takes.congr erased).free bytes)

theorem congr (same : SameDirectories first second) (admits : first.Admits path slot) :
    second.Admits path slot :=
  ⟨admits.targets.congr same, admits.drafts.congr same, admits.takes.congr same⟩

/-- The new content is under the path. -/
theorem holds (admits : disk.Admits path slot) (bytes : ByteArray) :
    (disk.replace slot bytes).Holds path slot bytes :=
  ⟨admits.takes.congr (admits.sameDirectories bytes), by rw [entry?_replace, if_pos rfl]⟩

end Admits

end Disk

end BuildScript.File
