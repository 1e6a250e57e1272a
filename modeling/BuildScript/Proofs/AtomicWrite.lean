import BuildScript.Proofs.DiskEffects

/-!
# A file is replaced at once

A disk in use may fail at any step, and a failed write may leave any part of its text
behind. A session is such a disk: it is told which steps fail, and it remembers every
state that a reader could have seen. Replacing a file in a session shows its target as
it was or with its whole new content; a failure leaves the target as it was and no
temporary file, and nothing else ever changes.

The states before the renaming differ from the first one in the temporary file alone.
Every step is described once by where it takes such a state, and a whole run is the
chain of these steps.
-/

namespace BuildScript.File

/-! ## Disks that fail -/

/-- A failure that a step meets from outside. -/
structure Fault where
  cause : IoCause
  /-- The number of bytes that a failing write has written. -/
  kept : Nat

structure Session where
  disk : Disk
  /-- The states that the disk has shown, newest first. -/
  history : List Disk
  /-- Which of the next steps fail. -/
  faults : List (Option Fault)

namespace Session

/-- The session of a disk of which nothing has been seen but its present state. -/
def start (disk : Disk) (faults : List (Option Fault)) : Session :=
  ⟨disk, [disk], faults⟩

def pass (session : Session) (states : List Disk) : Session :=
  { session with
    disk := states.headD session.disk
    history := states ++ session.history }

def fault? (session : Session) : Option Fault :=
  session.faults.head?.join

def onward (session : Session) : Session :=
  { session with faults := session.faults.tail }

def perform (operation : Disk → Except IoCause Disk) : Action Session Unit :=
  fun session =>
    match operation session.disk with
    | .ok changed => (.ok (), session.pass [changed])
    | .error cause => (.error cause, session)

/-- A step that changes nothing when it meets a failure. -/
def attempt (operation : Disk → Except IoCause Disk) : Action Session Unit :=
  fun session =>
    match session.fault? with
    | some fault => (.error fault.cause, session.onward)
    | none => perform operation session.onward

/-- The states while up to `count` bytes are written, newest first. -/
def partly (disk : Disk) (path : String) (bytes : ByteArray) (count : Nat) : List Disk :=
  (List.range (count + 1)).reverse.filterMap fun written =>
    (disk.appendFile path (bytes.extract 0 written)).toOption

/-- A write shows its text byte by byte, and leaves what it has written when it fails. -/
def write (path : String) (bytes : ByteArray) : Action Session Unit :=
  fun session =>
    let shown := partly session.disk path bytes
    match session.fault? with
    | some fault => (.error fault.cause, session.onward.pass (shown fault.kept))
    | none =>
        match session.disk.appendFile path bytes with
        | .ok whole => (.ok (), session.onward.pass (whole :: shown bytes.size))
        | .error cause => (.error cause, session.onward)

/-- The operations of a disk that fails. Removing a file that is there always succeeds. -/
def volume : Volume Session where
  makeDirectories path session :=
    ((session.disk.makeDirectories path).1, session.pass [(session.disk.makeDirectories path).2])
  create path := attempt fun disk => disk.createFile path
  write path bytes := write path bytes
  sync _ := attempt .ok
  rename source target := attempt fun disk => disk.renameFile source target
  remove path := perform fun disk => disk.removeFile path

theorem perform_of_ok {operation : Disk → Except IoCause Disk} {session : Session} {changed : Disk}
    (done : operation session.disk = .ok changed) :
    perform operation session = (.ok (), session.pass [changed]) := by
  rw [perform, done]

theorem perform_of_error {operation : Disk → Except IoCause Disk} {session : Session}
    {cause : IoCause} (failed : operation session.disk = .error cause) :
    perform operation session = (.error cause, session) := by
  rw [perform, failed]

/-- An attempt fails and changes nothing, or it takes its effect. -/
theorem attempt_cases (operation : Disk → Except IoCause Disk) (session : Session) :
    (∃ cause, attempt operation session = (.error cause, session.onward)) ∨
      ∃ changed, operation session.disk = .ok changed ∧
        attempt operation session = (.ok (), session.onward.pass [changed]) := by
  unfold attempt
  split
  · rename_i fault _
    exact .inl ⟨fault.cause, rfl⟩
  · cases performed : operation session.disk with
    | error cause => exact .inl ⟨cause, perform_of_error performed⟩
    | ok changed => exact .inr ⟨changed, rfl, perform_of_ok performed⟩

/-- Nothing is shown while a file is written but the file with a part of its new bytes. -/
theorem mem_partly {disk state : Disk} {path : String} {slot : Disk.Slot} {bytes old : ByteArray}
    {count : Nat} (holds : disk.Holds path slot old)
    (member : state ∈ partly disk path bytes count) :
    ∃ new, state = disk.set slot.place (.file new) := by
  obtain ⟨written, _, appended⟩ := List.mem_filterMap.1 member
  rw [holds.appendFile_eq] at appended
  exact ⟨_, (Option.some.inj appended).symm⟩

end Session

/-! ## The states of a run -/

section Run

variable {before state : Disk} {path name : String} {bytes : ByteArray}

/-- Nothing but the temporary file may differ from the first state. -/
inductive Drafting (before : Disk) (path : String) : Disk → Prop
  | untouched : Drafting before path before
  | holding {slot : Disk.Slot} (targets : before.Targets path slot)
      (free : before.entry? slot.temporary.place ≠ some .directory) (bytes : ByteArray) :
      Drafting before path (before.set slot.temporary.place (.file bytes))
  | cleared {slot : Disk.Slot} (targets : before.Targets path slot)
      (free : before.entry? slot.temporary.place ≠ some .directory) :
      Drafting before path (before.erase slot.temporary.place)

def Replaced (before : Disk) (path : String) (bytes : ByteArray) (state : Disk) : Prop :=
  ∃ slot, before.Admits path slot ∧ state = before.replace slot bytes

namespace Drafting

theorem sameDirectories (drafting : Drafting before path state) :
    before.SameDirectories state := by
  cases drafting with
  | untouched => exact .refl before
  | holding _ free bytes => exact .set_file (Disk.Slot.place_ne_nil _) free bytes
  | cleared _ free => exact .erase (Disk.Slot.place_ne_nil _) free

/-- A place that is not the temporary file's is as it was. -/
theorem entry?_eq (drafting : Drafting before path state) {place : List String}
    (other : ∀ slot, before.Targets path slot → place ≠ slot.temporary.place) :
    state.entry? place = before.entry? place := by
  cases drafting with
  | untouched => rfl
  | holding targets _ bytes =>
      rw [Disk.entry?_set (Disk.Slot.place_ne_nil _), if_neg (other _ targets)]
  | cleared targets _ =>
      rw [Disk.entry?_erase (Disk.Slot.place_ne_nil _), if_neg (other _ targets)]

/-- The target is as it was. -/
theorem target_eq (drafting : Drafting before path state) {slot : Disk.Slot}
    (targets : before.Targets path slot) :
    state.entry? slot.place = before.entry? slot.place :=
  drafting.entry?_eq fun other also => by
    rw [targets.unique also]
    exact (Disk.Slot.temporary_ne other).symm

theorem read_eq (drafting : Drafting before path state) : state.read path = before.read path := by
  have same := drafting.sameDirectories
  cases drafting with
  | untouched => rfl
  | holding targets free bytes =>
      exact (targets.read_congr same (target_eq (.holding targets free bytes) targets).symm).symm
  | cleared targets free =>
      exact (targets.read_congr same (target_eq (.cleared targets free) targets).symm).symm

/-- Removing the temporary file leaves nothing but the temporary file changed. -/
theorem erase (drafting : Drafting before path state) {slot : Disk.Slot}
    (targets : before.Targets path slot)
    (free : before.entry? slot.temporary.place ≠ some .directory) :
    Drafting before path (state.erase slot.temporary.place) := by
  have whole := Drafting.cleared targets free
  cases drafting with
  | untouched => exact whole
  | holding also _ bytes =>
      rwa [targets.unique also, Disk.erase_set, ← targets.unique also]
  | cleared also _ =>
      rwa [targets.unique also, Disk.erase_erase, ← targets.unique also]

end Drafting

namespace Replaced

theorem entry?_target (replaced : Replaced before path bytes state) {slot : Disk.Slot}
    (targets : before.Targets path slot) : state.entry? slot.place = some (.file bytes) := by
  obtain ⟨also, admits, rfl⟩ := replaced
  rw [targets.unique admits.targets, Disk.entry?_replace, if_pos rfl]

theorem entry?_temporary (replaced : Replaced before path bytes state) {slot : Disk.Slot}
    (targets : before.Targets path slot) : state.entry? slot.temporary.place = none := by
  obtain ⟨also, admits, rfl⟩ := replaced
  rw [targets.unique admits.targets, Disk.entry?_replace, if_neg (Disk.Slot.temporary_ne _),
    if_pos rfl]

/-- A place that is neither the target's nor the temporary file's is as it was. -/
theorem entry?_eq (replaced : Replaced before path bytes state) {place : List String}
    (other : ∀ slot, before.Targets path slot →
      place ≠ slot.place ∧ place ≠ slot.temporary.place) :
    state.entry? place = before.entry? place := by
  obtain ⟨slot, admits, rfl⟩ := replaced
  obtain ⟨notTarget, notTemporary⟩ := other _ admits.targets
  rw [Disk.entry?_replace, if_neg notTarget, if_neg notTemporary]

theorem read_eq (replaced : Replaced before path bytes state) :
    state.read path = .ok bytes := by
  obtain ⟨slot, admits, rfl⟩ := replaced
  exact (admits.holds bytes).read_eq

end Replaced

/-! ## Steps -/

variable {session : Session}

/-- All states so far differ from the first in the temporary file alone. -/
structure Trail (before : Disk) (path : String) (session : Session) : Prop where
  shown : session.disk ∈ session.history
  drafting : ∀ state ∈ session.history, Drafting before path state

/-- Nothing but the temporary file has changed, and it holds the bytes. -/
structure Holding (before : Disk) (path name : String) (bytes : ByteArray) (session : Session) :
    Prop where
  trail : Trail before path session
  held : ∃ slot, before.Targets path slot ∧
    before.Takes (Volume.temporaryPath path name) slot.temporary ∧
      session.disk = before.set slot.temporary.place (.file bytes)

structure Renamed (before : Disk) (path : String) (bytes : ByteArray) (session : Session) :
    Prop where
  shown : session.disk ∈ session.history
  replaced : Replaced before path bytes session.disk
  earlier : ∀ state ∈ session.history,
    Drafting before path state ∨ Replaced before path bytes state

theorem Trail.start (disk : Disk) (path : String) (faults : List (Option Fault)) :
    Trail disk path (.start disk faults) where
  shown := List.mem_singleton_self _
  drafting state member := by
    rw [List.mem_singleton.1 member]
    exact .untouched

theorem Trail.onward (trail : Trail before path session) : Trail before path session.onward :=
  ⟨trail.shown, trail.drafting⟩

/-- Further states that are drafts go on with a trail. -/
theorem Trail.pass (trail : Trail before path session) {states : List Disk}
    (drafts : ∀ state ∈ states, Drafting before path state) :
    Trail before path (session.pass states) where
  shown := by
    cases states with
    | nil => exact trail.shown
    | cons last earlier => exact List.mem_cons_self
  drafting state member :=
    (List.mem_append.1 member).elim (drafts state) (trail.drafting state)

/-- The temporary file is readable while it is held. -/
theorem Holding.exists_holds (holding : Holding before path name bytes session) :
    ∃ slot, before.Targets path slot ∧
      before.Takes (Volume.temporaryPath path name) slot.temporary ∧
      session.disk = before.set slot.temporary.place (.file bytes) ∧
      session.disk.Holds (Volume.temporaryPath path name) slot.temporary bytes := by
  obtain ⟨slot, targets, takes, isDisk⟩ := holding.held
  refine ⟨slot, targets, takes, isDisk, ?_⟩
  rw [isDisk]
  exact takes.holds_set bytes

/-- How a step ends: well, or badly with nothing but the temporary file changed. -/
def Ends (before : Disk) (path : String) (good : Session → Prop)
    (run : Except IoCause Unit × Session) : Prop :=
  match run with
  | (.ok (), after) => good after
  | (.error _, after) => Trail before path after

theorem Ends.andThen {good last : Session → Prop} {action next : Action Session Unit}
    (first : Ends before path good (action session))
    (second : ∀ after, good after → Ends before path last (next after)) :
    Ends before path last (action.andThen next session) := by
  unfold Action.andThen
  split
  · rename_i after ran
    rw [ran] at first
    exact second after first
  · rename_i cause after ran
    rw [ran] at first
    exact first

/-- An attempt ends well if its effect is as good as wanted. -/
theorem Ends.attempt {good : Session → Prop} {operation : Disk → Except IoCause Disk}
    (trail : Trail before path session)
    (effect : ∀ changed, operation session.disk = .ok changed →
      good (session.onward.pass [changed])) :
    Ends before path good (Session.attempt operation session) := by
  rcases Session.attempt_cases operation session with ⟨cause, failed⟩ | ⟨changed, isChanged, done⟩
  · rw [failed]
    exact trail.onward
  · rw [done]
    exact effect changed isChanged

/-- Creating the temporary file. -/
theorem create_ends (named : Path.fileName? path = some name) (faults : List (Option Fault)) :
    Ends before path (Holding before path name ByteArray.empty)
      (Session.volume.create (Volume.temporaryPath path name) (.start before faults)) := by
  have trail := Trail.start before path faults
  refine .attempt trail fun made created => ?_
  obtain ⟨temporary, takes, rfl⟩ := Disk.createFile_eq_ok_iff.1 created
  obtain ⟨slot, targets, rfl⟩ := takes.toHasSlot.targets named
  have drafting := Drafting.holding targets takes.free ByteArray.empty
  refine ⟨trail.onward.pass ?_, slot, targets, takes, rfl⟩
  exact fun state member => List.mem_singleton.1 member ▸ drafting

/-- Writing into the temporary file. -/
theorem write_ends (holding : Holding before path name ByteArray.empty session)
    (bytes : ByteArray) :
    Ends before path (Holding before path name bytes)
      (Session.volume.write (Volume.temporaryPath path name) bytes session) := by
  obtain ⟨slot, targets, takes, isDisk, holds⟩ := holding.exists_holds
  -- whatever has been written so far, only the temporary file differs
  have drafts : ∀ new,
      Drafting before path (session.disk.set slot.temporary.place (.file new)) := by
    intro new
    rw [isDisk, Disk.set_set]
    exact .holding targets takes.free new
  have shown : ∀ count, ∀ state ∈ Session.partly session.disk
      (Volume.temporaryPath path name) bytes count, Drafting before path state := by
    intro count state member
    obtain ⟨new, rfl⟩ := Session.mem_partly holds member
    exact drafts new
  have trail := holding.trail.onward
  show Ends before path _ (Session.write _ bytes session)
  unfold Session.write
  split
  · rename_i fault _
    exact trail.pass (shown fault.kept)
  · rw [holds.appendFile_eq, ByteArray.empty_append]
    refine ⟨trail.pass ?_, slot, targets, takes, ?_⟩
    · exact List.forall_mem_cons.2 ⟨drafts bytes, shown bytes.size⟩
    · show session.disk.set slot.temporary.place (.file bytes) = _
      rw [isDisk, Disk.set_set]

/-- Waiting until the temporary file is safe. -/
theorem sync_ends (holding : Holding before path name bytes session) (written : String) :
    Ends before path (Holding before path name bytes) (Session.volume.sync written session) := by
  refine .attempt holding.trail fun state isState => ?_
  cases isState
  refine ⟨holding.trail.onward.pass ?_, holding.held⟩
  exact fun state member =>
    List.mem_singleton.1 member ▸ holding.trail.drafting _ holding.trail.shown

/-- Moving the temporary file over the target. -/
theorem rename_ends (named : Path.fileName? path = some name)
    (holding : Holding before path name bytes session) :
    Ends before path (Renamed before path bytes)
      (Session.volume.rename (Volume.temporaryPath path name) path session) := by
  refine .attempt holding.trail fun moved renamed => ?_
  obtain ⟨slot, targets, takes, isDisk, holds⟩ := holding.exists_holds
  obtain ⟨old, new, content, isOld, isNew, rfl⟩ := Disk.renameFile_eq_ok_iff.1 renamed
  have same := takes.sameDirectories bytes
  -- both slots are known: the temporary file's and the target's
  obtain rfl : slot.temporary = old := holds.toHasSlot.unique isOld.toHasSlot
  obtain rfl : bytes = content := by
    have both := holds.held.symm.trans isOld.held
    cases both
    rfl
  have isNewBefore : before.Takes path new := isNew.congr (isDisk ▸ same.symm)
  obtain rfl : slot = new := targets.eq_of_hasSlot isNewBefore.toHasSlot
  have replaced : Replaced before path bytes
      ((session.disk.erase slot.temporary.place).set slot.place (.file bytes)) := by
    rw [isDisk, Disk.erase_set]
    cases targets.named.symm.trans named
    exact ⟨slot, ⟨targets, takes, isNewBefore⟩, rfl⟩
  refine ⟨List.mem_cons_self, replaced, ?_⟩
  exact List.forall_mem_cons.2
    ⟨.inr replaced, fun state member => .inl (holding.trail.drafting state member)⟩

/-- Removing the temporary file leaves nothing to be read under its path. -/
theorem remove_trail (named : Path.fileName? path = some name) (trail : Trail before path session) :
    ∃ result after,
      Session.volume.remove (Volume.temporaryPath path name) session = (result, after) ∧
        Trail before path after ∧
        ∀ content, after.disk.read (Volume.temporaryPath path name) ≠ .ok content := by
  have proper := Disk.temporaryName_proper name
  have split := Disk.names_temporaryPath named
  cases removed : session.disk.removeFile (Volume.temporaryPath path name) with
  | error cause =>
      have ran := @Session.perform_of_error (fun disk => disk.removeFile _) session cause removed
      refine ⟨_, session, ran, trail, fun content isRead => ?_⟩
      obtain ⟨slot, holds⟩ := Disk.holds_of_read split proper isRead
      have removable := Disk.removeFile_eq_ok_iff.2 ⟨slot, content, holds, rfl⟩
      cases removed.symm.trans removable
  | ok left =>
      have ran := @Session.perform_of_ok (fun disk => disk.removeFile _) session left removed
      refine ⟨_, _, ran, ?_, Disk.read_ne_ok_of_removeFile split proper removed⟩
      obtain ⟨temporary, content, holds, rfl⟩ := Disk.removeFile_eq_ok_iff.1 removed
      obtain ⟨slot, targets, rfl⟩ := holds.toHasSlot.targets named
      have drafting := trail.drafting _ trail.shown
      have same := drafting.sameDirectories.symm
      have erased := drafting.erase (targets.congr same) (holds.toTakes.congr same).free
      exact trail.pass fun state member => List.mem_singleton.1 member ▸ erased

/-! ## Whole runs -/

theorem writeAndRename_ends (named : Path.fileName? path = some name) (contents : String)
    (faults : List (Option Fault)) :
    Ends before path (Renamed before path contents.toUTF8)
      (Session.volume.writeAndRename (Volume.temporaryPath path name) path contents
        (.start before faults)) := by
  refine (create_ends named faults).andThen fun created empty => ?_
  refine (write_ends empty contents.toUTF8).andThen fun written full => ?_
  exact (sync_ends full _).andThen fun synced safe => rename_ends named safe

/-- A file is replaced, or the run fails with nothing but the temporary file changed. -/
theorem writeAtomic_cases (named : Path.fileName? path = some name) (contents : String)
    (before : Disk) (faults : List (Option Fault)) :
    (∃ after, Session.volume.writeAtomic path contents (.start before faults) = (.ok (), after) ∧
      Renamed before path contents.toUTF8 after) ∨
    ∃ error after,
      Session.volume.writeAtomic path contents (.start before faults) = (.error error, after) ∧
        Trail before path after ∧
        ∀ content, after.disk.read (Volume.temporaryPath path name) ≠ .ok content := by
  have ends : Ends before path _ _ := writeAndRename_ends named contents faults
  unfold Volume.writeAtomic
  rw [named]
  dsimp only
  split
  · rename_i after ran
    rw [ran] at ends
    exact .inl ⟨after, rfl, ends⟩
  · rename_i cause after ran
    rw [ran] at ends
    obtain ⟨result, cleared, removed, trail, unreadable⟩ := remove_trail named ends
    exact .inr ⟨_, cleared, by rw [removed], trail, unreadable⟩

/-! ## Runs that meet no failure from outside -/

def Session.Calm (session : Session) : Prop :=
  ∀ fault ∈ session.faults, fault = none

theorem Session.Calm.fault?_eq (calm : session.Calm) : session.fault? = none := by
  unfold Session.fault?
  cases isFaults : session.faults with
  | nil => rfl
  | cons fault later =>
      rw [calm fault (by rw [isFaults]; exact List.mem_cons_self)]
      rfl

theorem Session.Calm.onward (calm : session.Calm) : session.onward.Calm :=
  fun fault member => calm fault (List.mem_of_mem_tail member)

/-- Without failures from outside, the action does to the disk what the plain one does. -/
def Shadows (action : Action Session Unit) (plain : Action Disk Unit) : Prop :=
  ∀ session : Session, session.Calm →
    (action session).1 = (plain session.disk).1 ∧
      (action session).2.disk = (plain session.disk).2 ∧ (action session).2.Calm

namespace Shadows

theorem perform (operation : Disk → Except IoCause Disk) :
    Shadows (Session.perform operation) (Disk.action operation) := by
  intro session calm
  unfold Session.perform Disk.action
  cases operation session.disk with
  | error cause => exact ⟨rfl, rfl, calm⟩
  | ok changed => exact ⟨rfl, rfl, calm⟩

theorem attempt (operation : Disk → Except IoCause Disk) :
    Shadows (Session.attempt operation) (Disk.action operation) := by
  intro session calm
  rw [Session.attempt, calm.fault?_eq]
  exact perform operation session.onward calm.onward

theorem write (path : String) (bytes : ByteArray) :
    Shadows (Session.write path bytes) (Disk.volume.write path bytes) := by
  intro session calm
  show (_ : Except IoCause Unit) = (Disk.action _ session.disk).1 ∧
    _ = (Disk.action _ session.disk).2 ∧ _
  rw [Session.write, calm.fault?_eq, Disk.action]
  cases session.disk.appendFile path bytes with
  | error cause => exact ⟨rfl, rfl, calm.onward⟩
  | ok whole => exact ⟨rfl, rfl, calm.onward⟩

theorem andThen {action next : Action Session Unit} {plain plainNext : Action Disk Unit}
    (first : Shadows action plain) (second : Shadows next plainNext) :
    Shadows (action.andThen next) (plain.andThen plainNext) := by
  intro session calm
  obtain ⟨sameResult, sameDisk, stillCalm⟩ := first session calm
  unfold Action.andThen
  rcases ran : action session with ⟨result, after⟩
  rcases plainRan : plain session.disk with ⟨plainResult, plainAfter⟩
  rw [ran, plainRan] at sameResult sameDisk
  rw [ran] at stillCalm
  cases sameResult
  cases sameDisk
  cases result with
  | error cause => exact ⟨rfl, rfl, stillCalm⟩
  | ok done => exact second after stillCalm

theorem writeAndRename (temporary target contents : String) :
    Shadows (Session.volume.writeAndRename temporary target contents)
      (Disk.volume.writeAndRename temporary target contents) :=
  (attempt fun disk => disk.createFile temporary).andThen
    ((write temporary contents.toUTF8).andThen
      ((attempt .ok).andThen (attempt fun disk => disk.renameFile temporary target)))

end Shadows

/-- Without failures from outside, a session ends as its disk does. -/
theorem Session.Calm.writeAtomic_eq (calm : session.Calm) (path contents : String) :
    (Session.volume.writeAtomic path contents session).1 =
        (Disk.volume.writeAtomic path contents session.disk).1 ∧
      (Session.volume.writeAtomic path contents session).2.disk =
        (Disk.volume.writeAtomic path contents session.disk).2 := by
  unfold Volume.writeAtomic
  cases Path.fileName? path with
  | none => exact ⟨rfl, rfl⟩
  | some name =>
      dsimp only
      obtain ⟨sameResult, sameDisk, stillCalm⟩ :=
        Shadows.writeAndRename (Volume.temporaryPath path name) path contents session calm
      rcases ran : Session.volume.writeAndRename _ path contents session with ⟨result, after⟩
      rcases plainRan : Disk.volume.writeAndRename _ path contents session.disk with
        ⟨plainResult, plainAfter⟩
      rw [ran, plainRan] at sameResult sameDisk
      rw [ran] at stillCalm
      cases sameResult
      cases sameDisk
      cases result with
      | error cause =>
          have removes := Shadows.perform
            (fun disk => disk.removeFile (Volume.temporaryPath path name)) after stillCalm
          exact ⟨rfl, removes.2.1⟩
      | ok done => exact ⟨rfl, rfl⟩

theorem Disk.action_of_ok {operation : Disk → Except IoCause Disk} {disk changed : Disk}
    (done : operation disk = .ok changed) : Disk.action operation disk = (.ok (), changed) := by
  rw [Disk.action, done]

theorem Action.andThen_of_ok {σ : Type} {first next : Action σ Unit} {here after : σ}
    (done : first here = (.ok (), after)) : first.andThen next here = next after := by
  rw [Action.andThen, done]

/-- A file that its path admits is replaced. -/
theorem Disk.Admits.writeAtomic_eq {disk : Disk} {slot : Disk.Slot} (admits : disk.Admits path slot)
    (contents : String) :
    Disk.volume.writeAtomic path contents disk = (.ok (), disk.replace slot contents.toUTF8) := by
  have created := Disk.createFile_eq_ok_iff.2 ⟨slot.temporary, admits.drafts, rfl⟩
  have written := (admits.drafts.holds_set ByteArray.empty).appendFile_eq contents.toUTF8
  rw [ByteArray.empty_append, Disk.set_set] at written
  have same := admits.drafts.sameDirectories contents.toUTF8
  have renamed := Disk.renameFile_eq_ok_iff.2
    ⟨_, slot, _, admits.drafts.holds_set contents.toUTF8, admits.takes.congr same, rfl⟩
  rw [Disk.erase_set] at renamed
  have ran : Disk.volume.writeAndRename (Volume.temporaryPath path slot.name) path contents disk =
      (.ok (), disk.replace slot contents.toUTF8) := by
    refine (Action.andThen_of_ok (Disk.action_of_ok created)).trans ?_
    refine (Action.andThen_of_ok (Disk.action_of_ok written)).trans ?_
    exact @Disk.action_of_ok (fun state => state.renameFile _ path) _ _ renamed
  rw [Volume.writeAtomic, admits.targets.named]
  dsimp only
  rw [ran]

/-- A disk replaces the files that their paths admit, and no others. -/
theorem Disk.writeAtomic_eq_ok_iff {disk after : Disk} {contents : String} :
    Disk.volume.writeAtomic path contents disk = (.ok (), after) ↔
      Replaced disk path contents.toUTF8 after := by
  constructor
  · intro written
    cases named : Path.fileName? path with
    | none =>
        rw [Volume.writeAtomic, named] at written
        cases written
    | some name =>
        -- a session without faults ends as the disk does, and how sessions end is known
        have calm : (Session.start disk []).Calm := fun _ member => nomatch member
        obtain ⟨sameResult, sameDisk⟩ := calm.writeAtomic_eq path contents
        have isDisk : (Session.start disk []).disk = disk := rfl
        rw [isDisk, written] at sameResult sameDisk
        rcases writeAtomic_cases named contents disk [] with
          ⟨session, ran, renamed⟩ | ⟨error, session, ran, _⟩
        · rw [ran] at sameDisk
          obtain rfl : session.disk = after := sameDisk
          exact renamed.replaced
        · rw [ran] at sameResult
          cases sameResult
  · rintro ⟨slot, admits, rfl⟩
    exact admits.writeAtomic_eq contents

/-! ## Atomicity -/

/-- What it means that a file is replaced at once, or not at all. -/
structure Atomic (before : Disk) (path : String) (bytes : ByteArray)
    (result : Except Error Unit) (after : Session) : Prop where
  shown : after.disk ∈ after.history
  /-- A reader finds what was there before, or the whole new content. -/
  whole : ∀ state ∈ after.history,
    state.read path = before.read path ∨ state.read path = .ok bytes
  target : ∀ state ∈ after.history, ∀ slot, before.Targets path slot →
    state.entry? slot.place = before.entry? slot.place ∨
      state.entry? slot.place = some (.file bytes)
  /-- Only the target and the temporary file beside it ever change. -/
  others : ∀ state ∈ after.history, ∀ place,
    (∀ slot, before.Targets path slot → place ≠ slot.place ∧ place ≠ slot.temporary.place) →
      state.entry? place = before.entry? place
  /-- After a failure the target is as before, and no temporary file is left. -/
  failed : ∀ error, result = .error error →
    after.disk.read path = before.read path ∧
      (∀ slot, before.Targets path slot →
        after.disk.entry? slot.place = before.entry? slot.place) ∧
      ∀ name, Path.fileName? path = some name →
        ∀ content, after.disk.read (Volume.temporaryPath path name) ≠ .ok content
  done : result = .ok () →
    after.disk.read path = .ok bytes ∧
      ∃ slot, before.Targets path slot ∧ after.disk.entry? slot.place = some (.file bytes) ∧
        after.disk.entry? slot.temporary.place = none

theorem Trail.atomic (trail : Trail before path session)
    (named : Path.fileName? path = some name)
    (unreadable : ∀ content,
      session.disk.read (Volume.temporaryPath path name) ≠ .ok content) (error : Error) :
    Atomic before path bytes (.error error) session where
  shown := trail.shown
  whole state member := .inl (trail.drafting state member).read_eq
  target state member slot targets := .inl ((trail.drafting state member).target_eq targets)
  others state member place other :=
    (trail.drafting state member).entry?_eq fun slot targets => (other slot targets).2
  failed _ _ := by
    have drafting := trail.drafting _ trail.shown
    refine ⟨drafting.read_eq, fun slot targets => drafting.target_eq targets, ?_⟩
    intro other also
    cases named.symm.trans also
    exact unreadable
  done impossible := nomatch impossible

theorem Renamed.atomic (renamed : Renamed before path bytes session) :
    Atomic before path bytes (.ok ()) session where
  shown := renamed.shown
  whole state member := (renamed.earlier state member).imp (·.read_eq) (·.read_eq)
  target state member slot targets :=
    (renamed.earlier state member).imp (·.target_eq targets) (·.entry?_target targets)
  others state member place other := by
    rcases renamed.earlier state member with drafting | replaced
    · exact drafting.entry?_eq fun slot targets => (other slot targets).2
    · exact replaced.entry?_eq other
  failed _ impossible := nomatch impossible
  done _ := by
    refine ⟨renamed.replaced.read_eq, ?_⟩
    obtain ⟨slot, admits, _⟩ := renamed.replaced
    exact ⟨slot, admits.targets, renamed.replaced.entry?_target admits.targets,
      renamed.replaced.entry?_temporary admits.targets⟩

/--
Whichever steps fail, a file is replaced at once or not at all; and where none fails from
outside, it is replaced if the path and that of the temporary file admit it.
-/
theorem writeAtomic_atomic (named : Path.fileName? path = some name) (contents : String)
    (before : Disk) (faults : List (Option Fault)) :
    let run := Session.volume.writeAtomic path contents (.start before faults)
    Atomic before path contents.toUTF8 run.1 run.2 ∧
      ((∀ fault ∈ faults, fault = none) → (run.1 = .ok () ↔ ∃ slot, before.Admits path slot)) := by
  intro run
  constructor
  · rcases writeAtomic_cases named contents before faults with
      ⟨after, ran, renamed⟩ | ⟨error, after, ran, trail, unreadable⟩
    · rw [show run = _ from ran]
      exact renamed.atomic
    · rw [show run = _ from ran]
      exact trail.atomic named unreadable error
  · intro faultless
    have calm : (Session.start before faults).Calm := faultless
    have same : run.1 = (Disk.volume.writeAtomic path contents before).1 :=
      (calm.writeAtomic_eq path contents).1
    rw [same]
    constructor
    · intro ended
      obtain ⟨slot, admits, _⟩ := Disk.writeAtomic_eq_ok_iff.1 (Prod.ext ended rfl)
      exact ⟨slot, admits⟩
    · rintro ⟨slot, admits⟩
      rw [admits.writeAtomic_eq contents]

/-- A directory with a file and with what an earlier run has left beside it. -/
def stale : Disk :=
  ((Disk.fresh ["w"]).set ["w", "BUILD"] (.file "old".toUTF8)).set ["w", ".BUILD.tmp"]
    (.file "lost".toUTF8)

/-- The second step, which writes, fails after two bytes. -/
def torn : List (Option Fault) :=
  [none, some ⟨.noEntry, 2⟩]

/-- Six states have been seen when the torn run ends; without faults the file is replaced. -/
theorem stale_atomic :
    let run := Session.volume.writeAtomic "./BUILD" "new" (.start stale torn)
    Path.fileName? "./BUILD" = some "BUILD" ∧ run.1.isOk = false ∧ run.2.history.length = 6 ∧
      Atomic stale "./BUILD" "new".toUTF8 run.1 run.2 ∧
      ((Session.volume.writeAtomic "./BUILD" "new" (.start stale [])).1 = .ok () ↔
        ∃ slot, stale.Admits "./BUILD" slot) :=
  have named : Path.fileName? "./BUILD" = some "BUILD" := by decide +kernel
  ⟨named, by decide +kernel, by decide +kernel, (writeAtomic_atomic named "new" stale torn).1,
    (writeAtomic_atomic named "new" stale []).2 fun _ member => nomatch member⟩

end Run

end BuildScript.File
