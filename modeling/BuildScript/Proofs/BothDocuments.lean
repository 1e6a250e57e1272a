import BuildScript.Proofs.AtomicWrite

/-!
# Both documents in one directory

The documents are written one after the other into one directory, each by way of a
temporary file named for it. Four names are involved, and one meeting of them does harm:
where the workspace file bears the name of the build file's temporary file, writing the
build file takes the workspace file away. In every other case both documents arrive.
-/

namespace BuildScript.File

open BuildScript.Path (IsFileName join)

/-! ## Making the directory -/

/-- The second disk has all that the first has, where the first has it. -/
structure Disk.Grows (first second : Disk) : Prop where
  workingDirectory_eq : first.workingDirectory = second.workingDirectory
  entry?_eq : ∀ place entry, first.entry? place = some entry → second.entry? place = some entry

namespace Disk.Grows

theorem refl (disk : Disk) : disk.Grows disk :=
  ⟨rfl, fun _ _ held => held⟩

theorem trans {first second third : Disk} (grows : first.Grows second) (also : second.Grows third) :
    first.Grows third :=
  ⟨grows.workingDirectory_eq.trans also.workingDirectory_eq,
    fun place entry held => also.entry?_eq place entry (grows.entry?_eq place entry held)⟩

theorem makeDirectory {disk made : Disk} {path : String}
    (isMade : disk.makeDirectory path = .ok made) : disk.Grows made := by
  obtain ⟨slot, _, empty, rfl⟩ := makeDirectory_eq_ok isMade
  refine ⟨rfl, fun place entry held => ?_⟩
  rw [entry?_set slot.place_ne_nil, if_neg, held]
  rintro rfl
  cases empty.symm.trans held

theorem makeMissing (disk : Disk) (paths : List String) :
    disk.Grows (disk.makeMissing paths).2 := by
  induction paths with
  | nil => exact .refl disk
  | cons path parents ih =>
      rw [Disk.makeMissing]
      split
      · rename_i made isMade
        exact .makeDirectory isMade
      · split
        · rename_i cause left stopped
          rwa [stopped] at ih
        · rename_i ready isReady
          rw [isReady] at ih
          split
          · rename_i made isMade
            exact ih.trans (.makeDirectory isMade)
          · split <;> exact ih
      · split <;> exact .refl disk

end Disk.Grows

/-! ## The two writes -/

section Writes

variable {documents : Bazel.Documents} {directory name : String} {options : Bazel.Options}
  {disk before after : Disk} {slot : Disk.Slot}

/-- The directory in which a file named in a directory is written. -/
theorem Disk.Admits.of_join (isName : IsFileName name)
    (admits : disk.Admits (join directory name) slot) :
    slot.name = name ∧
      disk.Leads (disk.startOf directory) (Disk.names directory) slot.directory := by
  have relative := Path.isAbsolute_of_plain isName.plain
  have split : Disk.names (join directory name) = Disk.names directory ++ [name] := by
    rw [Disk.names_join directory relative, Disk.names_of_plain isName.plain isName.nonempty]
  have start : disk.startOf (join directory name) = disk.startOf directory := by
    rw [Disk.startOf, Disk.startOf, Path.isAbsolute_join directory relative]
  constructor
  · have named := admits.targets.named
    rw [Path.fileName?_join directory isName] at named
    exact (Option.some.inj named).symm
  · have leads := admits.takes.leads
    rwa [split, List.dropLast_concat, start] at leads

/-- The disk with both documents written into the directory at `out`, one after the other. -/
def Disk.replaceBoth (disk : Disk) (documents : Bazel.Documents) (options : Bazel.Options)
    (out : List String) : Disk :=
  (disk.replace ⟨out, options.workspaceFileName⟩ documents.workspace.toUTF8).replace
    ⟨out, options.buildFileName⟩ documents.buildFile.toUTF8

/-- What a disk needs in order to take both documents, and what it holds then. -/
theorem writeDocuments_eq_ok (workspaceName : IsFileName options.workspaceFileName)
    (buildName : IsFileName options.buildFileName)
    (written : Disk.volume.writeDocuments documents directory options before = (.ok (), after)) :
    ∃ ready out, before.Grows ready ∧
      ready.Leads (ready.startOf directory) (Disk.names directory) out ∧
      ready.Admits (join directory options.workspaceFileName) ⟨out, options.workspaceFileName⟩ ∧
      ready.Admits (join directory options.buildFileName) ⟨out, options.buildFileName⟩ ∧
      after = ready.replaceBoth documents options out := by
  unfold Volume.writeDocuments at written
  have grows := Disk.Grows.makeMissing before (Disk.ancestors directory)
  split at written
  · cases written
  · rename_i ready isReady
    rw [show before.makeMissing (Disk.ancestors directory) = (.ok (), ready) from isReady] at grows
    dsimp only at written
    split at written
    · cases written
    · rename_i half isHalf
      obtain ⟨first, admits, rfl⟩ := Disk.writeAtomic_eq_ok_iff.1 isHalf
      obtain ⟨second, alsoAdmits, rfl⟩ := Disk.writeAtomic_eq_ok_iff.1 written
      have same := admits.sameDirectories documents.workspace.toUTF8
      replace alsoAdmits := alsoAdmits.congr same.symm
      obtain ⟨firstName, leads⟩ := admits.of_join workspaceName
      obtain ⟨secondName, alsoLeads⟩ := alsoAdmits.of_join buildName
      obtain ⟨out, _⟩ := first
      obtain ⟨also, _⟩ := second
      cases firstName
      cases secondName
      cases leads.unique alsoLeads
      exact ⟨ready, out, grows, leads, admits, alsoAdmits, rfl⟩

/-! ## What the directory holds -/

def documentNames (options : Bazel.Options) : List String :=
  [options.workspaceFileName, options.buildFileName]

section Entries

variable (disk documents options) (out : List String)

-- The build file is renamed last, so its two places are decided first.
theorem Disk.entry?_replaceBoth (place : List String) :
    entry? (disk.replaceBoth documents options out) place =
      if place = out ++ [options.buildFileName] then some (.file documents.buildFile.toUTF8)
      else if place = out ++ [temporaryName options.buildFileName] then none
      else if place = out ++ [options.workspaceFileName] then
        some (.file documents.workspace.toUTF8)
      else if place = out ++ [temporaryName options.workspaceFileName] then none
      else disk.entry? place := by
  rw [replaceBoth, entry?_replace, entry?_replace]
  rfl

theorem Disk.entry?_replaceBoth_build :
    entry? (disk.replaceBoth documents options out) (out ++ [options.buildFileName]) =
      some (.file documents.buildFile.toUTF8) := by
  rw [entry?_replaceBoth, if_pos rfl]

/-- The workspace file is there, unless it was the build file's temporary file as well. -/
theorem Disk.entry?_replaceBoth_workspace
    (different : options.workspaceFileName ≠ options.buildFileName) :
    entry? (disk.replaceBoth documents options out) (out ++ [options.workspaceFileName]) =
      if options.workspaceFileName = temporaryName options.buildFileName then none
      else some (.file documents.workspace.toUTF8) := by
  rw [entry?_replaceBoth, if_neg (by simpa using different), if_pos rfl]
  simp only [List.append_cancel_left_eq, List.cons.injEq, and_true]

theorem Disk.entry?_replaceBoth_temporary {name : String}
    (isDocument : name ∈ documentNames options)
    (isNone : temporaryName name ∉ documentNames options) :
    entry? (disk.replaceBoth documents options out) (out ++ [temporaryName name]) = none := by
  obtain ⟨notWorkspace, notBuild⟩ : temporaryName name ≠ options.workspaceFileName ∧
      temporaryName name ≠ options.buildFileName := by
    simpa [documentNames] using isNone
  have either : name = options.workspaceFileName ∨ name = options.buildFileName := by
    simpa [documentNames] using isDocument
  rw [entry?_replaceBoth]
  rcases either with rfl | rfl
  · simp [notWorkspace, notBuild]
  · simp [notBuild]

theorem Disk.entry?_replaceBoth_other {place : List String}
    (other : ∀ name ∈ documentNames options,
      place ≠ out ++ [name] ∧ place ≠ out ++ [temporaryName name]) :
    entry? (disk.replaceBoth documents options out) place = disk.entry? place := by
  obtain ⟨notWorkspace, notDraft⟩ := other options.workspaceFileName List.mem_cons_self
  obtain ⟨notBuild, notBuildDraft⟩ :=
    other options.buildFileName (List.mem_cons_of_mem _ List.mem_cons_self)
  rw [entry?_replaceBoth, if_neg notBuild, if_neg notBuildDraft, if_neg notWorkspace,
    if_neg notDraft]

end Entries

/-- What stands in a slot is what is read under the path that admits it. -/
theorem Disk.Admits.read_eq_ok_iff {path : String} {bytes : ByteArray}
    (admits : disk.Admits path slot) (same : disk.SameDirectories after) :
    after.read path = .ok bytes ↔ after.entry? slot.place = some (.file bytes) := by
  have takes := admits.takes.congr same
  constructor
  · intro isRead
    obtain ⟨also, holds⟩ := Disk.holds_of_read takes.names_eq takes.proper isRead
    obtain rfl : slot = also := takes.toHasSlot.unique holds.toHasSlot
    exact holds.held
  · intro held
    exact Disk.Holds.read_eq ⟨takes, held⟩

/-- The build file is in the directory, which is at `out`, and nothing else has changed there. -/
structure Settled (documents : Bazel.Documents) (directory : String) (options : Bazel.Options)
    (before after : Disk) (out : List String) : Prop where
  buildFile : after.read (join directory options.buildFileName) = .ok documents.buildFile.toUTF8
  /-- No temporary file is left, unless it is one of the documents. -/
  temporaries : ∀ name ∈ documentNames options, temporaryName name ∉ documentNames options →
    after.entry? (out ++ [temporaryName name]) = none
  /-- What was there under other names is unchanged. -/
  others : ∀ place entry, before.entry? place = some entry →
    (∀ name ∈ documentNames options, place ≠ out ++ [name] ∧ place ≠ out ++ [temporaryName name]) →
      after.entry? place = some entry

/-- Both documents are in the directory, and nothing else has changed there. -/
structure Arrived (documents : Bazel.Documents) (directory : String) (options : Bazel.Options)
    (before after : Disk) (out : List String) : Prop extends
    Settled documents directory options before after out where
  workspace : after.read (join directory options.workspaceFileName) = .ok documents.workspace.toUTF8

/--
Two documents with different plain names are written into one directory. If that succeeds,
both have arrived there, unless the workspace file is named like the temporary file of the
build file: then the workspace file is gone, and it is all that is missing.
-/
theorem documents_arrive_iff (workspaceName : IsFileName options.workspaceFileName)
    (buildName : IsFileName options.buildFileName)
    (different : options.workspaceFileName ≠ options.buildFileName)
    (written : (Disk.volume.writeDocuments documents directory options before).1 = .ok ()) :
    let after := (Disk.volume.writeDocuments documents directory options before).2
    ∃ out, after.Leads (after.startOf directory) (Disk.names directory) out ∧
      (Arrived documents directory options before after out ↔
        options.workspaceFileName ≠ temporaryName options.buildFileName) ∧
      (options.workspaceFileName = temporaryName options.buildFileName →
        after.entry? (out ++ [options.workspaceFileName]) = none ∧
          Settled documents directory options before after out) := by
  intro after
  obtain ⟨ready, out, grows, leads, admits, alsoAdmits, isAfter⟩ :=
    writeDocuments_eq_ok workspaceName buildName (Prod.ext written rfl)
  replace isAfter : after = ready.replaceBoth documents options out := isAfter
  have same : ready.SameDirectories after := by
    have first := admits.sameDirectories documents.workspace.toUTF8
    rw [isAfter]
    exact first.trans ((alsoAdmits.congr first).sameDirectories _)
  have settled : Settled documents directory options before after out := by
    refine ⟨?_, fun name isDocument isNone => ?_, fun place entry held other => ?_⟩
    · rw [alsoAdmits.read_eq_ok_iff same, isAfter]
      exact Disk.entry?_replaceBoth_build documents options ready out
    · rw [isAfter]
      exact Disk.entry?_replaceBoth_temporary documents options ready out isDocument isNone
    · rw [isAfter, Disk.entry?_replaceBoth_other documents options ready out other]
      exact grows.entry?_eq place entry held
  have workspaceEntry := Disk.entry?_replaceBoth_workspace documents options ready out different
  rw [← isAfter] at workspaceEntry
  refine ⟨out, same.startOf_eq directory ▸ same.leads leads, ?_, fun clash => ?_⟩
  · have arrived_iff : Arrived documents directory options before after out ↔
        after.read (join directory options.workspaceFileName) = .ok documents.workspace.toUTF8 :=
      ⟨fun arrived => arrived.workspace, fun isRead => ⟨settled, isRead⟩⟩
    rw [arrived_iff, admits.read_eq_ok_iff same, Disk.Slot.place, workspaceEntry]
    simp
  · exact ⟨workspaceEntry.trans (if_pos clash), settled⟩

theorem eq_ok_of_isOk {result : Except Error Unit} (isOk : result.isOk = true) :
    result = .ok () := by
  cases result with
  | error error => cases isOk
  | ok _ => rfl

/-- The usual names in a directory that is still to be made. -/
theorem standard_documents_arrive :
    let written :=
      Disk.volume.writeDocuments ⟨"w", "b"⟩ "nested/out" .standard (Disk.fresh ["home"])
    IsFileName "WORKSPACE" ∧ IsFileName "BUILD.bazel" ∧ written.1 = .ok () ∧
      ∃ out, written.2.Leads (written.2.startOf "nested/out") (Disk.names "nested/out") out ∧
        Arrived ⟨"w", "b"⟩ "nested/out" .standard (Disk.fresh ["home"]) written.2 out := by
  intro written
  have workspaceName : IsFileName "WORKSPACE" := by decide +kernel
  have buildName : IsFileName "BUILD.bazel" := by decide +kernel
  have done : written.1 = .ok () := eq_ok_of_isOk (by decide +kernel)
  obtain ⟨out, leads, arrives, _⟩ :=
    @documents_arrive_iff _ _ .standard _ workspaceName buildName (by decide) done
  exact ⟨workspaceName, buildName, done, out, leads, arrives.2 (by decide +kernel)⟩

/-- Names that clash: the workspace file is named like the build file's temporary file. -/
def clashing : Bazel.Options :=
  { Bazel.Options.standard with workspaceFileName := ".B.tmp", buildFileName := "B" }

/-- The writes succeed, but the workspace file has not arrived. -/
theorem clashing_workspace_lost :
    let written := Disk.volume.writeDocuments ⟨"w", "b"⟩ "out" clashing (Disk.fresh ["home"])
    IsFileName ".B.tmp" ∧ IsFileName "B" ∧ written.1 = .ok () ∧
      ∀ out, ¬Arrived ⟨"w", "b"⟩ "out" clashing (Disk.fresh ["home"]) written.2 out := by
  intro written
  have unread : (written.2.read (join "out" ".B.tmp")).isOk = false := by decide +kernel
  refine ⟨by decide +kernel, by decide +kernel, eq_ok_of_isOk (by decide +kernel), ?_⟩
  intro out arrived
  rw [show written.2.read (join "out" ".B.tmp") = _ from arrived.workspace] at unread
  cases unread

end Writes

end BuildScript.File
