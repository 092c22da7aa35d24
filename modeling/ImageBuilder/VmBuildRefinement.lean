import ImageBuilder.ProgramFiles

/-! Staging a VM build on the files of the host is staging it in the plain model, on a host that
answers as the files do. -/
namespace ImageBuilder.Program

open Inode Inode.FileSystem VmBuilder VmBuildFiles VmBuildRun
open VmGuest (sharedDirectory)

variable {kernel : Kernel} {text tag : Text} {config : VmConfig} {contextDir output path : PathBuf}
  {early mid fs : Files} {disk : Disk}

/-- What there is of a rootfs to check. -/
def rootfsTree (kernel : Kernel) (fs : Files) (rootfs : PathBuf) : Option Tree :=
  if kernel.isDir fs rootfs then
    match kernel.metadata fs (rootfs.join Rootfs.helper) with
    | .ok (.file mode _) => some ((∅ : Tree).insert Rootfs.helper (.file mode (.utf8 [])))
    | _ => some ∅
  else none

theorem checkRootfs_empty : Rootfs.checkRootfs (some ∅) = .error .missingHelper := by
  rw [Rootfs.checkRootfs, Finmap.lookup_empty]

theorem checkRootfs_file (tree : Tree) (mode : Nat) (contents : Bytes) :
    Rootfs.checkRootfs (some (tree.insert Rootfs.helper (.file mode contents))) =
      if mode &&& 0o111 = 0 then .error .notExecutable else .ok () := by
  rw [Rootfs.checkRootfs, Finmap.lookup_insert]

theorem checkRootfs_reported (kernel : Kernel) (config : VmConfig) (fs : Files) :
    reported (checkRootfs kernel config fs) =
      (Rootfs.checkRootfs (rootfsTree kernel fs config.rootfs)).mapError
        (.rootfs config.rootfs) := by
  unfold checkRootfs rootfsTree
  cases kernel.isDir fs config.rootfs
  · rfl
  · simp only [if_true]
    cases kernel.metadata fs (config.rootfs.join Rootfs.helper) with
    | error source =>
      rw [checkRootfs_empty]
      rfl
    | ok node =>
      cases node with
      | file mode contents =>
        rw [checkRootfs_file]
        dsimp only
        split <;> rfl
      | dir entries =>
        rw [checkRootfs_empty]
        rfl
      | link target =>
        rw [checkRootfs_empty]
        rfl

theorem left_canonicalize (kernel : Kernel) (path : PathBuf) (what : Text) (fs : Files) :
    left (VmBuildFiles.canonicalize kernel path what fs) = fs := by
  unfold VmBuildFiles.canonicalize
  split <;> rfl

theorem left_outputFilename (output : PathBuf) (fs : Files) :
    left (VmBuildFiles.outputFilename output fs) = fs := by
  unfold VmBuildFiles.outputFilename
  split <;> rfl

theorem left_checkRootfs (kernel : Kernel) (config : VmConfig) (fs : Files) :
    left (checkRootfs kernel config fs) = fs := by
  rcases checkRootfs_cases kernel config fs with same | ⟨e, same⟩ <;> rw [same] <;> rfl

/-- Why the Containerfile could not be written. -/
def refusal : EStateM.Result VmBuildError Files Unit → Option WriteError
  | .error (.path _ _ source) _ => some (.opening source)
  | .error (.io e) _ => some (.writing e)
  | _ => none

/-- The host that a VM build finds, which knows directories by what leads to them. -/
def plainVm (kernel : Kernel) (text : Text) (contextDir output : PathBuf) (early : Files) :
    BuildHost :=
  let wrote := VmBuildFiles.writeContainerfile kernel contextDir text early
  let created := kernel.createDirAll (outputParent output).ancestors (left wrote)
  { directory path := (sharedDirectory created.2 path).getD created.2.fresh
    file _ := (0, [])
    rootfs rootfs := rootfsTree kernel early rootfs
    tempdir := .ok contextDir
    tempfile := .error []
    refuses _ name := if name = containerfileName then refusal wrote else none
    canonicalize what path := (kernel.canonicalize
      (if what = "output directory" then created.2 else left wrote) path).mapError FileError.message
    createDirAll _ := created.1.mapError FileError.message
    toStringLossy := Utf8.lossy
    canonical what path real canonical := by
      have grown : Extends (fun _ => False) (left wrote) created.2 :=
        (Kernel.createDirAll_madeFor kernel _ (left wrote)).toExtends
      have still : Extends (fun _ => False) created.2 created.2 := .refl _
      split at canonical
      · cases found : kernel.canonicalize created.2 path with
        | error e =>
          rw [found] at canonical
          cases canonical
        | ok _ =>
          rw [found] at canonical
          cases canonical
          rw [sharedDirectory_real found still]
      · cases found : kernel.canonicalize (left wrote) path with
        | error e =>
          rw [found] at canonical
          cases canonical
        | ok _ =>
          rw [found] at canonical
          cases canonical
          rw [sharedDirectory_real found grown]
    outside _ _ _ impossible := by cases impossible }

theorem plainVm_refuses (dir : Nat) (name : Text) :
    (plainVm kernel text contextDir output early).refuses dir name =
      if name = containerfileName then
        refusal (VmBuildFiles.writeContainerfile kernel contextDir text early)
      else none := rfl

theorem plainVm_canonicalize (what : Text) (path : PathBuf) :
    (plainVm kernel text contextDir output early).canonicalize what path =
      (kernel.canonicalize (if what = "output directory" then
        (kernel.createDirAll (outputParent output).ancestors
          (left (VmBuildFiles.writeContainerfile kernel contextDir text early))).2
        else left (VmBuildFiles.writeContainerfile kernel contextDir text early))
        path).mapError FileError.message := rfl

theorem plainVm_createDirAll (path : PathBuf) :
    (plainVm kernel text contextDir output early).createDirAll path =
      (kernel.createDirAll (outputParent output).ancestors
        (left (VmBuildFiles.writeContainerfile kernel contextDir text early))).1.mapError
          FileError.message := rfl

theorem writeContainerfile_failed
    (failed : VmBuildFiles.writeContainerfile kernel contextDir text early = .error e last) :
    (∃ source, e = .path "Containerfile in the build context" (contextDir.join containerfileName)
      source) ∨ ∃ cause, e = .io cause := by
  unfold VmBuildFiles.writeContainerfile at failed
  dsimp only at failed
  split at failed
  · cases failed
    exact .inl ⟨_, rfl⟩
  · split at failed
    · cases failed
      exact .inr ⟨_, rfl⟩
    · cases failed

theorem canonicalize_reported (kernel : Kernel) (path : PathBuf) (what : Text) (fs : Files) :
    reported (VmBuildFiles.canonicalize kernel path what fs) =
      ((kernel.canonicalize fs path).mapError FileError.message).mapError (.path what path) := by
  unfold VmBuildFiles.canonicalize
  cases kernel.canonicalize fs path <;> rfl

theorem plain_canonicalize (host : BuildHost) (path : PathBuf) (what : Text) :
    VmBuilder.canonicalize host path what =
      (host.canonicalize what path).mapError (.path what path) := by
  unfold VmBuilder.canonicalize
  cases host.canonicalize what path <;> rfl

theorem createDirAll_reported (kernel : Kernel) (path : PathBuf) (fs : Files) :
    reported (VmBuildFiles.createDirAll kernel path fs) =
        ((kernel.createDirAll path.ancestors fs).1.mapError FileError.message).mapError .io ∧
      left (VmBuildFiles.createDirAll kernel path fs) =
        (kernel.createDirAll path.ancestors fs).2 := by
  unfold VmBuildFiles.createDirAll
  rcases kernel.createDirAll path.ancestors fs with ⟨_ | _, last⟩ <;> exact ⟨rfl, rfl⟩

theorem plain_createDirAll (host : BuildHost) (path : PathBuf) :
    VmBuilder.createDirAll host path = (host.createDirAll path).mapError .io := by
  unfold VmBuilder.createDirAll
  cases host.createDirAll path <;> rfl

theorem outputFilename_alike (lossless : host.toStringLossy = Utf8.lossy) (output : PathBuf)
    (fs : Files) :
    VmBuilder.outputFilename host output = reported (VmBuildFiles.outputFilename output fs) := by
  unfold VmBuilder.outputFilename VmBuildFiles.outputFilename
  cases output.fileName with
  | none => rfl
  | some name =>
    cases name with
    | utf8 name =>
      dsimp only [reported, PathBuf.toStringLossy]
      rw [PathBuf.raw_utf8, Utf8.lossy_encode]
      rfl
    | binary bytes =>
      dsimp only [reported, PathBuf.toStringLossy, BuildHost.lossy]
      rw [lossless]
      rfl

/-- The paths of a build, one after the other. -/
theorem resolve_reported (kernel : Kernel) (tag : Text) (config : VmConfig)
    (contextDir output : PathBuf) (fs : Files) :
    reported (VmBuildFiles.resolve kernel tag config contextDir output fs) = (do
      let rootfs ← reported (VmBuildFiles.canonicalize kernel config.rootfs "VM rootfs" fs)
      let context ← reported (VmBuildFiles.canonicalize kernel contextDir "build context" fs)
      let outputFilename ← reported (VmBuildFiles.outputFilename output fs)
      reported (VmBuildFiles.createDirAll kernel (outputParent output) fs)
      let outputDir ← reported (VmBuildFiles.canonicalize kernel (outputParent output)
        "output directory" (left (VmBuildFiles.createDirAll kernel (outputParent output) fs)))
      return {
        rootfs
        context
        outputDir
        outputFilename
        tag
        cpus := config.cpus
        memoryMib := config.memoryMib
        nameservers := config.nameservers }) := by
  simp only [VmBuildFiles.resolve, reported_bind, left_canonicalize, left_outputFilename]
  rfl

theorem plain_checkRootfs (config : VmConfig) (host : BuildHost) :
    config.checkRootfs host =
      (Rootfs.checkRootfs (host.rootfs config.rootfs)).mapError (.rootfs config.rootfs) := by
  unfold VmConfig.checkRootfs
  cases Rootfs.checkRootfs (host.rootfs config.rootfs) <;> rfl

section Written

variable {done : Unit}
  (wrote : VmBuildFiles.writeContainerfile kernel contextDir text early = .ok done mid)
include wrote

theorem plainVm_before (path : PathBuf) (other : what ≠ "output directory".toList) :
    VmBuilder.canonicalize (plainVm kernel text contextDir output early) path what =
      reported (VmBuildFiles.canonicalize kernel path what mid) := by
  rw [plain_canonicalize, canonicalize_reported, plainVm_canonicalize, if_neg other, wrote]
  rfl

theorem plainVm_parent :
    VmBuilder.createDirAll (plainVm kernel text contextDir output early) (outputParent output) =
      reported (VmBuildFiles.createDirAll kernel (outputParent output) mid) := by
  rw [plain_createDirAll, (createDirAll_reported kernel (outputParent output) mid).1,
    plainVm_createDirAll, wrote]
  rfl

theorem plainVm_after :
    VmBuilder.canonicalize (plainVm kernel text contextDir output early) (outputParent output)
        "output directory" =
      reported (VmBuildFiles.canonicalize kernel (outputParent output) "output directory"
        (left (VmBuildFiles.createDirAll kernel (outputParent output) mid))) := by
  rw [plain_canonicalize, canonicalize_reported,
    (createDirAll_reported kernel (outputParent output) mid).2, plainVm_canonicalize, if_pos rfl,
    wrote]
  rfl

end Written

/-- Staging a VM build comes to the same. -/
theorem resolve_alike (kernel : Kernel) (text tag : Text) (config : VmConfig)
    (contextDir output : PathBuf) (early : Files)
    (free : (disk ((plainVm kernel text contextDir output early).directory contextDir)).lookup
      containerfileName = none) :
    ∃ new, VmBuilder.resolve (plainVm kernel text contextDir output early) disk text tag config
      contextDir output = (reported (VmBuildFiles.stage kernel text tag config contextDir output
        early)).map (·, new) := by
  have checked : config.checkRootfs (plainVm kernel text contextDir output early) =
      reported (checkRootfs kernel config early) := by
    rw [checkRootfs_reported]
    exact plain_checkRootfs config _
  rw [VmBuildFiles.stage, reported_bind, left_checkRootfs, ← checked]
  cases usable : config.checkRootfs (plainVm kernel text contextDir output early) with
  | error e =>
    refine ⟨disk, ?_⟩
    rw [VmBuilder.resolve, usable]
    rfl
  | ok _ =>
    dsimp only [Except.bind]
    rw [reported_bind]
    have refused : (plainVm kernel text contextDir output early).refuses
        ((plainVm kernel text contextDir output early).directory contextDir) containerfileName =
          refusal (VmBuildFiles.writeContainerfile kernel contextDir text early) :=
      (plainVm_refuses _ _).trans (if_pos rfl)
    cases wrote : VmBuildFiles.writeContainerfile kernel contextDir text early with
    | error e last =>
      rw [wrote] at refused
      refine ⟨disk, ?_⟩
      rcases writeContainerfile_failed wrote with ⟨source, rfl⟩ | ⟨cause, rfl⟩
      · rw [VmBuilder.resolve, usable, VmBuilder.writeContainerfile, BuildHost.write, refused]
        rfl
      · rw [VmBuilder.resolve, usable, VmBuilder.writeContainerfile, BuildHost.write, refused]
        rfl
    | ok _ mid =>
      rw [wrote] at refused
      obtain ⟨new, added⟩ : ∃ new, (plainVm kernel text contextDir output early).write disk
          ((plainVm kernel text contextDir output early).directory contextDir, containerfileName)
          text = .ok new := ⟨_, write_allowed refused (writeFile_new free text)⟩
      refine ⟨new, ?_⟩
      rw [resolve_written usable added tag output, plainVm_before wrote _ (by decide),
        plainVm_before wrote _ (by decide), plainVm_parent wrote, plainVm_after wrote,
        outputFilename_alike rfl output mid]
      show _ = (fun build => (build, new)) <$>
        reported (VmBuildFiles.resolve kernel tag config contextDir output mid)
      rw [resolve_reported]
      simp only [map_bind, map_pure]

end ImageBuilder.Program
