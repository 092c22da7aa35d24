import ImageBuilder.VmBuild

/-! The microVM backend up to its runner: the rootfs is checked, the Containerfile is
written into the context, and every path is resolved. -/
namespace ImageBuilder.VmBuilder

def writeContainerfile (host : BuildHost) (disk : Disk) (contextDir : PathBuf)
    (containerfile : Text) : Except VmBuildError Disk :=
  match host.write disk (host.directory contextDir, containerfileName) containerfile with
  | .error (.opening source) => .error
      (.path "Containerfile in the build context" (contextDir.join containerfileName) source)
  | .error (.writing e) => .error (.io e)
  | .ok disk => .ok disk

def canonicalize (host : BuildHost) (path : PathBuf) (what : Text) : Except VmBuildError PathBuf :=
  match host.canonicalize what path with
  | .error source => .error (.path what path source)
  | .ok real => .ok real

def createDirAll (host : BuildHost) (path : PathBuf) : Except VmBuildError Unit :=
  match host.createDirAll path with
  | .error e => .error (.io e)
  | .ok () => .ok ()

def outputFilename (host : BuildHost) (output : PathBuf) : Except VmBuildError Text :=
  match output.fileName with
  | none => .error (.path "output path has no filename" output "no filename")
  | some name => .ok (host.lossy name)

/-- The directory of the tarball; a bare filename has an empty parent. -/
def outputParent (output : PathBuf) : PathBuf :=
  match output.parent with
  | some parent => if parent.isEmpty then .utf8 "." else parent
  | none => .utf8 "."

/-- `build` before it invokes its runner. -/
def resolve (host : BuildHost) (disk : Disk) (containerfile tag : Text) (config : VmConfig)
    (contextDir output : PathBuf) : Except VmBuildError (VmBuild × Disk) := do
  config.checkRootfs host
  let disk ← writeContainerfile host disk contextDir containerfile
  let rootfs ← canonicalize host config.rootfs "VM rootfs"
  let context ← canonicalize host contextDir "build context"
  let outputFilename ← outputFilename host output
  createDirAll host (outputParent output)
  let outputDir ← canonicalize host (outputParent output) "output directory"
  return ({
    rootfs
    context
    outputDir
    outputFilename
    tag
    cpus := config.cpus
    memoryMib := config.memoryMib
    nameservers := config.nameservers }, disk)

/-- Boots a VM for a build on a disk. -/
abbrev VmRunner := VmBuild → Disk → Except VmBuildError Unit

def build (host : BuildHost) (disk : Disk) (containerfile tag : Text) (config : VmConfig)
    (runner : VmRunner) (contextDir output : PathBuf) : Outcome VmBuild VmBuildError :=
  match resolve host disk containerfile tag config contextDir output with
  | .error e => .stopped e
  | .ok (build, disk) => .invoked build disk (runner build disk)

theorem canonicalize_directory {host : BuildHost} (resolved : canonicalize host path what = .ok real) :
    host.directory real = host.directory path := by
  unfold canonicalize at resolved
  split at resolved
  · cases resolved
  · rename_i found
    cases resolved
    exact host.canonical _ _ _ found

theorem writeContainerfile_ok {host : BuildHost}
    (wrote : writeContainerfile host disk contextDir containerfile = .ok new) :
    host.write disk (host.directory contextDir, containerfileName) containerfile = .ok new := by
  unfold writeContainerfile at wrote
  split at wrote <;> cases wrote
  assumption

/-- The paths of a build, once its Containerfile is in place. -/
theorem resolve_written {host : BuildHost} (usable : config.checkRootfs host = .ok ())
    (wrote : host.write disk (host.directory contextDir, containerfileName) containerfile =
      .ok new) (tag : Text) (output : PathBuf) :
    resolve host disk containerfile tag config contextDir output = (do
      let rootfs ← canonicalize host config.rootfs "VM rootfs"
      let context ← canonicalize host contextDir "build context"
      let outputFilename ← outputFilename host output
      createDirAll host (outputParent output)
      let outputDir ← canonicalize host (outputParent output) "output directory"
      return ({
        rootfs
        context
        outputDir
        outputFilename
        tag
        cpus := config.cpus
        memoryMib := config.memoryMib
        nameservers := config.nameservers }, new)) := by
  rw [resolve, usable, writeContainerfile, wrote]
  rfl

/-- What the runner is handed. -/
theorem build_invoked {host : BuildHost} {runner : VmRunner}
    (invoked : build host disk containerfile tag config runner contextDir output =
      .invoked vmBuild new result) :
    vmBuild.tag = tag ∧ vmBuild.cpus = config.cpus ∧ vmBuild.memoryMib = config.memoryMib ∧
      vmBuild.nameservers = config.nameservers ∧
      host.directory vmBuild.context = host.directory contextDir ∧
      host.write disk (host.directory contextDir, containerfileName) containerfile = .ok new := by
  unfold build at invoked
  split at invoked
  · cases invoked
  · rename_i resolved
    cases invoked
    obtain ⟨_, _, resolved⟩ := Fallible.except_ok resolved
    obtain ⟨written, wrote, resolved⟩ := Fallible.except_ok resolved
    obtain ⟨_, _, resolved⟩ := Fallible.except_ok resolved
    obtain ⟨context, canonical, resolved⟩ := Fallible.except_ok resolved
    obtain ⟨_, _, resolved⟩ := Fallible.except_ok resolved
    obtain ⟨_, _, resolved⟩ := Fallible.except_ok resolved
    obtain ⟨_, _, resolved⟩ := Fallible.except_ok resolved
    cases resolved
    exact ⟨rfl, rfl, rfl, rfl, canonicalize_directory canonical, writeContainerfile_ok wrote⟩

end ImageBuilder.VmBuilder
