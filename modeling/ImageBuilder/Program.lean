import ImageBuilder.Backends
import ImageBuilder.CommandLine
import ImageBuilder.Library.InodeRemoval
import ImageBuilder.VmBuildRun

/-! The program, from its command line to its exit status, on the files of its host. What a build
needs for a while is made under names of its own and removed however the build ends. -/
namespace ImageBuilder.Program

open Inode Inode.FileSystem ContainerBuilder VmBuilder Containerfile

/-- The host of one run of the program. -/
structure Host (buildah : VmGuest.Buildah) where
  ip : IpText
  dns : Dns.Host
  which : Text → Bool
  supported : Except VmBuildError Unit
  kernel : Kernel
  ensureExtracted : EStateM Text Files PathBuf
  display : PathBuf → Text
  /-- The escaped and quoted forms of paths and strings. -/
  debugPath : PathBuf → Text
  debug : Text → Text
  tempDir : PathBuf
  /-- The names that are tried for something temporary. -/
  random : Files → List Text
  /-- What is removed of something that cannot be removed altogether. -/
  stuck : Files → PathBuf → Option (List (List FileName))
  engine : Command → Files → Except Text ExitStatus × Files
  parent : Parent
  forked : VmBuildRun.Forked buildah

section Invocation

variable {buildah : VmGuest.Buildah} (host : Host buildah)

section Selecting

def vmConfig (rootfs : Option PathBuf) (cpus : Option UInt8) (memory : Option UInt32)
    (dns : List IpAddr) : EStateM Text Files VmConfig := do
  let nameservers ← (match vmNameservers host.ip host.dns dns with
    | .error e => throw e
    | .ok nameservers => pure nameservers : EStateM Text Files (List IpAddr))
  let rootfs ← (match rootfs with
    | some rootfs => pure rootfs
    | none => host.ensureExtracted : EStateM Text Files PathBuf)
  return {
    rootfs
    cpus := cpus.getD defaultCpus
    memoryMib := memory.getD defaultMemoryMib
    nameservers }

def selectVm (cli : Cli) : EStateM Text Files Selected := do
  let config ← vmConfig host cli.vmRootfs cli.vmCpus cli.vmMemory cli.vmDns
  (VmBuildFiles.checkRootfs host.kernel config).adaptExcept fun e => e.message host.display
  return .vm config (cli.vmOutput.getD (vmOutputPath cli.tag))

def selectRuntime (cli : Cli) : EStateM Text Files Selected :=
  match cli.runtime.containerCli with
  | some containerCli =>
    match containerCli.checkInPath host.which with
    | .error e => throw e.message
    | .ok () => return .cli containerCli
  | none =>
    match host.supported with
    | .error e => throw (e.message host.display)
    | .ok () => selectVm host cli

end Selecting

section Temporaries

/-- An error of the `tempfile` crate. -/
def withErrPath (message : Text) (path : PathBuf) : Text :=
  message ++ " at path " ++ host.debugPath path

/-- `create_helper`: the first name that is free. -/
def createHelper (stem : Text) (create : Files → PathBuf → Except FileError (A × Files)) :
    List Text → EStateM Text Files (PathBuf × A)
  | [] => throw (withErrPath host "too many temporary files exist" host.tempDir)
  | name :: names => fun fs =>
    let path := host.tempDir.join (stem ++ name)
    match create fs path with
    | .ok (a, fs) => .ok (path, a) fs
    | .error (.os .exist) => createHelper stem create names fs
    | .error e => .error (withErrPath host e.message path) fs

def tempdir : EStateM Text Files PathBuf := do
  let (path, ()) ← createHelper host "openshell-build-image"
    (fun fs path => (host.kernel.mkdir fs path).map ((), ·)) (host.random (← get))
  return path

def namedTempFile : EStateM Text Files (PathBuf × Nat) := do
  createHelper host ".tmp" (fun fs path =>
    host.kernel.perform fs (.openFile path) path (fs.createNew 0o600)) (host.random (← get))

/-- Takes away some of the names below a directory. -/
def clear (top : Nat) (done : List (List FileName)) (fs : Files) : Files :=
  done.foldl (fun fs names =>
    match names.getLast?, fs.reach top names.dropLast with
    | some n, some ino => fs.unlink ino n
    | _, _ => fs) fs

/-- The `Drop` of a `TempDir`, which ignores errors. -/
def dropTempDir (path : PathBuf) (fs : Files) : Files :=
  match path.route with
  | none => fs
  | some route =>
    match host.stuck fs path with
    | some done =>
      match fs.follow route with
      | .error _ => fs
      | .ok pos => clear (fs.inode pos) done fs
    | none => (fs.removeDirAll route).toOption.getD fs

/-- The `Drop` of a `NamedTempFile`. -/
def dropTempFile (path : PathBuf) (fs : Files) : Files :=
  match path.route, host.stuck fs path with
  | some route, none => (fs.removeFile route).toOption.getD fs
  | _, _ => fs

end Temporaries

section Building

/-- Drops something temporary once what used it is done, or has failed. -/
def dropping (drop : Files → Files) (done : EStateM E Files A) : EStateM E Files A := fun fs =>
  match done fs with
  | .ok a fs => .ok a (drop fs)
  | .error e fs => .error e (drop fs)

/-- What the container-CLI backend does with its temporary Containerfile. -/
def runWith (containerfile tag : Text) (cli : ContainerCli)
    (runner : Command → Files → Except Text ExitStatus × Files) (contextDir tmpfile : PathBuf)
    (file : Nat) : EStateM BuildError Files Unit := fun fs =>
  match host.kernel.writeAll fs file (Utf8.encode containerfile) with
  | (.error e, fs) => .error (.io (withErrPath host e.message tmpfile)) fs
  | (.ok (), fs) =>
    match runner (buildCommand cli tmpfile tag contextDir) fs with
    | (.error e, fs) => .error (.io e) fs
    | (.ok status, fs) => if status = some 0 then .ok () fs else .error (.failed status) fs

/-- The container-CLI backend. -/
def build (containerfile tag : Text) (cli : ContainerCli)
    (runner : Command → Files → Except Text ExitStatus × Files) (contextDir : PathBuf) :
    EStateM BuildError Files Unit := do
  let (tmpfile, file) ← (namedTempFile host).adaptExcept .io
  dropping (dropTempFile host tmpfile)
    (runWith host containerfile tag cli runner contextDir tmpfile file)

inductive Backend where
  | cli (containerCli : ContainerCli) (runner : Command → Files → Except Text ExitStatus × Files)
  | vm (config : VmConfig) (runner : VmBuild → VmBuildFiles.Staging Unit) (output : PathBuf)

def backendFor : Selected → Backend
  | .cli containerCli => .cli containerCli host.engine
  | .vm config output => .vm config (VmBuildRun.krunRun host.ip host.parent host.forked) output

/-- `fs::write`. -/
def write (path : PathBuf) (contents : Text) : EStateM Text Files Unit := fun fs =>
  match host.kernel.perform fs (.openFile path) path (fs.openCreate 0o644 fs.hops) with
  | .error e => .error e.message fs
  | .ok (file, fs) =>
    match host.kernel.writeAll fs file (Utf8.encode contents) with
    | (.error e, fs) => .error e.message fs
    | (.ok (), fs) => .ok () fs

/-- `run` once its Containerfile is there. -/
def buildIn (output tag : Text) (contextDir : PathBuf) : Backend → EStateM RunError Files Unit
  | .cli cli runner => (build host output tag cli runner contextDir).adaptExcept .container
  | .vm config runner vmOutput =>
    (VmBuildFiles.build host.kernel output tag config runner contextDir vmOutput).adaptExcept .vm

/-- `run` once its context is there. -/
def runIn (tag from_ : Text) (copyContainerfile : Bool) (backend : Backend)
    (contextDir : PathBuf) : EStateM RunError Files Unit := do
  let output ← (match generate from_ copyContainerfile with
    | .error e => throw (.containerfile e)
    | .ok output => pure output : EStateM RunError Files Text)
  (if copyContainerfile then write host (contextDir.join buildContainerfile) output
    else pure ()).adaptExcept .io
  buildIn host output tag contextDir backend

def run (tag from_ : Text) (copyContainerfile : Bool) (backend : Backend) :
    EStateM RunError Files Unit := do
  let contextDir ← (tempdir host).adaptExcept .io
  dropping (dropTempDir host contextDir) (runIn host tag from_ copyContainerfile backend contextDir)

def errorMessage : RunError → Text
  | .io e => e
  | .containerfile e => e.message host.debug
  | .container e => e.message
  | .vm e => e.message host.display

end Building

/-- What a run of the program shows for itself. -/
structure Ending where
  status : UInt8
  stdout : Text
  stderr : Text
  deriving DecidableEq

/-- `eprintln!` and `exit`. -/
def fail (e : Text) : Ending := ⟨1, [], "Error: " ++ e ++ "\n".toList⟩

def main (cli : Cli) (fs : Files) : Ending × Files :=
  match checkVmFlags cli with
  | .error e => (fail e, fs)
  | .ok () =>
    match selectRuntime host cli fs with
    | .error e fs => (fail e, fs)
    | .ok selected fs =>
      match run host cli.tag cli.from_ cli.copyContainerfile (backendFor host selected) fs with
      | .error e fs => (fail (errorMessage host e), fs)
      | .ok () fs =>
        match buildSummary host.display selected with
        | some summary => (⟨0, summary ++ "\n".toList, []⟩, fs)
        | none => (⟨0, [], []⟩, fs)

end Invocation

namespace Sample

/-- A host on which all goes well, with one file system for everything. -/
def host : Host VmSharing.Sample.buildah where
  ip := IpText.plain
  dns := ⟨none, .error []⟩
  which _ := true
  supported := .ok ()
  kernel := VmBuildFiles.Sample.willing
  ensureExtracted := pure (.utf8 "/")
  display := PathBuf.toStringLossy
  debugPath := PathBuf.toStringLossy
  debug := id
  tempDir := .utf8 "/context"
  random _ := ["a1b2c3"]
  stuck _ _ := none
  engine _ fs := (.ok (some 0), fs)
  parent := ⟨.ok 1, none, 1⟩
  forked := VmBuildRun.Sample.forked

def cli (runtime : Runtime) : Cli where
  tag := "out"
  runtime := runtime
  from_ := "alpine"
  copyContainerfile := true
  vmRootfs := none
  vmOutput := none
  vmCpus := none
  vmMemory := none
  vmDns := []

def files : Files := VmBuildRun.Sample.files

def ending (runtime : Runtime) : Ending := (main host (cli runtime) files).1

end Sample

end ImageBuilder.Program
