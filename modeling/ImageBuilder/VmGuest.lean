import ImageBuilder.Library.Interleaving
import ImageBuilder.Library.Mounts
import ImageBuilder.NameserverHandoff
import ImageBuilder.VmBuildFiles

/-! The guest of a VM build: the shares that it boots with, and what each command of
`vm-build` does to the files of the host, which it sees through them, and to its own. -/
namespace ImageBuilder.VmGuest

open Text Inode VmBuilder VmBuildScript

/-- Where a file of the guest is kept. -/
inductive Store where
  | host
  | memory
  deriving DecidableEq

/-- What a build can tell of an entry of its context. -/
inductive Item where
  | file (mode : Nat) (contents : List UInt8)
  | dir
  | link (target : Route FileName)

def Item.of : Node FileName → Item
  | .file mode contents => .file mode contents
  | .dir _ => .dir
  | .link target => .link target

/-- What `buildah bud` is given. -/
structure BudInput where
  containerfile : List UInt8
  context : List FileName → Option Item
  tag : Text
  resolvConf : Option (List UInt8)

/-- `buildah`, and the archive that `tar` makes of a root filesystem. A container made from
the tag that was just built, once mounted, shows the image that was built. -/
structure Buildah where
  State : Type
  Image : Type
  Builds : BudInput → Image → Prop
  bud : BudInput → State → UInt8 × State
  create : Text → State → UInt8 × Text × State
  mount : Text → State → UInt8 × Text × State
  umount : Text → State → UInt8 × State
  remove : Text → State → UInt8 × State
  rootfs : State → Text → Option Image
  archive : Image → List UInt8
  hands : ∀ input s built ctr created mnt mounted, bud input s = (0, built) →
    create input.tag built = (0, ctr, created) → mount ctr created = (0, mnt, mounted) →
    ∃ image, rootfs mounted mnt = some image ∧ Builds input image

abbrev Table := List (List FileName × Volume Store)

abbrev View := Mounted FileName Store

/-- What is only in the memory of a VM. -/
structure Vm (buildah : Buildah) where
  memory : Files
  mounts : Table
  memKb : Int
  storageMb : Int
  /-- `size=` of the mount that holds the images, in MiB. -/
  storageLimit : Option Int
  redirect : Option (Store × Nat)
  state : buildah.State
  ctr : Text
  mnt : Text

/-- A VM, and the files of the host beside it. -/
abbrev Guest (buildah : Buildah) := Files × Vm buildah

/-- What the VM is started with. A share is known by the directory that it shows. -/
structure Boot where
  root : Nat
  share : Text → Option Nat
  cfile : Text
  tag : Text
  outputFile : Text
  dns : Option Text

/-- The directory that a share of the host shows. -/
def sharedDirectory (h : Files) (path : PathBuf) : Option Nat :=
  match path.route with
  | none => none
  | some route =>
    match h.directory route with
    | .ok (pos, _) => some (h.inode pos)
    | .error _ => none

def sharedAs (h : Files) (calls : List Configure) (tag : Text) : Option Nat :=
  calls.findSome? fun call =>
    match call with
    | .addVirtiofs named path => if named = tag then sharedDirectory h (.utf8 path) else none
    | _ => none

def workload (calls : List Configure) : Option (List Text × List Text) :=
  calls.findSome? fun call =>
    match call with
    | .setExec _ argv envp => some (nullTerminated argv, nullTerminated envp)
    | _ => none

/-- What the guest makes of its configuration. The root is the share that the kernel mounts
as `/`. -/
def Boot.of (h : Files) (calls : List Configure) : Option Boot :=
  match sharedAs h calls tagRoot, workload calls with
  | some root, some ([cfile, tag, outputFile], environment) => some {
      root
      share := sharedAs h calls
      cfile
      tag
      outputFile
      dns := getenv vmDnsEnv environment }
  | _, _ => none

/-- The files as the VM sees them. -/
def Guest.view {buildah : Buildah} (s : Guest buildah) (boot : Boot) : View where
  stores
    | .host => s.1
    | .memory => s.2.memory
  top := ⟨.host, boot.root⟩
  table := s.2.mounts
  hops := 40

/-- The guest after its files have changed. -/
def Guest.settle {buildah : Buildah} (s : Guest buildah) (view : View) : Guest buildah :=
  (view.stores .host, { s.2 with memory := view.stores .memory, mounts := view.table })

abbrev Failure := { status : UInt8 // status ≠ 0 }

def contextPoint : Text := "/build/context"
def outputPoint : Text := "/build/output"
def storagePoint : Text := "/var/lib/containers"
def runPoint : Text := "/run"
def runContainers : Text := "/run/containers"
def runResolvConf : Text := "/run/resolv.conf"
def etcResolvConf : Text := "/etc/resolv.conf"
def tmpPoint : Text := "/var/tmp"

def steps (path : Text) : Option (List (Step FileName)) := (PathBuf.route (.utf8 path)).map Route.steps

/-- The names of a path that is known. -/
def named (words : List Text) : List FileName :=
  words.filterMap fun word =>
    if valid : Utf8.encode word ≠ [] ∧ Utf8.encode word ≠ [0x2e] ∧ Utf8.encode word ≠ [0x2e, 0x2e] ∧
        0x2f ∉ Utf8.encode word ∧ 0 ∉ Utf8.encode word then
      some ⟨Utf8.encode word, valid⟩
    else none

/-- Where `buildah` keeps its storage, its run-time state and its temporary files. -/
def scratch : List (List FileName) :=
  [named ["var", "lib", "containers"], named ["run"], named ["var", "tmp"]]

/-- What the kernel and the programs of the VM do of their own accord. `buildah` may change
all that is below its own directories, and nothing else. -/
structure Machine (buildah : Buildah) where
  shell : Shell.Host
  memTotal : Int
  oom : Text
  /-- A command that does not get to do anything. -/
  refuses : Command → Guest buildah → Option Failure
  /-- The status of a command that the files stop. -/
  failure : Command → Guest buildah → Failure
  /-- Directories that cannot be made. -/
  stops : Guest buildah → List FileName → FileName → Bool
  edits : Command → Guest buildah → List (List FileName × (Files → Files))
  /-- How much of the archive is written before a write fails. -/
  cut : Guest buildah → List UInt8 → Option Nat
  within : ∀ command s, ∀ edit ∈ edits command s, ∃ dir ∈ scratch, dir <+: edit.1

/-- `MEM_KB * 3 / 4 / 1024`, in the 64-bit arithmetic of the shell. -/
def storageMb (memKb : Int) : Int := ((Int.bmod (memKb * 3) (2 ^ 64)).tdiv 4).tdiv 1024

/-- Changes to whole file systems, each found by a path that is on it. -/
def applyEdits (edits : List (List FileName × (Files → Files))) (view : View) : View :=
  edits.foldl (fun view edit => view.alter (view.place edit.1).1.store
    (edit.2 (view.stores (view.place edit.1).1.store))) view

namespace Machine

variable {buildah : Buildah} (machine : Machine buildah) (boot : Boot)

/-- `mkdir -p` of one path. -/
def makeDirs (s : Guest buildah) (path : Text) (view : View) : Bool × View :=
  match steps path with
  | none => (false, view)
  | some steps => Mounted.makeDirs (machine.stops s) steps.inits.tail view

/-- `mount -t virtiofs`. -/
def mountShare (s : Guest buildah) (tag path : Text) : Except Unit (Guest buildah) :=
  match boot.share tag, steps path with
  | some root, some steps =>
    match (s.view boot).mount ⟨.host, root⟩ steps with
    | .error _ => .error ()
    | .ok view => .ok (s.settle view)
  | _, _ => .error ()

/-- `mount -t tmpfs`. -/
def mountTmpfs (s : Guest buildah) (path : Text) : Except Unit (Guest buildah) :=
  match steps path with
  | none => .error ()
  | some steps =>
    let view := (s.view boot).alter .memory (s.2.memory.put s.2.memory.fresh (.dir ∅))
    match view.mount ⟨.memory, s.2.memory.fresh⟩ steps with
    | .error _ => .error ()
    | .ok view => .ok (s.settle view)

/-- `mount -o bind`. -/
def mountBind (s : Guest buildah) (source path : Text) : Except Unit (Guest buildah) :=
  match steps source, steps path with
  | some source, some steps =>
    match (s.view boot).resolve source with
    | .error _ => .error ()
    | .ok found =>
      match (s.view boot).inode found with
      | none => .error ()
      | some (store, ino) =>
        match (s.view boot).mount ⟨store, ino⟩ steps with
        | .error _ => .error ()
        | .ok view => .ok (s.settle view)
  | _, _ => .error ()

/-- `> path`, before anything is written. -/
def openRedirect (s : Guest buildah) (path : Text) : Except Unit (Guest buildah) :=
  match steps path with
  | none => .error ()
  | some steps =>
    match (s.view boot).openTruncate 0o644 steps with
    | .error _ => .error ()
    | .ok (file, view) =>
      let s := s.settle view
      .ok (s.1, { s.2 with redirect := some file })

/-- A line at the end of the file that output is redirected to. -/
def echo (s : Guest buildah) (text : Text) : Except Unit (Guest buildah) :=
  match s.2.redirect with
  | none => .error ()
  | some file =>
    match ((s.view boot).stores file.1).nodes.lookup file.2 with
    | some (.file _ contents) =>
      .ok (s.settle ((s.view boot).setContents file (contents ++ Utf8.encode text)))
    | _ => .error ()

/-- The file at the end of a path. -/
def read (s : Guest buildah) (path : Text) : Option (List UInt8) :=
  match steps path with
  | none => none
  | some steps =>
    match (s.view boot).resolve steps with
    | .error _ => none
    | .ok found =>
      match (s.view boot).node found with
      | some (.file _ contents) => some contents
      | _ => none

/-- What `buildah bud` is given: `-f "$CFILE" -t "$TAG" /build/context`. -/
def budInput (s : Guest buildah) : Option BudInput :=
  match read boot s boot.cfile, (steps contextPoint).map (s.view boot).resolve with
  | some containerfile, some (.ok context) => some {
      containerfile
      context names := ((s.view boot).node (context ++ names)).map Item.of
      tag := boot.tag
      resolvConf := read boot s etcResolvConf }
  | _, _ => none

def bud (s : Guest buildah) : Option (UInt8 × Guest buildah) :=
  match budInput boot s with
  | none => none
  | some input =>
    let (status, state) := buildah.bud input s.2.state
    some (status, s.1, { s.2 with state })

/-- `tar -cf /build/output/"$OUTPUT_FILE" -C "$mnt" .` -/
def tar (s : Guest buildah) : Except (Guest buildah) (Guest buildah) :=
  match steps (outputShare ++ boot.outputFile) with
  | none => .error s
  | some steps =>
    match (s.view boot).openTruncate 0o644 steps with
    | .error _ => .error s
    | .ok (file, view) =>
      match (buildah.rootfs s.2.state s.2.mnt).map buildah.archive with
      | none => .error (s.settle view)
      | some archive =>
        match machine.cut s archive with
        | some count =>
          if count < archive.length then
            .error (s.settle (view.setContents file (archive.take count)))
          else .ok (s.settle (view.setContents file archive))
        | none => .ok (s.settle (view.setContents file archive))

/-- What a command that is not refused does. -/
def perform (command : Command) (s : Guest buildah) : UInt8 × Guest buildah :=
  let failed := (machine.failure command s).val
  let orFail (result : Except Unit (Guest buildah)) : UInt8 × Guest buildah :=
    match result with
    | .ok s => (0, s)
    | .error () => (failed, s)
  let edited (result : UInt8 × Guest buildah) : UInt8 × Guest buildah :=
    (result.1, result.2.settle (applyEdits (machine.edits command s) (result.2.view boot)))
  let mkdir (path : Text) : UInt8 × Guest buildah :=
    match machine.makeDirs s path (s.view boot) with
    | (made, view) => (if made then 0 else failed, s.settle view)
  match command with
  | .makeShares =>
    match machine.makeDirs s contextPoint (s.view boot) with
    | (first, view) =>
      match machine.makeDirs s outputPoint view with
      | (second, view) => (if first && second then 0 else failed, s.settle view)
  | .mountContext => orFail (mountShare boot s tagContext contextPoint)
  | .mountOutput => orFail (mountShare boot s tagOutput outputPoint)
  | .readMemTotal => (0, s.1, { s.2 with memKb := machine.memTotal })
  | .computeStorage => (0, s.1, { s.2 with storageMb := storageMb s.2.memKb })
  | .makeStorage => mkdir storagePoint
  | .mountStorage =>
    orFail ((mountTmpfs boot s storagePoint).map fun s =>
      (s.1, { s.2 with storageLimit := some s.2.storageMb }))
  | .mountRun => orFail (mountTmpfs boot s runPoint)
  | .makeRunContainers => mkdir runContainers
  | .openResolvConf => orFail (openRedirect boot s runResolvConf)
  | .echoNameserver _ ns => orFail (echo boot s (machine.shell.echo ("nameserver " ++ ns)))
  | .bindResolvConf => orFail (mountBind boot s runResolvConf etcResolvConf)
  | .makeVarTmp => mkdir tmpPoint
  | .mountVarTmp => orFail (mountTmpfs boot s tmpPoint)
  | .raiseFileLimit => (0, s)
  | .buildahBud => edited ((bud boot s).getD (failed, s))
  | .buildahFrom =>
    match buildah.create boot.tag s.2.state with
    | (status, ctr, state) => edited (status, s.1, { s.2 with ctr, state })
  | .buildahMount =>
    match buildah.mount s.2.ctr s.2.state with
    | (status, mnt, state) => edited (status, s.1, { s.2 with mnt, state })
  | .tar =>
    match machine.tar boot s with
    | .ok s => (0, s)
    | .error s => (failed, s)
  | .buildahUmount =>
    match buildah.umount s.2.ctr s.2.state with
    | (status, state) => edited (status, s.1, { s.2 with state })
  | .buildahRm =>
    match buildah.remove s.2.ctr s.2.state with
    | (status, state) => edited (status, s.1, { s.2 with state })
  | .searchKernelLog | .printOom | .printHint => (0, s)

/-- What a command does. -/
def exec (command : Command) (s : Guest buildah) : UInt8 × Guest buildah :=
  match machine.refuses command s with
  | some failure => (failure.val, s)
  | none => machine.perform boot command s

/-- The commands of the script, in order. -/
def commands : List Command := (script machine.shell boot.dns).observed

/-- The commands of its trap. -/
def trap (rc : UInt8) : List Command := (onExit machine.oom rc).observed

end Machine
end ImageBuilder.VmGuest
