import ImageBuilder.VmBuild

/-! What is handed to libkrun, and how the outcome of the child that enters the VM
comes back: its return codes and exit status, through `waitpid`, as a `Result`. -/
namespace ImageBuilder.VmBuilder

open Text

/-- `VM_PATH`. -/
def vmPath : Text := "PATH=/bin:/usr/bin:/usr/local/bin:/sbin:/usr/sbin"

/-- `cstring`. -/
def cstring (s what : Text) : Except VmBuildError Text :=
  if Char.ofNat 0 ∈ s then .error (.io (what ++ " contains an interior NUL byte")) else .ok s

/-- `cstring_path`. -/
def cstringPath (path : PathBuf) (what : Text) : Except VmBuildError Text :=
  match path with
  | .binary _ =>
    .error (.path what path "path is not valid UTF-8 and cannot be passed to libkrun")
  | .utf8 s =>
    match cstring s what with
    | .ok s => .ok s
    | .error _ => .error (.path what path "path contains an interior NUL byte")

/-- `Args`: the strings handed to libkrun, none of which contains a NUL. -/
structure Args where
  rootfs : Text
  context : Text
  outputDir : Text
  outputFilename : Text
  containerfile : Text
  tag : Text
  tagRoot : Text
  tagContext : Text
  tagOutput : Text
  workdir : Text
  exec : Text
  pathEnv : Text
  dnsEnv : Option Text

/-- The last field of `Args::new`. -/
def Args.newDnsEnv (ip : IpText) (build : VmBuild) : Except VmBuildError (Option Text) :=
  match build.dnsEnvValue ip with
  | none => .ok none
  | some value =>
    match cstring (vmDnsEnv ++ '=' :: value) "VM nameservers" with
    | .ok env => .ok (some env)
    | .error e => .error e

def Args.new (ip : IpText) (build : VmBuild) : Except VmBuildError Args := do
  return {
    rootfs := ← cstringPath build.rootfs "VM rootfs"
    context := ← cstringPath build.context "build context"
    outputDir := ← cstringPath build.outputDir "output directory"
    outputFilename := ← cstring build.outputFilename "output filename"
    containerfile := ← cstring containerfileVmPath "Containerfile path"
    tag := ← cstring build.tag "image tag"
    tagRoot := ← cstring VmBuilder.tagRoot "root tag"
    tagContext := ← cstring VmBuilder.tagContext "context tag"
    tagOutput := ← cstring VmBuilder.tagOutput "output tag"
    workdir := ← cstring "/" "workdir"
    exec := ← cstring Rootfs.vmBuildScript "build helper"
    pathEnv := ← cstring vmPath "PATH"
    dnsEnv := ← Args.newDnsEnv ip build }

/-- The arguments of the workload, which sees them from `$1` on. -/
def Args.argv (args : Args) : List (Option Text) :=
  [some args.containerfile, some args.tag, some args.outputFilename, none]

/-- A null pointer in the middle ends the list early. -/
def Args.envp (args : Args) : List (Option Text) := [some args.pathEnv, args.dnsEnv, none]

/-- A null-terminated list as its reader sees it. -/
def nullTerminated (pointers : List (Option Text)) : List Text :=
  (pointers.takeWhile Option.isSome).filterMap id

/-- The value of a variable in an environment. -/
def getenv (name : Text) (environment : List Text) : Option Text :=
  environment.findSome? (stripPrefix? (name ++ ['=']))

theorem cstring_ok {s what r : Text} (made : cstring s what = .ok r) : r = s := by
  unfold cstring at made
  split at made
  · cases made
  · exact (Except.ok.inj made).symm

theorem Args.new_env {ip : IpText} {build : VmBuild} {args : Args}
    (built : Args.new ip build = .ok args) :
    args.pathEnv = vmPath ∧ Args.newDnsEnv ip build = .ok args.dnsEnv := by
  iterate 11 obtain ⟨_, _, built⟩ := Fallible.except_ok built
  obtain ⟨path, pathMade, built⟩ := Fallible.except_ok built
  obtain ⟨dns, dnsMade, built⟩ := Fallible.except_ok built
  cases built
  exact ⟨cstring_ok pathMade, dnsMade⟩

/-- What the configuration calls tell libkrun. -/
inductive Configure where
  | setVmConfig (cpus : UInt8) (memoryMib : UInt32)
  | addVirtiofs (tag path : Text)
  | setWorkdir (dir : Text)
  | setExec (exec : Text) (argv envp : List (Option Text))

/-- The calls of `enter_vm` between the first and the last, all of them made. -/
def configuration (args : Args) (cpus : UInt8) (memoryMib : UInt32) : List Configure :=
  [.setVmConfig cpus memoryMib, .addVirtiofs args.tagRoot args.rootfs,
    .addVirtiofs args.tagContext args.context, .addVirtiofs args.tagOutput args.outputDir,
    .setWorkdir args.workdir, .setExec args.exec args.argv args.envp]

/-- libkrun's answers. `krun_start_enter` returns only when it fails. -/
structure Libkrun where
  createCtx : Int
  configure : Nat → Configure → Int
  startEnter : Nat → Option Int

/-- `EXIT_SETUP_FAILED`. -/
def exitSetupFailed : UInt8 := 119

/-- `EXIT_ENTER_FAILED`. -/
def exitEnterFailed : UInt8 := 118

/-- The exit code of a child that does not enter the VM. -/
def enterVm (krun : Libkrun) (args : Args) (cpus : UInt8) (memoryMib : UInt32) : Option UInt8 :=
  if krun.createCtx < 0 then some exitSetupFailed
  else
    let ctx := krun.createCtx.toNat
    let steps := (configuration args cpus memoryMib).map (krun.configure ctx)
    if steps.any (· < 0) then some exitSetupFailed
    else (krun.startEnter ctx).map fun _ => exitEnterFailed

/-- A signal that ends a process. -/
structure Signal where
  number : Nat
  valid : 0 < number ∧ number < 127

/-- How a process ends. -/
inductive ProcessEnd where
  | exited (code : UInt8)
  | signaled (signal : Signal) (core : Bool)

/-- The status that `waitpid` stores. -/
def ProcessEnd.status : ProcessEnd → Nat
  | .exited code => code.toNat * 256
  | .signaled signal core => signal.number + if core then 128 else 0

def wifsignaled (status : Nat) : Bool := status % 128 ≠ 0 && status % 128 ≠ 127

def wexitstatus (status : Nat) : Nat := status / 256 % 256

/-- What a status is reported as. -/
def reported (status : Nat) : Except VmBuildError Unit :=
  if wifsignaled status then .error (.failed none)
  else if wexitstatus status = 0 then .ok ()
  else if wexitstatus status = exitSetupFailed.toNat then
    .error (.krun "krun_* configuration" (-1))
  else if wexitstatus status = exitEnterFailed.toNat then .error (.krun "krun_start_enter" (-1))
  else .error (.failed (some (wexitstatus status)))

/-- What one call of `waitpid` comes back with. -/
inductive WaitResult where
  | interrupted
  | failed (error : Text)
  | reaped (status : Nat)

/-- `wait_for`; `none` is a wait that is not over. -/
def waitFor : List WaitResult → Option (Except VmBuildError Unit)
  | [] => none
  | .interrupted :: rest => waitFor rest
  | .failed error :: _ => some (.error (.io error))
  | .reaped status :: _ => some (reported status)

def checkSingleThreaded (threadCount : Except Text Nat) : Except VmBuildError Unit :=
  match threadCount with
  | .error e => .error (.io e)
  | .ok threads => if threads > 1 then .error (.multiThreaded threads) else .ok ()

/-- The parent's side of a run: its thread count, whether it can fork, and how often
its wait is interrupted. -/
structure Parent where
  threadCount : Except Text Nat
  forkError : Option Text
  interruptions : Nat

/-- `krun::run`. -/
def Krun.run (ip : IpText) (parent : Parent) (build : VmBuild) (child : Args → ProcessEnd) :
    Option (Except VmBuildError Unit) :=
  match Args.new ip build with
  | .error e => some (.error e)
  | .ok args =>
    match checkSingleThreaded parent.threadCount with
    | .error e => some (.error e)
    | .ok () =>
      match parent.forkError with
      | some e => some (.error (.io e))
      | none => waitFor (List.replicate parent.interruptions .interrupted ++
          [.reaped (child args).status])

/-- Interruptions only prolong the wait. -/
theorem waitFor_interrupted (n : Nat) (rest : List WaitResult) :
    waitFor (List.replicate n .interrupted ++ rest) = waitFor rest := by
  induction n with
  | zero => rfl
  | succ n ih => rw [List.replicate_succ, List.cons_append, waitFor, ih]

theorem wifsignaled_exited (code : UInt8) : wifsignaled (ProcessEnd.exited code).status = false := by
  have multiple : code.toNat * 256 % 128 = 0 := by omega
  simp [wifsignaled, ProcessEnd.status, multiple]

theorem wexitstatus_exited (code : UInt8) : wexitstatus (ProcessEnd.exited code).status = code.toNat := by
  have small := code.toNat_lt
  simp only [wexitstatus, ProcessEnd.status]
  omega

theorem wifsignaled_signaled (signal : Signal) (core : Bool) :
    wifsignaled (ProcessEnd.signaled signal core).status = true := by
  obtain ⟨low, high⟩ := signal.valid
  cases core <;> simp only [wifsignaled, ProcessEnd.status, Bool.and_eq_true, decide_eq_true_eq] <;>
    simp <;> omega

theorem reported_signaled (signal : Signal) (core : Bool) :
    reported (ProcessEnd.signaled signal core).status = .error (.failed none) := by
  rw [reported, if_pos (wifsignaled_signaled signal core)]

/-- What an exit code is reported as. -/
theorem reported_exited (code : UInt8) : reported (ProcessEnd.exited code).status =
    if code = 0 then .ok ()
    else if code = exitSetupFailed then .error (.krun "krun_* configuration" (-1))
    else if code = exitEnterFailed then .error (.krun "krun_start_enter" (-1))
    else .error (.failed (some code.toNat)) := by
  have zero : code.toNat = 0 ↔ code = 0 := by
    rw [← UInt8.toNat_inj]
    rfl
  rw [reported, wifsignaled_exited, wexitstatus_exited]
  simp only [Bool.false_eq_true, ↓reduceIte, zero, UInt8.toNat_inj]

/-- The calls all succeed exactly when the VM is entered. -/
theorem enterVm_eq_none : enterVm krun args cpus memoryMib = none ↔
    0 ≤ krun.createCtx ∧
    (∀ call ∈ configuration args cpus memoryMib, 0 ≤ krun.configure krun.createCtx.toNat call) ∧
    krun.startEnter krun.createCtx.toNat = none := by
  unfold enterVm
  by_cases created : krun.createCtx < 0
  · simp [created]
  · by_cases failing : ((configuration args cpus memoryMib).map
        (krun.configure krun.createCtx.toNat)).any (· < 0) = true
    · have some_ : ∃ call ∈ configuration args cpus memoryMib,
          krun.configure krun.createCtx.toNat call < 0 := by simpa using failing
      obtain ⟨call, member, negative⟩ := some_
      simp only [created, failing, ↓reduceIte]
      constructor
      · exact nofun
      · rintro ⟨_, configured, _⟩
        exact absurd (configured call member) (by omega)
    · have configured : ∀ call ∈ configuration args cpus memoryMib,
          0 ≤ krun.configure krun.createCtx.toNat call := by simpa using failing
      have nonnegative : 0 ≤ krun.createCtx := by omega
      simp only [created, failing, Bool.false_eq_true, ↓reduceIte, Option.map_eq_none_iff]
      exact ⟨fun entered => ⟨nonnegative, configured, entered⟩, fun all => all.2.2⟩

/-- A child that does not enter the VM exits with one of two codes. -/
theorem enterVm_code (failed : enterVm krun args cpus memoryMib = some code) :
    code = exitSetupFailed ∨ code = exitEnterFailed := by
  unfold enterVm at failed
  dsimp only at failed
  split at failed
  · exact .inl (Option.some.inj failed).symm
  · split at failed
    · exact .inl (Option.some.inj failed).symm
    · obtain ⟨_, _, same⟩ := Option.map_eq_some_iff.mp failed
      exact .inr same.symm

end ImageBuilder.VmBuilder
