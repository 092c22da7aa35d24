import ImageBuilder.BuildContext

/-! The container-CLI backend: which program is looked for and run, with which
arguments, and what its exit status comes back as. -/
namespace ImageBuilder.ContainerBuilder

inductive ContainerCli where
  | podman
  | docker
  | macOsContainer
  deriving DecidableEq

def ContainerCli.binary : ContainerCli → Text
  | .podman => "podman"
  | .docker => "docker"
  | .macOsContainer => "container"

structure RuntimeNotFoundError where
  binary : Text

def RuntimeNotFoundError.message (e : RuntimeNotFoundError) : Text :=
  "'" ++ e.binary ++ "' not found in PATH — install it or choose a different --runtime"

/-- `check_in_path`; `which` tells whether `PATH` has an executable of that name. -/
def ContainerCli.checkInPath (cli : ContainerCli) (which : Text → Bool) :
    Except RuntimeNotFoundError Unit :=
  if which cli.binary then .ok () else .error ⟨cli.binary⟩

inductive BuildError where
  | io (error : Text)
  | failed (exitCode : Option Int)
  deriving DecidableEq

def BuildError.message : BuildError → Text
  | .io e => "I/O error: " ++ e
  | .failed (some code) => "container build failed with exit code " ++ (toString code).toList
  | .failed none => "container build was terminated by a signal"

/-- A program and its arguments. -/
structure Command where
  program : Text
  args : List Bytes
  deriving DecidableEq

/-- The exit code of a process, none when a signal ended it. -/
abbrev ExitStatus := Option Int

/-- Runs a command on a disk, or fails to. -/
abbrev Runner := Command → Disk → Except Text ExitStatus

/-- The command that `build` runs. -/
def buildCommand (cli : ContainerCli) (tmpfile : PathBuf) (tag : Text) (contextDir : PathBuf) :
    Command where
  program := cli.binary
  args := [.utf8 "build", .utf8 "-f", tmpfile, .utf8 "-t", .utf8 tag, contextDir]

def build (host : BuildHost) (disk : Disk) (containerfile tag : Text) (cli : ContainerCli)
    (runner : Runner) (contextDir : PathBuf) : Outcome Command BuildError :=
  match host.createTempfile disk with
  | .error e => .stopped (.io e)
  | .ok (tmpfile, disk) =>
    match host.write disk (host.file tmpfile) containerfile with
    | .error e => .stopped (.io e.error)
    | .ok disk =>
      let cmd := buildCommand cli tmpfile tag contextDir
      .invoked cmd disk (match runner cmd disk with
        | .error e => .error (.io e)
        | .ok status => if status = some 0 then .ok () else .error (.failed status))

section Outcomes

variable {host : BuildHost} {disk : Disk} {containerfile tag : Text} {cli : ContainerCli}
  {runner : Runner} {contextDir tmpfile : PathBuf}

theorem build_untemporary (failed : host.tempfile = .error e) :
    build host disk containerfile tag cli runner contextDir = .stopped (.io e) := by
  rw [build, BuildHost.createTempfile, failed]

/-- A new file is written to if the host lets it. -/
theorem build_allowed (made : host.tempfile = .ok tmpfile)
    (allowed : host.refuses (host.file tmpfile).1 (host.file tmpfile).2 = none) :
    ∃ new, build host disk containerfile tag cli runner contextDir =
      .invoked (buildCommand cli tmpfile tag contextDir) new
        (match runner (buildCommand cli tmpfile tag contextDir) new with
          | .error e => .error (.io e)
          | .ok status => if status = some 0 then .ok () else .error (.failed status)) := by
  rw [build, BuildHost.createTempfile, made]
  simp only [BuildHost.write, allowed, Function.update_self, writeFile, Finmap.lookup_insert]
  exact ⟨_, rfl⟩

end Outcomes

/-- The temporary Containerfile holds the text, and the context is as it was. -/
theorem build_invoked {host : BuildHost} {runner : Runner}
    (invoked : build host disk containerfile tag cli runner contextDir = .invoked cmd new result)
    (created : host.tempdir = .ok contextDir) :
    ∃ tmpfile, cmd = buildCommand cli tmpfile tag contextDir ∧
      BuildHost.read new (host.file tmpfile) = some (.utf8 containerfile) ∧
      new (host.directory contextDir) = disk (host.directory contextDir) := by
  unfold build BuildHost.createTempfile at invoked
  cases made : host.tempfile with
  | error e =>
    rw [made] at invoked
    cases invoked
  | ok tmpfile =>
    rw [made] at invoked
    dsimp only at invoked
    split at invoked
    · cases invoked
    · rename_i wrote
      cases invoked
      have outside := host.outside _ _ created made
      refine ⟨tmpfile, rfl, host.write_read wrote, ?_⟩
      rw [host.write_frame wrote outside.symm, Function.update_of_ne outside.symm]

end ImageBuilder.ContainerBuilder
