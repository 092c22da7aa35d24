import ImageBuilder.ProgramContainer
import ImageBuilder.ProgramRun
import ImageBuilder.VmBuildRefinement

/-! A run of the program on the files of its host is one of the plain model that the two backends
are compared on: it ends alike, and what its engine is shown is what the plain one is asked for. -/
namespace ImageBuilder.Program

open Inode Inode.FileSystem VmBuilder VmBuildFiles VmBuildRun ContainerBuilder Containerfile
open VmGuest (Buildah sharedDirectory)

/-- What a build comes to, whether it reaches its runner or not. -/
def outcomeResult : Outcome C E → Except E Unit
  | .stopped e => .error e
  | .invoked _ _ ended => ended

/-- A run of the plain model ends as one on the files does, and asks its runner for what they
show. -/
structure Alike (plain : BuildHost) (shows : Invocation → Request → Prop)
    (done : Except RunError Unit) (outcome : Outcome Invocation RunError) : Prop where
  result : outcomeResult outcome = done
  request : ∀ call new ended, outcome = .invoked call new ended →
    ∃ request, engineRequest plain new call = some request ∧ shows call request

theorem Alike.stopped {shows : Invocation → Request → Prop} (failed : done = .error e)
    (plain : BuildHost) : Alike plain shows done (.stopped e) where
  result := failed.symm
  request _ _ _ impossible := by cases impossible

section Container

variable {buildah : Buildah} {host : Host buildah} {cli : Cli} {containerCli : ContainerCli}
  {fs last seen : Files} {text : Text} {tmpfile contextDir : PathBuf}

/-- A host of which no more is known than two temporary names. -/
def plainHost (tempdir tempfile : Except Text PathBuf) : BuildHost where
  directory path := match tempdir with
    | .ok context => if path = context then 1 else 0
    | .error _ => 0
  file _ := (0, [])
  rootfs _ := none
  tempdir := tempdir
  tempfile := tempfile
  refuses _ _ := none
  canonicalize _ _ := .error []
  createDirAll _ := .ok ()
  toStringLossy := Utf8.lossy
  canonical _ _ _ impossible := by cases impossible
  outside context temp made _ := by
    subst made
    simp

/-- The engine is run on files that hold what a request asks for. -/
def EngineShows (host : Host buildah) (cli : Cli) (containerCli : ContainerCli) (fs last : Files)
    (result : Except RunError Unit) (call : Invocation) (request : Request) : Prop :=
  ∃ text tmpfile contextDir seen mode,
    EngineRun host cli containerCli fs last result text tmpfile contextDir seen ∧
    call = .cli (buildCommand containerCli tmpfile cli.tag contextDir) ∧
    Leads seen tmpfile (.file mode (PathBuf.raw request.containerfile)) ∧
    (Alphanumeric host → Mirrors seen fs.fresh request.context)

/-- A run that stops before its engine does so in the plain model. -/
theorem Stopped.alike (why : Stopped cli e) {shows : Invocation → Request → Prop}
    (failed : done = .error e) (containerCli : ContainerCli) (runner : Runner) :
    ∃ plain, ∀ disk, Alike plain shows done (ImageBuilder.run plain disk cli.tag cli.from_
      cli.copyContainerfile (.cli containerCli runner)) := by
  cases why with
  | containerfile rejected =>
    refine ⟨plainHost (.ok (.utf8 "/")) (.error []), fun disk => ?_⟩
    rw [ImageBuilder.run, stage_rejected rfl rejected]
    exact .stopped failed _
  | @io cause =>
    refine ⟨plainHost (.error cause) (.error []), fun disk => ?_⟩
    rw [ImageBuilder.run, stage_untemporary rfl]
    exact .stopped failed _
  | @container _ cause generated =>
    refine ⟨plainHost (.ok (.utf8 "/")) (.error cause), fun disk => ?_⟩
    obtain ⟨new, staged⟩ := @stage_allowed (plainHost (.ok (.utf8 "/")) (.error cause)) disk _ _ _ _
      rfl generated rfl
    rw [ImageBuilder.run, staged]
    dsimp only
    rw [build_untemporary rfl]
    exact .stopped failed _

/-- A run that gets to its engine does so in the plain model. -/
theorem EngineRun.alike {result : Except RunError Unit}
    (ran : EngineRun host cli containerCli fs last result text tmpfile contextDir seen) :
    ∃ plain runner, ∀ disk, Alike plain (EngineShows host cli containerCli fs last result) result
      (ImageBuilder.run plain disk cli.tag cli.from_ cli.copyContainerfile
        (.cli containerCli runner)) := by
  refine ⟨plainHost (.ok contextDir) (.ok tmpfile),
    fun _ _ => (engineRun host cli containerCli tmpfile contextDir seen).1, fun disk => ?_⟩
  have invoked : ∃ new, ImageBuilder.run (plainHost (.ok contextDir) (.ok tmpfile)) disk cli.tag
      cli.from_ cli.copyContainerfile (.cli containerCli
        fun _ _ => (engineRun host cli containerCli tmpfile contextDir seen).1) =
      .invoked (.cli (buildCommand containerCli tmpfile cli.tag contextDir)) new result := by
    obtain ⟨staging, staged⟩ := @stage_allowed (plainHost (.ok contextDir) (.ok tmpfile)) disk
      _ _ _ _ rfl ran.generated rfl
    obtain ⟨new, built⟩ := @build_allowed (plainHost (.ok contextDir) (.ok tmpfile)) staging text
      cli.tag containerCli (fun _ _ => (engineRun host cli containerCli tmpfile contextDir seen).1)
      contextDir _ rfl rfl
    refine ⟨new, ?_⟩
    rw [ImageBuilder.run, staged]
    dsimp only
    rw [built, Outcome.map, ran.reports]
    rfl
  obtain ⟨new, invoked⟩ := invoked
  obtain ⟨again, generated, asked⟩ := run_cli invoked
  rw [ran.generated] at generated
  cases generated
  obtain ⟨mode, leads⟩ := ran.shown.containerfile
  rw [invoked]
  exact {
    result := rfl
    request := fun call new' ended same => by
      cases same
      exact ⟨_, asked, text, tmpfile, contextDir, seen, mode, ran, rfl, leads, ran.mirrored⟩ }

/-- Every run with a container CLI is one of the plain model. -/
theorem cli_alike (closed : fs.Closed) (host : Host buildah) (cli : Cli)
    (containerCli : ContainerCli) :
    let done := run host cli.tag cli.from_ cli.copyContainerfile
      (backendFor host (.cli containerCli)) fs
    ∃ plain runner, ∀ disk, Alike plain
      (EngineShows host cli containerCli fs (left done) (reported done)) (reported done)
      (ImageBuilder.run plain disk cli.tag cli.from_ cli.copyContainerfile
        (.cli containerCli runner)) := by
  dsimp only
  rcases run_concluded closed host cli containerCli with
    ⟨e, failed, why, _⟩ | ⟨_, _, _, _, ran⟩
  · obtain ⟨plain, alike⟩ := why.alike failed containerCli fun _ _ => .error []
    exact ⟨plain, _, alike⟩
  · exact ran.alike

end Container

section Launching

variable {buildah : Buildah} {host : Host buildah} {cli : Cli} {ready : Files} {config : VmConfig}
  {vmOutput : PathBuf}

/-- The context of a launch, when its VM is started. -/
theorem Launch.mirrors (launch : Launch host cli ready config vmOutput) (closed : ready.Closed) :
    Mirrors launch.mid ready.fresh (vmContext launch.containerfile cli.copyContainerfile) := by
  obtain ⟨pos, entries, n, temporary, made, filling, _⟩ := launch.grown closed
  have staged := temporary.mirrors closed made cli.copyContainerfile launch.copied
  obtain ⟨written, _, wrote, resolved⟩ := VmBuildFiles.stage_ok.mp launch.staged
  obtain ⟨q, inside, context, _, rfl⟩ := writeContainerfile_ok wrote
  obtain ⟨home, free⟩ := filling.context q inside context
  rw [← home] at staged ⊢
  have held := staged.insert filling.closed context.found free rfl launch.containerfile
  exact held.congr fun k => (resolve_ok_madeFor resolved).toOnlyDirs.fileAt _ [k]

theorem Launch.shared (launch : Launch host cli ready config vmOutput) (closed : ready.Closed) :
    sharedDirectory launch.mid launch.vmBuild.context = some ready.fresh := by
  obtain ⟨pos, entries, n, temporary, made, filling, adds⟩ := launch.grown closed
  have grown := (filling.trans (adds fun _ _ => False)).toExtends
  rw [made] at grown
  obtain ⟨written, _, _, resolved⟩ := VmBuildFiles.stage_ok.mp launch.staged
  obtain ⟨_, _, _, _, _, second, _, _, _, same⟩ := resolve_ok.mp resolved
  rw [same]
  exact (sharedDirectory_real second (resolve_ok_madeFor resolved).toExtends).trans
    (temporary.shows grown)

/-- The VM is started on files that hold what a request asks for. -/
def GuestShows (host : Host buildah) (cli : Cli) (ready : Files) (config : VmConfig)
    (vmOutput : PathBuf) (call : Invocation) (request : Request) : Prop :=
  ∃ (launch : Launch host cli ready config vmOutput) (mode : Nat),
    call = .vm launch.vmBuild ∧
    sharedDirectory launch.mid launch.vmBuild.context = some ready.fresh ∧
    launch.mid.fileAt ready.fresh [containerfileEntry] =
      some (.file mode (PathBuf.raw request.containerfile)) ∧
    Mirrors launch.mid ready.fresh request.context

theorem Launch.shows (launch : Launch host cli ready config vmOutput) (closed : ready.Closed) :
    GuestShows host cli ready config vmOutput (.vm launch.vmBuild) ⟨.utf8 launch.containerfile,
      .utf8 cli.tag, vmContext launch.containerfile cli.copyContainerfile⟩ := by
  have mirrors := launch.mirrors closed
  obtain ⟨n, spelled, held⟩ := mirrors.held containerfileName 0o644 (.utf8 launch.containerfile)
    (Finmap.lookup_insert _)
  obtain rfl : n = containerfileEntry := Subtype.ext spelled
  exact ⟨launch, 0o644, rfl, launch.shared closed, held, mirrors⟩

/-- Once its context is there, a build stages and starts its VM as the plain model does. -/
theorem buildIn_alike {contextDir : PathBuf} {begun early : Files} {text : Text}
    (closed : ready.Closed) (created : tempdir host ready = .ok contextDir begun)
    (generated : generate cli.from_ cli.copyContainerfile = .ok text)
    (copied : (if cli.copyContainerfile then
      write host (contextDir.join buildContainerfile) text else pure ()) begun = .ok () early)
    (config : VmConfig) (vmOutput : PathBuf) (runner : VmBuild → Staging Unit) (disk : Disk) :
    let plain := plainVm host.kernel text contextDir vmOutput early
    let mid := left (VmBuildFiles.stage host.kernel text cli.tag config contextDir vmOutput early)
    Alike plain (GuestShows host cli ready config vmOutput)
      (reported (buildIn host text cli.tag contextDir (.vm config runner vmOutput) early))
      (ImageBuilder.run plain disk cli.tag cli.from_ cli.copyContainerfile
        (.vm config (fun build _ => reported (runner build mid)) vmOutput)) := by
  intro plain mid
  have allowed : plain.refuses (plain.directory contextDir) buildContainerfile = none :=
    (plainVm_refuses _ _).trans (if_neg (by decide))
  obtain ⟨staging, begins⟩ := @stage_allowed plain disk _ _ _ _ rfl generated allowed
  have free : (staging (plain.directory contextDir)).lookup containerfileName = none := by
    rw [(stage_ok begins).2.2]
    exact stagedContext_other (by decide) _ _
  obtain ⟨new, resolved⟩ := resolve_alike host.kernel text cli.tag config contextDir vmOutput
    early free
  rw [buildIn, reported_adapt, VmBuildFiles.build, reported_bind]
  cases staged : VmBuildFiles.stage host.kernel text cli.tag config contextDir vmOutput early with
  | error e last =>
    rw [staged] at resolved
    rw [ImageBuilder.run, begins]
    dsimp only
    rw [VmBuilder.build, resolved]
    exact .stopped rfl _
  | ok vmBuild final =>
    rw [staged] at resolved
    have same : mid = final := congrArg left staged
    have invoked : ImageBuilder.run plain disk cli.tag cli.from_ cli.copyContainerfile
        (.vm config (fun build _ => reported (runner build mid)) vmOutput) =
          .invoked (.vm vmBuild) new ((reported (runner vmBuild mid)).mapError .vm) := by
      rw [ImageBuilder.run, begins]
      dsimp only
      rw [VmBuilder.build, resolved]
      rfl
    obtain ⟨_, again, asked⟩ := run_vm invoked
    rw [generated] at again
    cases again
    let launch : Launch host cli ready config vmOutput :=
      ⟨contextDir, begun, created, text, generated, early, copied, vmBuild, final, staged⟩
    rw [invoked, same]
    exact {
      result := rfl
      request := fun call new' ended same => by
        cases same
        exact ⟨_, asked, launch.shows closed⟩ }

/-- Every run with a VM is one of the plain model, whose guest is asked for what the files show. -/
theorem vm_alike (closed : ready.Closed) (host : Host buildah) (cli : Cli) (config : VmConfig)
    (vmOutput : PathBuf) :
    ∃ plain runner, ∀ disk, Alike plain (GuestShows host cli ready config vmOutput)
      (reported (run host cli.tag cli.from_ cli.copyContainerfile
        (backendFor host (.vm config vmOutput)) ready))
      (ImageBuilder.run plain disk cli.tag cli.from_ cli.copyContainerfile
        (.vm config runner vmOutput)) := by
  cases created : tempdir host ready with
  | error e last =>
    have failed : run host cli.tag cli.from_ cli.copyContainerfile
        (backendFor host (.vm config vmOutput)) ready = .error (.io e) last :=
      Fallible.bind_error.mpr (.inl (Fallible.adapt_error.mpr ⟨e, created, rfl⟩))
    refine ⟨plainHost (.error e) (.error []), fun _ _ => .ok (), fun disk => ?_⟩
    rw [failed, ImageBuilder.run, stage_untemporary rfl]
    exact .stopped rfl _
  | ok contextDir begun =>
    have onward : run host cli.tag cli.from_ cli.copyContainerfile
        (backendFor host (.vm config vmOutput)) ready = dropping (dropTempDir host contextDir)
          (runIn host cli.tag cli.from_ cli.copyContainerfile (.vm config
            (krunRun host.ip host.parent host.forked) vmOutput) contextDir) begun :=
      Fallible.bind_next (Fallible.adapt_ok.mpr created)
    rw [onward, reported_dropping]
    rcases runIn_prepared created closed cli.tag cli.from_ cli.copyContainerfile
      (.vm config (krunRun host.ip host.parent host.forked) vmOutput) with
      ⟨e, last, failed, ⟨cause, rejected, rfl⟩ | ⟨cause, rfl⟩, _⟩ |
        ⟨text, early, generated, copied, _, ran⟩
    · refine ⟨plainHost (.ok contextDir) (.error []), fun _ _ => .ok (), fun disk => ?_⟩
      rw [failed, ImageBuilder.run, stage_rejected rfl rejected]
      exact .stopped rfl _
    · refine ⟨plainHost (.error cause) (.error []), fun _ _ => .ok (), fun disk => ?_⟩
      rw [failed, ImageBuilder.run, stage_untemporary rfl]
      exact .stopped rfl _
    · rw [ran]
      exact ⟨_, _, buildIn_alike closed created generated copied config vmOutput _⟩

end Launching

end ImageBuilder.Program
