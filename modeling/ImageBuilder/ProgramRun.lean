import ImageBuilder.ProgramContext

/-! A whole run of the program with `--runtime vm`: what its command line comes to, and what it
leaves on the host however it ends. -/
namespace ImageBuilder.Program

open Inode Inode.FileSystem ContainerBuilder VmBuilder VmBuildFiles VmBuildRun VmGuest VmSharing

section Running

variable {buildah : Buildah} {host : Host buildah} {cli : Cli} {fs ready begun last : Files}
  {config : VmConfig} {vmOutput contextDir : PathBuf} {shares : Shares} {shipped : List UInt8}

/-- A VM build that gets as far as its runner. -/
structure Launch (host : Host buildah) (cli : Cli) (ready : Files) (config : VmConfig)
    (vmOutput : PathBuf) where
  contextDir : PathBuf
  begun : Files
  created : tempdir host ready = .ok contextDir begun
  containerfile : Text
  generated : Containerfile.generate cli.from_ cli.copyContainerfile = .ok containerfile
  early : Files
  copied : (if cli.copyContainerfile then
    write host (contextDir.join buildContainerfile) containerfile else pure ()) begun = .ok () early
  vmBuild : VmBuild
  mid : Files
  staged : VmBuildFiles.stage host.kernel containerfile cli.tag config contextDir vmOutput early =
    .ok vmBuild mid

/-- The steps of a launch, one after the other. -/
def launchOf (host : Host buildah) (cli : Cli) (config : VmConfig) (vmOutput : PathBuf) :
    EStateM RunError Files PathBuf := do
  let contextDir ← (tempdir host).adaptExcept .io
  match Containerfile.generate cli.from_ cli.copyContainerfile with
  | .error e => throw (.containerfile e)
  | .ok text =>
    (if cli.copyContainerfile then write host (contextDir.join buildContainerfile) text
      else pure ()).adaptExcept .io
    let _ ← (VmBuildFiles.stage host.kernel text cli.tag config contextDir vmOutput).adaptExcept .vm
    return contextDir

theorem Launch.steps (launch : Launch host cli ready config vmOutput) :
    launchOf host cli config vmOutput ready = .ok launch.contextDir launch.mid := by
  refine (Fallible.bind_next (Fallible.adapt_ok.mpr launch.created)).trans ?_
  rw [launch.generated]
  refine (Fallible.bind_next (Fallible.adapt_ok.mpr launch.copied)).trans ?_
  exact Fallible.bind_next (Fallible.adapt_ok.mpr launch.staged)

/-- The context of a launch, and what is put into it. -/
theorem Launch.grown (launch : Launch host cli ready config vmOutput) (closed : ready.Closed) :
    ∃ pos entries n, Temporary ready launch.contextDir pos entries n ∧
      launch.begun = ready.add pos entries n (.dir ∅) ∧
      Filling ready launch.contextDir launch.begun launch.early ∧
      ∀ places, Adds (fun _ => False) (· = ready.fresh) places launch.early launch.mid := by
  obtain ⟨pos, entries, n, temporary, made⟩ := tempdir_ok launch.created
  have filling := copy_filling temporary closed made host launch.containerfile cli.copyContainerfile
  rw [launch.copied] at filling
  refine ⟨pos, entries, n, temporary, made, filling, fun places => ?_⟩
  have staged : Adds (fun _ => False) (· = ready.fresh) places launch.early (left
      (VmBuildFiles.stage host.kernel launch.containerfile cli.tag config launch.contextDir vmOutput
        launch.early)) := stage_adds filling.closed filling.context
  rwa [launch.staged] at staged

theorem Filling.trans {mid : Files} {places : Nat → FileName → Prop} {changed : Nat → Prop}
    (filling : Filling ready contextDir begun fs)
    (adds : Adds changed (· = ready.fresh) places fs mid) :
    Adds changed (· = ready.fresh) places begun mid :=
  ((filling.adds places).trans adds).mono (fun _ either => either.elim False.elim id) fun _ _ => id

/-- A build in its context fails before its runner, or launches it. -/
theorem runIn_cases (cli : Cli) (config : VmConfig) (vmOutput : PathBuf)
    (runner : VmBuild → Staging Unit) (created : tempdir host ready = .ok contextDir begun)
    (closed : ready.Closed) :
    (∃ e last, runIn host cli.tag cli.from_ cli.copyContainerfile (.vm config runner vmOutput)
        contextDir begun = .error e last ∧
      ∀ places, Adds (fun _ => False) (· = ready.fresh) places begun last) ∨
    ∃ launch : Launch host cli ready config vmOutput, launch.contextDir = contextDir ∧
      launch.begun = begun ∧
      runIn host cli.tag cli.from_ cli.copyContainerfile (.vm config runner vmOutput) contextDir
        begun = (runner launch.vmBuild).adaptExcept RunError.vm launch.mid := by
  rcases runIn_prepared created closed cli.tag cli.from_ cli.copyContainerfile
    (.vm config runner vmOutput) with
    ⟨e, last, failed, _, adds⟩ | ⟨containerfile, early, generated, copied, filling, ran⟩
  · exact .inl ⟨e, last, failed, adds⟩
  · rw [ran, buildIn]
    have staging : ∀ places, Adds (fun _ => False) (· = ready.fresh) places early (left
        (VmBuildFiles.stage host.kernel containerfile cli.tag config contextDir vmOutput early)) :=
      fun _ => stage_adds filling.closed filling.context
    cases staged : VmBuildFiles.stage host.kernel containerfile cli.tag config contextDir vmOutput
        early with
    | error e last =>
      rw [staged] at staging
      refine .inl ⟨.vm e, last, ?_, fun places => filling.trans (staging places)⟩
      exact Fallible.adapt_error.mpr ⟨e, Fallible.bind_error.mpr (.inl staged), rfl⟩
    | ok vmBuild mid =>
      refine .inr ⟨⟨contextDir, begun, created, containerfile, generated, early, copied, vmBuild,
        mid, staged⟩, rfl, rfl, ?_⟩
      simp only [VmBuildFiles.build, bind, EStateM.bind, EStateM.adaptExcept, staged]

/-- What was there before a run is as it was, and what the run has made for a while is gone. -/
structure Restored (changed : Nat → Prop) (places : Nat → FileName → Prop) (ready last : Files) :
    Prop extends Adds changed (· = ready.fresh) places ready last where
  gone : Nameless last ready.fresh

theorem Restored.refl (closed : ready.Closed) (changed : Nat → Prop)
    (places : Nat → FileName → Prop) : Restored changed places ready ready where
  toAdds := .refl closed
  gone := nameless_fresh closed

theorem Temporary.restored {pos : Position FileName} {entries : FiniteMap FileName Nat}
    {n : FileName} {changed : Nat → Prop} {places : Nat → FileName → Prop}
    (temporary : Temporary ready contextDir pos entries n) (closed : ready.Closed)
    (adds : Adds changed (· = ready.fresh) places (ready.add pos entries n (.dir ∅)) last)
    (apart : ¬ places (ready.inode pos) n) :
    Restored changed places ready (last.unlink (ready.inode pos) n) := by
  have bare : ∀ inside, Node.dir ∅ = .dir inside → inside = (∅ : FiniteMap FileName Nat) :=
    fun inside same => by cases same; rfl
  obtain ⟨route, _, named⟩ := temporary.named
  have made : ready.mkdir route = .ok (ready.add pos entries n (.dir ∅)) :=
    mkdir_ok.mpr ⟨pos, entries, n, named, temporary.free, rfl⟩
  have first : Adds (fun _ => False) (· = ready.fresh) places ready _ :=
    .of_onlyDirs (mkdir_onlyDirs made) (closed.mkdir made)
  have whole := (first.trans adds).mono (fun _ either => either.elim False.elim id) fun _ _ => id
  exact {
    toAdds := whole.unlinked (fun inside found => by
      rw [temporary.found] at found
      cases found
      exact temporary.free) apart
    gone := nameless_unlink closed temporary.found bare adds.toExtends }

/-- The tarball, as the one file that a VM build writes on its host. -/
def Tarball (shares : Shares) (ino : Nat) (n : FileName) : Prop := ino = shares.output ∧ n = shares.name

/-- What a VM does to the files of its host. -/
theorem undisturbed_adds (own : Nat → Prop) {mid final : Files}
    (undisturbed : Undisturbed (fun _ : Unit => shares) mid final) :
    Adds (fun ino => mid.reach shares.output [shares.name] = some ino) own (Tarball shares) mid
      final where
  toExtends := undisturbed.2.grown.mono fun ino tarball => tarball.elim fun _ reached => reached
  entered ino entries n j found entered absent := by
    cases there : final.nodes.lookup j with
    | none => exact absurd there (undisturbed.1.closed _ _ _ _ found entered)
    | some node =>
      rcases undisturbed.2.new j node absent there with
        ⟨inside, rfl, _⟩ | ⟨_, _, _, _, reached⟩
      · exact .inl ⟨inside, rfl⟩
      · exact .inr (.inr ⟨_, _, ⟨rfl, rfl⟩, reached⟩)

/-- What a VM build needs of its host: an output directory that is not in the temporary context,
a name for the tarball that is text, and a rootfs as `Hostable` has it. -/
structure Suited (launch : Launch host cli ready config vmOutput) (shares : Shares)
    (shipped : List UInt8) : Prop extends Hostable shares shipped launch.mid where
  rootfs : sharedDirectory launch.mid config.rootfs = some shares.root
  context : shares.context = ready.fresh
  outputDir : sharedDirectory (dropTempDir host launch.contextDir launch.mid)
    (outputParent vmOutput) = some shares.output
  apart : launch.mid.reach shares.output [shares.name] ≠ some shares.context
  named : ∃ name text, vmOutput.fileName = some name ∧ shares.name.val = name.raw ∧
    name.raw = Utf8.encode text

theorem sharedDirectory_unlink {ino : Nat} {n : FileName} {path : PathBuf}
    (shown : sharedDirectory (fs.unlink ino n) path = some dir) :
    sharedDirectory fs path = some dir := by
  obtain ⟨route, pos, entries, parsed, followed, found, same⟩ := sharedDirectory_some.mp shown
  rw [inode_unlink] at found same
  obtain ⟨before, there, _⟩ := lookup_unlink_dir.mp found
  exact sharedDirectory_some.mpr ⟨route, pos, before, parsed, follow_unlink followed, there, same⟩

theorem Launch.hosting (launch : Launch host cli ready config vmOutput) (closed : ready.Closed)
    (booted : Booted host.forked.vm) (unstuck : ∀ h, host.stuck h launch.contextDir = none)
    (suited : Suited launch shares shipped) :
    Hosting host.forked launch.containerfile cli.tag config vmOutput shares shipped launch.vmBuild
      launch.mid := by
  obtain ⟨pos, entries, n, temporary, made, filling, adds⟩ := launch.grown closed
  have grown := (filling.trans (adds fun _ _ => False)).toExtends
  rw [made] at grown
  have outputDir := suited.outputDir
  rw [temporary.dropped_dir (unstuck _) grown] at outputDir
  have context := temporary.shows grown
  rw [← suited.context] at context
  have found := stage_found launch.staged suited.rootfs context (sharedDirectory_unlink outputDir)
  obtain ⟨name, text, named, called, utf8⟩ := suited.named
  exact {
    toFound := found
    toHostable := suited.toHostable
    closed := stage_closed filling.closed launch.staged
    booted := booted
    spelled := filename_spelled found named utf8 called }

theorem Temporary.not_tarball {pos : Position FileName} {entries : FiniteMap FileName Nat}
    {n : FileName} {changed : Nat → Prop} (temporary : Temporary ready contextDir pos entries n)
    (grown : Extends changed (ready.add pos entries n (.dir ∅)) last)
    (context : shares.context = ready.fresh)
    (apart : last.reach shares.output [shares.name] ≠ some shares.context) :
    ¬ Tarball shares (ready.inode pos) n := by
  rintro ⟨dir, name⟩
  obtain ⟨route, more, _, named, held, same⟩ :=
    temporary.entered (fun inside same => by cases same; rfl) grown
  have found := (directory_ok.mp (entry_ok.mp named).2).2
  rw [same] at found
  have reached := (reach_single found n).trans held
  rw [dir, name, ← context] at reached
  exact apart reached

/-- A VM build in a context of its own fails before its runner, or launches it. -/
theorem run_cases (closed : ready.Closed) (unstuck : ∀ h path, host.stuck h path = none) :
    (∃ e last, run host cli.tag cli.from_ cli.copyContainerfile
        (backendFor host (.vm config vmOutput)) ready = .error e last ∧
      ∀ changed places, Restored changed places ready last) ∨
    ∃ launch : Launch host cli ready config vmOutput,
      run host cli.tag cli.from_ cli.copyContainerfile (backendFor host (.vm config vmOutput))
        ready = dropping (dropTempDir host launch.contextDir)
          ((krunRun host.ip host.parent host.forked launch.vmBuild).adaptExcept RunError.vm)
          launch.mid := by
  cases created : tempdir host ready with
  | error e last =>
    obtain rfl := tempdir_error created
    refine .inl ⟨.io e, last, ?_, fun changed places => .refl closed changed places⟩
    exact Fallible.bind_error.mpr (.inl (Fallible.adapt_error.mpr ⟨e, created, rfl⟩))
  | ok contextDir begun =>
    have onward : run host cli.tag cli.from_ cli.copyContainerfile
        (backendFor host (.vm config vmOutput)) ready =
        dropping (dropTempDir host contextDir) (runIn host cli.tag cli.from_ cli.copyContainerfile
          (.vm config (krunRun host.ip host.parent host.forked) vmOutput) contextDir) begun :=
      Fallible.bind_next (Fallible.adapt_ok.mpr created)
    rcases runIn_cases cli config vmOutput (krunRun host.ip host.parent host.forked) created closed with
      ⟨e, last, failed, adds⟩ | ⟨launch, rfl, rfl, launched⟩
    · refine .inl ⟨e, dropTempDir host contextDir last, ?_, fun changed places => ?_⟩
      · rw [onward, dropping, failed]
      · obtain ⟨pos, entries, n, temporary, rfl⟩ := tempdir_ok created
        rw [temporary.dropped_dir (unstuck _ _) (adds fun _ _ => False).toExtends]
        have nowhere := temporary.restored closed (adds fun _ _ => False) id
        exact ⟨nowhere.toAdds.mono (fun _ => False.elim) fun _ _ => False.elim, nowhere.gone⟩
    · refine .inr ⟨launch, ?_⟩
      rw [onward, dropping, dropping, launched]

/-- However a VM build ends, all that it leaves is its tarball, and directories. -/
theorem run_restored (closed : ready.Closed) (booted : Booted host.forked.vm)
    (unstuck : ∀ h path, host.stuck h path = none)
    (suited : ∀ launch : Launch host cli ready config vmOutput, Suited launch shares shipped) :
    Restored (fun ino => ready.reach shares.output [shares.name] = some ino) (Tarball shares) ready
      (left (run host cli.tag cli.from_ cli.copyContainerfile
        (backendFor host (.vm config vmOutput)) ready)) := by
  rcases run_cases closed unstuck with ⟨e, last, failed, restored⟩ | ⟨launch, ran⟩
  · rw [failed]
    exact restored _ _
  · rw [ran, left_dropping, left_adapt]
    obtain ⟨pos, entries, n, temporary, made, filling, adds⟩ := launch.grown closed
    have hosting := launch.hosting closed booted (unstuck · _) (suited launch)
    have kept := undisturbed_adds (· = ready.fresh)
      (krunRun_kept host.ip host.parent hosting)
    have whole := (filling.trans (adds (Tarball shares))).trans kept
    have staged := (filling.trans (adds (Tarball shares))).toExtends
    rw [made] at whole staged
    rw [temporary.dropped_dir (unstuck _ _) whole.toExtends]
    have apart := temporary.not_tarball staged (suited launch).context (suited launch).apart
    have restored := temporary.restored closed whole apart
    refine ⟨restored.toAdds.weaken ?_, restored.gone⟩
    rintro ino mode contents found (never | tarball)
    · exact never.elim
    · have bare : ∀ inside, Node.dir ∅ = .dir inside → inside = (∅ : FiniteMap FileName Nat) :=
        fun inside same => by cases same; rfl
      exact ((extends_add temporary.found temporary.free bare).trans staged).reach_old tarball found

/-- The temporary context is found under no other path. -/
theorem Temporary.unshared {pos : Position FileName} {entries : FiniteMap FileName Nat}
    {n : FileName} {changed : Nat → Prop} (temporary : Temporary ready contextDir pos entries n)
    (closed : ready.Closed) (grown : Extends changed (ready.add pos entries n (.dir ∅)) last)
    (path : PathBuf) :
    sharedDirectory (last.unlink (ready.inode pos) n) path ≠ some ready.fresh := by
  have bare : ∀ inside, Node.dir ∅ = .dir inside → inside = (∅ : FiniteMap FileName Nat) :=
    fun inside same => by cases same; rfl
  intro shown
  obtain ⟨_, q, _, _, followed, _, reached⟩ := sharedDirectory_some.mp shown
  have gone := nameless_unlink closed temporary.found bare grown
  refine gone.unreached ?_ (follow_linked followed) reached
  obtain ⟨_, _, named⟩ := temporary.named
  have linked := follow_linked (directory_ok.mp (entry_ok.mp named).2).1
  have present := linked.root_present temporary.found
  rw [show (last.unlink (ready.inode pos) n).root = last.root from inode_unlink [], grown.root]
  intro same
  rw [show ready.root = ready.fresh from same] at present
  exact present (fresh_absent ready)

section Delivering

variable (launch : Launch host cli ready config vmOutput)

/-- The copy of the Containerfile has one name, in the context. -/
theorem Launch.copy (closed : ready.Closed) (copying : cli.copyContainerfile = true) :
    launch.mid.reach ready.fresh [buildEntry] = some launch.begun.fresh ∧
      ∃ mode, launch.mid.nodes.lookup launch.begun.fresh =
        some (.file mode (Utf8.encode launch.containerfile)) := by
  obtain ⟨pos, entries, n, temporary, made, _, adds⟩ := launch.grown closed
  have grown := (adds fun _ _ => False).toExtends
  have copied := launch.copied
  rw [if_pos copying] at copied
  obtain ⟨reached, held⟩ := copy_held temporary closed made copied
  obtain ⟨contents, still, kept⟩ := grown.file _ _ _ held
  rw [kept id] at still
  exact ⟨grown.reach reached, _, still⟩

/-- What the context holds when the VM boots, and that the tarball is not in it. -/
theorem Launch.context (closed : ready.Closed) (booted : Booted host.forked.vm)
    (unstuck : ∀ h path, host.stuck h path = none) (suited : Suited launch shares shipped)
    (member : n = containerfileEntry ∨ n = buildEntry ∧ cli.copyContainerfile = true) :
    ∃ mode, launch.mid.nodeAt shares.context [n] =
        some (.file mode (Utf8.encode launch.containerfile)) ∧
      ∀ ino, launch.mid.reach shares.output [shares.name] = some ino →
        launch.mid.reach shares.context [n] ≠ some ino := by
  have hosting := launch.hosting closed booted (unstuck · _) suited
  rcases member with rfl | ⟨rfl, copying⟩
  · obtain ⟨mode, there⟩ := hosting.containerfile
    refine ⟨mode, there, fun ino tarball same => ?_⟩
    obtain ⟨j, reached, held⟩ := nodeAt_some.mp there
    rw [same] at reached
    cases reached
    exact hosting.inputs ino _ _ held tarball _ List.mem_cons_self same
  · obtain ⟨reached, mode, held⟩ := launch.copy closed copying
    rw [suited.context]
    refine ⟨mode, nodeAt_some.mpr ⟨_, reached, held⟩, fun ino tarball same => ?_⟩
    rw [reached] at same
    cases same
    obtain ⟨pos, entries, n, temporary, made, filling, adds⟩ := launch.grown closed
    have whole := filling.trans (adds fun _ _ => False)
    obtain ⟨inside, there, named⟩ := reach_single_dir tarball
    rcases whole.entered _ _ _ _ there named (fresh_absent launch.begun) with
      ⟨_, dir⟩ | own | ⟨_, _, never, _⟩
    · rw [held] at dir
      cases dir
    · have outputDir := suited.outputDir
      rw [made] at whole
      rw [temporary.dropped_dir (unstuck _ _) whole.toExtends, own] at outputDir
      exact temporary.unshared closed whole.toExtends _ outputDir
    · exact never

/-- The output path leads to the tarball without the temporary context. -/
theorem Launch.spot {ino : Nat} {n : FileName} {final : Files} {changed : Nat → Prop}
    (shown : sharedDirectory (launch.mid.unlink ino n) (outputParent vmOutput) = some shares.output)
    (grown : Extends changed launch.mid final)
    (called : ∃ name text, vmOutput.fileName = some name ∧ shares.name.val = name.raw ∧
      name.raw = Utf8.encode text) :
    vmOutput.spot (final.unlink ino n) = some (shares.output, shares.name) := by
  obtain ⟨name, _, named, called, _⟩ := called
  obtain ⟨route, pos, entries, parsed, followed, dir, inode⟩ := sharedDirectory_some.mp shown
  have full : route.steps ≠ [] := by
    obtain ⟨_, _, _, resolved⟩ := VmBuildFiles.stage_ok.mp launch.staged
    obtain ⟨_, _, _, _, _, _, _, _, real, _⟩ := resolve_ok.mp resolved
    obtain ⟨_, _, _, also, reached, _⟩ := Kernel.canonicalize_ok.mp real
    rw [parsed] at also
    cases also
    intro bare
    rw [FileSystem.resolve, if_pos bare] at reached
    cases reached
  have kept := grown.unlink ino n
  have reached : (final.unlink ino n).resolve route = .ok pos := by
    rw [FileSystem.resolve, if_neg full]
    exact kept.follow followed
  obtain ⟨more, still, _⟩ := kept.dir _ _ dir
  rw [← kept.inode] at still inode
  rw [spot_shown parsed reached still named called, inode]

end Delivering

/-- A VM build that succeeds leaves its image where its output path leads. -/
theorem run_delivers (closed : ready.Closed) (booted : Booted host.forked.vm)
    (unstuck : ∀ h path, host.stuck h path = none)
    (suited : ∀ launch : Launch host cli ready config vmOutput, Suited launch shares shipped)
    (ran : run host cli.tag cli.from_ cli.copyContainerfile
      (backendFor host (.vm config vmOutput)) ready = .ok () last) :
    vmOutput.spot last = some (shares.output, shares.name) ∧
    ∃ text input image mode, Containerfile.generate cli.from_ cli.copyContainerfile = .ok text ∧
      buildah.Builds input image ∧
      last.nodeAt shares.output [shares.name] = some (.file mode (buildah.archive image)) ∧
      input.containerfile = Utf8.encode text ∧ input.tag = cli.tag ∧
      input.resolvConf = some (resolverFor host.ip config.nameservers shipped) ∧
      ∀ n, (n = containerfileEntry ∨ n = buildEntry ∧ cli.copyContainerfile = true) →
        ∃ mode, input.context [n] = some (.file mode (Utf8.encode text)) := by
  rcases run_cases closed unstuck with ⟨e, last, failed, _⟩ | ⟨launch, launched⟩
  · rw [failed] at ran
    cases ran
  rw [launched, dropping] at ran
  cases ended : krunRun host.ip host.parent host.forked launch.vmBuild launch.mid with
  | error e final =>
    simp only [EStateM.adaptExcept, ended] at ran
    cases ran
  | ok _ final =>
    simp only [EStateM.adaptExcept, ended] at ran
    cases ran
    have suits := suited launch
    have hosting := launch.hosting closed booted (unstuck · _) suits
    obtain ⟨pos, entries, n, temporary, made, filling, adds⟩ := launch.grown closed
    have staged := (filling.trans (adds fun _ _ => False)).toExtends
    have undisturbed := krunRun_kept host.ip host.parent hosting
    rw [ended] at undisturbed
    have kept : Extends _ launch.mid final := undisturbed.2.grown
    have outputDir := suits.outputDir
    rw [made] at staged
    rw [temporary.dropped_dir (unstuck _ _) staged] at outputDir
    rw [temporary.dropped_dir (unstuck _ _) (staged.trans kept)]
    have apart := temporary.not_tarball staged suits.context suits.apart
    obtain ⟨input, image, mode, builds, there, first, second, third, context⟩ :=
      krunRun_delivers hosting ended
    refine ⟨?_, launch.containerfile, input, image, mode, launch.generated, builds, ?_, first, second,
      third, fun k member => ?_⟩
    · exact launch.spot outputDir kept suits.named
    · obtain ⟨ino, reached, held⟩ := nodeAt_some.mp there
      have other : (shares.output, shares.name) ≠ (ready.inode pos, n) := fun same =>
        apart ⟨(Prod.mk.inj same).1.symm, (Prod.mk.inj same).2.symm⟩
      exact nodeAt_some.mpr ⟨ino, reach_unlink other reached,
        (lookup_unlink_leaf (fun inside same => by cases same)).mpr held⟩
    · obtain ⟨mode, held, outside⟩ := launch.context closed booted unstuck suits member
      exact ⟨mode, context [k] _ held outside⟩

section Selected

theorem vmConfig_ok (configured : vmConfig host rootfs cpus memory dns fs = .ok config ready) :
    vmNameservers host.ip host.dns dns = .ok config.nameservers := by
  obtain ⟨nameservers, _, resolved, onward⟩ := Fallible.bind_ok.mp configured
  obtain ⟨_, _, _, last⟩ := Fallible.bind_ok.mp onward
  cases last
  cases found : vmNameservers host.ip host.dns dns with
  | error e =>
    rw [found] at resolved
    cases resolved
  | ok named =>
    rw [found] at resolved
    cases resolved
    rfl

/-- The embedded rootfs is unpacked only where one is needed, and the nameservers can be used. -/
theorem vmConfig_left (host : Host buildah) (rootfs : Option PathBuf) (cpus : Option UInt8)
    (memory : Option UInt32) (dns : List IpAddr) (fs : Files) :
    left (vmConfig host rootfs cpus memory dns fs) = fs ∨
      rootfs = none ∧ (∀ addr ∈ dns, Dns.isReachableFromVm addr = true) ∧
        left (vmConfig host rootfs cpus memory dns fs) = left (host.ensureExtracted fs) := by
  cases resolved : vmNameservers host.ip host.dns dns with
  | error e =>
    left
    unfold vmConfig
    rw [resolved]
    rfl
  | ok nameservers =>
    have reachable : ∀ addr ∈ dns, Dns.isReachableFromVm addr = true := by
      rcases vmNameservers_ok.mp resolved with ⟨rfl, _⟩ | ⟨_, reachable, _⟩
      · simp
      · exact reachable
    cases rootfs with
    | some rootfs =>
      left
      unfold vmConfig
      rw [resolved]
      rfl
    | none =>
      refine .inr ⟨rfl, reachable, ?_⟩
      unfold vmConfig
      rw [resolved]
      cases extracted : host.ensureExtracted fs <;>
        simp only [bind, EStateM.bind, pure, EStateM.pure, extracted, left]

theorem selectVm_left (host : Host buildah) (cli : Cli) (fs : Files) :
    left (selectVm host cli fs) =
      left (vmConfig host cli.vmRootfs cli.vmCpus cli.vmMemory cli.vmDns fs) := by
  cases configured : vmConfig host cli.vmRootfs cli.vmCpus cli.vmMemory cli.vmDns fs with
  | error e last =>
    simp only [selectVm, bind, EStateM.bind, configured, left]
  | ok config last =>
    rcases checkRootfs_cases host.kernel config last with usable | ⟨e, unusable⟩
    · simp only [selectVm, bind, EStateM.bind, configured, EStateM.adaptExcept, usable, pure,
        EStateM.pure, left]
    · simp only [selectVm, bind, EStateM.bind, configured, EStateM.adaptExcept, unusable, left]

theorem selectRuntime_left (vm : cli.runtime = .vm) (host : Host buildah) (fs : Files) :
    left (selectRuntime host cli fs) = fs ∨
      cli.vmRootfs = none ∧ host.supported = .ok () ∧
        (∀ addr ∈ cli.vmDns, Dns.isReachableFromVm addr = true) ∧
        left (selectRuntime host cli fs) = left (host.ensureExtracted fs) := by
  have none_ : cli.runtime.containerCli = none := by rw [vm]; rfl
  rw [selectRuntime, none_]
  dsimp only
  cases host.supported with
  | error e => exact .inl rfl
  | ok _ =>
    dsimp only
    rw [selectVm_left]
    rcases vmConfig_left host cli.vmRootfs cli.vmCpus cli.vmMemory cli.vmDns fs with
      same | ⟨rootfs, reachable, extracted⟩
    · exact .inl same
    · exact .inr ⟨rootfs, rfl, reachable, extracted⟩

theorem selectRuntime_vm (vm : cli.runtime = .vm)
    (selected : selectRuntime host cli fs = .ok choice ready) :
    ∃ config, choice = .vm config (cli.vmOutput.getD (vmOutputPath cli.tag)) ∧
      vmNameservers host.ip host.dns cli.vmDns = .ok config.nameservers := by
  have none_ : cli.runtime.containerCli = none := by rw [vm]; rfl
  rw [selectRuntime, none_] at selected
  dsimp only at selected
  cases supported : host.supported with
  | error e =>
    rw [supported] at selected
    cases selected
  | ok _ =>
    rw [supported] at selected
    obtain ⟨config, _, configured, onward⟩ := Fallible.bind_ok.mp selected
    obtain ⟨_, _, _, last⟩ := Fallible.bind_ok.mp onward
    cases last
    exact ⟨config, rfl, vmConfig_ok configured⟩

end Selected

/-- What a run with `--runtime vm` needs of its host. -/
structure Serves (host : Host buildah) (cli : Cli) (fs : Files) (shares : Shares)
    (shipped : List UInt8) : Prop where
  closed : (left (selectRuntime host cli fs)).Closed
  booted : Booted host.forked.vm
  unstuck : ∀ h path, host.stuck h path = none
  suited : ∀ config vmOutput ready, selectRuntime host cli fs = .ok (.vm config vmOutput) ready →
    ∀ launch : Launch host cli ready config vmOutput, Suited launch shares shipped

theorem checkVmFlags_vm (vm : cli.runtime = .vm) : checkVmFlags cli = .ok () := if_pos vm

end Running

namespace Sample

def shares : Shares := { VmBuildRun.Sample.shares with context := 9 }

/-- What a launch in the sample is like. -/
def suits (config : VmConfig) (vmOutput : PathBuf) (ready : Files) (contextDir : PathBuf)
    (mid : Files) : Bool :=
  VmBuildRun.Sample.prepared mid && sharedDirectory mid config.rootfs = some 0 &&
  ready.fresh = 9 &&
  sharedDirectory (dropTempDir host contextDir mid) (outputParent vmOutput) = some 0 &&
  mid.reach 0 [VmBuildRun.Sample.tarball] ≠ some 9 &&
  vmOutput.fileName = some (.utf8 "out.tar")

def launches : Bool :=
  match selectRuntime host (cli .vm) files with
  | .ok (.vm config vmOutput) ready =>
    match launchOf host (cli .vm) config vmOutput ready with
    | .ok contextDir mid => suits config vmOutput ready contextDir mid
    | .error _ _ => false
  | _ => false

theorem launches_suit : launches = true := by decide +kernel

/-- Every launch in the sample is the one that is looked at. -/
theorem suited {config : VmConfig} {vmOutput : PathBuf} {ready : Files}
    (selected : selectRuntime host (cli .vm) files = .ok (.vm config vmOutput) ready)
    (launch : Launch host (cli .vm) ready config vmOutput) :
    Suited launch shares VmSharing.Sample.shipped := by
  have checked := launches_suit
  rw [launches, selected] at checked
  dsimp only at checked
  rw [launch.steps] at checked
  simp only [suits, Bool.and_eq_true, decide_eq_true_eq] at checked
  obtain ⟨⟨⟨⟨⟨prepared, rootfs⟩, context⟩, parent⟩, apart⟩, named⟩ := checked
  exact {
    toHostable := VmBuildRun.Sample.hostable 9 prepared
    rootfs := rootfs
    context := context.symm
    outputDir := parent
    apart := apart
    named := ⟨.utf8 "out.tar", "out.tar", named, by decide, rfl⟩ }

theorem selects_closed : (left (selectRuntime host (cli .vm) files)).Closed := by
  have same : left (selectRuntime host (cli .vm) files) = files := by
    rcases selectRuntime_left (show (cli .vm).runtime = .vm from rfl) host files with same | ⟨_, _, _, same⟩
    · exact same
    · exact same
  rw [same]
  exact VmBuildRun.Sample.closed

theorem serves : Serves host (cli .vm) files shares VmSharing.Sample.shipped where
  closed := selects_closed
  booted := ⟨rfl, rfl⟩
  unstuck _ _ := rfl
  suited _ _ _ selected := suited selected

end Sample

/-- However a run with `--runtime vm` ends, all that it leaves on its host is the rootfs that it
has unpacked, if it was to boot from that one, the tarball, and directories. -/
theorem main_restores {buildah : Buildah} {host : Host buildah} {cli : Cli} {fs last : Files}
    {ending : Ending} {shares : Shares} {shipped : List UInt8} (vm : cli.runtime = .vm)
    (serves : Serves host cli fs shares shipped) (ran : main host cli fs = (ending, last)) :
    ∃ ready, (ready = fs ∨ cli.vmRootfs = none ∧ host.supported = .ok () ∧
        (∀ addr ∈ cli.vmDns, Dns.isReachableFromVm addr = true) ∧
        ready = left (host.ensureExtracted fs)) ∧
      Restored (fun ino => ready.reach shares.output [shares.name] = some ino) (Tarball shares)
        ready last := by
  refine ⟨_, selectRuntime_left vm host fs, ?_⟩
  rw [main, checkVmFlags_vm vm] at ran
  dsimp only at ran
  have closed := serves.closed
  cases selected : selectRuntime host cli fs with
  | error e ready =>
    rw [selected] at ran closed
    cases ran
    exact .refl closed _ _
  | ok choice ready =>
    obtain ⟨config, rfl, _⟩ := selectRuntime_vm vm selected
    rw [selected] at ran closed
    have restored := run_restored closed serves.booted serves.unstuck
      (serves.suited _ _ _ selected)
    dsimp only [left] at ran restored ⊢
    split at ran
    · rename_i built
      rw [built] at restored
      cases ran
      exact restored
    · rename_i built
      rw [built] at restored
      cases ran
      exact restored

theorem main_restores_alpine : ∃ ending last, main Sample.host (Sample.cli .vm) Sample.files =
      (ending, last) ∧
    Restored (fun ino => Sample.files.reach 0 [VmBuildRun.Sample.tarball] = some ino)
      (Tarball Sample.shares) Sample.files last := by
  obtain ⟨ending, last, ran⟩ :
      ∃ ending last, main Sample.host (Sample.cli .vm) Sample.files = (ending, last) :=
    ⟨_, _, (Prod.eta _).symm⟩
  obtain ⟨ready, reached, restored⟩ := main_restores rfl Sample.serves ran
  have same : ready = Sample.files := by
    rcases reached with same | ⟨_, _, _, same⟩
    · exact same
    · exact same
  rw [same] at restored
  exact ⟨ending, last, ran, restored⟩

end ImageBuilder.Program
