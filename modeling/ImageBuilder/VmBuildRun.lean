import ImageBuilder.ContextFiles
import ImageBuilder.OutputPath
import ImageBuilder.VmBoot
import ImageBuilder.VmSharing

/-! A whole VM build on the files of its host: the paths are staged, a child is forked that
becomes the VM, and its exit status comes back to the parent. -/
namespace ImageBuilder.VmBuildRun

open Inode Inode.FileSystem VmBuilder VmBuildFiles VmGuest VmSharing NameserverHandoff

section Running

variable {buildah : Buildah}

/-- The child that is forked, and the VM that it becomes. -/
structure Forked (buildah : Buildah) where
  krun : Libkrun
  machine : Machine buildah
  vm : Vm buildah
  /-- The status of a VM that does not get to its workload. -/
  unbooted : Failure
  /-- A signal that ends the child, and how far its script has come by then. -/
  killed : Option (Nat × Signal × Bool)

/-- How the child ends, and what it leaves behind. -/
def Forked.ends (forked : Forked buildah) (build : VmBuild) (args : Args) (fs : Files) :
    ProcessEnd × Files :=
  match enterVm forked.krun args build.cpus build.memoryMib with
  | some code => (.exited code, fs)
  | none =>
    match Boot.of fs (configuration args build.cpus build.memoryMib) with
    | none => (.exited forked.unbooted.val, fs)
    | some boot =>
      let script := forked.machine.commands boot
      let run := forked.machine.exec boot
      match forked.killed with
      | some (count, signal, core) =>
        (.signaled signal core,
          (Shell.go run forked.machine.trap count (.body script, (fs, forked.vm))).2.1)
      | none =>
        match Shell.outcome run forked.machine.trap script (fs, forked.vm) with
        | (code, final) => (.exited code, final.1)

/-- A wait is over once its interruptions are. -/
theorem wait_over (n status : Nat) :
    (waitFor (List.replicate n .interrupted ++ [.reaped status])).isSome := by
  rw [waitFor_interrupted]
  rfl

/-- `KrunRunner::run`, with what becomes of the files. -/
def krunRun (ip : IpText) (parent : Parent) (forked : Forked buildah) (build : VmBuild) :
    Staging Unit := fun fs =>
  match Args.new ip build with
  | .error e => .error e fs
  | .ok args =>
    match checkSingleThreaded parent.threadCount with
    | .error e => .error e fs
    | .ok () =>
      match parent.forkError with
      | some e => .error (.io e) fs
      | none =>
        match forked.ends build args fs with
        | (ended, final) =>
          match (waitFor (List.replicate parent.interruptions .interrupted ++
              [.reaped ended.status])).get (wait_over _ _) with
          | .error e => .error e final
          | .ok () => .ok () final

variable {ip : IpText} {parent : Parent} {forked : Forked buildah} {build : VmBuild}
  {fs final : Files}

theorem reported_ok {ended : ProcessEnd} (ok : reported ended.status = .ok ()) :
    ended = .exited 0 := by
  cases ended with
  | signaled signal core =>
    rw [reported_signaled] at ok
    cases ok
  | exited code =>
    rw [reported_exited] at ok
    split at ok
    · rename_i zero
      rw [zero]
    · split at ok
      · cases ok
      · split at ok <;> cases ok

/-- A child that exits with success was a VM whose script has succeeded. -/
theorem ends_ok {args : Args} (ended : forked.ends build args fs = (.exited 0, final)) :
    ∃ boot vm, Boot.of fs (configuration args build.cpus build.memoryMib) = some boot ∧
      Shell.outcome (forked.machine.exec boot) forked.machine.trap (forked.machine.commands boot)
        (fs, forked.vm) = (0, (final, vm)) := by
  unfold Forked.ends at ended
  split at ended
  · rename_i code failed
    rcases enterVm_code failed with rfl | rfl <;> cases ended
  · split at ended
    · exact absurd (ProcessEnd.exited.inj (Prod.mk.inj ended).1) forked.unbooted.property
    · rename_i boot booted
      dsimp only at ended
      split at ended
      · cases ended
      · obtain ⟨code, final', vm, done⟩ : ∃ code final vm, Shell.outcome (forked.machine.exec boot)
            forked.machine.trap (forked.machine.commands boot) (fs, forked.vm) =
              (code, (final, vm)) := ⟨_, _, _, rfl⟩
        rw [done] at ended
        cases ended
        exact ⟨boot, vm, booted, done⟩

/-- What is behind a run that is reported as a success. -/
theorem krunRun_ok (ran : krunRun ip parent forked build fs = .ok () final) :
    ∃ args boot vm, Args.new ip build = .ok args ∧
      Boot.of fs (configuration args build.cpus build.memoryMib) = some boot ∧
      Shell.outcome (forked.machine.exec boot) forked.machine.trap (forked.machine.commands boot)
        (fs, forked.vm) = (0, (final, vm)) := by
  rw [krunRun] at ran
  split at ran
  · cases ran
  · rename_i args built
    split at ran
    · cases ran
    · split at ran
      · cases ran
      · simp only [waitFor_interrupted, waitFor, Option.get_some] at ran
        split at ran
        · cases ran
        · rename_i success
          cases ran
          have zero := reported_ok success
          obtain ⟨boot, vm, booted, done⟩ := ends_ok (Prod.ext zero rfl)
          exact ⟨args, boot, vm, built, booted, done⟩

section Shown

variable {kernel : Kernel} {containerfile tag : Text} {config : VmConfig}
  {contextDir output : PathBuf} {vmBuild : VmBuild} {mid : Files} {shares : Shares}

theorem sharedDirectory_some {path : PathBuf} : sharedDirectory fs path = some ino ↔
    ∃ route pos entries, path.route = some route ∧ fs.follow route = .ok pos ∧
      fs.nodes.lookup (fs.inode pos) = some (.dir entries) ∧ fs.inode pos = ino := by
  unfold sharedDirectory
  cases parsed : path.route with
  | none => simp
  | some route =>
    dsimp only
    cases there : fs.directory route with
    | error e =>
      have never : ∀ pos entries, fs.directory route ≠ .ok (pos, entries) := by simp [there]
      constructor
      · intro impossible
        cases impossible
      · rintro ⟨_, pos, entries, same, followed, found, _⟩
        cases same
        exact absurd (directory_ok.mpr ⟨followed, found⟩) (never pos entries)
    | ok result =>
      obtain ⟨pos, entries⟩ := result
      obtain ⟨followed, found⟩ := directory_ok.mp there
      constructor
      · intro same
        cases same
        exact ⟨route, pos, entries, rfl, followed, found, rfl⟩
      · rintro ⟨_, other, _, same, again, _, rfl⟩
        cases same
        rw [followed] at again
        cases again
        rfl

/-- The route of a canonical path. -/
theorem ofNames_route (names : List FileName) :
    ∃ idle, (PathBuf.ofNames names).route = some ⟨true, names.map .name ++ idle⟩ ∧
      ∀ step ∈ idle, step = .here := by
  have clean : ∀ piece ∈ [] :: names.map Subtype.val, 0x2f ∉ piece := by
    intro piece member
    rcases List.mem_cons.mp member with rfl | member
    · simp
    · obtain ⟨name, _, rfl⟩ := List.mem_map.mp member
      exact name.property.2.2.2.1
  rw [PathBuf.route, PathBuf.ofNames, PathBuf.raw_ofRaw,
    UnixPath.splitOn_rejoin (List.cons_ne_nil _ _) clean]
  cases names with
  | nil => exact ⟨[.here], rfl, by simp⟩
  | cons name names =>
    refine ⟨[], ?_, by simp⟩
    rw [if_neg (by simp), List.append_nil]
    have asked := mapM_names (name :: names)
    simp only [ofPieces, List.head?_cons, List.tail_cons, decide_true, ↓reduceIte, asked,
      Option.map_some]

/-- A canonical path shows what the path does. -/
theorem sharedDirectory_real {path real : PathBuf} {changed : Nat → Prop}
    (canonical : kernel.canonicalize fs path = .ok real) (grown : Extends changed fs final) :
    sharedDirectory final real = sharedDirectory final path := by
  obtain ⟨_, route, pos, parsed, resolved, rfl⟩ := Kernel.canonicalize_ok.mp canonical
  have followed := grown.follow (resolve_follow resolved)
  obtain ⟨idle, named, here⟩ := ofNames_route (pos.map Prod.fst).reverse
  have same : ∀ found, final.directory ⟨true, (pos.map Prod.fst).reverse.map .name ++ idle⟩ =
      .ok found ↔ final.directory route = .ok found := by
    rintro ⟨q, entries⟩
    rw [directory_idle here (follow_linked followed).follow, directory_ok, followed,
      Except.ok.injEq, eq_comm (a := pos)]
    exact and_congr_right fun at_ => by rw [at_]
  simp only [sharedDirectory, named, parsed]
  cases there : final.directory route with
  | ok found => rw [(same found).mpr there]
  | error e =>
    cases other : final.directory ⟨true, (pos.map Prod.fst).reverse.map .name ++ idle⟩ with
    | error _ => rfl
    | ok found =>
      rw [(same found).mp other] at there
      cases there

theorem createDirAll_closed (kernel : Kernel) (paths : List PathBuf) (closed : fs.Closed) :
    (kernel.createDirAll paths fs).2.Closed := by
  induction paths generalizing fs with
  | nil => exact closed
  | cons path parents ih =>
    have made : ∀ h h' : Files, h.Closed → kernel.mkdir h path = .ok h' → h'.Closed := by
      intro h h' before done
      obtain ⟨_, route, _, done⟩ := Kernel.perform_ok.mp done
      exact before.mkdir done
    rw [Kernel.createDirAll]
    split
    · exact closed
    · split
      · rename_i done
        exact made _ _ closed done
      · have above := ih closed
        split
        · rename_i created
          rw [created] at above
          exact above
        · rename_i created
          rw [created] at above
          split
          · rename_i done
            exact made _ _ above done
          · exact above
      · exact closed

/-- What the VM of a staged build finds on its host. -/
structure Found (containerfile tag : Text) (config : VmConfig) (output : PathBuf)
    (shares : Shares) (vmBuild : VmBuild) (mid : Files) : Prop where
  root : sharedDirectory mid vmBuild.rootfs = some shares.root
  context : sharedDirectory mid vmBuild.context = some shares.context
  outputDir : sharedDirectory mid vmBuild.outputDir = some shares.output
  containerfile : ∃ mode, mid.nodeAt shares.context [containerfileEntry] =
    some (.file mode (Utf8.encode containerfile))
  filename : ∃ name, output.fileName = some name ∧ vmBuild.outputFilename = name.toStringLossy
  tag : vmBuild.tag = tag
  nameservers : vmBuild.nameservers = config.nameservers

theorem stage_found
    (staged : VmBuildFiles.stage kernel containerfile tag config contextDir output fs =
      .ok vmBuild mid)
    (root : sharedDirectory mid config.rootfs = some shares.root)
    (context : sharedDirectory mid contextDir = some shares.context)
    (out : sharedDirectory mid (outputParent output) = some shares.output) :
    Found containerfile tag config output shares vmBuild mid := by
  obtain ⟨written, _, wrote, resolved⟩ := VmBuildFiles.stage_ok.mp staged
  have made := (resolve_ok_madeFor resolved).toExtends
  obtain ⟨pos, entries, own, writable, rfl⟩ := writeContainerfile_ok wrote
  obtain ⟨rootfs, real, name, outputDir, first, second, named, _, third, rfl⟩ :=
    resolve_ok.mp resolved
  have grown := withContainerfile_extends own (Utf8.encode containerfile)
  have same : mid.inode pos = shares.context := by
    obtain ⟨_, route, q, parsed, reached, _⟩ := Kernel.canonicalize_ok.mp second
    obtain ⟨_, p, _, also, followed, _, inode⟩ := sharedDirectory_some.mp context
    obtain ⟨above, there, dir⟩ := own
    rw [parsed] at also
    cases also
    have full : contextDir.isEmpty = false := by
      by_contra bare
      rw [Bool.not_eq_false, PathBuf.isEmpty_raw] at bare
      rw [PathBuf.route, bare] at parsed
      cases parsed
      cases reached
    rw [PathBuf.asDirectory, full, if_neg Bool.false_ne_true, parsed] at there
    cases there
    have onward := made.follow (grown.follow (directory_ok.mp dir).1)
    rw [followed] at onward
    cases onward
    exact inode
  exact {
    root := (sharedDirectory_real first made).trans root
    context := (sharedDirectory_real second made).trans context
    outputDir :=
      have still : Extends (fun _ => False) mid mid := .refl mid
      (sharedDirectory_real third still).trans out
    containerfile := by
      obtain ⟨mode, found⟩ := withContainerfile_fileAt own writable (Utf8.encode containerfile)
      obtain ⟨ino, reached, present, _⟩ := fileAt_some.mp found
      refine ⟨mode, ?_⟩
      rw [← same, made.inode, grown.inode]
      exact made.nodeAt_file (nodeAt_some.mpr ⟨ino, reached, present⟩) fun _ _ => id
    filename := ⟨name, named, rfl⟩
    tag := rfl
    nameservers := rfl }

theorem stage_closed (closed : fs.Closed)
    (staged : VmBuildFiles.stage kernel containerfile tag config contextDir output fs =
      .ok vmBuild mid) :
    mid.Closed := by
  obtain ⟨written, _, wrote, resolved⟩ := VmBuildFiles.stage_ok.mp staged
  obtain ⟨pos, entries, own, _, rfl⟩ := writeContainerfile_ok wrote
  obtain ⟨_, _, _, _, _, _, _, created, _⟩ := resolve_ok.mp resolved
  have last := createDirAll_closed kernel (outputParent output).ancestors
    (closed.written own.found containerfileEntry 0o644 (Utf8.encode containerfile))
  rw [show FileSystem.written fs pos entries containerfileEntry 0o644
    (Utf8.encode containerfile) = withContainerfile fs pos entries (Utf8.encode containerfile)
    from rfl, created] at last
  exact last

/-- What a build needs besides what it checks: no links in its rootfs where the script mounts, a
resolver configuration there, and a tarball that is no link, neither symbolic nor to what the VM
reads. -/
structure Hostable (shares : Shares) (shipped : List UInt8) (mid : Files) : Prop where
  plain : ∀ path ∈ walked, ∀ pre, pre <+: path → ∀ target,
    mid.nodeAt shares.root pre ≠ some (.link target)
  resolvConf : ∃ mode, mid.nodeAt shares.root etcResolv = some (.file mode shipped)
  output : ∀ target, mid.nodeAt shares.output [shares.name] ≠ some (.link target)
  inputs : ∀ ino mode contents, mid.nodes.lookup ino = some (.file mode contents) →
    mid.reach shares.output [shares.name] = some ino →
    ∀ input ∈ shares.inputs, mid.reach input.1 input.2 ≠ some ino

/-- A single VM is one of several. -/
theorem hosted_alone {boot : Boot} {shipped : List UInt8} (booted : Booted forked.vm)
    (wired : Wired boot shares) (closed : mid.Closed) (hostable : Hostable shares shipped mid)
    (found : Found containerfile tag config output shares vmBuild mid) :
    Hosted ⟨fun _ : Unit => forked.machine, fun _ => boot, fun _ => forked.vm⟩ (fun _ => shares)
      (fun _ => Utf8.encode containerfile) (fun _ => shipped) mid where
  booted _ := booted
  wired _ := wired
  distinct _ _ _ _ := rfl
  closed := closed
  outputs _ _ _ _ _ _ _ _ := rfl
  inputs _ _ ino mode contents there reached :=
    hostable.inputs ino mode contents there reached
  ready _ := {
    plain := hostable.plain
    output := hostable.output
    outputDir := by
      obtain ⟨_, _, entries, _, _, dir, same⟩ := sharedDirectory_some.mp found.outputDir
      rw [same] at dir
      exact ⟨entries, dir⟩
    containerfile := found.containerfile
    resolvConf := hostable.resolvConf }

/-- The resolver configuration that a build is to have. -/
def resolverFor (ip : IpText) (nameservers : List IpAddr) (shipped : List UInt8) : List UInt8 :=
  if nameservers = [] then shipped
  else Utf8.encode (nameservers.flatMap fun addr => nameserverLine ip addr ++ ['\n'])

theorem hasNameservers_join (ip : IpText) (named : addrs ≠ []) :
    VmBuildScript.hasNameservers (some (Dns.join ip addrs)) = true := by
  obtain ⟨addr, rest, rfl⟩ := List.exists_cons_of_ne_nil named
  obtain ⟨c, more, shown⟩ := List.exists_cons_of_ne_nil (ip.display_ne_nil addr)
  cases rest <;>
    simp [VmBuildScript.hasNameservers, Dns.join, shown, List.intercalate_cons_cons]

theorem resolvConf_for {boot : Boot} {shipped : List UInt8} (machine : Machine buildah)
    (dns : boot.dns = build.dnsEnvValue ip) :
    machine.resolvConf boot shipped = resolverFor ip build.nameservers shipped := by
  by_cases none_ : build.nameservers = []
  · have unset : boot.dns = none := by
      rw [dns, VmBuild.dnsEnvValue, none_]
      rfl
    rw [Machine.resolvConf, unset, resolverFor, if_pos none_]
    rfl
  · have set : boot.dns = some (Dns.join ip build.nameservers) := by
      rw [dns, VmBuild.dnsEnvValue]
      simp [none_]
    rw [Machine.resolvConf, set, if_pos (hasNameservers_join ip none_), resolverFor, if_neg none_,
      resolvConf_join ip machine.shell none_, List.flatMap_map]

/-- The name of the tarball in the VM is the one that was asked for. -/
theorem filename_spelled {name : PathBuf}
    (found : Found containerfile tag config output shares vmBuild mid)
    (named : output.fileName = some name) (utf8 : name.raw = Utf8.encode text)
    (called : shares.name.val = name.raw) :
    Utf8.encode vmBuild.outputFilename = shares.name.val := by
  obtain ⟨other, also, lossy⟩ := found.filename
  rw [named] at also
  cases also
  rw [lossy, PathBuf.toStringLossy, called, utf8, Utf8.lossy_encode]

/-- The tarball is what the output path names. -/
theorem spot_shown {name : PathBuf} {n : FileName} {route : Route FileName}
    {pos : Position FileName} (parsed : (outputParent output).route = some route)
    (reached : fs.resolve route = .ok pos)
    (dir : fs.nodes.lookup (fs.inode pos) = some (.dir entries))
    (named : output.fileName = some name) (called : n.val = name.raw) :
    output.spot fs = some (fs.inode pos, n) := by
  obtain ⟨busy, dots, _⟩ := fileName_busy named
  obtain ⟨base, before, after, there, here, rest, routed⟩ := route_output named parsed reached
  refine (spot_route there busy dots here rest routed).mpr ⟨?_, rfl, entries, dir⟩
  rw [← called]
  exact step?_name n

theorem spot_shares {name : PathBuf} {changed : Nat → Prop}
    (staged : VmBuildFiles.stage kernel containerfile tag config contextDir output fs =
      .ok vmBuild mid)
    (out : sharedDirectory mid (outputParent output) = some shares.output)
    (named : output.fileName = some name) (called : shares.name.val = name.raw)
    (grown : Extends changed mid final) :
    output.spot final = some (shares.output, shares.name) := by
  obtain ⟨_, _, _, resolved⟩ := VmBuildFiles.stage_ok.mp staged
  obtain ⟨_, _, _, _, _, _, _, _, real, _⟩ := resolve_ok.mp resolved
  obtain ⟨_, route, pos, parsed, reached, _⟩ := Kernel.canonicalize_ok.mp real
  obtain ⟨_, other, entries, also, followed, dir, inode⟩ := sharedDirectory_some.mp out
  rw [parsed] at also
  cases also
  rw [resolve_follow reached] at followed
  cases followed
  obtain ⟨more, still, _⟩ := grown.dir _ _ dir
  rw [← grown.inode] at still inode
  rw [spot_shown parsed (grown.resolve reached) still named called, inode]

/-- All that the VM of a staged build needs of its host. -/
structure Hosting (forked : Forked buildah) (containerfile tag : Text) (config : VmConfig)
    (output : PathBuf) (shares : Shares) (shipped : List UInt8) (vmBuild : VmBuild) (mid : Files) :
    Prop extends Found containerfile tag config output shares vmBuild mid,
      Hostable shares shipped mid where
  closed : mid.Closed
  booted : Booted forked.vm
  spelled : Utf8.encode vmBuild.outputFilename = shares.name.val

section Hosted

variable {shipped : List UInt8} {args : Args}

theorem Hosting.boot
    (hosting : Hosting forked containerfile tag config output shares shipped vmBuild mid)
    (made : Args.new ip vmBuild = .ok args) :
    ∃ boot, Boot.of mid (configuration args vmBuild.cpus vmBuild.memoryMib) = some boot ∧
      Hosted ⟨fun _ : Unit => forked.machine, fun _ => boot, fun _ => forked.vm⟩ (fun _ => shares)
        (fun _ => Utf8.encode containerfile) (fun _ => shipped) mid ∧
      boot.tag = vmBuild.tag ∧ boot.dns = vmBuild.dnsEnvValue ip := by
  have found := hosting.toFound
  obtain ⟨boot, started, wired, tagged, dns⟩ :=
    boot_wired made found.root found.context found.outputDir hosting.spelled
  exact ⟨boot, started, hosted_alone hosting.booted wired hosting.closed hosting.toHostable found,
    tagged, dns⟩

theorem Hosting.undisturbed
    (hosting : Hosting forked containerfile tag config output shares shipped vmBuild mid) :
    Undisturbed (fun _ : Unit => shares) mid mid := ⟨{
  closed := hosting.closed
  present := fun _ input member => by
    rw [Shares.inputs, List.mem_cons, List.mem_singleton] at member
    rcases member with rfl | rfl
    · obtain ⟨_, there⟩ := hosting.containerfile
      obtain ⟨ino, reached, found⟩ := nodeAt_some.mp there
      exact ⟨ino, _, reached, found⟩
    · obtain ⟨_, there⟩ := hosting.resolvConf
      obtain ⟨ino, reached, found⟩ := nodeAt_some.mp there
      exact ⟨ino, _, reached, found⟩
  outputs := fun _ _ _ _ _ _ _ _ => rfl
  inputs := fun _ _ ino mode contents there reached =>
    hosting.inputs ino mode contents there reached }, .refl _ _⟩

/-- However the child ends, the VM has kept to what it may do. -/
theorem ends_kept
    (hosting : Hosting forked containerfile tag config output shares shipped vmBuild mid)
    (made : Args.new ip vmBuild = .ok args) :
    Undisturbed (fun _ : Unit => shares) mid (forked.ends vmBuild args mid).2 := by
  obtain ⟨boot, started, hosted, _⟩ := hosting.boot made
  have same := hosting.undisturbed
  have onward : ∀ phase phase' h vm, Shell.Steps (forked.machine.exec boot) forked.machine.trap
      (phase, (mid, forked.vm)) (phase', (h, vm)) →
      phase = .body (forked.machine.commands boot) →
      Undisturbed (fun _ : Unit => shares) mid h := by
    rintro _ phase' h vm steps rfl
    exact (Interleaving.alone (compatible _ hosted.distinct mid) same (launched hosted ()) steps).1
  unfold Forked.ends
  split
  · exact same
  · rw [started]
    dsimp only
    split
    · rename_i count signal core _
      exact onward _ _ _ _ (.go count _) rfl
    · exact onward _ _ _ _ (.outcome _ _) rfl

/-- The files that a computation leaves, whether or not it succeeds. -/
def left : EStateM.Result E Files A → Files
  | .ok _ fs | .error _ fs => fs

theorem krunRun_kept (ip : IpText) (parent : Parent)
    (hosting : Hosting forked containerfile tag config output shares shipped vmBuild mid) :
    Undisturbed (fun _ : Unit => shares) mid (left (krunRun ip parent forked vmBuild mid)) := by
  have same := hosting.undisturbed
  unfold krunRun
  split
  · exact same
  · rename_i args made
    split
    · exact same
    · split
      · exact same
      · have kept := ends_kept hosting made
        rcases done : forked.ends vmBuild args mid with ⟨ended, final⟩
        rw [done] at kept
        dsimp only
        split <;> exact kept

/-- A run that is reported as a success leaves the image behind. -/
theorem krunRun_delivers
    (hosting : Hosting forked containerfile tag config output shares shipped vmBuild mid)
    (ran : krunRun ip parent forked vmBuild mid = .ok () final) :
    ∃ input image mode, buildah.Builds input image ∧
      final.nodeAt shares.output [shares.name] = some (.file mode (buildah.archive image)) ∧
      input.containerfile = Utf8.encode containerfile ∧ input.tag = tag ∧
      input.resolvConf = some (resolverFor ip config.nameservers shipped) ∧
      ∀ names node, mid.nodeAt shares.context names = some node →
        (∀ ino, mid.reach shares.output [shares.name] = some ino →
          mid.reach shares.context names ≠ some ino) →
        input.context names = some (Item.of node) := by
  obtain ⟨args, boot, vm, made, started, done⟩ := krunRun_ok ran
  obtain ⟨boot', same, hosted, tagged, dns⟩ := hosting.boot made
  rw [started] at same
  cases same
  obtain ⟨_, last⟩ := alone_done (i := ()) hosted done
  obtain ⟨input, image, mode, own, builds, there⟩ := delivered last
  refine ⟨input, image, mode, builds, there, own.containerfile, ?_, ?_,
    fun names node before apart => own.context names node before fun _ => apart⟩
  · rw [own.tag, ← hosting.tag]
    exact tagged
  · rw [own.resolvConf, ← hosting.nameservers]
    exact congrArg some (resolvConf_for forked.machine dns)

end Hosted

end Shown

end Running

namespace Sample

open VmBuildFiles.Sample (entries willing)

def tarball : FileName := ⟨Utf8.encode "out.tar", by decide⟩

/-- A host whose root serves as the rootfs. -/
def files : Files :=
  VmBuildFiles.Sample.files (VmBuildFiles.Sample.nodes
    ((etcResolv.take 1 ++ runDir).zip [6, 8]) [] ++ [
      (6, .dir (entries [(resolvName, 7)])),
      (7, .file 0o644 VmSharing.Sample.shipped),
      (8, .dir ∅)])

def shares : Shares := ⟨0, 1, 0, tarball⟩

theorem one_fails : (1 : UInt8) ≠ 0 := by decide

def forked : Forked VmSharing.Sample.buildah where
  krun := ⟨0, fun _ _ => 0, fun _ => none⟩
  machine := VmSharing.Sample.machine
  vm := VmSharing.Sample.vm
  unbooted := ⟨1, one_fails⟩
  killed := none

def config : VmConfig := ⟨.utf8 "/", defaultCpus, defaultMemoryMib, [.v4 9 9 9 9]⟩

def output : PathBuf := .utf8 "/out.tar"

def run : EStateM.Result VmBuildError Files Unit :=
  VmBuildFiles.build willing "FROM alpine" "image:latest" config
    (krunRun IpText.plain ⟨.ok 1, none, 1⟩ forked) (.utf8 "/context") output files

/-- What the sample is like once it is staged. -/
def prepared (mid : Files) : Bool :=
  sharedDirectory mid (.utf8 "/") = some 0 && sharedDirectory mid (.utf8 "/context") = some 1 &&
  walked.all (fun path => path.inits.all fun pre =>
    match mid.nodeAt 0 pre with
    | some (.link _) => false
    | _ => true) &&
  (match mid.nodeAt 0 etcResolv with
    | some (.file _ contents) => contents = VmSharing.Sample.shipped
    | _ => false) &&
  mid.reach 0 [tarball] = none

theorem closed : files.Closed := by
  intro ino inside n j found entered
  have member := VmSharing.Sample.lookup_mem found
  have present : ∀ k, k < 9 → files.nodes.lookup k ≠ none := by decide
  obtain ⟨etc, run, tops⟩ :
      ∃ etc run, (etcResolv.take 1 ++ runDir).zip [6, 8] = [(etc, 6), (run, 8)] := ⟨_, _, rfl⟩
  apply present
  simp only [VmBuildFiles.Sample.nodes, tops, List.cons_append, List.nil_append, List.mem_cons,
    List.not_mem_nil, Prod.mk.injEq, Node.dir.injEq, reduceCtorEq, and_false, false_or,
    or_false] at member
  rcases member with ⟨_, rfl⟩ | ⟨_, rfl⟩ | ⟨_, rfl⟩ | ⟨_, rfl⟩ | ⟨_, rfl⟩ | ⟨_, rfl⟩ | ⟨_, rfl⟩
  all_goals
    first
    | cases entered
    | have named := VmSharing.Sample.lookup_mem entered
      simp only [List.mem_cons, Prod.mk.injEq, List.not_mem_nil, or_false] at named
      omega

theorem hostable (context : Nat) (ready : prepared mid = true) :
    Hostable { shares with context } VmSharing.Sample.shipped mid := by
  simp only [prepared, Bool.and_eq_true, decide_eq_true_eq, List.all_eq_true] at ready
  obtain ⟨⟨⟨_, plain⟩, resolvConf⟩, free⟩ := ready
  have absent : mid.nodeAt 0 [tarball] = none := by
    rw [nodeAt, free]
    rfl
  exact {
    plain := fun path member pre covers target linked => by
      have checked := plain path member pre ((List.mem_inits _ _).mpr covers)
      rw [show mid.nodeAt 0 pre = _ from linked] at checked
      cases checked
    resolvConf := by
      split at resolvConf
      · rename_i mode contents there
        rw [decide_eq_true_eq] at resolvConf
        subst resolvConf
        exact ⟨mode, there⟩
      · cases resolvConf
    output := fun target linked => by
      rw [show mid.nodeAt 0 [tarball] = _ from linked] at absent
      cases absent
    inputs := fun ino _ _ _ reached => by
      rw [show mid.reach 0 [tarball] = _ from reached] at free
      cases free }

end Sample

/-- A build that is reported as a success leaves, in the file that its output path names, an
image built from its own Containerfile, context, tag and nameservers; nothing else on the host
changes once it is staged. -/
theorem build_delivers {buildah : Buildah} {ip : IpText} {parent : Parent}
    {forked : Forked buildah} {kernel : Kernel} {containerfile tag text : Text} {config : VmConfig}
    {contextDir output name : PathBuf} {vmBuild : VmBuild} {fs mid final : Files} {shares : Shares}
    {shipped : List UInt8}
    (staged : VmBuildFiles.stage kernel containerfile tag config contextDir output fs =
      .ok vmBuild mid)
    (closed : fs.Closed) (booted : Booted forked.vm)
    (root : sharedDirectory mid config.rootfs = some shares.root)
    (context : sharedDirectory mid contextDir = some shares.context)
    (out : sharedDirectory mid (outputParent output) = some shares.output)
    (named : output.fileName = some name) (called : shares.name.val = name.raw)
    (utf8 : name.raw = Utf8.encode text) (hostable : Hostable shares shipped mid)
    (built : VmBuildFiles.build kernel containerfile tag config (krunRun ip parent forked)
      contextDir output fs = .ok () final) :
    output.spot final = some (shares.output, shares.name) ∧
    Kept (fun _ : Unit => shares) mid final ∧
    ∃ input image mode, buildah.Builds input image ∧
      final.nodeAt shares.output [shares.name] = some (.file mode (buildah.archive image)) ∧
      input.containerfile = Utf8.encode containerfile ∧ input.tag = tag ∧
      input.resolvConf = some (resolverFor ip config.nameservers shipped) ∧
      ∀ names node, mid.nodeAt shares.context names = some node →
        (∀ ino, mid.reach shares.output [shares.name] = some ino →
          mid.reach shares.context names ≠ some ino) →
        input.context names = some (Item.of node) := by
  have found := stage_found staged root context out
  obtain ⟨_, between, first, ran⟩ := Fallible.bind_ok.mp built
  rw [staged] at first
  cases first
  have hosting : Hosting forked containerfile tag config output shares shipped vmBuild mid := {
    toFound := found
    toHostable := hostable
    closed := stage_closed closed staged
    booted := booted
    spelled := filename_spelled found named utf8 called }
  have kept := (krunRun_kept ip parent hosting).2
  rw [ran] at kept
  exact ⟨spot_shares staged out named called kept.grown, kept, krunRun_delivers hosting ran⟩

theorem build_delivers_alpine : ∃ final, Sample.run = .ok () final ∧
    Sample.output.spot final = some (0, Sample.tarball) ∧
    ∃ mode, final.nodeAt 0 [Sample.tarball] =
      some (.file mode (Utf8.encode "FROM alpinenameserver 9.9.9.9\n")) := by
  have staging : VmBuildFiles.Sample.succeeds (fun _ mid => Sample.prepared mid)
      (VmBuildFiles.stage VmBuildFiles.Sample.willing "FROM alpine" "image:latest" Sample.config
        (.utf8 "/context") Sample.output Sample.files) = true := by decide +kernel
  have running : VmBuildFiles.Sample.succeeds (fun _ _ => true) Sample.run = true := by
    decide +kernel
  obtain ⟨vmBuild, mid, staged, ready⟩ := VmBuildFiles.Sample.succeeded staging
  obtain ⟨_, final, ran, _⟩ := VmBuildFiles.Sample.succeeded running
  have shown := ready
  simp only [Sample.prepared, Bool.and_eq_true, decide_eq_true_eq] at shown
  obtain ⟨⟨⟨⟨top, context⟩, _⟩, _⟩, _⟩ := shown
  obtain ⟨spot, _, input, image, mode, builds, there, first, _, second, _⟩ :=
    build_delivers staged Sample.closed ⟨rfl, rfl⟩
      (show sharedDirectory mid Sample.config.rootfs = some Sample.shares.root from top) context top
      (show Sample.output.fileName = some (.utf8 "out.tar") by decide) (by decide)
      (show PathBuf.raw (.utf8 "out.tar") = Utf8.encode "out.tar" from rfl)
      (Sample.hostable 1 ready) ran
  have contents : image = input.containerfile ++ input.resolvConf.getD [] := builds
  rw [first, second] at contents
  exact ⟨final, ran, spot, mode,
    there.trans (congrArg (fun bytes => some (Node.file mode bytes)) contents)⟩

end ImageBuilder.VmBuildRun
