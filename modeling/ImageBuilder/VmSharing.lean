import ImageBuilder.VmGuestScript
import ImageBuilder.VmOutcome

/-! Any number of VMs at a time on one host, their commands in any order: what becomes of the
files of the host, of every tarball and of every exit status. -/
namespace ImageBuilder.VmSharing

open Inode Inode.FileSystem VmBuilder VmBuildScript VmBuildFiles VmGuest Interleaving

section System

variable {I : Type} {buildah : Buildah}

/-- A guest that has just booted: nothing is mounted yet, and its memory is empty. -/
structure Booted (vm : Vm buildah) : Prop where
  mounts : vm.mounts = []
  memory : vm.memory.nodes = ∅

/-- VMs that are about to run their scripts. -/
structure Launch (I : Type) (buildah : Buildah) where
  machine : I → Machine buildah
  boot : I → Boot
  vm : I → Vm buildah

namespace Launch

variable (launch : Launch I buildah)

def run (i : I) : Command → Guest buildah → UInt8 × Guest buildah :=
  (launch.machine i).exec (launch.boot i)

def trap (i : I) : UInt8 → List Command := (launch.machine i).trap

def start (h : Files) : System I Command Files (Vm buildah) where
  shared := h
  process i := ⟨.body ((launch.machine i).commands (launch.boot i)), launch.vm i⟩

/-- What the VMs come to from some files, one command of one of them at a time. -/
abbrev Runs [DecidableEq I] (h : Files) (final : System I Command Files (Vm buildah)) : Prop :=
  Reachable launch.run launch.trap (launch.start h) final

/-- The same, in this order. -/
abbrev Follows [DecidableEq I] (h : Files) (schedule : List I)
    (final : System I Command Files (Vm buildah)) : Prop :=
  Transition.Run (step launch.run launch.trap) (fun _ _ => True) (launch.start h) schedule final

/-- What the commands of one VM end with there. -/
def log [DecidableEq I] (h : Files) (schedule : List I) (i : I) : List (Command × UInt8) :=
  Interleaving.log launch.run launch.trap i (launch.start h) schedule

end Launch

/-- What the VMs need of the host: all that each of them needs, tarballs of different names, and
no tarball that is, by a hard link, another one or what a VM reads. -/
structure Hosted (launch : Launch I buildah) (shares : I → Shares)
    (containerfile shipped : I → List UInt8) (h : Files) : Prop where
  booted : ∀ i, Booted (launch.vm i)
  wired : ∀ i, Wired (launch.boot i) (shares i)
  ready : ∀ i, Ready (shares i) (containerfile i) (shipped i) h
  distinct : ∀ i j, (shares i).output = (shares j).output → (shares i).name = (shares j).name →
    i = j
  closed : h.Closed
  outputs : ∀ i j ino mode contents, h.nodes.lookup ino = some (.file mode contents) →
    h.reach (shares i).output [(shares i).name] = some ino →
    h.reach (shares j).output [(shares j).name] = some ino → i = j
  inputs : ∀ i j ino mode contents, h.nodes.lookup ino = some (.file mode contents) →
    h.reach (shares i).output [(shares i).name] = some ino →
    ∀ input ∈ (shares j).inputs, h.reach input.1 input.2 ≠ some ino

variable {launch : Launch I buildah} {shares : I → Shares} {containerfile shipped : I → List UInt8}
  {h : Files} {final : System I Command Files (Vm buildah)}

theorem Hosted.apart (hosted : Hosted launch shares containerfile shipped h) : Apart shares h where
  closed := hosted.closed
  outputs := hosted.outputs
  inputs := hosted.inputs
  present i input member := by
    have ready := hosted.ready i
    rw [Shares.inputs, List.mem_cons, List.mem_singleton] at member
    rcases member with rfl | rfl
    · obtain ⟨_, found⟩ := ready.containerfile
      obtain ⟨ino, reached, there⟩ := nodeAt_some.mp found
      exact ⟨ino, _, reached, there⟩
    · obtain ⟨_, found⟩ := ready.resolvConf
      obtain ⟨ino, reached, there⟩ := nodeAt_some.mp found
      exact ⟨ino, _, reached, there⟩

/-- What holds of the host whatever the VMs do. -/
def Undisturbed (shares : I → Shares) (h₀ h : Files) : Prop := Apart shares h ∧ Kept shares h₀ h

/-- The commands of `on_exit`. -/
def trapped : List Command := [.searchKernelLog, .printOom, .printHint]

theorem trap_subset (machine : Machine buildah) (rc : UInt8) : machine.trap rc ⊆ trapped := by
  intro command member
  simp only [Machine.trap, onExit, Shell.Script.observed, Shell.Script.all, List.append_nil] at member
  split at member
  · rcases List.mem_cons.mp member with rfl | member
    · exact List.mem_cons_self
    · split at member
      · exact List.mem_cons_of_mem _ member
      · cases member
  · cases member

theorem trap_success (machine : Machine buildah) : machine.trap 0 = [] := by
  simp [Machine.trap, onExit, Shell.Script.observed]

theorem exec_trapped (machine : Machine buildah) (boot : Boot) (member : command ∈ trapped)
    (s : Guest buildah) : (machine.exec boot command s).2 = s := by
  rw [Machine.exec]
  split
  · rfl
  · rw [trapped, List.mem_cons, List.mem_cons, List.mem_singleton] at member
    rcases member with rfl | rfl | rfl <;> rfl

/-- The scripts of the VMs fit together. -/
theorem compatible (launch : Launch I buildah)
    (distinct : ∀ i j, (shares i).output = (shares j).output → (shares i).name = (shares j).name →
      i = j) (h₀ : Files) :
    Compatible launch.run launch.trap (Undisturbed shares h₀) (fun i => Rely (shares i))
      (fun i => Changes (shares i)) trapped where
  kept i h h' undisturbed changes :=
    ⟨undisturbed.1.kept distinct changes, undisturbed.2.kept changes⟩
  relied i j h h' other undisturbed changes := undisturbed.1.relied other changes
  same i h := .inl (.refl _ _)
  traps i rc := trap_subset _ rc
  success i := trap_success _
  quiet i command member h l := by
    rw [Launch.run, exec_trapped _ _ member]

/-- A VM whose script has succeeded has handed over its image. -/
def Done (launch : Launch I buildah) (shares : I → Shares) (containerfile shipped : I → List UInt8)
    (h₀ : Files) (i : I) : Guest buildah → Prop :=
  Holding (shares i) (containerfile i) (shipped i) (hasNameservers (launch.boot i).dns)
    (Handed (shares i) (containerfile i)
      ((launch.machine i).resolvConf (launch.boot i) (shipped i)) (launch.boot i)
      (Undisturbed shares h₀))

theorem Done.stable (i : I) :
    Stable (Rely (shares i)) (Done launch shares containerfile shipped h i) :=
  Holding.stable fun _ _ _ _ _ _ => Handed.stable

theorem early (hosted : Hosted launch shares containerfile shipped h) (i : I) :
    Early (shares i) (containerfile i) (shipped i) [] (h, launch.vm i) where
  ready := hosted.ready i
  points := by rw [(hosted.booted i).mounts]; rfl
  context := by rw [(hosted.booted i).mounts]; simp
  output := by rw [(hosted.booted i).mounts]; simp
  memory := by rw [(hosted.booted i).mounts]; simp
  rooted := by rw [(hosted.booted i).mounts]; simp
  bare ino target := by
    show (launch.vm i).memory.nodes.lookup ino ≠ _
    rw [(hosted.booted i).memory, Finmap.lookup_empty]
    exact fun impossible => by cases impossible

theorem launched (hosted : Hosted launch shares containerfile shipped h) (i : I) :
    OnTrack (launch.run i) (Undisturbed shares h) (Rely (shares i)) (Changes (shares i)) trapped
      (Done launch shares containerfile shipped h i) h ((launch.start h).process i) :=
  ⟨_, early hosted i, outline_script (hosted.wired i) (fun _ held => held.1.closed)
    fun _ held => held.1.inputs i i⟩

/-- Every VM is where its script says, whatever the others do. -/
theorem tracks [DecidableEq I] (hosted : Hosted launch shares containerfile shipped h)
    (runs : launch.Runs h final) : Undisturbed shares h final.shared ∧
      ∀ i, OnTrack (launch.run i) (Undisturbed shares h) (Rely (shares i)) (Changes (shares i))
        trapped (Done launch shares containerfile shipped h i) final.shared (final.process i) :=
  sound (compatible launch hosted.distinct h) Done.stable ⟨hosted.apart, .refl shares h⟩
    (launched hosted) runs

/-- A VM that runs alone, from its first command to its exit. -/
theorem alone_done (hosted : Hosted launch shares containerfile shipped h)
    (ran : Shell.outcome (launch.run i) (launch.trap i)
      ((launch.machine i).commands (launch.boot i)) (h, launch.vm i) = (0, (h', vm))) :
    Kept shares h h' ∧ Done launch shares containerfile shipped h i (h', vm) := by
  have steps : Shell.Steps (launch.run i) (launch.trap i) _ _ :=
    .outcome ((launch.machine i).commands (launch.boot i)) (h, launch.vm i)
  rw [ran] at steps
  obtain ⟨undisturbed, track⟩ := alone (compatible launch hosted.distinct h)
    ⟨hosted.apart, .refl shares h⟩ (launched hosted i) steps
  exact ⟨undisturbed.2, track rfl⟩

end System

namespace Sample

/-- The image of a build is its Containerfile and its resolver configuration. -/
def buildah : Buildah where
  State := Option (Text × List UInt8)
  Image := List UInt8
  Builds input image := image = input.containerfile ++ input.resolvConf.getD []
  bud input _ := (0, some (input.tag, input.containerfile ++ input.resolvConf.getD []))
  create _ state := (if state.isSome then 0 else 125, "container", state)
  mount _ state := (0, "/var/lib/containers/merged", state)
  umount _ state := (0, state)
  remove _ state := (0, state)
  rootfs state _ := state.map Prod.snd
  archive image := image
  hands := by
    intro input s built ctr created mnt mounted bud create mount
    cases bud
    cases create
    cases mount
    exact ⟨_, rfl, rfl⟩

/-- A machine on which all goes well. -/
def machine : Machine buildah where
  shell := ⟨fun field => [field], id⟩
  memTotal := 4194304
  oom := []
  refuses _ _ := none
  failure _ _ := ⟨1, by decide⟩
  stops _ _ _ := false
  edits _ _ := []
  cut _ _ := none
  within := by simp

open VmBuildFiles.Sample (entries)

/-- A rootfs, two contexts, and a directory for both tarballs. -/
def nodes : List (Nat × Node FileName) := [
  (0, .dir (entries [(⟨Utf8.encode "etc", by decide⟩, 1), (⟨Utf8.encode "run", by decide⟩, 3)])),
  (1, .dir (entries [(resolvName, 2)])),
  (2, .file 0o644 (Utf8.encode "nameserver 1.1.1.1\n")),
  (3, .dir ∅),
  (4, .dir (entries [(containerfileEntry, 5)])),
  (5, .file 0o644 (Utf8.encode "FROM alpine")),
  (6, .dir (entries [(containerfileEntry, 7)])),
  (7, .file 0o644 (Utf8.encode "FROM fedora")),
  (8, .dir ∅)]

def files : Files := VmBuildFiles.Sample.files nodes

def shares (second : Bool) : Shares where
  root := 0
  context := if second then 6 else 4
  output := 8
  name := if second then ⟨Utf8.encode "b.tar", by decide⟩ else ⟨Utf8.encode "a.tar", by decide⟩

def boot (second : Bool) : Boot where
  root := 0
  share tag :=
    if tag = tagContext then some (shares second).context
    else if tag = tagOutput then some 8
    else none
  cfile := containerfileVmPath
  tag := if second then "b" else "a"
  outputFile := if second then "b.tar" else "a.tar"
  dns := if second then some "9.9.9.9" else none

def vm : Vm buildah where
  memory := ⟨∅, 0, [], 40⟩
  mounts := []
  memKb := 0
  storageMb := 0
  storageLimit := none
  redirect := none
  state := none
  ctr := []
  mnt := []

def launch : Launch Bool buildah := ⟨fun _ => machine, boot, fun _ => vm⟩

def containerfile (second : Bool) : List UInt8 :=
  Utf8.encode (if second then "FROM fedora" else "FROM alpine")

def shipped : List UInt8 := Utf8.encode "nameserver 1.1.1.1\n"

theorem lookup_mem {A B : Type} [DecidableEq A] {list : List (A × B)} {a : A} {b : B}
    (found : Finmap.lookup a
      (list.foldr (fun entry map => map.insert entry.1 entry.2) (∅ : FiniteMap A B)) = some b) :
    (a, b) ∈ list := by
  induction list with
  | nil => cases found
  | cons entry list ih =>
    rw [List.foldr_cons] at found
    rcases FiniteMap.lookup_insert_some.mp found with ⟨rfl, rfl⟩ | ⟨_, found⟩
    · exact List.mem_cons_self
    · exact List.mem_cons_of_mem _ (ih found)

theorem linkless (ino : Nat) (target : Route FileName) :
    files.nodes.lookup ino ≠ some (.link target) := by
  intro found
  have member : (ino, Node.link target) ∈ nodes := lookup_mem found
  simp [nodes] at member

theorem closed : files.Closed := by
  intro ino inside n j found entered
  have member : (ino, Node.dir inside) ∈ nodes := lookup_mem found
  have present : ∀ k, k < 9 → files.nodes.lookup k ≠ none := by decide
  apply present
  simp only [nodes, List.mem_cons, List.not_mem_nil, Prod.mk.injEq, Node.dir.injEq, reduceCtorEq,
    and_false, false_or, or_false] at member
  rcases member with ⟨_, rfl⟩ | ⟨_, rfl⟩ | ⟨_, rfl⟩ | ⟨_, rfl⟩ | ⟨_, rfl⟩ | ⟨_, rfl⟩
  all_goals
    first
    | cases entered
    | have named := lookup_mem entered
      simp only [List.mem_cons, Prod.mk.injEq, List.not_mem_nil, or_false] at named
      omega

theorem hosted : Hosted launch shares containerfile (fun _ => shipped) files where
  booted _ := ⟨rfl, rfl⟩
  wired second := by cases second <;> exact ⟨rfl, rfl, rfl, rfl, rfl⟩
  ready second := {
    plain := fun path _ pre _ target linked => by
      obtain ⟨ino, _, found⟩ := nodeAt_some.mp linked
      exact linkless ino target found
    output := fun target linked => by
      obtain ⟨ino, _, found⟩ := nodeAt_some.mp linked
      exact linkless ino target found
    outputDir := ⟨∅, rfl⟩
    containerfile := ⟨0o644, by cases second <;> rfl⟩
    resolvConf := ⟨0o644, rfl⟩ }
  distinct first second _ same := by
    cases first <;> cases second <;> first | rfl | exact absurd same (by decide)
  closed := closed
  outputs first _ ino _ _ _ reached := by
    cases first <;> cases reached
  inputs first _ ino _ _ _ reached := by
    cases first <;> cases reached

/-- Both VMs in turn. -/
def turns : List Bool := (List.replicate 24 [true, false]).flatten

def final : System Bool Command Files (Vm buildah) :=
  turns.foldl (proceed launch.run launch.trap) (launch.start files)

theorem runs : launch.Runs files final := reachable_foldl _ _ _ _

def code : Shell.Phase Command → Option UInt8
  | .exited code => some code
  | _ => none

theorem code_some (ended : code phase = some status) : phase = .exited status := by
  cases phase <;> cases ended
  rfl

theorem exited (second : Bool) : (final.process second).phase = .exited 0 :=
  code_some (by cases second <;> decide +kernel)

end Sample

section Results

variable {I : Type} {buildah : Buildah} {launch : Launch I buildah} {shares : I → Shares}
  {containerfile shipped : I → List UInt8} {h : Files}
  {final : System I Command Files (Vm buildah)}

/-- Concurrent VMs change no file but their own tarballs, and add nothing but tarballs and the
directories that their scripts make. -/
theorem host_undisturbed [DecidableEq I] (hosted : Hosted launch shares containerfile shipped h)
    (runs : launch.Runs h final) : Kept shares h final.shared :=
  (tracks hosted runs).1.2

theorem host_undisturbed_two : Kept Sample.shares Sample.files Sample.final.shared :=
  host_undisturbed Sample.hosted Sample.runs

/-- What is on the host is what `buildah` gets to see of it. -/
theorem kept_item {h' : Files} (kept : Kept shares h h') (found : h.nodeAt top names = some node)
    (apart : ∀ j ino, h.reach (shares j).output [(shares j).name] = some ino →
      h.reach top names ≠ some ino) : (h'.nodeAt top names).map Item.of = some (Item.of node) := by
  cases node with
  | file mode contents =>
    rw [kept.grown.nodeAt_file found]
    · rfl
    · rintro ino reached ⟨j, named⟩
      exact apart j ino named reached
  | dir entries =>
    obtain ⟨more, still⟩ := kept.grown.nodeAt_dir found
    rw [still]
    rfl
  | link target =>
    obtain ⟨ino, reached, there⟩ := nodeAt_some.mp found
    rw [nodeAt_some.mpr ⟨ino, kept.grown.reach reached, kept.grown.link _ _ there⟩]
    rfl

/-- What a VM builds its image from: all of it its own. -/
structure OwnInput (launch : Launch I buildah) (shares : I → Shares)
    (containerfile shipped : I → List UInt8) (h : Files) (i : I) (input : BudInput) : Prop where
  containerfile : input.containerfile = containerfile i
  tag : input.tag = (launch.boot i).tag
  resolvConf : input.resolvConf =
    some ((launch.machine i).resolvConf (launch.boot i) (shipped i))
  context : ∀ names node, h.nodeAt (shares i).context names = some node →
    (∀ j ino, h.reach (shares j).output [(shares j).name] = some ino →
      h.reach (shares i).context names ≠ some ino) →
    input.context names = some (Item.of node)

theorem delivered {h' : Files} {l : Vm buildah}
    (done : Done launch shares containerfile shipped h i (h', l)) :
    ∃ input image mode, OwnInput launch shares containerfile shipped h i input ∧
      buildah.Builds input image ∧
      h'.nodeAt (shares i).output [(shares i).name] = some (.file mode (buildah.archive image)) := by
  obtain ⟨input, image, mode, asked, builds, found⟩ := done.fact
  refine ⟨input, image, mode, ⟨asked.containerfile, asked.tag, asked.resolvConf, ?_⟩, builds, found⟩
  intro names node there apart
  obtain ⟨between, ⟨_, kept⟩, seen⟩ := asked.context
  rw [seen]
  exact kept_item kept there apart

/-- A VM that exits with success leaves an image in its tarball that is built from its own
Containerfile, context and nameservers, whatever the other VMs do. -/
theorem tarball_delivered [DecidableEq I] (hosted : Hosted launch shares containerfile shipped h)
    (runs : launch.Runs h final) (exited : (final.process i).phase = .exited 0) :
    ∃ input image mode, OwnInput launch shares containerfile shipped h i input ∧
      buildah.Builds input image ∧
      final.shared.nodeAt (shares i).output [(shares i).name] =
        some (.file mode (buildah.archive image)) := by
  have track := (tracks hosted runs).2 i
  rw [OnTrack, exited] at track
  exact delivered (track rfl)

theorem tarball_delivered_second : ∃ input image mode,
    OwnInput Sample.launch Sample.shares Sample.containerfile (fun _ => Sample.shipped) Sample.files
      true input ∧ Sample.buildah.Builds input image ∧
    Sample.final.shared.nodeAt 8 [⟨Utf8.encode "b.tar", by decide⟩] = some (.file mode image) :=
  tarball_delivered Sample.hosted Sample.runs (Sample.exited true)

/-- The commands of the trap are not those of the script. -/
theorem trap_apart (machine : Machine buildah) (boot : Boot) (rc : UInt8) :
    ∀ command ∈ (onExit machine.oom rc).observed,
      command ∉ (script machine.shell boot.dns).observed := by
  intro command member
  have outside : command ∈ trapped := trap_subset machine rc member
  rw [show (script machine.shell boot.dns).observed = _ from commands_eq machine boot]
  rw [trapped, List.mem_cons, List.mem_cons, List.mem_singleton] at outside
  rcases outside with rfl | rfl | rfl <;> simp [mounting, resolving, building]

theorem echoes_once (names : List Text) : (names.mapIdx Command.echoNameserver).Nodup := by
  refine List.pairwise_iff_getElem.mpr fun i j first second before => ?_
  rw [List.getElem_mapIdx, List.getElem_mapIdx]
  rintro ⟨⟩
  exact Nat.lt_irrefl _ before

theorem mem_resolving {machine : Machine buildah} {boot : Boot}
    (member : command ∈ resolving machine boot) :
    command = .openResolvConf ∨ (∃ index ns, command = .echoNameserver index ns) ∨
      command = .bindResolvConf := by
  rw [resolving, List.mem_append, List.mem_cons, List.mem_singleton] at member
  rcases member with (rfl | echo) | rfl
  · exact .inl rfl
  · obtain ⟨index, _, rfl⟩ := List.mem_mapIdx.mp echo
    exact .inr (.inl ⟨_, _, rfl⟩)
  · exact .inr (.inr rfl)

theorem resolving_once (machine : Machine buildah) (boot : Boot) : (resolving machine boot).Nodup := by
  rw [resolving, List.nodup_append, List.nodup_cons]
  refine ⟨⟨?_, echoes_once _⟩, List.nodup_singleton _, ?_⟩
  · simp [List.mem_mapIdx]
  · rintro command member _ last rfl
    rw [List.mem_singleton.mp last] at member
    simp [List.mem_mapIdx] at member

/-- No command is run twice. -/
theorem commands_once (machine : Machine buildah) (boot : Boot) (rc : UInt8) :
    ((script machine.shell boot.dns).observed ++ (onExit machine.oom rc).observed).Nodup := by
  have commands : (script machine.shell boot.dns).observed.Nodup := by
    rw [show (script machine.shell boot.dns).observed = _ from commands_eq machine boot]
    split
    · refine List.nodup_append.mpr ⟨List.nodup_append.mpr ⟨by decide, resolving_once _ _, ?_⟩,
        by decide, ?_⟩
      · rintro command first _ second rfl
        rcases mem_resolving second with rfl | ⟨_, _, rfl⟩ | rfl <;> simp [mounting] at first
      · rintro command first _ second rfl
        rcases List.mem_append.mp first with first | first
        · have apart : ∀ command ∈ mounting, command ∉ building := by decide
          exact apart command first second
        · rcases mem_resolving first with rfl | ⟨_, _, rfl⟩ | rfl <;> simp [building] at second
    · rw [List.append_nil]
      decide
  have last : (onExit machine.oom rc).observed.Nodup := by
    by_cases zero : rc = 0 <;> by_cases quiet : machine.oom = [] <;>
      simp [onExit, Shell.Script.observed, Shell.Script.all, zero, quiet]
  refine List.nodup_append.mpr ⟨commands, last, ?_⟩
  rintro command inside _ member rfl
  exact trap_apart machine boot rc command member inside

/-- In every interleaving a VM exits as the script does for the statuses that its own commands
ended with: the files and the other VMs decide nothing else. -/
theorem exit_refines [DecidableEq I] {build : VmBuild} {args : Args} {krun : Libkrun}
    {schedule : List I} (dns : (launch.boot i).dns = NameserverHandoff.guestDns args)
    (entered : VmOutcome.Entered build args krun)
    (follows : launch.Follows h schedule final)
    (exited : (final.process i).phase = .exited code) :
    (∃ status, Shell.Agrees status (launch.log h schedule i)) ∧
    ∀ status, Shell.Agrees status (launch.log h schedule i) →
      VmOutcome.Child.ends build
        (.lived krun ⟨(launch.machine i).shell, (launch.machine i).oom, status⟩) args =
          .exited code := by
  have held : Shell.Explained (script (launch.machine i).shell (launch.boot i).dns)
      (onExit (launch.machine i).oom) (launch.log h schedule i) (final.process i).phase := by
    have begun : Shell.Explained (script (launch.machine i).shell (launch.boot i).dns)
        (onExit (launch.machine i).oom) [] ((launch.start h).process i).phase := ⟨rfl, by simp⟩
    exact explained (fun j => script (launch.machine j).shell (launch.boot j).dns)
      (fun j => onExit (launch.machine j).oom) follows begun
  refine ⟨held.agreed fun rc => commands_once _ _ rc, fun status agrees => ?_⟩
  rw [exited] at held
  obtain ⟨_, _, _, _, _, _, same⟩ := held
  have ended := same status agrees
  rw [dns] at ended
  rw [VmOutcome.Child.ends, VmOutcome.enterVm_entered.mpr entered, Option.getD_none]
  exact congrArg ProcessEnd.exited ended

theorem exit_refines_first : ∃ args schedule status,
    Args.new IpText.plain (NameserverHandoff.buildFor []) = .ok args ∧
    Sample.launch.Follows Sample.files schedule Sample.final ∧
    Shell.Agrees status (Sample.launch.log Sample.files schedule false) ∧
    VmOutcome.Child.ends (NameserverHandoff.buildFor [])
      (.lived ⟨0, fun _ _ => 0, fun _ => none⟩ ⟨Sample.machine.shell, Sample.machine.oom, status⟩)
      args = .exited 0 := by
  obtain ⟨args, built⟩ : ∃ args, Args.new IpText.plain (NameserverHandoff.buildFor []) = .ok args :=
    ⟨_, rfl⟩
  have dns : (Sample.launch.boot false).dns = NameserverHandoff.guestDns args :=
    (NameserverHandoff.guestDns_eq built).symm
  have entered : VmOutcome.Entered (NameserverHandoff.buildFor []) args
      ⟨0, fun _ _ => 0, fun _ => none⟩ := ⟨Int.le_refl 0, fun _ _ => Int.le_refl 0, rfl⟩
  obtain ⟨schedule, follows⟩ := Sample.runs
  obtain ⟨⟨status, agrees⟩, ends⟩ := exit_refines dns entered follows (Sample.exited false)
  exact ⟨args, schedule, status, built, follows, agrees, ends status agrees⟩

end Results

end ImageBuilder.VmSharing
