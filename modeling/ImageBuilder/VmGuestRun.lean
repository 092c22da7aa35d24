import ImageBuilder.VmGuestHost

/-! One guest beside others: what holds between the commands of `vm-build`, and what each of
them does there. -/
namespace ImageBuilder.VmGuest

open Inode Inode.FileSystem VmBuilder VmBuildScript VmBuildFiles

/-- What the guest is started with leads to its shares. -/
structure Wired (boot : Boot) (shares : Shares) : Prop where
  root : boot.root = shares.root
  context : boot.share tagContext = some shares.context
  output : boot.share tagOutput = some shares.output
  cfile : boot.cfile = containerfileVmPath
  outputFile : Utf8.encode boot.outputFile = shares.name.val

/-- The paths of the root share that the script takes. -/
def walked : List (List FileName) := [contextDir, outputDir, storageDir, runDir, tmpDir, etcResolv]

/-- What the host has to provide: no links where the script mounts, an output directory, the
Containerfile, and a rootfs with a resolver configuration. -/
structure Ready (shares : Shares) (containerfile shipped : List UInt8) (h : Files) : Prop where
  plain : ∀ path ∈ walked, ∀ pre, pre <+: path → ∀ target,
    h.nodeAt shares.root pre ≠ some (.link target)
  output : ∀ target, h.nodeAt shares.output [shares.name] ≠ some (.link target)
  outputDir : ∃ entries, h.nodes.lookup shares.output = some (.dir entries)
  containerfile : ∃ mode, h.nodeAt shares.context [containerfileEntry] =
    some (.file mode containerfile)
  resolvConf : ∃ mode, h.nodeAt shares.root etcResolv = some (.file mode shipped)

variable {shares : Shares} {containerfile shipped : List UInt8} {buildah : Buildah}

theorem Ready.grown {changed : Nat → Prop}
    (ready : Ready shares containerfile shipped h) (grown : Extends changed h h')
    (linkless : Linkless h h')
    (untouched : ∀ input ∈ shares.inputs, ∀ ino, h.reach input.1 input.2 = some ino → ¬ changed ino) :
    Ready shares containerfile shipped h' where
  plain path member pre covers := grown.nodeAt_plain linkless (ready.plain path member pre covers)
  output := grown.nodeAt_plain linkless ready.output
  outputDir := by
    obtain ⟨entries, found⟩ := ready.outputDir
    obtain ⟨more, still, _⟩ := grown.dir _ _ found
    exact ⟨more, still⟩
  containerfile := by
    obtain ⟨mode, found⟩ := ready.containerfile
    exact ⟨mode, grown.nodeAt_file found (untouched _ List.mem_cons_self)⟩
  resolvConf := by
    obtain ⟨mode, found⟩ := ready.resolvConf
    exact ⟨mode, grown.nodeAt_file found (untouched _ (List.mem_cons_of_mem _ List.mem_cons_self))⟩

theorem Ready.relied (ready : Ready shares containerfile shipped h)
    (rely : Rely shares h h') : Ready shares containerfile shipped h' := by
  obtain ⟨changed, grown, spared⟩ := rely.grown
  exact ready.grown grown rely.linkless fun input member ino reached altered =>
    (spared ino altered).2 input member reached

theorem Ready.prepared (ready : Ready shares containerfile shipped h)
    (prepared : Prepared top h h') : Ready shares containerfile shipped h' :=
  ready.grown prepared.toExtends prepared.toOnlyDirs.linkless fun _ _ _ _ => id

/-- No mount covers a path, or what is above it. -/
def Free (points : List (List FileName)) (path : List FileName) : Prop :=
  ∀ point ∈ points, ¬ point <+: path

instance (points : List (List FileName)) (path : List FileName) : Decidable (Free points path) :=
  inferInstanceAs (Decidable (∀ point ∈ points, ¬ point <+: path))

theorem Free.shorter (free : Free points path) (covers : pre <+: path) : Free points pre :=
  fun point member above => free point member (above.trans covers)

theorem place_free {view : View} (free : Free (view.table.map Prod.fst) path) :
    view.place path = (view.top, path) :=
  Mounted.place_uncovered fun _ member => free _ (List.mem_map_of_mem member)

/-- The last mount above a path. -/
theorem place_at (view : View)
    (chosen : (view.table.map Prod.fst).find? (fun point => decide (point <+: path)) = some point) :
    ∃ volume, (point, volume) ∈ view.table ∧
      view.place path = (volume, path.drop point.length) := by
  rw [List.find?_map, Option.map_eq_some_iff] at chosen
  obtain ⟨⟨_, volume⟩, found, rfl⟩ := chosen
  refine ⟨volume, List.mem_of_find?_eq_some found, ?_⟩
  have same : view.table.find? (fun mount => decide (mount.1 <+: path)) = some (_, volume) := found
  rw [Mounted.place, same]

/-- The view of a guest whose host has more directories. -/
structure Grew (shares : Shares) (view view' : View) : Prop where
  table : view'.table = view.table
  top : view'.top = view.top
  memory : view'.stores .memory = view.stores .memory
  host : Prepared shares.root (view.stores .host) (view'.stores .host)

theorem entry_free {fs : Files} (closed : fs.Closed) (reached : fs.reach top path = some ino)
    (found : fs.nodes.lookup ino = some (.dir entries))
    (absent : fs.nodeAt top (path ++ [n]) = none) : entries.lookup n = none := by
  cases named : entries.lookup n with
  | none => rfl
  | some j =>
    have present := closed _ _ _ _ found named
    rw [nodeAt, reach_append, reached, Option.bind_some, reach_single found, named] at absent
    exact absurd absent present

/-- A path of the root share that the script takes has no link on it. -/
theorem plain_free {view : View}
    (ready : Ready shares containerfile shipped (view.stores .host))
    (top : view.top = ⟨.host, shares.root⟩) (member : path ∈ walked)
    (free : Free (view.table.map Prod.fst) path) : view.Plain path := by
  intro pre covers target
  rw [Mounted.node, place_free (free.shorter covers), top]
  exact ready.plain path member pre covers target

/-- `mkdir -p` on the root share. -/
theorem makeDirs_grew (machine : Machine buildah) (s : Guest buildah)
    {view : View} (parsed : steps path = some (names.map .name))
    (made : ∀ pre ∈ names.inits.tail, pre ∈ madeDirs) (member : names ∈ walked)
    (free : Free (view.table.map Prod.fst) names) (top : view.top = ⟨.host, shares.root⟩)
    (ready : Ready shares containerfile shipped (view.stores .host))
    (closed : (view.stores .host).Closed) :
    Grew shares view (machine.makeDirs s path view).2 := by
  have above : ∀ pre ∈ names.inits.tail, pre <+: names := fun pre found =>
    (List.mem_inits _ _).mp (List.mem_of_mem_tail found)
  rw [Machine.makeDirs, parsed]
  dsimp only
  rw [List.map_inits, ← List.map_tail]
  refine Mounted.makeDirs_induction (Grew shares view) _ (fun pre found view' grew => ?_)
    (fun view' init n found grew inside absent => ?_) ⟨rfl, rfl, rfl, .refl _ _⟩
  · refine Mounted.Plain.shorter (plain_free (ready.prepared grew.host) ?_ member ?_) (above pre found)
    · rw [grew.top, top]
    · rw [grew.table]
      exact free
  · have below : Free (view'.table.map Prod.fst) init := by
      rw [grew.table]
      exact free.shorter ((List.prefix_append init [n]).trans (above _ found))
    have here : Free (view'.table.map Prod.fst) (init ++ [n]) := by
      rw [grew.table]
      exact free.shorter (above _ found)
    have placed := place_free below
    rw [grew.top, top] at placed
    obtain ⟨entries, there⟩ := Mounted.isDir_iff.mp inside
    obtain ⟨ino, reached, present, added⟩ := Mounted.add_eq there n (.dir ∅)
    rw [placed] at reached present added
    have missing : (view'.stores .host).nodeAt shares.root (init ++ [n]) = none := by
      rw [Mounted.node, place_free here, grew.top, top] at absent
      exact absent
    have vacant := entry_free (grew.host.closed closed) reached present missing
    rw [added]
    exact {
      table := grew.table
      top := grew.top
      memory := grew.memory
      host := by
        refine grew.host.trans ?_
        have one := prepared_add present vacant reached (made _ found)
        simpa [Mounted.alter] using one }

/-- What a guest has mounted so far: the shares of the host in their places, memory elsewhere. -/
structure Staged (shares : Shares) (containerfile shipped : List UInt8)
    (points : List (List FileName)) (s : Guest buildah) : Prop where
  ready : Ready shares containerfile shipped s.1
  points : s.2.mounts.map Prod.fst = points
  context : ∀ volume, (contextDir, volume) ∈ s.2.mounts → volume = ⟨.host, shares.context⟩
  output : ∀ volume, (outputDir, volume) ∈ s.2.mounts → volume = ⟨.host, shares.output⟩
  memory : ∀ mount ∈ s.2.mounts, mount.1 ≠ contextDir → mount.1 ≠ outputDir →
    mount.2.store = .memory

/-- A guest that has not run `buildah` yet. -/
structure Early (shares : Shares) (containerfile shipped : List UInt8)
    (points : List (List FileName)) (s : Guest buildah) : Prop
    extends Staged shares containerfile shipped points s where
  bare : ∀ ino target, s.2.memory.nodes.lookup ino ≠ some (.link target)
  rooted : ∀ mount ∈ s.2.mounts, mount.2.store = .memory →
    s.2.memory.nodes.lookup mount.2.root ≠ none

variable {boot : Boot} {machine : Machine buildah} {invariant : Files → Prop} {s : Guest buildah}
  {points : List (List FileName)}

theorem Staged.stable (points : List (List FileName)) :
    Interleaving.Stable (Rely shares)
      (Staged shares containerfile shipped points : Guest buildah → Prop) :=
  fun _ _ _ staged rely => { staged with ready := staged.ready.relied rely }

theorem Early.stable (points : List (List FileName)) :
    Interleaving.Stable (Rely shares)
      (Early shares containerfile shipped points : Guest buildah → Prop) :=
  fun _ _ _ early rely => { early with ready := early.ready.relied rely }

theorem Prepared.rely (prepared : Prepared shares.root h h') : Rely shares h h' where
  grown := ⟨_, prepared.toExtends, fun _ never => never.elim⟩
  linkless := prepared.toOnlyDirs.linkless

theorem settle_grew (grew : Grew shares (s.view boot) view) :
    s.settle view = (view.stores .host, s.2) := by
  rw [Guest.settle, grew.table, grew.memory]
  rfl

/-- A command of a guest, between what holds before it and what holds after it. -/
abbrev Keeps (machine : Machine buildah) (boot : Boot) (invariant : Files → Prop)
    (shares : Shares) (before : Guest buildah → Prop) (command : Command)
    (after : Guest buildah → Prop) : Prop :=
  Interleaving.Contract (machine.exec boot) invariant (Rely shares) (Changes shares) before command
    after

/-- A command that is refused does nothing. -/
theorem Keeps.of {before after : Guest buildah → Prop}
    (stable : Interleaving.Stable (Rely shares) before)
    (acts : ∀ s : Guest buildah, invariant s.1 → before s →
      Changes shares s.1 (machine.perform boot command s).2.1 ∧
        ((machine.perform boot command s).1 = 0 → after (machine.perform boot command s).2)) :
    Keeps machine boot invariant shares before command after where
  stable := stable
  guarantees h l kept held := by
    rw [Machine.exec]
    split
    · exact .inl (.refl _ _)
    · exact (acts (h, l) kept held).1
  establishes h l kept held succeeded := by
    rw [Machine.exec] at succeeded ⊢
    split at succeeded
    · rename_i failure _
      exact absurd succeeded failure.property
    · exact (acts (h, l) kept held).2 succeeded

/-- A command that leaves the files of the host alone. -/
theorem Keeps.of_inside {before after : Guest buildah → Prop}
    (stable : Interleaving.Stable (Rely shares) before)
    (acts : ∀ s : Guest buildah, before s → (machine.perform boot command s).2.1 = s.1 ∧
      ((machine.perform boot command s).1 = 0 → after (machine.perform boot command s).2)) :
    Keeps machine boot invariant shares before command after := by
  refine .of stable fun s _ held => ?_
  obtain ⟨same, established⟩ := acts s held
  refine ⟨.inl ?_, established⟩
  rw [same]
  exact .refl _ _

/-- One `mkdir -p` on the root share. What is stable holds after it. -/
theorem Keeps.mkdir {before : Guest buildah → Prop}
    (stable : Interleaving.Stable (Rely shares) before) (wired : Wired boot shares)
    (closed : ∀ h, invariant h → h.Closed)
    (staged : ∀ s, before s → Staged shares containerfile shipped points s)
    (performs : ∀ s : Guest buildah, (machine.perform boot command s).2 =
      s.settle (machine.makeDirs s path (s.view boot)).2)
    (parsed : steps path = some (names.map .name))
    (made : ∀ pre ∈ names.inits.tail, pre ∈ madeDirs) (member : names ∈ walked)
    (free : Free points names) : Keeps machine boot invariant shares before command before := by
  refine .of stable fun s kept held => ?_
  have there := staged s held
  have grew : Grew shares (s.view boot) (machine.makeDirs s path (s.view boot)).2 := by
    refine makeDirs_grew machine s parsed made member ?_ ?_ there.ready (closed _ kept)
    · rw [show (s.view boot).table = s.2.mounts from rfl, there.points]
      exact free
    · rw [← wired.root]
      rfl
  rw [performs s, settle_grew grew]
  exact ⟨.inl grew.host, fun _ => stable _ _ _ held grew.host.rely⟩

theorem Keeps.makeStorage (wired : Wired boot shares) (closed : ∀ h, invariant h → h.Closed)
    (free : Free points storageDir) :
    Keeps machine boot invariant shares (Early shares containerfile shipped points) .makeStorage
      (Early shares containerfile shipped points) :=
  .mkdir (.stable points) wired closed (fun _ early => early.toStaged) (fun _ => rfl)
    (show steps storagePoint = some (storageDir.map .name) by decide) (by decide) (by decide) free

theorem Keeps.makeShares (wired : Wired boot shares) (closed : ∀ h, invariant h → h.Closed) :
    Keeps machine boot invariant shares (Early shares containerfile shipped []) .makeShares
      (Early shares containerfile shipped []) := by
  refine .of (.stable []) fun s kept early => ?_
  have top : (s.view boot).top = ⟨.host, shares.root⟩ := by
    rw [← wired.root]
    rfl
  have empty : (s.view boot).table.map Prod.fst = [] := early.points
  have first : Grew shares (s.view boot) (machine.makeDirs s contextPoint (s.view boot)).2 := by
    refine makeDirs_grew machine s (show steps contextPoint = some (contextDir.map .name) by decide)
      (by decide) (by decide) ?_ top early.ready (closed _ kept)
    rw [empty]
    decide
  have second := makeDirs_grew machine s
    (show steps outputPoint = some (outputDir.map .name) by decide) (by decide) (by decide)
    (by rw [first.table, empty]; decide) (first.top.trans top) (early.ready.prepared first.host)
    (first.host.closed (closed _ kept))
  have both : Grew shares (s.view boot)
      (machine.makeDirs s outputPoint (machine.makeDirs s contextPoint (s.view boot)).2).2 := {
    table := second.table.trans first.table
    top := second.top.trans first.top
    memory := second.memory.trans first.memory
    host := first.host.trans second.host }
  have performed : (machine.perform boot .makeShares s).2 =
      s.settle (machine.makeDirs s outputPoint (machine.makeDirs s contextPoint (s.view boot)).2).2 :=
    rfl
  rw [performed, settle_grew both]
  exact ⟨.inl both.host, fun _ => Early.stable [] _ _ _ early both.host.rely⟩

theorem plain_view (staged : Staged shares containerfile shipped points s)
    (wired : Wired boot shares) (member : path ∈ walked) (free : Free points path) :
    (s.view boot).Plain path := by
  refine plain_free staged.ready ?_ member ?_
  · rw [← wired.root]
    rfl
  · rw [show (s.view boot).table = s.2.mounts from rfl, staged.points]
    exact free

/-- A share of the host in its place. -/
theorem mountShare_ok (wired : Wired boot shares)
    (staged : Staged shares containerfile shipped points s)
    (shown : boot.share tag = some ino) (parsed : steps path = some (names.map .name))
    (member : names ∈ walked) (free : Free points names)
    (mounted : Machine.mountShare boot s tag path = .ok s') :
    s' = (s.1, { s.2 with mounts := (names, ⟨.host, ino⟩) :: s.2.mounts }) := by
  rw [Machine.mountShare, shown, parsed] at mounted
  dsimp only at mounted
  split at mounted
  · cases mounted
  · rename_i view done
    cases mounted
    obtain rfl := Mounted.mount_names (plain_view staged wired member free) done
    rfl

/-- A new file system in memory. -/
theorem mountTmpfs_ok (wired : Wired boot shares)
    (staged : Staged shares containerfile shipped points s)
    (parsed : steps path = some (names.map .name)) (member : names ∈ walked)
    (free : Free points names) (mounted : Machine.mountTmpfs boot s path = .ok s') :
    s' = (s.1, { s.2 with
      memory := s.2.memory.put s.2.memory.fresh (.dir ∅)
      mounts := (names, ⟨.memory, s.2.memory.fresh⟩) :: s.2.mounts }) := by
  rw [Machine.mountTmpfs, parsed] at mounted
  dsimp only at mounted
  split at mounted
  · cases mounted
  · rename_i view done
    cases mounted
    have plain : ((s.view boot).alter .memory
        (s.2.memory.put s.2.memory.fresh (.dir ∅))).Plain names := by
      refine plain_free staged.ready ?_ member ?_
      · rw [← wired.root]
        rfl
      · rw [show ((s.view boot).alter .memory _).table = s.2.mounts from rfl, staged.points]
        exact free
    obtain rfl := Mounted.mount_names plain done
    rfl

theorem Staged.mountContext (staged : Staged shares containerfile shipped points s) :
    Staged shares containerfile shipped (contextDir :: points)
      ((s.1, { s.2 with mounts := (contextDir, ⟨.host, shares.context⟩) :: s.2.mounts }) :
        Guest buildah) where
  ready := staged.ready
  points := by rw [List.map_cons, staged.points]
  context volume member := by
    rcases List.mem_cons.mp member with same | old
    · exact (Prod.mk.inj same).2
    · exact staged.context volume old
  output volume member := by
    rcases List.mem_cons.mp member with same | old
    · exact absurd (Prod.mk.inj same).1 (by decide)
    · exact staged.output volume old
  memory mount member apart := by
    rcases List.mem_cons.mp member with rfl | old
    · exact absurd rfl apart
    · exact staged.memory mount old apart

theorem Staged.mountOutput (staged : Staged shares containerfile shipped points s) :
    Staged shares containerfile shipped (outputDir :: points)
      ((s.1, { s.2 with mounts := (outputDir, ⟨.host, shares.output⟩) :: s.2.mounts }) :
        Guest buildah) where
  ready := staged.ready
  points := by rw [List.map_cons, staged.points]
  context volume member := by
    rcases List.mem_cons.mp member with same | old
    · exact absurd (Prod.mk.inj same).1 (by decide)
    · exact staged.context volume old
  output volume member := by
    rcases List.mem_cons.mp member with same | old
    · exact (Prod.mk.inj same).2
    · exact staged.output volume old
  memory mount member first second := by
    rcases List.mem_cons.mp member with rfl | old
    · exact absurd rfl second
    · exact staged.memory mount old first second

theorem Staged.mountMemory (staged : Staged shares containerfile shipped points s)
    (first : point ≠ contextDir) (second : point ≠ outputDir) (root : Nat) (memory : Files) :
    Staged shares containerfile shipped (point :: points)
      ((s.1, { s.2 with memory, mounts := (point, ⟨.memory, root⟩) :: s.2.mounts }) :
        Guest buildah) where
  ready := staged.ready
  points := by rw [List.map_cons, staged.points]
  context volume member := by
    rcases List.mem_cons.mp member with same | old
    · exact absurd (Prod.mk.inj same).1.symm first
    · exact staged.context volume old
  output volume member := by
    rcases List.mem_cons.mp member with same | old
    · exact absurd (Prod.mk.inj same).1.symm second
    · exact staged.output volume old
  memory mount member apart other := by
    rcases List.mem_cons.mp member with rfl | old
    · rfl
    · exact staged.memory mount old apart other

theorem Early.mountTmpfs (early : Early shares containerfile shipped points s)
    (first : point ≠ contextDir) (second : point ≠ outputDir) :
    Early shares containerfile shipped (point :: points)
      ((s.1, { s.2 with
        memory := s.2.memory.put s.2.memory.fresh (.dir ∅)
        mounts := (point, ⟨.memory, s.2.memory.fresh⟩) :: s.2.mounts }) : Guest buildah) where
  toStaged := early.toStaged.mountMemory first second _ _
  bare ino target linked := by
    rw [lookup_put] at linked
    split at linked
    · cases linked
    · exact early.bare ino target linked
  rooted mount member inMemory := by
    rw [lookup_put]
    split
    · exact Option.some_ne_none _
    · rename_i other
      rcases List.mem_cons.mp member with rfl | old
      · exact absurd rfl other
      · exact early.rooted mount old inMemory

theorem Keeps.mountContext (wired : Wired boot shares) (free : Free points contextDir) :
    Keeps machine boot invariant shares (Early shares containerfile shipped points) .mountContext
      (Early shares containerfile shipped (contextDir :: points)) := by
  refine .of_inside (.stable points) fun s early => ?_
  rw [Machine.perform]
  dsimp only
  split
  · rename_i s' done
    obtain rfl := mountShare_ok wired early.toStaged wired.context
      (show steps contextPoint = some (contextDir.map .name) by decide) (by decide) free done
    refine ⟨rfl, fun _ => { toStaged := early.toStaged.mountContext, bare := early.bare, rooted := ?_ }⟩
    intro mount member inMemory
    rcases List.mem_cons.mp member with rfl | old
    · cases inMemory
    · exact early.rooted mount old inMemory
  · exact ⟨rfl, fun succeeded => absurd succeeded (machine.failure _ s).property⟩

theorem Keeps.mountOutput (wired : Wired boot shares) (free : Free points outputDir) :
    Keeps machine boot invariant shares (Early shares containerfile shipped points) .mountOutput
      (Early shares containerfile shipped (outputDir :: points)) := by
  refine .of_inside (.stable points) fun s early => ?_
  rw [Machine.perform]
  dsimp only
  split
  · rename_i s' done
    obtain rfl := mountShare_ok wired early.toStaged wired.output
      (show steps outputPoint = some (outputDir.map .name) by decide) (by decide) free done
    refine ⟨rfl, fun _ => { toStaged := early.toStaged.mountOutput, bare := early.bare, rooted := ?_ }⟩
    intro mount member inMemory
    rcases List.mem_cons.mp member with rfl | old
    · cases inMemory
    · exact early.rooted mount old inMemory
  · exact ⟨rfl, fun succeeded => absurd succeeded (machine.failure _ s).property⟩

theorem Keeps.mountStorage (wired : Wired boot shares) (free : Free points storageDir) :
    Keeps machine boot invariant shares (Early shares containerfile shipped points) .mountStorage
      (Early shares containerfile shipped (storageDir :: points)) := by
  refine .of_inside (.stable points) fun s early => ?_
  rw [Machine.perform]
  dsimp only
  cases mounted : Machine.mountTmpfs boot s storagePoint with
  | error e => exact ⟨rfl, fun succeeded => absurd succeeded (machine.failure _ s).property⟩
  | ok s' =>
    obtain rfl := mountTmpfs_ok wired early.toStaged
      (show steps storagePoint = some (storageDir.map .name) by decide) (by decide) free mounted
    have done := early.mountTmpfs (show storageDir ≠ contextDir by decide)
      (show storageDir ≠ outputDir by decide)
    exact ⟨rfl, fun _ => { done with
      toStaged := { done.toStaged with ready := done.ready } }⟩

theorem Early.congr {s' : Guest buildah} (early : Early shares containerfile shipped points s)
    (host : s'.1 = s.1) (memory : s'.2.memory = s.2.memory) (mounts : s'.2.mounts = s.2.mounts) :
    Early shares containerfile shipped points s' where
  ready := by rw [host]; exact early.ready
  points := by rw [mounts]; exact early.points
  context := by rw [mounts]; exact early.context
  output := by rw [mounts]; exact early.output
  memory := by rw [mounts]; exact early.memory
  bare := by rw [memory]; exact early.bare
  rooted := by rw [mounts, memory]; exact early.rooted

theorem Keeps.readMemTotal : Keeps machine boot invariant shares
    (Early shares containerfile shipped points) .readMemTotal
    (Early shares containerfile shipped points) :=
  .of_inside (.stable points) fun _ early => ⟨rfl, fun _ => early.congr rfl rfl rfl⟩

theorem Keeps.computeStorage : Keeps machine boot invariant shares
    (Early shares containerfile shipped points) .computeStorage
    (Early shares containerfile shipped points) :=
  .of_inside (.stable points) fun _ early => ⟨rfl, fun _ => early.congr rfl rfl rfl⟩

theorem Keeps.mountRun (wired : Wired boot shares) (free : Free points runDir) :
    Keeps machine boot invariant shares (Early shares containerfile shipped points) .mountRun
      (Early shares containerfile shipped (runDir :: points)) := by
  refine .of_inside (.stable points) fun s early => ?_
  rw [Machine.perform]
  dsimp only
  split
  · rename_i s' done
    obtain rfl := mountTmpfs_ok wired early.toStaged
      (show steps runPoint = some (runDir.map .name) by decide) (by decide) free done
    exact ⟨rfl, fun _ => early.mountTmpfs (by decide) (by decide)⟩
  · exact ⟨rfl, fun succeeded => absurd succeeded (machine.failure _ s).property⟩

/-- `/run` is in memory, and all that is below it. -/
structure RunInMemory (view : View) (r : Nat) : Prop where
  place : ∀ rest, view.place (runDir ++ rest) = (⟨.memory, r⟩, rest)
  free : Free (view.table.map Prod.fst) []
  host : view.top.store = .host
  plain : ∀ target, (view.stores .host).nodes.lookup view.top.root ≠ some (.link target)
  bare : ∀ ino target, (view.stores .memory).nodes.lookup ino ≠ some (.link target)
  present : (view.stores .memory).nodes.lookup r ≠ none

/-- A directory that is mounted, with nothing mounted below it. -/
structure Covers (points : List (List FileName)) (dir : List FileName) : Prop where
  chosen : points.find? (fun point => decide (point <+: dir)) = some dir
  below : ∀ point ∈ points, dir <+: point → point = dir

/-- The volume on a directory holds all that is below it. -/
theorem Staged.covered (staged : Staged shares containerfile shipped points s)
    (covers : Covers points dir) (boot : Boot) : ∃ volume, (dir, volume) ∈ s.2.mounts ∧
      ∀ rest, (s.view boot).place (dir ++ rest) = (volume, rest) := by
  have table : (s.view boot).table.map Prod.fst = points := staged.points
  obtain ⟨volume, member, placed⟩ := place_at (s.view boot)
    (show ((s.view boot).table.map Prod.fst).find? (fun point => decide (point <+: dir)) = some dir
      by rw [table]; exact covers.chosen)
  refine ⟨volume, member, fun rest => ?_⟩
  rw [Mounted.place_append, placed, List.drop_length, List.nil_append]
  intro mount found
  exact covers.below _ (table ▸ List.mem_map_of_mem found)

/-- What the mounts are once `/run` is one of them. -/
structure RunMounted (points : List (List FileName)) : Prop extends Covers points runDir where
  full : [] ∉ points

theorem Early.runInMemory (early : Early shares containerfile shipped points s)
    (wired : Wired boot shares) (run : RunMounted points) :
    ∃ r, (runDir, ⟨.memory, r⟩) ∈ s.2.mounts ∧ RunInMemory (s.view boot) r := by
  have table : (s.view boot).table.map Prod.fst = points := early.points
  obtain ⟨⟨store, r⟩, member, placed⟩ := early.toStaged.covered run.toCovers boot
  obtain rfl : store = .memory := early.memory _ member (show runDir ≠ contextDir by decide)
    (show runDir ≠ outputDir by decide)
  refine ⟨r, member, placed, ?_, rfl, ?_, early.bare, early.rooted _ member rfl⟩
  · rw [table]
    intro point found covers
    rw [List.prefix_nil.mp covers] at found
    exact run.full found
  · rw [show (s.view boot).top.root = boot.root from rfl, wired.root]
    exact early.ready.plain runDir (by decide) [] List.nil_prefix

theorem RunInMemory.placed (run : RunInMemory view r) :
    view.place runDir = (⟨.memory, r⟩, []) := run.place []

/-- What is above a path below `/run` is the root, or below `/run` too. -/
theorem run_prefix {pre rest : List FileName} (covers : pre <+: runDir ++ rest) :
    pre = [] ∨ ∃ more, pre = runDir ++ more := by
  rcases List.prefix_or_prefix_of_prefix covers (List.prefix_append runDir rest) with up | ⟨more, same⟩
  · rcases List.prefix_concat_iff.mp (show pre <+: [] ++ runDir from up) with rfl | up
    · exact .inr ⟨[], rfl⟩
    · exact .inl (List.prefix_nil.mp up)
  · exact .inr ⟨more, same.symm⟩

theorem RunInMemory.plain_path (run : RunInMemory view r) (rest : List FileName) :
    view.Plain (runDir ++ rest) := by
  intro pre covers target linked
  rcases run_prefix covers with rfl | ⟨more, rfl⟩
  · rw [Mounted.node, place_free run.free, run.host] at linked
    exact run.plain target linked
  · rw [Mounted.node, run.place] at linked
    obtain ⟨ino, _, found⟩ := nodeAt_some.mp linked
    exact run.bare ino target found

theorem RunInMemory.alter (run : RunInMemory view r) {memory : Files}
    (bare : ∀ ino target, memory.nodes.lookup ino ≠ some (.link target))
    (present : memory.nodes.lookup r ≠ none) : RunInMemory (view.alter .memory memory) r where
  place := run.place
  free := run.free
  host := run.host
  plain := run.plain
  bare := bare
  present := present

theorem bare_add {fs : Files} (bare : ∀ ino target, fs.nodes.lookup ino ≠ some (.link target))
    (plain : ∀ target, node ≠ .link target) (pos : Position FileName)
    (entries : FiniteMap FileName Nat) (n : FileName) (ino : Nat) (target : Route FileName) :
    (fs.add pos entries n node).nodes.lookup ino ≠ some (.link target) := by
  rw [lookup_add]
  split
  · exact fun same => plain target (Option.some.inj same)
  · split
    · exact fun same => by cases same
    · exact bare ino target

theorem bare_put {fs : Files} (bare : ∀ ino target, fs.nodes.lookup ino ≠ some (.link target))
    (file : Nat) (mode : Nat) (contents : List UInt8) (ino : Nat) (target : Route FileName) :
    (fs.put file (.file mode contents)).nodes.lookup ino ≠ some (.link target) := by
  rw [lookup_put]
  split
  · exact fun same => by cases same
  · exact bare ino target

def containersName : FileName := ⟨Utf8.encode "containers", by decide⟩

def resolvName : FileName := ⟨Utf8.encode "resolv.conf", by decide⟩

/-- The view of a guest that has more in its memory. -/
structure MemoryGrew (r : Nat) (view view' : View) : Prop where
  table : view'.table = view.table
  host : view'.stores .host = view.stores .host
  run : RunInMemory view' r
  present : ∀ ino, (view.stores .memory).nodes.lookup ino ≠ none →
    (view'.stores .memory).nodes.lookup ino ≠ none

theorem makeRunContainers_grew (machine : Machine buildah) (s : Guest buildah)
    (run : RunInMemory view r) : MemoryGrew r view (machine.makeDirs s runContainers view).2 := by
  have parsed : steps runContainers = some ((runDir ++ [containersName]).map .name) := by decide
  have above : ∀ pre ∈ (runDir ++ [containersName]).inits.tail, pre <+: runDir ++ [containersName] :=
    fun pre found => (List.mem_inits _ _).mp (List.mem_of_mem_tail found)
  rw [Machine.makeDirs, parsed]
  dsimp only
  rw [List.map_inits, ← List.map_tail]
  refine Mounted.makeDirs_induction (MemoryGrew r view) _ (fun pre found view' grew => ?_)
    (fun view' init n found grew inside absent => ?_) ⟨rfl, rfl, run, fun _ => id⟩
  · exact (grew.run.plain_path _).shorter (above pre found)
  · have below := above _ found
    rcases run_prefix ((List.prefix_append init [n]).trans below) with rfl | ⟨more, rfl⟩
    · -- `/run` itself is there
      exfalso
      have first : [n] = runDir := by
        have single : runDir = [⟨Utf8.encode "run", by decide⟩] := by decide
        rw [single] at below ⊢
        rw [(List.cons_prefix_cons.mp below).1]
      rw [List.nil_append, first, Mounted.node, grew.run.placed] at absent
      exact grew.run.present absent
    · obtain ⟨entries, there⟩ := Mounted.isDir_iff.mp inside
      obtain ⟨ino, _, _, added⟩ := Mounted.add_eq there n (.dir ∅)
      rw [grew.run.place] at added
      rw [added]
      exact {
        table := grew.table
        host := grew.host
        run := grew.run.alter (bare_add grew.run.bare (fun _ same => by cases same) _ _ _)
          (lookup_add_present grew.run.present _ _ _ _)
        present := fun j before => lookup_add_present (grew.present j before) _ _ _ _ }

theorem Keeps.makeRunContainers (wired : Wired boot shares) (run : RunMounted points) :
    Keeps machine boot invariant shares (Early shares containerfile shipped points)
      .makeRunContainers (Early shares containerfile shipped points) := by
  refine .of_inside (.stable points) fun s early => ?_
  obtain ⟨r, _, inMemory⟩ := early.runInMemory wired run
  have grew := makeRunContainers_grew machine s inMemory
  have performed : (machine.perform boot .makeRunContainers s).2 =
      s.settle (machine.makeDirs s runContainers (s.view boot)).2 := rfl
  rw [performed]
  refine ⟨grew.host, fun _ => ?_⟩
  have settled : (s.settle (machine.makeDirs s runContainers (s.view boot)).2).2.mounts =
    s.2.mounts := grew.table
  have host : (s.settle (machine.makeDirs s runContainers (s.view boot)).2).1 = s.1 := grew.host
  exact {
    ready := by rw [host]; exact early.ready
    points := by rw [settled]; exact early.points
    context := by rw [settled]; exact early.context
    output := by rw [settled]; exact early.output
    memory := by rw [settled]; exact early.memory
    bare := grew.run.bare
    rooted := by
      rw [settled]
      exact fun mount member inMemory => grew.present _ (early.rooted mount member inMemory) }

end ImageBuilder.VmGuest
