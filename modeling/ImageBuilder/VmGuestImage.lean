import ImageBuilder.VmGuestBuild

/-! One guest beside others, from `buildah bud` to its last command: what the image is built
from, and that it is what the tarball holds. -/
namespace ImageBuilder.VmGuest

open Inode Inode.FileSystem VmBuilder VmBuildScript VmBuildFiles

variable {shares : Shares} {containerfile shipped content : List UInt8} {buildah : Buildah}
  {boot : Boot} {machine : Machine buildah} {invariant : Files → Prop} {s : Guest buildah}
  {own : Bool}

/-- All that the script mounts, the last mount first. -/
def allMounted : Bool → List (List FileName)
  | true => [tmpDir, etcResolv, runDir, storageDir, outputDir, contextDir]
  | false => [tmpDir, runDir, storageDir, outputDir, contextDir]

def buildShare : List FileName := named ["build"]

def etcDir : List FileName := named ["etc"]

theorem covers_context (own : Bool) : Covers (allMounted own) contextDir := by
  cases own <;> exact ⟨by decide, by decide⟩

theorem covers_output (own : Bool) : Covers (allMounted own) outputDir := by
  cases own <;> exact ⟨by decide, by decide⟩

theorem covers_scratch (own : Bool) (member : dir ∈ scratch) :
    Covers (allMounted own) dir ∧ dir ≠ contextDir ∧ dir ≠ outputDir := by
  rw [show scratch = [storageDir, runDir, tmpDir] from rfl] at member
  simp only [List.mem_cons, List.not_mem_nil, or_false] at member
  rcases member with rfl | rfl | rfl
  all_goals
    refine ⟨?_, by decide, by decide⟩
    cases own <;> exact ⟨by decide, by decide⟩

theorem free_above (own : Bool) : Free (allMounted own) buildShare ∧ Free (allMounted own) etcDir := by
  cases own <;> exact ⟨by decide, by decide⟩

section Places

variable (staged : Staged shares containerfile shipped (allMounted own) s)

include staged

theorem place_context (rest : List FileName) :
    (s.view boot).place (contextDir ++ rest) = (⟨.host, shares.context⟩, rest) := by
  obtain ⟨volume, member, placed⟩ := staged.covered (covers_context own) boot
  obtain rfl := staged.context volume member
  exact placed rest

theorem place_output (rest : List FileName) :
    (s.view boot).place (outputDir ++ rest) = (⟨.host, shares.output⟩, rest) := by
  obtain ⟨volume, member, placed⟩ := staged.covered (covers_output own) boot
  obtain rfl := staged.output volume member
  exact placed rest

/-- What is below the directories of `buildah` is in memory. -/
theorem place_scratch (member : dir ∈ scratch) (below : dir <+: path) :
    ((s.view boot).place path).1.store = .memory := by
  obtain ⟨covers, first, second⟩ := covers_scratch own member
  obtain ⟨volume, mounted, placed⟩ := staged.covered covers boot
  obtain ⟨rest, rfl⟩ := below
  rw [placed]
  exact staged.memory _ mounted first second

theorem node_share (wired : Wired boot shares) (free : Free (allMounted own) path) :
    (s.view boot).node path = s.1.nodeAt shares.root path := by
  have uncovered : Free ((s.view boot).table.map Prod.fst) path := by
    rw [show (s.view boot).table.map Prod.fst = s.2.mounts.map Prod.fst from rfl, staged.points]
    exact free
  rw [Mounted.node, place_free uncovered, ← wired.root]
  rfl

/-- No link stands on the way to `/build`. -/
theorem plain_build (wired : Wired boot shares) : (s.view boot).Plain buildShare := by
  intro pre covers target
  rw [node_share staged wired ((free_above own).1.shorter covers)]
  exact staged.ready.plain contextDir (by decide) pre (covers.trans (by decide)) target

theorem plain_context (wired : Wired boot shares) : (s.view boot).Plain contextDir := by
  have split : contextDir = buildShare ++ [⟨Utf8.encode "context", by decide⟩] := by decide
  have here : (s.view boot).node contextDir = s.1.nodes.lookup shares.context := by
    rw [← List.append_nil contextDir, Mounted.node, place_context staged]
    rfl
  obtain ⟨_, found⟩ := staged.ready.containerfile
  obtain ⟨entries, dir⟩ := nodeAt_above (a := []) found (List.cons_ne_nil _ _)
  rw [split] at here ⊢
  refine (plain_build staged wired).concat fun target linked => ?_
  rw [here, ← nodeAt_nil, dir] at linked
  cases linked

theorem plain_output (wired : Wired boot shares) :
    (s.view boot).Plain (outputDir ++ [shares.name]) := by
  have split : outputDir = buildShare ++ [⟨Utf8.encode "output", by decide⟩] := by decide
  have here : (s.view boot).node outputDir = s.1.nodes.lookup shares.output := by
    rw [← List.append_nil outputDir, Mounted.node, place_output staged]
    rfl
  obtain ⟨entries, dir⟩ := staged.ready.outputDir
  have above : (s.view boot).Plain outputDir := by
    rw [split] at here ⊢
    refine (plain_build staged wired).concat fun target linked => ?_
    rw [here, dir] at linked
    cases linked
  refine above.concat fun target => ?_
  rw [Mounted.node, place_output staged]
  exact staged.ready.output target

end Places

section Reading

theorem read_names (parsed : steps path = some (names.map .name)) (plain : (s.view boot).Plain names)
    (found : Machine.read boot s path = some bytes) :
    ∃ mode, (s.view boot).node names = some (.file mode bytes) := by
  rw [Machine.read, parsed] at found
  dsimp only at found
  split at found
  · cases found
  · rename_i reached resolved
    obtain ⟨rfl, _⟩ := Mounted.resolve_names plain resolved
    split at found <;> cases found
    rename_i mode there
    exact ⟨mode, there⟩

theorem read_file (parsed : steps path = some (names.map .name))
    (dirs : ∀ pre, pre <+: names → pre ≠ names → (s.view boot).isDir pre = true)
    (found : (s.view boot).node names = some (.file mode bytes)) :
    Machine.read boot s path = some bytes := by
  have resolved := Mounted.resolve_dirs dirs found fun target same => by cases same
  rw [Machine.read, parsed]
  dsimp only
  rw [resolved]
  dsimp only
  rw [found]

end Reading

/-- What `buildah bud` is given by one guest: its own Containerfile, context, tag and resolver
configuration. -/
structure Asked (invariant : Files → Prop) (shares : Shares) (containerfile content : List UInt8)
    (tag : Text) (input : BudInput) : Prop where
  containerfile : input.containerfile = containerfile
  tag : input.tag = tag
  resolvConf : input.resolvConf = some content
  context : ∃ h, invariant h ∧
    ∀ names, input.context names = (h.nodeAt shares.context names).map Item.of

/-- `/etc/resolv.conf` of a guest. -/
theorem read_resolvConf (wired : Wired boot shares)
    (configured : Configured shares containerfile shipped (allMounted own) own content s) :
    Machine.read boot s etcResolvConf = some content := by
  have split : etcResolv = etcDir ++ [resolvName] := by decide
  have parsed : steps etcResolvConf = some (etcResolv.map .name) := by decide
  have staged := configured.toStaged
  obtain ⟨kept, shippedFile⟩ := staged.ready.resolvConf
  have found : ∃ mode, (s.view boot).node etcResolv = some (.file mode content) := by
    cases own with
    | true =>
      obtain ⟨file, mode, chosen, there⟩ := configured.bound rfl
      refine ⟨mode, ?_⟩
      have placed : (s.view boot).place etcResolv = (⟨.memory, file⟩, []) := by
        rw [Mounted.place, show (s.view boot).table = s.2.mounts from rfl, chosen]
        dsimp only
        rw [List.drop_length]
      rw [Mounted.node, placed]
      exact there
    | false =>
      refine ⟨kept, ?_⟩
      rw [node_share staged wired (by decide), configured.ships rfl]
      exact shippedFile
  obtain ⟨mode, found⟩ := found
  refine read_file parsed (fun pre covers proper => ?_) found
  obtain ⟨rest, whole⟩ := covers
  have above : pre <+: etcDir := by
    rcases List.prefix_concat_iff.mp (split ▸ ⟨rest, whole⟩ : pre <+: etcDir ++ [resolvName]) with
      same | above
    · exact absurd (same.trans split.symm) proper
    · exact above
  have below : rest ≠ [] := by
    rintro rfl
    rw [List.append_nil] at whole
    exact proper whole
  rw [Mounted.isDir_iff, node_share staged wired ((free_above own).2.shorter above)]
  rw [← whole] at shippedFile
  exact nodeAt_above shippedFile below

theorem budInput_asked (wired : Wired boot shares) (kept : invariant s.1)
    (configured : Configured shares containerfile shipped (allMounted own) own content s)
    (given : Machine.budInput boot s = some input) :
    Asked invariant shares containerfile content boot.tag input := by
  have staged := configured.toStaged
  have parsed : steps contextPoint = some (contextDir.map .name) := by decide
  have named : steps containerfileVmPath =
      some ((contextDir ++ [containerfileEntry]).map .name) := by decide
  rw [Machine.budInput, wired.cfile, parsed, Option.map_some] at given
  split at given
  · rename_i bytes context readFile resolved
    cases given
    obtain ⟨rfl, _⟩ := Mounted.resolve_names (plain_context staged wired) (Option.some.inj resolved)
    obtain ⟨mode, ready⟩ := staged.ready.containerfile
    have there : (s.view boot).node (contextDir ++ [containerfileEntry]) =
        some (.file mode containerfile) := by
      rw [Mounted.node, place_context staged]
      exact ready
    have plain : (s.view boot).Plain (contextDir ++ [containerfileEntry]) := by
      refine (plain_context staged wired).concat fun target linked => ?_
      rw [there] at linked
      cases linked
    obtain ⟨_, same⟩ := read_names named plain readFile
    rw [there] at same
    cases same
    refine ⟨rfl, rfl, read_resolvConf wired configured, s.1, kept, fun names => ?_⟩
    dsimp only
    rw [Mounted.node, place_context staged]
    rfl
  · cases given

/-- Changes below the directories of `buildah` stay in memory. -/
theorem applyEdits_inside {view : View}
    (inside : ∀ edit ∈ edits, (view.place edit.1).1.store = .memory) :
    (applyEdits edits view).stores .host = view.stores .host ∧
      (applyEdits edits view).table = view.table := by
  induction edits generalizing view with
  | nil => exact ⟨rfl, rfl⟩
  | cons edit edits ih =>
    have first := inside edit List.mem_cons_self
    have later : ∀ other ∈ edits, ((view.alter (view.place edit.1).1.store (edit.2
        (view.stores (view.place edit.1).1.store))).place other.1).1.store = .memory :=
      fun other member => inside other (List.mem_cons_of_mem _ member)
    obtain ⟨host, table⟩ := ih later
    rw [applyEdits, List.foldl_cons]
    refine ⟨host.trans ?_, table⟩
    rw [first]
    rfl

/-- A guest that has run `buildah`: what its memory holds is up to `buildah`. -/
structure Holding (shares : Shares) (containerfile shipped : List UInt8) (own : Bool)
    (fact : Files → buildah.State → Text → Text → Prop) (s : Guest buildah) : Prop
    extends Staged shares containerfile shipped (allMounted own) s where
  fact : fact s.1 s.2.state s.2.ctr s.2.mnt

theorem Holding.stable {fact : Files → buildah.State → Text → Text → Prop}
    (kept : ∀ h h' state ctr mnt, Ready shares containerfile shipped h → Rely shares h h' →
      fact h state ctr mnt → fact h' state ctr mnt) :
    Interleaving.Stable (Rely shares) (Holding shares containerfile shipped own fact) :=
  fun h h' _ holding rely => {
    toStaged := Staged.stable _ _ _ _ holding.toStaged rely
    fact := kept h h' _ _ _ holding.ready rely holding.fact }

/-- A command that runs `buildah`. -/
theorem Keeps.runBuildah {before : Guest buildah → Prop}
    {fact : Files → buildah.State → Text → Text → Prop}
    (stable : Interleaving.Stable (Rely shares) before)
    (staged : ∀ s, before s → Staged shares containerfile shipped (allMounted own) s)
    (acts : ∀ s : Guest buildah, invariant s.1 → before s → ∃ status vm,
      machine.perform boot command s = (status, Guest.settle (s.1, vm)
        (applyEdits (machine.edits command s) (Guest.view (s.1, vm) boot))) ∧
      vm.mounts = s.2.mounts ∧ (status = 0 → fact s.1 vm.state vm.ctr vm.mnt)) :
    Keeps machine boot invariant shares before command
      (Holding shares containerfile shipped own fact) := by
  refine .of stable fun s kept held => ?_
  obtain ⟨status, vm, performed, mounts, established⟩ := acts s kept held
  have there := staged s held
  have moved : Staged shares containerfile shipped (allMounted own) ((s.1, vm) : Guest buildah) := {
    ready := there.ready
    points := by rw [mounts]; exact there.points
    context := by rw [mounts]; exact there.context
    output := by rw [mounts]; exact there.output
    memory := by rw [mounts]; exact there.memory }
  have inside : ∀ edit ∈ machine.edits command s,
      ((Guest.view (s.1, vm) boot).place edit.1).1.store = .memory := by
    intro edit member
    obtain ⟨dir, kind, below⟩ := machine.within command s edit member
    exact place_scratch moved kind below
  obtain ⟨host, table⟩ := applyEdits_inside inside
  rw [performed]
  have unchanged : (Guest.settle (s.1, vm)
      (applyEdits (machine.edits command s) (Guest.view (s.1, vm) boot))).1 = s.1 := host
  have same : (Guest.settle (s.1, vm)
      (applyEdits (machine.edits command s) (Guest.view (s.1, vm) boot))).2.mounts = vm.mounts := table
  refine ⟨.inl ?_, fun succeeded => {
    ready := by rw [unchanged]; exact moved.ready
    points := by rw [same]; exact moved.points
    context := by rw [same]; exact moved.context
    output := by rw [same]; exact moved.output
    memory := by rw [same]; exact moved.memory
    fact := by rw [unchanged]; exact established succeeded }⟩
  dsimp only
  rw [unchanged]
  exact .refl _ _

section Handing

variable (shares containerfile content boot invariant)

/-- `buildah bud` has succeeded. -/
def Built (_ : Files) (state : buildah.State) (_ _ : Text) : Prop :=
  ∃ input before, Asked invariant shares containerfile content boot.tag input ∧
    buildah.bud input before = (0, state)

/-- A container has been made from the image. -/
def Created (_ : Files) (state : buildah.State) (ctr _ : Text) : Prop :=
  ∃ input before built, Asked invariant shares containerfile content boot.tag input ∧
    buildah.bud input before = (0, built) ∧ buildah.create boot.tag built = (0, ctr, state)

/-- The root filesystem of the image is mounted. -/
def Shown (_ : Files) (state : buildah.State) (_ mnt : Text) : Prop :=
  ∃ input image, Asked invariant shares containerfile content boot.tag input ∧
    buildah.rootfs state mnt = some image ∧ buildah.Builds input image

/-- The tarball holds the image. -/
def Handed (h : Files) (_ : buildah.State) (_ _ : Text) : Prop :=
  ∃ input image mode, Asked invariant shares containerfile content boot.tag input ∧
    buildah.Builds input image ∧
    h.nodeAt shares.output [shares.name] = some (.file mode (buildah.archive image))

end Handing

theorem Handed.stable (rely : Rely shares h h')
    (handed : Handed shares containerfile content boot invariant h state ctr mnt) :
    Handed shares containerfile content boot invariant h' state ctr mnt := by
  obtain ⟨input, image, mode, asked, builds, found⟩ := handed
  obtain ⟨changed, grown, spared⟩ := rely.grown
  exact ⟨input, image, mode, asked, builds, grown.nodeAt_file found fun ino reached altered =>
    (spared ino altered).1 reached⟩

theorem Keeps.buildahBud (wired : Wired boot shares) :
    Keeps machine boot invariant shares
      (Configured shares containerfile shipped (allMounted own) own content) .buildahBud
      (Holding shares containerfile shipped own
        (Built shares containerfile content boot invariant)) := by
  refine .runBuildah (.stable own content) (fun _ configured => configured.toStaged)
    fun s kept configured => ?_
  cases given : Machine.budInput boot s with
  | none =>
    refine ⟨(machine.failure .buildahBud s).val, s.2, ?_, rfl, fun succeeded =>
      absurd succeeded (machine.failure _ s).property⟩
    simp only [Machine.perform, Machine.bud, given]
    rfl
  | some input =>
    refine ⟨(buildah.bud input s.2.state).1, { s.2 with state := (buildah.bud input s.2.state).2 },
      ?_, rfl, fun succeeded => ?_⟩
    · simp only [Machine.perform, Machine.bud, given]
      rfl
    · exact ⟨input, s.2.state, budInput_asked wired kept configured given, Prod.ext succeeded rfl⟩

theorem Keeps.buildahFrom :
    Keeps machine boot invariant shares (Holding shares containerfile shipped own
        (Built shares containerfile content boot invariant)) .buildahFrom
      (Holding shares containerfile shipped own
        (Created shares containerfile content boot invariant)) := by
  refine .runBuildah (.stable fun _ _ _ _ _ _ _ => id) (fun _ holding => holding.toStaged)
    fun s kept holding => ?_
  refine ⟨(buildah.create boot.tag s.2.state).1, { s.2 with
    ctr := (buildah.create boot.tag s.2.state).2.1
    state := (buildah.create boot.tag s.2.state).2.2 }, rfl, rfl, fun succeeded => ?_⟩
  obtain ⟨input, before, asked, built⟩ := holding.fact
  exact ⟨input, before, s.2.state, asked, built, Prod.ext succeeded rfl⟩

theorem Keeps.buildahMount :
    Keeps machine boot invariant shares (Holding shares containerfile shipped own
        (Created shares containerfile content boot invariant)) .buildahMount
      (Holding shares containerfile shipped own
        (Shown shares containerfile content boot invariant)) := by
  refine .runBuildah (.stable fun _ _ _ _ _ _ _ => id) (fun _ holding => holding.toStaged)
    fun s kept holding => ?_
  refine ⟨(buildah.mount s.2.ctr s.2.state).1, { s.2 with
    mnt := (buildah.mount s.2.ctr s.2.state).2.1
    state := (buildah.mount s.2.ctr s.2.state).2.2 }, rfl, rfl, fun succeeded => ?_⟩
  obtain ⟨input, before, built, asked, bud, created⟩ := holding.fact
  rw [← asked.tag] at created
  obtain ⟨image, shown, builds⟩ := buildah.hands input before built s.2.ctr s.2.state _ _ bud created
    (show buildah.mount s.2.ctr s.2.state = (0, _, _) from Prod.ext succeeded rfl)
  exact ⟨input, image, asked, shown, builds⟩

/-- The path of the tarball in the VM. -/
theorem steps_output (spelled : Utf8.encode outputFile = name.val) :
    steps (outputShare ++ outputFile) = some ((outputDir ++ [name]).map .name) := by
  have ahead : Utf8.encode outputShare = Utf8.encode "/build/output" ++ [0x2f] := by decide
  have raw : PathBuf.raw (.utf8 (outputShare ++ outputFile)) =
      Utf8.encode "/build/output" ++ 0x2f :: name.val := by
    show Utf8.encode (outputShare ++ outputFile) = _
    rw [Utf8.encode_append, spelled, ahead, List.append_assoc, List.singleton_append]
  have above : ofPieces ((Utf8.encode "/build/output").splitOn 0x2f) =
      some ⟨true, outputDir.map .name⟩ := by decide
  have single : name.val.splitOn 0x2f = [name.val] :=
    List.splitOn_eq_singleton name.property.2.2.2.1
  rw [steps, PathBuf.route, raw, List.splitOn_append_cons_self, single,
    ofPieces_append (List.splitOn_ne_nil _ _), above, mapM_cons_some (step?_name name) rfl]
  rw [List.map_append]
  rfl

/-- What `tar` does to the host. -/
theorem tar_host (machine : Machine buildah) (wired : Wired boot shares) (closed : s.1.Closed)
    (staged : Staged shares containerfile shipped (allMounted own) s) :
    Machine.tar machine boot s = .error s ∨
    ∃ entries, s.1.nodes.lookup shares.output = some (.dir entries) ∧
      (entries.lookup shares.name = none ∨ ∃ j kept old, entries.lookup shares.name = some j ∧
        s.1.nodes.lookup j = some (.file kept old)) ∧
      ((∃ bytes, Machine.tar machine boot s = .error (s.1.written [(shares.name, shares.output)]
          entries shares.name 0o644 bytes, s.2)) ∨
        ∃ image, buildah.rootfs s.2.state s.2.mnt = some image ∧
          Machine.tar machine boot s = .ok (s.1.written [(shares.name, shares.output)]
            entries shares.name 0o644 (buildah.archive image), s.2)) := by
  have above : (s.view boot).place outputDir = (⟨.host, shares.output⟩, []) := by
    rw [← place_output staged [], List.append_nil]
  cases opened : (s.view boot).openTruncate 0o644 ((outputDir ++ [shares.name]).map .name) with
  | error e =>
    refine .inl ?_
    rw [Machine.tar, steps_output wired.outputFile]
    dsimp only
    rw [opened]
  | ok result =>
    obtain ⟨file, view⟩ := result
    refine .inr ?_
    obtain ⟨ino, entries, reached, found, writable, rfl, written⟩ :=
      Mounted.openTruncate_written (plain_output staged wired)
        (by rw [place_output staged, above, List.nil_append]) (by rw [above]; exact closed) opened
    rw [Mounted.inode, above] at reached
    cases reached
    rw [above] at found writable written opened
    refine ⟨entries, found, writable, ?_⟩
    cases shown : buildah.rootfs s.2.state s.2.mnt with
    | none =>
      refine .inl ⟨[], ?_⟩
      rw [Machine.tar, steps_output wired.outputFile]
      dsimp only
      rw [opened]
      dsimp only
      rw [shown]
      rfl
    | some image =>
      by_cases whole : ∃ count, machine.cut s (buildah.archive image) = some count ∧
          count < (buildah.archive image).length
      · obtain ⟨count, cut, short⟩ := whole
        refine .inl ⟨(buildah.archive image).take count, ?_⟩
        rw [Machine.tar, steps_output wired.outputFile]
        dsimp only
        rw [opened]
        dsimp only
        rw [shown, Option.map_some]
        dsimp only
        rw [cut]
        dsimp only
        rw [if_pos short, written]
        rfl
      · refine .inr ⟨image, rfl, ?_⟩
        rw [Machine.tar, steps_output wired.outputFile]
        dsimp only
        rw [opened]
        dsimp only
        rw [shown, Option.map_some]
        dsimp only
        rw [written]
        split
        · rename_i count cut
          rw [if_neg fun short => whole ⟨count, cut, short⟩]
          rfl
        · rfl

theorem Keeps.tar (wired : Wired boot shares) (closed : ∀ h, invariant h → h.Closed)
    (spared : ∀ h, invariant h → ∀ ino mode contents, h.nodes.lookup ino = some (.file mode contents) →
      h.reach shares.output [shares.name] = some ino →
      ∀ input ∈ shares.inputs, h.reach input.1 input.2 ≠ some ino) :
    Keeps machine boot invariant shares (Holding shares containerfile shipped own
        (Shown shares containerfile content boot invariant)) .tar
      (Holding shares containerfile shipped own
        (Handed shares containerfile content boot invariant)) := by
  refine .of (.stable fun _ _ _ _ _ _ _ => id) fun s kept holding => ?_
  obtain ⟨input, image, asked, shown, builds⟩ := holding.fact
  have staged := holding.toStaged
  rw [Machine.perform]
  rcases tar_host machine wired (closed _ kept) staged with
    refused | ⟨entries, found, writable, ⟨bytes, cut⟩ | ⟨other, same, done⟩⟩
  · rw [refused]
    exact ⟨.inl (.refl _ _), fun succeeded => absurd succeeded (machine.failure _ s).property⟩
  · rw [cut]
    exact ⟨.inr (.wrote found bytes), fun succeeded =>
      absurd succeeded (machine.failure _ s).property⟩
  · rw [shown] at same
    cases same
    rw [done]
    refine ⟨.inr (.wrote found _), fun _ => ?_⟩
    obtain ⟨mode, there⟩ := written_nodeAt found writable 0o644 (buildah.archive image)
    have delivered : Delivered shares s.1 (s.1.written [(shares.name, shares.output)] entries
      shares.name 0o644 (buildah.archive image)) := .wrote found _
    have ready := staged.ready.grown delivered.grown delivered.linkless
      fun read member ino reached altered => by
        obtain ⟨named, _, _, file⟩ := altered
        exact spared _ kept ino _ _ file named read member reached
    exact {
      ready := ready
      points := staged.points
      context := staged.context
      output := staged.output
      memory := staged.memory
      fact := ⟨input, image, mode, asked, builds, there⟩ }

theorem Keeps.buildahUmount :
    Keeps machine boot invariant shares (Holding shares containerfile shipped own
        (Handed shares containerfile content boot invariant)) .buildahUmount
      (Holding shares containerfile shipped own
        (Handed shares containerfile content boot invariant)) := by
  refine .runBuildah (.stable fun _ _ _ _ _ _ => Handed.stable) (fun _ holding => holding.toStaged)
    fun s kept holding => ?_
  exact ⟨(buildah.umount s.2.ctr s.2.state).1, { s.2 with
    state := (buildah.umount s.2.ctr s.2.state).2 }, rfl, rfl, fun _ => holding.fact⟩

theorem Keeps.buildahRm :
    Keeps machine boot invariant shares (Holding shares containerfile shipped own
        (Handed shares containerfile content boot invariant)) .buildahRm
      (Holding shares containerfile shipped own
        (Handed shares containerfile content boot invariant)) := by
  refine .runBuildah (.stable fun _ _ _ _ _ _ => Handed.stable) (fun _ holding => holding.toStaged)
    fun s kept holding => ?_
  exact ⟨(buildah.remove s.2.ctr s.2.state).1, { s.2 with
    state := (buildah.remove s.2.ctr s.2.state).2 }, rfl, rfl, fun _ => holding.fact⟩

end ImageBuilder.VmGuest
