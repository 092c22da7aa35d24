import ImageBuilder.VmBuildFiles
import ImageBuilder.CommandLine

/-! Where the tarball of a VM build lands, against where the output path points. -/
namespace ImageBuilder

open Inode VmBuilder Fallible

/-- The directory entry a path names: its directory and its last name. Separators and `.`
after the name do not count. -/
def PathBuf.spot (fs : Files) (path : PathBuf) : Option (Nat × FileName) :=
  path.route.bind fun route =>
    match fs.entry ⟨route.absolute, route.steps.rdropWhile (· = .here)⟩ with
    | .ok (some (pos, _, n)) => some (fs.inode pos, n)
    | _ => none

theorem outputParent_raw (output : PathBuf) : (outputParent output).raw =
    match UnixPath.parent 0x2f 0x2e output.raw with
    | none | some [] => [0x2e]
    | some parent => parent := by
  rw [← PathBuf.parent_raw, outputParent]
  cases output.parent with
  | none => rfl
  | some parent =>
    by_cases bare : parent.isEmpty = true
    · dsimp only
      rw [if_pos bare, Option.map_some, (PathBuf.isEmpty_raw parent).mp bare]
      rfl
    · dsimp only
      rw [if_neg bare, Option.map_some]
      rw [PathBuf.isEmpty_raw] at bare
      obtain ⟨b, rest, full⟩ := List.exists_cons_of_ne_nil bare
      rw [full]

theorem spot_some : PathBuf.spot fs path = some (ino, n) ↔
    ∃ route pos entries, path.route = some route ∧
      fs.entry ⟨route.absolute, route.steps.rdropWhile (· = .here)⟩ = .ok (some (pos, entries, n)) ∧
      fs.inode pos = ino := by
  rw [PathBuf.spot, Option.bind_eq_some_iff]
  apply exists_congr
  intro route
  constructor
  · rintro ⟨parsed, named⟩
    split at named <;> cases named
    rename_i entered
    exact ⟨_, _, parsed, entered, rfl⟩
  · rintro ⟨pos, entries, parsed, entered, rfl⟩
    refine ⟨parsed, ?_⟩
    rw [entered]

/-- The pieces of a directory's path lead where the path put together from them does. -/
theorem route_rejoin {fs : Files} {kept : List (List UInt8)} (full : kept ≠ [])
    (clean : ∀ piece ∈ kept, 0x2f ∉ piece)
    (parsed : ofPieces ((UnixPath.rejoin 0x2f kept).splitOn 0x2f) = some route)
    (followed : fs.follow route = .ok pos) :
    ∃ base, ofPieces kept = some base ∧ fs.follow base = .ok pos := by
  rw [UnixPath.splitOn_rejoin full clean] at parsed
  by_cases root : kept = [[]]
  · rw [if_pos root] at parsed
    cases parsed
    subst root
    exact ⟨⟨true, []⟩, rfl, FileSystem.follow_idle [] [.here] (by simp) followed⟩
  · rw [if_neg root] at parsed
    exact ⟨route, parsed, followed⟩

/-- A path with a file name: it leads where its parent does, and then by that name. -/
theorem route_output {fs : Files} {output name : PathBuf} (named : output.fileName = some name)
    (parsed : (outputParent output).route = some route) (resolved : fs.resolve route = .ok pos) :
    ∃ base before after, fs.follow base = .ok pos ∧ (∀ step ∈ before, step = .here) ∧
      (∀ step ∈ after, step = .here) ∧
      output.route = (step? name.raw).map fun step =>
        ⟨base.absolute, base.steps ++ (before ++ step :: after)⟩ := by
  have found := PathBuf.fileName_raw output
  rw [named, Option.map_some] at found
  obtain ⟨init, tail, split, idle, busy, _, above⟩ := UnixPath.fileName_split found.symm
  have followed := FileSystem.resolve_follow resolved
  have parent := outputParent_raw output
  rw [above] at parent
  rw [PathBuf.route] at parsed
  rw [PathBuf.route, split]
  obtain ⟨after, asked, rest⟩ := mapM_idle idle
  by_cases bare : init = []
  · rw [if_pos bare] at parent
    rw [parent] at parsed
    cases parsed
    subst bare
    refine ⟨⟨false, []⟩, [], after, FileSystem.follow_idle [] [.here] (by simp) followed,
      by simp, rest, ?_⟩
    have first : name.raw ≠ [] := fun empty => busy (.inl empty)
    cases entered : step? name.raw with
    | none => exact ofPieces_none List.mem_cons_self entered
    | some step => rw [List.nil_append, ofPieces_relative first, mapM_cons_some entered asked]; rfl
  · obtain ⟨dropped, leads, whole⟩ := UnixPath.trimPieces_append 0x2e init
    obtain ⟨before, skipped, here⟩ := mapM_idle leads
    have full : UnixPath.trimPieces 0x2e init ≠ [] := by
      intro empty
      cases init with
      | nil => exact bare rfl
      | cons first rest => cases empty
    generalize UnixPath.trimPieces 0x2e init = kept at *
    have clean : ∀ piece ∈ kept, 0x2f ∉ piece := fun piece member =>
      UnixPath.not_mem_splitOn piece (by rw [split, ← whole]; simp [member])
    have visible := UnixPath.rejoin_ne_nil full clean
    rw [if_neg bare] at parent
    obtain ⟨b, rest', same⟩ := List.exists_cons_of_ne_nil visible
    rw [same] at parent
    dsimp only at parent
    rw [parent, ← same] at parsed
    obtain ⟨base, taken, followed⟩ := route_rejoin full clean parsed followed
    refine ⟨base, before, after, followed, here, rest, ?_⟩
    cases entered : step? name.raw with
    | none => exact ofPieces_none (by simp) entered
    | some step =>
      have more := mapM_append_some skipped (mapM_cons_some entered asked)
      rw [← whole, List.append_assoc, ofPieces_append full, taken, more]
      rfl

theorem trim_idle (steps : List (Step FileName)) (n : FileName)
    (after : ∀ step ∈ tail, step = Step.here) :
    (steps ++ Step.name n :: tail).rdropWhile (· = .here) = steps ++ [.name n] := by
  have dropped : (steps ++ [Step.name n] ++ tail).rdropWhile (· = .here) =
      (steps ++ [Step.name n]).rdropWhile (· = .here) := by
    rw [List.rdropWhile, List.rdropWhile, List.reverse_append, List.dropWhile_append_of_pos]
    simpa using after
  rw [List.append_cons, dropped]
  exact List.rdropWhile_concat_neg _ _ _ (by simp)

/-- What the last piece of a path names, by where the rest of it leads. -/
theorem spot_route {fs : Files} {path : PathBuf} {base : Route FileName}
    (followed : fs.follow base = .ok pos) (busy : ¬ UnixPath.Idle 0x2e piece)
    (dots : piece ≠ [0x2e, 0x2e]) (before : ∀ step ∈ idle, step = Step.here)
    (after : ∀ step ∈ tail, step = Step.here)
    (routed : path.route = (step? piece).map fun step =>
      ⟨base.absolute, base.steps ++ (idle ++ step :: tail)⟩) :
    path.spot fs = some (ino, n) ↔ step? piece = some (.name n) ∧ fs.inode pos = ino ∧
      ∃ entries, fs.nodes.lookup (fs.inode pos) = some (.dir entries) := by
  rw [spot_some, routed]
  cases asked : step? piece with
  | none => simp
  | some step =>
    obtain ⟨name, rfl, _⟩ := step?_busy busy dots asked
    have trimmed := trim_idle (base.steps ++ idle) name after
    rw [List.append_assoc] at trimmed
    constructor
    · rintro ⟨route, reached, entries, same, entered, rfl⟩
      cases same
      rw [trimmed, FileSystem.entry_ok] at entered
      obtain ⟨last, there⟩ := entered
      simp only [List.getLast?_concat, List.dropLast_concat, Option.some.injEq] at last there
      obtain ⟨rfl, found⟩ := (FileSystem.directory_idle before followed).mp there
      exact ⟨by rw [last], rfl, entries, found⟩
    · rintro ⟨same, rfl, entries, found⟩
      cases same
      refine ⟨_, pos, entries, rfl, ?_, rfl⟩
      rw [trimmed, FileSystem.entry_ok]
      refine ⟨List.getLast?_concat, ?_⟩
      rw [List.dropLast_concat]
      exact (FileSystem.directory_idle before followed).mpr ⟨rfl, found⟩

theorem fileName_busy {output name : PathBuf} (named : output.fileName = some name) :
    ¬ UnixPath.Idle 0x2e name.raw ∧ name.raw ≠ [0x2e, 0x2e] ∧ 0x2f ∉ name.raw := by
  have found := PathBuf.fileName_raw output
  rw [named, Option.map_some] at found
  obtain ⟨init, tail, split, _, busy, dots, _⟩ := UnixPath.fileName_split found.symm
  exact ⟨busy, dots, UnixPath.not_mem_splitOn name.raw (by rw [split]; simp)⟩

/-- The file that an output path names is the one of its own name in the canonical
directory its parent leads to. -/
theorem spot_output {fs : Files} {output name : PathBuf} (named : output.fileName = some name)
    (parsed : (outputParent output).route = some route) (resolved : fs.resolve route = .ok pos)
    (spelled : name.raw = Utf8.encode text) :
    ((PathBuf.ofNames (pos.map Prod.fst).reverse).join text).spot fs = output.spot fs := by
  obtain ⟨busy, dots, clean⟩ := fileName_busy named
  obtain ⟨base, before, after, followed, here, rest, routed⟩ := route_output named parsed resolved
  have linked := FileSystem.follow_linked (FileSystem.resolve_follow resolved)
  apply Option.ext
  rintro ⟨ino, n⟩
  rw [spot_route followed busy dots here rest routed]
  rw [spelled] at busy dots clean
  rw [spelled]
  refine spot_route linked.follow busy dots (List.forall_mem_nil _) (List.forall_mem_nil _) ?_
  rw [ofNames_join _ clean]
  cases asked : step? (Utf8.encode text) with
  | none => exact ofPieces_none (by simp) asked
  | some step =>
    have names : ofPieces ([] :: (pos.map Prod.fst).reverse.map Subtype.val) =
        some ⟨true, (pos.map Prod.fst).reverse.map .name⟩ := by
      simp only [ofPieces, List.head?_cons, List.tail_cons, decide_true, ↓reduceIte, mapM_names,
        Option.map_some]
    rw [ofPieces_append (List.cons_ne_nil _ _), names, mapM_cons_some asked rfl]
    rfl

namespace VmBuildFiles

/-- The tarball goes to the file that the output path names, which is what is reported. -/
structure Landed (kernel : Kernel) (config : VmConfig) (output : PathBuf) (build : VmBuild)
    (fs : Files) : Prop where
  dir : kernel.canonicalize fs (outputParent output) = .ok build.outputDir
  path : ∃ name, output.fileName = some name ∧
    build.outputPath.raw = UnixPath.join 0x2f build.outputDir.raw name.raw
  share : build.hostPath build.outputVmPath = some build.outputPath
  spot : build.outputPath.spot fs = output.spot fs
  reported : ∀ display, buildSummary display (.vm config output) =
    some ("Wrote ".toList ++ display output)

theorem hostPath_outputVmPath (build : VmBuild) :
    build.hostPath build.outputVmPath = some build.outputPath := by
  have stripped : Text.stripPrefix? outputShare build.outputVmPath = some build.outputFilename :=
    Text.stripPrefix?_eq_some.mpr rfl
  rw [VmBuild.hostPath, stripped]
  rfl

theorem landed_iff
    (staged : stage kernel containerfile tag config contextDir output fs = .ok vmBuild final) :
    Landed kernel config output vmBuild final ↔
      ∃ name text, output.fileName = some name ∧ name.raw = Utf8.encode text := by
  obtain ⟨mid, _, _, resolved⟩ := stage_ok.mp staged
  obtain ⟨rootfs, context, name, outputDir, _, _, named, _, real, rfl⟩ := resolve_ok.mp resolved
  constructor
  · rintro ⟨_, ⟨other, also, same⟩, _, _, _⟩
    rw [named, Option.some.injEq] at also
    subst also
    refine ⟨name, name.toStringLossy, named, ?_⟩
    rw [VmBuild.outputPath, PathBuf.join_raw] at same
    exact (UnixPath.join_injective same).symm
  · rintro ⟨other, text, also, spelled⟩
    rw [named, Option.some.injEq] at also
    subst also
    obtain ⟨_, route, pos, parsed, reached, rfl⟩ := Kernel.canonicalize_ok.mp real
    have lossless : name.toStringLossy = text := by
      rw [PathBuf.toStringLossy, spelled, Utf8.lossy_encode]
    exact {
      dir := real
      path := ⟨name, named, by rw [VmBuild.outputPath, PathBuf.join_raw, lossless, spelled]⟩
      share := hostPath_outputVmPath _
      spot := by
        rw [VmBuild.outputPath, lossless]
        exact spot_output named parsed reached spelled
      reported := fun _ => rfl }

/-- A name that is not UTF-8. -/
def binaryOutput : PathBuf := .binary [0x2f, 0x6f, 0x75, 0x74, 0xff]

/-- The characters of a default name. -/
def Conservative (c : Char) : Prop := c.isAlphanum = true ∨ c = '.' ∨ c = '-' ∨ c = '_'

/-- One normal component of a relative path, in a conservative alphabet. -/
structure PlainName (name : Text) : Prop where
  alphabet : ∀ c ∈ name, Conservative c
  relative : '/' ∉ name
  single : UnixPath.pieces '/' '.' name = [name]
  proper : name ≠ [] ∧ name ≠ ['.'] ∧ name ≠ ['.', '.']

namespace PlainName

theorem bare {name : Text} (alphabet : ∀ c ∈ name, Conservative c) : '/' ∉ name := by
  intro member
  rcases alphabet '/' member with letter | other
  · cases letter
  · simp at other

theorem of_length (alphabet : ∀ c ∈ name, Conservative c) (long : 2 < name.length) :
    PlainName name where
  alphabet := alphabet
  relative := bare alphabet
  single := by
    rw [UnixPath.pieces, List.splitOn_eq_singleton (bare alphabet)]
    rfl
  proper := by
    refine ⟨?_, ?_, ?_⟩ <;>
      · rintro rfl
        simp at long

theorem fileName (plain : PlainName name) : PathBuf.fileName (.utf8 name) = some (.utf8 name) := by
  rw [PathBuf.fileName, UnixPath.fileName, plain.single]
  simp [plain.proper]

theorem parent (plain : PlainName name) : PathBuf.parent (.utf8 name) = some (.utf8 []) := by
  rw [PathBuf.parent, UnixPath.parent, plain.single]
  simp [plain.proper]

/-- A plain name in the output share is a direct child of it. -/
theorem child (plain : PlainName name) :
    UnixPath.parent '/' '.' (outputShare ++ name) = some "/build/output".toList ∧
      UnixPath.fileName '/' '.' (outputShare ++ name) = some name := by
  have split : (outputShare ++ name).splitOn '/' =
      [] :: (["build".toList, "output".toList] ++ [name]) := by
    have joined : outputShare ++ name = UnixPath.join '/'
        (UnixPath.rejoin '/' ([] :: ["build".toList, "output".toList])) name := rfl
    rw [joined]
    exact UnixPath.splitOn_join (by decide) (by decide) plain.relative
  have pieces : UnixPath.pieces '/' '.' (outputShare ++ name) =
      [] :: "build".toList :: ["output".toList, name] := by
    rw [UnixPath.pieces, split, UnixPath.trimPieces,
      List.rdropWhile_concat_neg _ _ _ (by simp [plain.proper])]
    rfl
  constructor
  · rw [UnixPath.parent_of_pieces pieces]
    rfl
  · rw [UnixPath.fileName, pieces]
    simp [plain.proper]

end PlainName

theorem vmOutputPath_plain (tag : Text) :
    ∃ name, vmOutputPath tag = .utf8 name ∧ PlainName name := by
  refine ⟨_, rfl, .of_length (fun c member => ?_) ?_⟩
  · rcases List.mem_append.mp member with stem | extension
    · obtain ⟨d, _, rfl⟩ := List.mem_map.mp stem
      split
      · rename_i kept
        simpa [Conservative, or_assoc] using kept
      · exact .inr (.inr (.inl rfl))
    · change c ∈ ['.', 't', 'a', 'r'] at extension
      simp only [List.mem_cons, List.not_mem_nil, or_false] at extension
      rcases extension with rfl | rfl | rfl | rfl
      · exact .inr (.inl rfl)
      all_goals exact .inl rfl
  · rw [List.length_append]
    change 2 < _ + 4
    omega

theorem outputParent_plain (plain : PlainName name) : outputParent (.utf8 name) = .utf8 "." := by
  rw [outputParent, plain.parent]
  rfl

/-- The canonical form of the current directory. -/
theorem canonicalize_here (real : Kernel.canonicalize kernel fs (.utf8 ".") = .ok dir) :
    dir = PathBuf.ofNames fs.cwd := by
  obtain ⟨_, route, pos, parsed, reached, rfl⟩ := Kernel.canonicalize_ok.mp real
  cases parsed
  have followed := FileSystem.follow_idle [] [.here] (by simp) (FileSystem.resolve_follow reached)
  unfold FileSystem.follow at followed
  split at followed
  · cases followed
  · rename_i begun
    rw [FileSystem.walk_arrived rfl, Except.ok.injEq] at followed
    subst followed
    rw [FileSystem.home_names begun]

/-- A build whose output is a plain name. -/
structure Confined (kernel : Kernel) (containerfile : Text) (contextDir : PathBuf) (fs : Files)
    (name : Text) (build : VmBuild) (final : Files) : Prop where
  filename : build.outputFilename = name
  here : kernel.canonicalize final (.utf8 ".") = .ok build.outputDir
  cwd : build.outputDir = PathBuf.ofNames fs.cwd
  written : writeContainerfile kernel contextDir containerfile fs = .ok () final
  noDirs : ∀ ino inside, fs.nodes.lookup ino = none → final.nodes.lookup ino ≠ some (.dir inside)
  share : UnixPath.parent '/' '.' build.outputVmPath = some "/build/output".toList ∧
    UnixPath.fileName '/' '.' build.outputVmPath = some name
  host : build.hostPath build.outputVmPath = some build.outputPath

theorem confined (plain : PlainName name)
    (staged : stage kernel containerfile tag config contextDir (.utf8 name) fs = .ok vmBuild final) :
    Confined kernel containerfile contextDir fs name vmBuild final := by
  obtain ⟨mid, _, wrote, resolved⟩ := stage_ok.mp staged
  obtain ⟨rootfs, context, found, outputDir, _, _, named, created, real, rfl⟩ :=
    resolve_ok.mp resolved
  rw [plain.fileName, Option.some.injEq] at named
  subst named
  rw [outputParent_plain plain] at created real
  have unchanged := Kernel.createDirAll_here kernel mid
  rw [created] at unchanged
  dsimp only at unchanged
  subst unchanged
  have lossless : PathBuf.toStringLossy (.utf8 name) = name := Utf8.lossy_encode name
  have effect : final.cwd = fs.cwd ∧ ∀ ino inside, fs.nodes.lookup ino = none →
      final.nodes.lookup ino ≠ some (.dir inside) := by
    obtain ⟨pos, entries, there, _, rfl⟩ := writeContainerfile_ok wrote
    refine ⟨(withContainerfile_extends there _).cwd, fun ino inside absent new => ?_⟩
    cases (FileSystem.written_new there.found absent new).1
  exact {
    filename := lossless
    here := real
    cwd := by rw [canonicalize_here real, effect.1]
    written := wrote
    noDirs := effect.2
    share := by
      rw [VmBuild.outputVmPath]
      dsimp only
      rw [lossless]
      exact plain.child
    host := hostPath_outputVmPath _ }

/-- Without `--vm-output`, a tag of any kind names a file of the current directory, in the
host and in the share alike. -/
theorem default_output_confined :
    (∀ tag, ∃ name, vmOutputPath tag = .utf8 name ∧ PlainName name ∧
      (vmOutputPath tag).fileName = some (.utf8 name) ∧
      (vmOutputPath tag).parent = some (.utf8 [])) ∧
    ∀ ip env cli config output, cli.vmOutput = none →
      selectVm ip env cli = .ok (.vm config output) →
      ∀ kernel containerfile contextDir fs vmBuild final,
        stage kernel containerfile cli.tag config contextDir output fs = .ok vmBuild final →
        ∃ name, vmOutputPath cli.tag = .utf8 name ∧
          Confined kernel containerfile contextDir fs name vmBuild final := by
  constructor
  · intro tag
    obtain ⟨name, same, plain⟩ := vmOutputPath_plain tag
    rw [same]
    exact ⟨name, rfl, plain, plain.fileName, plain.parent⟩
  · intro ip env cli config output absent selected kernel containerfile contextDir fs vmBuild final staged
    obtain ⟨name, same, plain⟩ := vmOutputPath_plain cli.tag
    have chosen := selectVm_output selected
    rw [absent, Option.getD_none, same] at chosen
    subst chosen
    exact ⟨name, same, confined plain staged⟩

/-- A tag that climbs, and a rootfs of the user's own. -/
def climbing : Cli :=
  { dnsCommandLine [.v4 192 168 1 254] with
    tag := "../../etc/passwd"
    vmRootfs := some (.utf8 "/") }

theorem default_output_confined_climbing : ∃ config output vmBuild final,
    selectVm IpText.plain willingEnvironment climbing = .ok (.vm config output) ∧
    stage Sample.willing "FROM alpine" climbing.tag config (.utf8 "/context") output
      (Sample.files (Sample.nodes [] [])) = .ok vmBuild final ∧
    Confined Sample.willing "FROM alpine" (.utf8 "/context") (Sample.files (Sample.nodes [] []))
      "..-..-etc-passwd.tar" vmBuild final := by
  have selected : selectVm IpText.plain willingEnvironment climbing =
      .ok (.vm ⟨.utf8 "/", defaultCpus, defaultMemoryMib, [.v4 192 168 1 254]⟩
        (.utf8 "..-..-etc-passwd.tar")) := rfl
  have ok : Sample.succeeds (fun _ _ => true) (stage Sample.willing "FROM alpine" climbing.tag
      ⟨.utf8 "/", defaultCpus, defaultMemoryMib, [.v4 192 168 1 254]⟩ (.utf8 "/context")
      (.utf8 "..-..-etc-passwd.tar") (Sample.files (Sample.nodes [] []))) = true := by decide
  obtain ⟨vmBuild, final, staged, _⟩ := Sample.succeeded ok
  obtain ⟨name, same, confined⟩ :=
    default_output_confined.2 _ _ _ _ _ rfl selected _ _ _ _ _ _ staged
  have spelled : "..-..-etc-passwd.tar".toList = name := Bytes.utf8.inj same
  subst spelled
  exact ⟨_, _, vmBuild, final, selected, staged, confined⟩

end VmBuildFiles
end ImageBuilder
