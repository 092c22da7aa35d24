import ImageBuilder.VmBuildFiles

/-! What a VM build does to the files of its host before its runner: to the context when
an input is rejected, and to everything else in any case. -/
namespace ImageBuilder.VmBuildFiles

open Inode VmBuilder Fallible

/-- The files and links below a context, by their names from it. -/
def contextFiles (fs : Files) (contextDir : PathBuf) (names : List FileName) :
    Option (Node FileName) :=
  match contextDir.asDirectory.route with
  | none => none
  | some route =>
    match fs.directory route with
    | .error _ => none
    | .ok (pos, _) => fs.fileAt (fs.inode pos) names

theorem Context.files (context : Context fs contextDir pos entries) (names : List FileName) :
    contextFiles fs contextDir names = fs.fileAt (fs.inode pos) names := by
  obtain ⟨route, parsed, there⟩ := context
  rw [contextFiles, parsed]
  dsimp only
  rw [there]

/-- A context stays where it is. -/
theorem Context.extends (context : Context fs contextDir pos entries)
    (grown : FileSystem.Extends changed fs final) :
    ∃ more, Context final contextDir pos more := by
  obtain ⟨route, parsed, there⟩ := context
  obtain ⟨more, still, _⟩ := grown.directory there
  exact ⟨more, route, parsed, still⟩

theorem Context.unique (context : Context fs contextDir pos entries)
    (also : Context fs contextDir other more) : other = pos ∧ more = entries := by
  obtain ⟨route, parsed, there⟩ := context
  obtain ⟨route', parsed', there'⟩ := also
  rw [parsed] at parsed'
  cases parsed'
  rw [there] at there'
  cases there'
  exact ⟨rfl, rfl⟩

/-- The Containerfile holds what was written to it. -/
theorem withContainerfile_fileAt (context : Context fs contextDir pos entries)
    (writable : Writable fs entries) (bytes : List UInt8) :
    ∃ mode, (withContainerfile fs pos entries bytes).fileAt (fs.inode pos) [containerfileEntry] =
      some (.file mode bytes) := by
  have found := context.found
  rcases writable with free | ⟨ino, mode, old, entered, present⟩
  · have apart : fs.inode pos ≠ fs.fresh := by
      intro same
      rw [same, FileSystem.fresh_absent] at found
      cases found
    refine ⟨0o644, FileSystem.fileAt_some.mpr ⟨fs.fresh, FileSystem.reach_cons.mpr
      ⟨entries.insert containerfileEntry fs.fresh, fs.fresh, ?_, Finmap.lookup_insert _, rfl⟩, ?_,
      fun _ same => by cases same⟩⟩
    · rw [withContainerfile, FileSystem.written, free]
      dsimp only
      rw [FileSystem.lookup_add, if_neg apart, if_pos rfl]
    · rw [withContainerfile, FileSystem.written, free]
      dsimp only
      rw [FileSystem.lookup_add, if_pos rfl]
  · have apart : fs.inode pos ≠ ino := by
      rintro same
      rw [same, present] at found
      cases found
    have wrote : withContainerfile fs pos entries bytes = fs.put ino (.file mode bytes) := by
      rw [withContainerfile, FileSystem.written, entered]
      dsimp only
      rw [FileSystem.setContents, present]
    rw [wrote]
    refine ⟨mode, FileSystem.fileAt_some.mpr ⟨ino, FileSystem.reach_cons.mpr
      ⟨entries, ino, ?_, entered, rfl⟩, ?_, fun _ same => by cases same⟩⟩
    · rw [FileSystem.lookup_put, if_neg apart]
      exact found
    · rw [FileSystem.lookup_put, if_pos rfl]

/-- Writing what is there already changes nothing. -/
theorem withContainerfile_same (context : Context fs contextDir pos entries)
    (there : fs.fileAt (fs.inode pos) [containerfileEntry] = some (.file mode bytes)) :
    withContainerfile fs pos entries bytes = fs := by
  obtain ⟨ino, reached, present, _⟩ := FileSystem.fileAt_some.mp there
  obtain ⟨inside, other, found, entered, last⟩ := FileSystem.reach_cons.mp reached
  cases last
  rw [context.found, Option.some.injEq, Node.dir.injEq] at found
  subst found
  rw [withContainerfile, FileSystem.written, entered]
  dsimp only
  rw [FileSystem.setContents, present]
  dsimp only
  rw [FileSystem.put, FiniteMap.insert_present present]

namespace Sample

/-- The sample with a Containerfile of the user's. -/
def withFile (text : Text) : Files :=
  files (nodes [] [(containerfileEntry, 6)] ++ [(6, .file 0o600 (Utf8.encode text))])

/-- Whether the Containerfile of the sample's context is a file that holds this. -/
def holds (text : Text) (fs : Files) : Bool :=
  match contextFiles fs (.utf8 "/context") [containerfileEntry] with
  | some (.file _ contents) => contents = Utf8.encode text
  | _ => false

/-- An output path that ends in `..` has no file name. -/
def nameless : PathBuf := .utf8 "/out/.."

theorem nameless_rejected (fs : Files)
    (usable : succeeds (fun _ _ => true) (checkRootfs willing config fs) = true)
    (wrote : succeeds (fun _ _ => true)
      (writeContainerfile willing (.utf8 "/context") "FROM alpine" fs) = true) :
    Rejected willing "FROM alpine" config (.utf8 "/context") nameless fs := by
  obtain ⟨_, _, checked, _⟩ := succeeded usable
  obtain ⟨_, _, written, _⟩ := succeeded wrote
  obtain rfl := checkRootfs_ok checked
  exact .path checked written (.fileName (by decide))

end Sample

/-- After a rejection the context's files are what they were exactly when the rejected input
is the rootfs, or the Containerfile held the text already. -/
theorem rejected_context_iff (runner : VmBuild → Staging Unit)
    (stopped : stage kernel containerfile tag config contextDir output fs = .error e final)
    (rejected : Rejected kernel containerfile config contextDir output fs) :
    build kernel containerfile tag config runner contextDir output fs = .error e final ∧
    (contextFiles final contextDir = contextFiles fs contextDir ↔
      (∃ e, checkRootfs kernel config fs = .error e fs) ∨
        ∃ mode, contextFiles fs contextDir [containerfileEntry] =
          some (.file mode (Utf8.encode containerfile))) := by
  refine ⟨bind_error.mpr (.inl stopped), ?_⟩
  rcases stage_error.mp stopped with ⟨unusable, rfl⟩ | ⟨usable, failed | ⟨mid, wrote, failed⟩⟩
  · exact iff_of_true rfl (.inl ⟨e, unusable⟩)
  · exfalso
    cases rejected with
    | rootfs unusable =>
      rw [usable] at unusable
      cases unusable
    | path _ wrote _ =>
      rw [failed] at wrote
      cases wrote
  · have grown := resolve_error_madeFor (resolve_error failed)
    obtain ⟨pos, entries, context, writable, rfl⟩ := writeContainerfile_ok wrote
    have written := withContainerfile_extends context (Utf8.encode containerfile)
    obtain ⟨_, between⟩ := context.extends written
    obtain ⟨_, last⟩ := between.extends grown.toExtends
    have kept : contextFiles final contextDir =
        (withContainerfile fs pos entries (Utf8.encode containerfile)).fileAt (fs.inode pos) := by
      funext names
      rw [last.files, grown.inode, grown.fileAt, written.inode]
    have before : contextFiles fs contextDir = fs.fileAt (fs.inode pos) := funext context.files
    have usable' : ¬ ∃ e, checkRootfs kernel config fs = .error e fs := by
      rintro ⟨e, unusable⟩
      rw [usable] at unusable
      cases unusable
    rw [kept, before, or_iff_right usable']
    constructor
    · intro same
      rw [← same]
      exact withContainerfile_fileAt context writable _
    · rintro ⟨mode, there⟩
      rw [withContainerfile_same context there]

theorem rejected_context_iff_same : ∃ e final,
    Sample.staged Sample.nameless (Sample.withFile "FROM alpine") = .error e final ∧
    Rejected Sample.willing "FROM alpine" Sample.config (.utf8 "/context") Sample.nameless
      (Sample.withFile "FROM alpine") ∧
    contextFiles final (.utf8 "/context") =
      contextFiles (Sample.withFile "FROM alpine") (.utf8 "/context") := by
  have ok : Sample.fails (fun _ => true)
      (Sample.staged Sample.nameless (Sample.withFile "FROM alpine")) = true := by decide
  obtain ⟨e, final, stopped, _⟩ := Sample.failed ok
  have rejected := Sample.nameless_rejected (Sample.withFile "FROM alpine")
    (by decide) (by decide)
  refine ⟨e, final, stopped, rejected, ?_⟩
  exact (rejected_context_iff (fun _ => pure ()) stopped rejected).2.mpr (.inr ⟨0o600, rfl⟩)

/-- An output path without a file name costs the user the Containerfile. -/
theorem containerfile_overwritten : ∃ e final,
    Sample.staged Sample.nameless (Sample.withFile "FROM mine") = .error e final ∧
    Rejected Sample.willing "FROM alpine" Sample.config (.utf8 "/context") Sample.nameless
      (Sample.withFile "FROM mine") ∧
    Sample.holds "FROM mine" (Sample.withFile "FROM mine") = true ∧
    Sample.holds "FROM alpine" final = true ∧
    contextFiles final (.utf8 "/context") ≠
      contextFiles (Sample.withFile "FROM mine") (.utf8 "/context") := by
  have ok : Sample.fails (Sample.holds "FROM alpine")
      (Sample.staged Sample.nameless (Sample.withFile "FROM mine")) = true := by decide
  obtain ⟨e, final, stopped, written⟩ := Sample.failed ok
  have rejected := Sample.nameless_rejected (Sample.withFile "FROM mine")
    (by decide) (by decide)
  have before : Sample.holds "FROM mine" (Sample.withFile "FROM mine") = true := by decide
  have other : Sample.holds "FROM alpine" (Sample.withFile "FROM mine") = false := by decide
  refine ⟨e, final, stopped, rejected, before, written, fun same => ?_⟩
  rw [Sample.holds, same, ← Sample.holds, other] at written
  cases written

/-- What a build may do before its runner. A file changes only if it is the context's own
Containerfile; what is new is that file, or a directory above the output. -/
structure Effects (contextDir output : PathBuf) (fs final : Files) : Prop where
  file : ∀ ino mode contents, fs.nodes.lookup ino = some (.file mode contents) →
    ∃ new, final.nodes.lookup ino = some (.file mode new) ∧
      (new = contents ∨ ∃ pos entries, Context fs contextDir pos entries ∧
        entries.lookup containerfileEntry = some ino)
  link : ∀ ino target, fs.nodes.lookup ino = some (.link target) →
    final.nodes.lookup ino = some (.link target)
  dir : ∀ ino entries, fs.nodes.lookup ino = some (.dir entries) →
    ∃ more, final.nodes.lookup ino = some (.dir more) ∧ FiniteMap.Sub entries more ∧
      ∀ n j, entries.lookup n = none → more.lookup n = some j → fs.nodes.lookup j = none
  made : ∀ ino node, fs.nodes.lookup ino = none → final.nodes.lookup ino = some node →
    (∃ pos entries more mode contents, Context fs contextDir pos entries ∧
      entries.lookup containerfileEntry = none ∧ Context final contextDir pos more ∧
      more.lookup containerfileEntry = some ino ∧ node = .file mode contents) ∨
    ∃ inside, node = .dir inside ∧ ∃ path ∈ (outputParent output).ancestors, ∃ route pos,
      path.route = some route ∧ final.resolve route = .ok pos ∧ final.inode pos = ino

theorem Effects.refl (contextDir output : PathBuf) (fs : Files) :
    Effects contextDir output fs fs where
  file _ _ contents found := ⟨contents, found, .inl rfl⟩
  link _ _ found := found
  dir := (show FileSystem.Extends (fun _ => False) fs fs from .refl fs).dir
  made ino node absent found := by
    rw [absent] at found
    cases found

/-- A write of the Containerfile, and directories made for the output. -/
theorem effects_of_write (context : Context fs contextDir pos entries)
    (grown : MadeFor (outputParent output).ancestors (withContainerfile fs pos entries bytes) final) :
    Effects contextDir output fs final := by
  have written := withContainerfile_extends context bytes
  have whole := written.trans grown.toExtends
  exact {
    file := fun ino mode contents found => by
      obtain ⟨new, still, kept⟩ := whole.file _ _ _ found
      refine ⟨new, still, ?_⟩
      by_cases named : entries.lookup containerfileEntry = some ino
      · exact .inr ⟨pos, entries, context, named⟩
      · exact .inl (kept (by simp [named]))
    link := whole.link
    dir := whole.dir
    made := fun ino node absent found => by
      cases between : (withContainerfile fs pos entries bytes).nodes.lookup ino with
      | none =>
        obtain ⟨inside, rfl⟩ := grown.made _ _ between found
        exact .inr ⟨inside, rfl, grown.named _ _ between found⟩
      | some middle =>
        left
        obtain ⟨rfl, free, entered⟩ := FileSystem.written_new context.found absent between
        obtain ⟨new, still, _⟩ := grown.file _ _ _ between
        rw [found, Option.some.injEq] at still
        obtain ⟨later, last⟩ := context.extends whole
        obtain ⟨more, there, sub, _⟩ := grown.dir _ _ entered
        have same := last.found
        rw [whole.inode, there, Option.some.injEq, Node.dir.injEq] at same
        subst same
        exact ⟨pos, entries, more, _, new, context, free, last, sub _ _ (Finmap.lookup_insert _), still⟩ }

/-- A link or a directory stands where the Containerfile is to be written. -/
def Planted (contextDir : PathBuf) (fs : Files) : Prop :=
  ∃ pos entries ino node, Context fs contextDir pos entries ∧
    entries.lookup containerfileEntry = some ino ∧ fs.nodes.lookup ino = some node ∧
    ∀ mode contents, node ≠ .file mode contents

theorem Planted.unwritable (planted : Planted contextDir fs) (context : Context fs contextDir pos entries) :
    ¬ Writable fs entries := by
  obtain ⟨_, _, ino, node, also, entered, present, other⟩ := planted
  obtain ⟨rfl, rfl⟩ := context.unique also
  rintro (free | ⟨j, mode, old, named, present'⟩)
  · rw [entered] at free
    cases free
  · rw [entered, Option.some.injEq] at named
    subst named
    rw [present, Option.some.injEq] at present'
    exact other _ _ present'

/-- A planted link or directory is never followed or replaced: it fails the build. -/
theorem stage_planted (kernel : Kernel) (containerfile tag : Text) (config : VmConfig)
    (output : PathBuf) (planted : Planted contextDir fs) :
    ∃ e, stage kernel containerfile tag config contextDir output fs = .error e fs := by
  cases staged : stage kernel containerfile tag config contextDir output fs with
  | ok vmBuild final =>
    obtain ⟨mid, _, wrote, _⟩ := stage_ok.mp staged
    obtain ⟨_, _, context, writable, _⟩ := writeContainerfile_ok wrote
    exact absurd writable (planted.unwritable context)
  | error e final =>
    refine ⟨e, ?_⟩
    rcases stage_error.mp staged with ⟨_, rfl⟩ | ⟨_, failed | ⟨mid, wrote, _⟩⟩
    · rfl
    · rcases writeContainerfile_error failed with rfl | ⟨_, _, _, context, writable, _⟩
      · rfl
      · exact absurd writable (planted.unwritable context)
    · obtain ⟨_, _, context, writable, _⟩ := writeContainerfile_ok wrote
      exact absurd writable (planted.unwritable context)

theorem stage_effects (kernel : Kernel) (containerfile tag : Text) (config : VmConfig)
    (contextDir output : PathBuf) (fs : Files) : ∃ mid, Effects contextDir output fs mid ∧
      ((∃ e, stage kernel containerfile tag config contextDir output fs = .error e mid) ∨
        ∃ vmBuild, stage kernel containerfile tag config contextDir output fs = .ok vmBuild mid) := by
  cases staged : stage kernel containerfile tag config contextDir output fs with
  | ok vmBuild final =>
    obtain ⟨mid, _, wrote, resolved⟩ := stage_ok.mp staged
    obtain ⟨pos, entries, context, _, rfl⟩ := writeContainerfile_ok wrote
    exact ⟨final, effects_of_write context (resolve_ok_madeFor resolved), .inr ⟨vmBuild, rfl⟩⟩
  | error e final =>
    refine ⟨final, ?_, .inl ⟨e, rfl⟩⟩
    rcases stage_error.mp staged with ⟨_, rfl⟩ | ⟨_, failed | ⟨mid, wrote, failed⟩⟩
    · exact .refl _ _ _
    · rcases writeContainerfile_error failed with rfl | ⟨_, _, _, context, _, rfl⟩
      · exact .refl _ _ _
      · exact effects_of_write context (.refl _ _)
    · obtain ⟨pos, entries, context, _, rfl⟩ := writeContainerfile_ok wrote
      exact effects_of_write context (resolve_error_madeFor (resolve_error failed))

namespace Sample

/-- A name outside the context. -/
def shared : FileName := ⟨Utf8.encode "shared", by decide⟩

/-- The sample with a hard link in the context to a file outside it. -/
def hardLinked : Files :=
  files (nodes [(shared, 6)] [(containerfileEntry, 6)] ++ [(6, .file 0o600 (Utf8.encode "precious"))])

/-- The sample with a symbolic link in the context to a file outside it. -/
def linked : Files :=
  files (nodes [(shared, 6)] [(containerfileEntry, 7)] ++
    [(6, .file 0o600 (Utf8.encode "precious")), (7, .link ⟨true, [.name shared]⟩)])

theorem linked_planted : Planted (.utf8 "/context") linked :=
  ⟨[(⟨Utf8.encode "context", by decide⟩, 1)], entries [(containerfileEntry, 7)], 7, _,
    ⟨_, rfl, rfl⟩, rfl, rfl, fun _ _ => nofun⟩

end Sample

/-- The context of the sample. -/
theorem Sample.hardLinked_context : Context Sample.hardLinked (.utf8 "/context")
    [(⟨Utf8.encode "context", by decide⟩, 1)] (Sample.entries [(containerfileEntry, 6)]) :=
  ⟨_, rfl, rfl⟩

end ImageBuilder.VmBuildFiles
