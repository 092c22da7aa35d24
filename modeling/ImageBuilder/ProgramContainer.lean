import ImageBuilder.ProgramContext

/-! A whole run of the program with a container CLI: what the engine is shown, and what is left
of it when the engine is done. -/
namespace ImageBuilder.Program

open Inode Inode.FileSystem ContainerBuilder VmBuildFiles VmBuildRun
open VmGuest (runDir resolvName sharedDirectory)

section Running

variable {buildah : VmGuest.Buildah} {host : Host buildah} {cli : Cli} {fs early last : Files}
  {containerCli : ContainerCli} {containerfile : Text} {path contextDir : PathBuf}
  {changed : Nat → Prop}

section Leading

/-- A path leads to a node, links followed. -/
def Leads (fs : Files) (path : PathBuf) (node : Node FileName) : Prop :=
  ∃ route pos, path.route = some route ∧ fs.resolve route = .ok pos ∧
    fs.nodes.lookup (fs.inode pos) = some node

def Nowhere (fs : Files) (path : PathBuf) : Prop := ∀ node, ¬ Leads fs path node

/-- A path that ends with a name. -/
def Named (path : PathBuf) (n : FileName) : Prop :=
  ∃ route, path.route = some route ∧ route.steps.getLast? = some (.name n)

theorem Leads.unique (leads : Leads fs path node) (also : Leads fs path other) : node = other := by
  obtain ⟨_, _, parsed, resolved, found⟩ := leads
  obtain ⟨_, _, parsed', resolved', found'⟩ := also
  rw [parsed] at parsed'
  cases parsed'
  rw [resolved] at resolved'
  cases resolved'
  rw [found] at found'
  exact Option.some.inj found'

theorem Leads.file_grown (leads : Leads fs path (.file mode old))
    (grown : Extends changed fs last) : ∃ new, Leads last path (.file mode new) := by
  obtain ⟨route, pos, parsed, resolved, found⟩ := leads
  obtain ⟨new, still, _⟩ := grown.file _ _ _ found
  rw [← grown.inode] at still
  exact ⟨new, route, pos, parsed, grown.resolve resolved, still⟩

theorem Leads.dir_grown (leads : Leads fs path (.dir entries)) (grown : Extends changed fs last) :
    ∃ more, Leads last path (.dir more) := by
  obtain ⟨route, pos, parsed, resolved, found⟩ := leads
  obtain ⟨more, still, _⟩ := grown.dir _ _ found
  rw [← grown.inode] at still
  exact ⟨more, route, pos, parsed, grown.resolve resolved, still⟩

section Unlinking

variable {ino : Nat} {n : FileName}

theorem Leads.of_unlink_file (leads : Leads (fs.unlink ino n) path (.file mode bytes)) :
    Leads fs path (.file mode bytes) := by
  obtain ⟨route, pos, parsed, resolved, found⟩ := leads
  rw [inode_unlink] at found
  exact ⟨route, pos, parsed, resolve_unlink resolved, (lookup_unlink_leaf (by simp)).mp found⟩

theorem Leads.of_unlink_dir (leads : Leads (fs.unlink ino n) path (.dir entries)) :
    ∃ before, Leads fs path (.dir before) := by
  obtain ⟨route, pos, parsed, resolved, found⟩ := leads
  rw [inode_unlink] at found
  obtain ⟨before, there, _⟩ := lookup_unlink_dir.mp found
  exact ⟨before, route, pos, parsed, resolve_unlink resolved, there⟩

theorem Nowhere.unlink (nowhere : Nowhere fs path) (ino : Nat) (n : FileName) :
    Nowhere (fs.unlink ino n) path := by
  rintro node ⟨route, pos, parsed, resolved, found⟩
  rw [inode_unlink] at found
  cases held : fs.nodes.lookup (fs.inode pos) with
  | none =>
    rw [lookup_unlink_none.mpr held] at found
    cases found
  | some before => exact nowhere before ⟨route, pos, parsed, resolve_unlink resolved, held⟩

theorem nowhere_unlinked (parsed : path.route = some route)
    (named : fs.entry route = .ok (some (pos, entries, n))) :
    Nowhere (fs.unlink (fs.inode pos) n) path := by
  rintro node ⟨_, _, also, resolved, _⟩
  rw [parsed] at also
  cases also
  exact resolve_gone named resolved

/-- A path that ends with a name leads nowhere, or to what the name is given to. -/
theorem Named.cases (named : Named path n) (fs : Files) :
    Nowhere fs path ∨ ∃ route pos entries node,
    path.route = some route ∧ fs.entry route = .ok (some (pos, entries, n)) ∧
      (entries.lookup n).bind fs.nodes.lookup = some node ∧
      ((∀ target, node ≠ .link target) → Leads fs path node) := by
  by_cases nowhere : Nowhere fs path
  · exact .inl nowhere
  · obtain ⟨route, parsed, last⟩ := named
    simp only [Nowhere, not_forall, not_not] at nowhere
    obtain ⟨_, _, q, also, resolved, _⟩ := nowhere
    rw [parsed] at also
    cases also
    obtain ⟨pos, entries, ino, node, entry, entered, present⟩ := resolve_named last resolved
    refine .inr ⟨route, pos, entries, node, parsed, entry, ?_, fun plain => ?_⟩
    · rw [entered, Option.bind_some, present]
    · exact ⟨route, _, parsed, resolve_entry entry entered present plain, present⟩

end Unlinking

end Leading

section Dropping

variable {h : Files} {tmpfile : PathBuf}

/-- Whatever is temporary can be removed. -/
def Unstuck (host : Host buildah) : Prop := ∀ h path, host.stuck h path = none

/-- Nothing else stands in the place of the two temporaries: no directory where the Containerfile
was, and no file where the context was. -/
structure Spared (h : Files) (tmpfile contextDir : PathBuf) : Prop where
  containerfile : ∀ entries, ¬ Leads h tmpfile (.dir entries)
  context : ∀ mode bytes, ¬ Leads h contextDir (.file mode bytes)

theorem Spared.unlink (spared : Spared h tmpfile contextDir) (ino : Nat) (n : FileName) :
    Spared (h.unlink ino n) tmpfile contextDir where
  containerfile _ leads := by
    obtain ⟨before, leads⟩ := leads.of_unlink_dir
    exact spared.containerfile before leads
  context _ _ leads := spared.context _ _ leads.of_unlink_file

theorem dropTempFile_cases (host : Host buildah) (path : PathBuf) (h : Files) :
    dropTempFile host path h = h ∨ ∃ ino n, dropTempFile host path h = h.unlink ino n := by
  unfold dropTempFile
  split
  · unfold removeFile
    split
    · exact .inl rfl
    · exact .inl rfl
    · split
      · exact .inl rfl
      · exact .inl rfl
      · exact .inr ⟨_, _, rfl⟩
  · exact .inl rfl

theorem dropTempDir_cases (unstuck : Unstuck host) (path : PathBuf) (h : Files) :
    dropTempDir host path h = h ∨ ∃ ino n, dropTempDir host path h = h.unlink ino n := by
  unfold dropTempDir
  rw [unstuck]
  split
  · exact .inl rfl
  · dsimp only
    unfold removeDirAll
    split
    · exact .inl rfl
    · exact .inl rfl
    · split
      · exact .inl rfl
      · exact .inl rfl
      · exact .inr ⟨_, _, rfl⟩

/-- What takes away the entry that a path ends with, or takes away nothing where there is none,
leaves the path to lead nowhere. -/
theorem Named.dropped (named : Named path n) (taken : last = h ∨ ∃ ino n, last = h.unlink ino n)
    (gone : ∀ route pos entries node, path.route = some route →
      h.entry route = .ok (some (pos, entries, n)) →
      (entries.lookup n).bind h.nodes.lookup = some node →
      ((∀ target, node ≠ .link target) → Leads h path node) → last = h.unlink (h.inode pos) n) :
    Nowhere last path := by
  rcases named.cases h with
    nowhere | ⟨route, pos, entries, node, parsed, entry, held, leads⟩
  · rcases taken with rfl | ⟨ino, n, rfl⟩
    · exact nowhere
    · exact nowhere.unlink ino n
  · rw [gone route pos entries node parsed entry held leads]
    exact nowhere_unlinked parsed entry

theorem dropTempFile_nowhere (unstuck : Unstuck host) (named : Named path n)
    (spared : ∀ entries, ¬ Leads h path (.dir entries)) :
    Nowhere (dropTempFile host path h) path := by
  refine named.dropped (dropTempFile_cases host path h) fun route pos entries node parsed entry
    held leads => ?_
  cases node with
  | dir inside => exact absurd (leads fun _ same => by cases same) (spared inside)
  | file mode bytes =>
    simp only [dropTempFile, parsed, unstuck h path, removeFile, entry, held, Except.toOption,
      Option.getD_some]
  | link target =>
    simp only [dropTempFile, parsed, unstuck h path, removeFile, entry, held, Except.toOption,
      Option.getD_some]

theorem dropTempDir_nowhere (unstuck : Unstuck host) (named : Named path n)
    (spared : ∀ mode bytes, ¬ Leads h path (.file mode bytes)) :
    Nowhere (dropTempDir host path h) path := by
  refine named.dropped (dropTempDir_cases unstuck path h) fun route pos entries node parsed entry
    held leads => ?_
  cases node with
  | file mode bytes => exact absurd (leads fun _ same => by cases same) (spared mode bytes)
  | dir inside =>
    simp only [dropTempDir, parsed, unstuck h path, removeDirAll, entry, held, Except.toOption,
      Option.getD_some]
  | link target =>
    simp only [dropTempDir, parsed, unstuck h path, removeDirAll, entry, held, Except.toOption,
      Option.getD_some]

/-- Nothing is left under the names of the two temporaries. -/
theorem dropped_nowhere (unstuck : Unstuck host) (file : Named tmpfile n) (dir : Named contextDir m)
    (spared : Spared h tmpfile contextDir) :
    let last := dropTempDir host contextDir (dropTempFile host tmpfile h)
    Nowhere last tmpfile ∧ Nowhere last contextDir := by
  have first := dropTempFile_nowhere unstuck file spared.containerfile
  have still : Spared (dropTempFile host tmpfile h) tmpfile contextDir := by
    rcases dropTempFile_cases host tmpfile h with same | ⟨ino, n, gone⟩
    · rwa [same]
    · rw [gone]
      exact spared.unlink ino n
  refine ⟨?_, dropTempDir_nowhere unstuck dir still.context⟩
  rcases dropTempDir_cases unstuck contextDir (dropTempFile host tmpfile h) with
    same | ⟨ino, n, gone⟩
  · rwa [same]
  · rw [gone]
    exact first.unlink ino n

/-- What is taken away below a new directory is new. -/
theorem clear_extends (absent : fs.nodes.lookup top = none) (grown : Extends changed fs h)
    (done : List (List FileName)) : Extends changed fs (clear top done h) := by
  induction done generalizing h with
  | nil => exact grown
  | cons names done ih =>
    refine ih ?_
    dsimp only
    split
    · rename_i reached
      have new := grown.reach_new absent reached
      refine grown.unlinked fun inside found => ?_
      rw [new] at found
      cases found
    · exact grown

end Dropping

namespace Temporary

variable {pos : Position FileName} {entries : FiniteMap FileName Nat} {n : FileName}

theorem toNamed (temporary : Temporary fs path pos entries n) : Named path n := by
  obtain ⟨route, parsed, named⟩ := temporary.named
  exact ⟨route, parsed, (entry_ok.mp named).1⟩

theorem leads (temporary : Temporary fs path pos entries n)
    (bare : ∀ inside, node = .dir inside → inside = ∅) (plain : ∀ target, node ≠ .link target)
    (grown : Extends changed (fs.add pos entries n node) last) :
    ∃ now, Leads last path now ∧ last.nodes.lookup fs.fresh = some now := by
  obtain ⟨route, more, parsed, named, held, _⟩ := temporary.entered bare grown
  have made : (fs.add pos entries n node).nodes.lookup fs.fresh = some node := by
    rw [lookup_add, if_pos rfl]
  obtain ⟨now, still, kind⟩ := grown.present made
  exact ⟨now, ⟨route, _, parsed, resolve_entry named held still (kind plain), still⟩, still⟩

/-- A temporary file takes nothing with it that is not its own. -/
theorem kept_file (temporary : Temporary fs path pos entries n)
    (grown : Extends changed (fs.add pos entries n (.file mode contents)) last) :
    Extends changed fs (dropTempFile host path last) := by
  have leaf : ∀ inside, Node.file mode contents = .dir inside →
      inside = (∅ : FiniteMap FileName Nat) := fun inside same => by cases same
  have whole := ((temporary.added leaf).trans grown).mono fun _ either => either.elim False.elim id
  cases stuck : host.stuck last path with
  | none =>
    rw [temporary.dropped_file stuck grown]
    exact temporary.unlinked whole
  | some done =>
    obtain ⟨route, parsed, _⟩ := temporary.toNamed
    simpa only [dropTempFile, parsed, stuck] using whole

/-- Nor does a temporary directory, removed altogether or not. -/
theorem kept_dir (temporary : Temporary fs path pos entries n)
    (grown : Extends changed (fs.add pos entries n (.dir ∅)) last) :
    Extends changed fs (dropTempDir host path last) := by
  have bare : ∀ inside, Node.dir ∅ = .dir inside → inside = (∅ : FiniteMap FileName Nat) :=
    fun inside same => by cases same; rfl
  have whole := ((temporary.added bare).trans grown).mono fun _ either => either.elim False.elim id
  cases stuck : host.stuck last path with
  | none =>
    rw [temporary.dropped_dir stuck grown]
    exact temporary.unlinked whole
  | some done =>
    obtain ⟨route, more, parsed, named, held, _⟩ := temporary.entered bare grown
    obtain ⟨inside, still, _⟩ := grown.dir _ _ (lookup_added_fresh pos entries n (.dir ∅))
    have followed := resolve_follow (resolve_entry named held still fun _ same => by cases same)
    simp only [dropTempDir, parsed, stuck, followed]
    exact clear_extends (fresh_absent fs) whole done

end Temporary

/-- What the engine is run on: a Containerfile and a context of the build's own. -/
structure Shown (cli : Cli) (text : Text) (tmpfile contextDir : PathBuf) (seen : Files) : Prop where
  containerfile : ∃ mode, Leads seen tmpfile (.file mode (Utf8.encode text))
  context : ∃ entries, Leads seen contextDir (.dir entries) ∧
    (cli.copyContainerfile = true → ∃ mode ino, entries.lookup buildEntry = some ino ∧
      seen.nodes.lookup ino = some (.file mode (Utf8.encode text)))

/-- An engine that only adds to the files spares the two temporaries. -/
theorem Shown.spared (shown : Shown cli text tmpfile contextDir early)
    (grown : Extends changed early last) : Spared last tmpfile contextDir where
  containerfile entries leads := by
    obtain ⟨mode, before⟩ := shown.containerfile
    obtain ⟨_, file⟩ := before.file_grown grown
    cases leads.unique file
  context mode bytes leads := by
    obtain ⟨entries, before, _⟩ := shown.context
    obtain ⟨_, dir⟩ := before.dir_grown grown
    cases leads.unique dir

/-- What the backend makes of the exit status of its engine. -/
def verdict : Except Text ExitStatus → Except BuildError Unit
  | .error e => .error (.io e)
  | .ok status => if status = some 0 then .ok () else .error (.failed status)

theorem verdict_ok : verdict ended = .ok () ↔ ended = .ok (some 0) := by
  cases ended with
  | error e => simp [verdict]
  | ok status => simp [verdict]

/-- The engine is not run, or run on the Containerfile, whose name is dropped afterwards. -/
theorem build_cases (host : Host buildah) (early : Files) (text tag : Text)
    (containerCli : ContainerCli) (contextDir : PathBuf) :
    let done := build host text tag containerCli host.engine contextDir early
    (∃ cause, reported done = .error (.io cause)) ∧ Extends (fun _ => False) early (left done) ∨
    ∃ tmpfile pos entries n, Temporary early tmpfile pos entries n ∧
      (∃ file made, namedTempFile host early = .ok (tmpfile, file) made) ∧
      let seen := early.add pos entries n (.file 0o600 (Utf8.encode text))
      let ran := host.engine (buildCommand containerCli tmpfile tag contextDir) seen
      reported done = verdict ran.1 ∧ left done = dropTempFile host tmpfile ran.2 := by
  dsimp only
  cases created : namedTempFile host early with
  | error e last =>
    obtain rfl := namedTempFile_error created
    have failed : build host text tag containerCli host.engine contextDir last =
        .error (.io e) last :=
      Fallible.bind_error.mpr (.inl (Fallible.adapt_error.mpr ⟨e, created, rfl⟩))
    rw [failed]
    exact .inl ⟨⟨e, rfl⟩, .refl _⟩
  | ok made begun =>
    obtain ⟨tmpfile, file⟩ := made
    obtain ⟨pos, entries, n, temporary, rfl, rfl⟩ := namedTempFile_ok created
    rw [build, Fallible.bind_next (Fallible.adapt_ok.mpr created)]
    dsimp only
    rw [left_dropping, reported_dropping]
    rcases Kernel.writeAll_cases host.kernel (early.add pos entries n (.file 0o600 [])) early.fresh
        (Utf8.encode text) with wrote | ⟨e, count, wrote⟩
    · rw [add_setContents] at wrote
      refine .inr ⟨tmpfile, pos, entries, n, temporary, ⟨_, _, rfl⟩, ?_⟩
      rcases ran : host.engine (buildCommand containerCli tmpfile tag contextDir)
          (early.add pos entries n (.file 0o600 (Utf8.encode text))) with ⟨result, after⟩
      cases result with
      | error e => simp [runWith, wrote, ran, left, reported, verdict]
      | ok status =>
        by_cases zero : status = some 0
        · simp [runWith, wrote, ran, left, reported, verdict, zero]
        · simp [runWith, wrote, ran, left, reported, verdict, zero]
    · rw [add_setContents] at wrote
      left
      simp only [runWith, wrote]
      have same : Extends (fun _ => False) (early.add pos entries n
        (.file 0o600 ((Utf8.encode text).take count))) _ := .refl _
      exact ⟨⟨_, rfl⟩, temporary.kept_file same⟩

/-- What the engine makes of the command that is run. -/
def engineRun (host : Host buildah) (cli : Cli) (containerCli : ContainerCli)
    (tmpfile contextDir : PathBuf) (seen : Files) : Except Text ExitStatus × Files :=
  host.engine (buildCommand containerCli tmpfile cli.tag contextDir) seen

/-- The errors of a run with a container CLI that stops before its engine. -/
inductive Stopped (cli : Cli) : RunError → Prop where
  | containerfile
      (rejected : Containerfile.generate cli.from_ cli.copyContainerfile = .error cause) :
      Stopped cli (.containerfile cause)
  | io : Stopped cli (.io cause)
  | container (generated : Containerfile.generate cli.from_ cli.copyContainerfile = .ok text) :
      Stopped cli (.container (.io cause))

/-- What there is to say of a run with a container CLI that has a context. -/
inductive Concluded (host : Host buildah) (cli : Cli) (containerCli : ContainerCli)
    (contextDir : PathBuf) (home : Nat) (begun last : Files) (result : Except RunError Unit) :
    Prop where
  | stopped (failed : result = .error e) (why : Stopped cli e)
      (same : Extends (fun _ => False) begun last)
  | ran (generated : Containerfile.generate cli.from_ cli.copyContainerfile = .ok text)
      (shown : Shown cli text tmpfile contextDir seen)
      (begins : Extends (fun _ => False) begun seen)
      (reports : result = (verdict (engineRun host cli containerCli tmpfile contextDir
        seen).1).mapError .container)
      (ends : last =
        dropTempFile host tmpfile (engineRun host cli containerCli tmpfile contextDir seen).2)
      (kept : ∀ changed, Extends changed seen (engineRun host cli containerCli tmpfile contextDir
        seen).2 → Extends changed begun last)
      (named : Named tmpfile n) (shared : sharedDirectory seen contextDir = some home)
      (mirrored : Alphanumeric host →
        Mirrors seen home (stagedContext text cli.copyContainerfile))

/-- The engine is shown the temporary Containerfile, and what is staged in the context. -/
theorem shown_staged {ready begun : Files} {pos pos' : Position FileName}
    {entries entries' : FiniteMap FileName Nat} {n n' : FileName} {tmpfile : PathBuf} {text : Text}
    (temporary : Temporary ready contextDir pos entries n) (closed : ready.Closed)
    (made : begun = ready.add pos entries n (.dir ∅)) (grown : Extends (fun _ => False) begun early)
    (copied : (if cli.copyContainerfile then write host (contextDir.join buildContainerfile) text
      else pure ()) begun = .ok () early)
    (inner : Temporary early tmpfile pos' entries' n') :
    Shown cli text tmpfile contextDir
      (early.add pos' entries' n' (.file 0o600 (Utf8.encode text))) := by
  have leaf : ∀ inside, Node.file 0o600 (Utf8.encode text) = .dir inside →
      inside = (∅ : FiniteMap FileName Nat) := fun inside same => by cases same
  have added := inner.added leaf
  constructor
  · have same : Extends (fun _ => False) (early.add pos' entries' n'
      (.file 0o600 (Utf8.encode text))) _ := .refl _
    obtain ⟨now, leads, held⟩ := inner.leads leaf (fun _ same => by cases same) same
    rw [lookup_added_fresh] at held
    cases held
    exact ⟨0o600, leads⟩
  · have seen := grown.trans added
    have top : begun.nodes.lookup ready.fresh = some (.dir ∅) := by
      rw [made, lookup_added_fresh]
    obtain ⟨more, dir, _⟩ := seen.dir _ _ top
    rw [made] at seen
    obtain ⟨now, leads, held⟩ := temporary.leads (fun _ same => by cases same; rfl)
      (fun _ same => by cases same) seen
    rw [dir] at held
    cases held
    refine ⟨more, leads, fun copying => ?_⟩
    rw [if_pos copying] at copied
    obtain ⟨reached, held⟩ := copy_held temporary closed made copied
    obtain ⟨contents, still, kept⟩ := added.file _ _ _ held
    rw [kept id] at still
    have entered := added.reach reached
    rw [reach_single dir] at entered
    exact ⟨_, _, entered, still⟩

theorem runIn_concluded {ready begun : Files} (closed : ready.Closed)
    (created : tempdir host ready = .ok contextDir begun) (cli : Cli)
    (containerCli : ContainerCli) :
    let done := runIn host cli.tag cli.from_ cli.copyContainerfile (.cli containerCli host.engine)
      contextDir begun
    Concluded host cli containerCli contextDir ready.fresh begun (left done) (reported done) := by
  obtain ⟨pos, entries, n, temporary, made⟩ := tempdir_ok created
  dsimp only
  rcases runIn_prepared created closed cli.tag cli.from_ cli.copyContainerfile
    (.cli containerCli host.engine) with
    ⟨e, last, failed, why, adds⟩ | ⟨text, early, generated, copied, filling, ran⟩
  · rw [failed]
    refine .stopped rfl ?_ (adds fun _ _ => False).toExtends
    rcases why with ⟨cause, rejected, rfl⟩ | ⟨cause, rfl⟩
    · exact .containerfile rejected
    · exact .io
  · have grown := (filling.adds fun _ _ => False).toExtends
    rw [ran, buildIn, left_adapt, reported_adapt]
    rcases build_cases host early text cli.tag containerCli contextDir with
      ⟨⟨cause, failed⟩, same⟩ | ⟨tmpfile, pos', entries', n', inner, ⟨_, _, tried⟩, reports, last⟩
    · rw [failed]
      exact .stopped rfl (.container generated)
        ((grown.trans same).mono fun _ either => either.elim id id)
    · have leaf : ∀ inside, Node.file 0o600 (Utf8.encode text) = .dir inside →
          inside = (∅ : FiniteMap FileName Nat) := fun inside same => by cases same
      have added := inner.added leaf
      rw [last, reports]
      refine .ran generated (shown_staged temporary closed made grown copied inner)
        ((grown.trans added).mono fun _ either => either.elim id id) rfl rfl
        (fun changed after => ?_) inner.toNamed ?_ fun alphanumeric => ?_
      · exact (grown.trans (inner.kept_file after)).mono fun _ either => either.elim False.elim id
      · have seen := grown.trans added
        rw [made] at seen
        exact temporary.shows seen
      · have whole := (temporary.added fun _ same => by cases same; rfl).trans (made ▸ grown)
        have apart := Temporary.beside alphanumeric created tried whole inner
        obtain ⟨_, there, _⟩ := grown.dir _ _ (made ▸ lookup_added_fresh pos entries n (.dir ∅))
        exact (temporary.mirrors closed made cli.copyContainerfile copied).aside filling.closed
          inner.found there apart.symm n' 0o600 (Utf8.encode text)

/-- A run in which the engine is run, and then all that is temporary is dropped. -/
structure EngineRun (host : Host buildah) (cli : Cli) (containerCli : ContainerCli)
    (fs last : Files) (result : Except RunError Unit) (text : Text)
    (tmpfile contextDir : PathBuf) (seen : Files) : Prop where
  generated : Containerfile.generate cli.from_ cli.copyContainerfile = .ok text
  shown : Shown cli text tmpfile contextDir seen
  begins : Extends (fun _ => False) fs seen
  reports : result =
    (verdict (engineRun host cli containerCli tmpfile contextDir seen).1).mapError .container
  dropped : last = dropTempDir host contextDir
    (dropTempFile host tmpfile (engineRun host cli containerCli tmpfile contextDir seen).2)
  /-- A run changes what its engine changes. -/
  kept : ∀ changed, Extends changed seen (engineRun host cli containerCli tmpfile contextDir
    seen).2 → Extends changed fs last
  gone : Unstuck host →
    Spared (engineRun host cli containerCli tmpfile contextDir seen).2 tmpfile contextDir →
    Nowhere last tmpfile ∧ Nowhere last contextDir
  shared : sharedDirectory seen contextDir = some fs.fresh
  mirrored : Alphanumeric host → Mirrors seen fs.fresh (stagedContext text cli.copyContainerfile)
  nameless : Unstuck host → ∀ changed, Extends changed seen (engineRun host cli containerCli
    tmpfile contextDir seen).2 → Nameless last fs.fresh

theorem EngineRun.succeeds_iff {result : Except RunError Unit} {seen : Files} {tmpfile : PathBuf}
    (run : EngineRun host cli containerCli fs last result text tmpfile contextDir seen) :
    result = .ok () ↔
      (engineRun host cli containerCli tmpfile contextDir seen).1 = .ok (some 0) := by
  rw [run.reports, ← verdict_ok]
  cases verdict (engineRun host cli containerCli tmpfile contextDir seen).1 with
  | ok _ => exact iff_of_true rfl rfl
  | error e => exact iff_of_false (fun same => by cases same) fun same => by cases same

/-- What is left when the context is gone too. -/
theorem run_concluded (closed : fs.Closed) (host : Host buildah) (cli : Cli)
    (containerCli : ContainerCli) :
    let done := run host cli.tag cli.from_ cli.copyContainerfile
      (backendFor host (.cli containerCli)) fs
    (∃ e, reported done = .error e ∧ Stopped cli e ∧ Extends (fun _ => False) fs (left done) ∧
        (Unstuck host → Nameless (left done) fs.fresh)) ∨
      ∃ text tmpfile contextDir seen, EngineRun host cli containerCli fs (left done)
        (reported done) text tmpfile contextDir seen := by
  dsimp only
  cases created : tempdir host fs with
  | error e last =>
    obtain rfl := tempdir_error created
    have failed : run host cli.tag cli.from_ cli.copyContainerfile
        (backendFor host (.cli containerCli)) last = .error (.io e) last :=
      Fallible.bind_error.mpr (.inl (Fallible.adapt_error.mpr ⟨e, created, rfl⟩))
    rw [failed]
    exact .inl ⟨_, rfl, .io, .refl _, fun _ => nameless_fresh closed⟩
  | ok contextDir begun =>
    obtain ⟨pos, entries, n, temporary, made⟩ := tempdir_ok created
    have onward : run host cli.tag cli.from_ cli.copyContainerfile
        (backendFor host (.cli containerCli)) fs = dropping (dropTempDir host contextDir)
          (runIn host cli.tag cli.from_ cli.copyContainerfile (.cli containerCli host.engine)
            contextDir) begun :=
      Fallible.bind_next (Fallible.adapt_ok.mpr created)
    have concluded := runIn_concluded closed created cli containerCli
    have bare : ∀ inside, Node.dir ∅ = .dir inside → inside = (∅ : FiniteMap FileName Nat) :=
      fun inside same => by cases same; rfl
    rw [onward, left_dropping, reported_dropping]
    subst made
    cases concluded with
    | stopped failed why same =>
      refine .inl ⟨_, failed, why, temporary.kept_dir same, fun unstuck => ?_⟩
      rw [temporary.dropped_dir (unstuck _ _) same]
      exact nameless_unlink closed temporary.found bare same
    | @ran text tmpfile seen _ generated shown begins reports ends kept named shared mirrored =>
      exact .inr ⟨text, tmpfile, contextDir, seen, {
        generated := generated
        shown := shown
        begins := ((temporary.added bare).trans begins).mono fun _ either => either.elim id id
        reports := reports
        dropped := by rw [ends]
        kept := fun changed after => temporary.kept_dir (kept changed after)
        gone := fun unstuck spared => by
          rw [ends]
          exact dropped_nowhere unstuck named temporary.toNamed spared
        shared := shared
        mirrored := mirrored
        nameless := fun unstuck changed after => by
          have grown := kept changed after
          rw [temporary.dropped_dir (unstuck _ _) grown]
          exact nameless_unlink closed temporary.found bare grown }⟩

theorem selectRuntime_container (container : cli.runtime.containerCli = some containerCli)
    (host : Host buildah) (fs : Files) :
    (∃ e, selectRuntime host cli fs = .error e fs) ∨
      selectRuntime host cli fs = .ok (.cli containerCli) fs := by
  rw [selectRuntime, container]
  dsimp only
  cases containerCli.checkInPath host.which with
  | error e => exact .inl ⟨e.message, rfl⟩
  | ok _ => exact .inr rfl

end Running

/-- A run with a container CLI stops before its engine, or runs it on the Containerfile that was
asked for; it succeeds if the engine does, and leaves what its engine has left, and nothing of its
own. -/
theorem main_container {buildah : VmGuest.Buildah} {host : Host buildah} {cli : Cli}
    {fs last : Files} {ending : Ending} {containerCli : ContainerCli}
    (container : cli.runtime.containerCli = some containerCli) (closed : fs.Closed)
    (ran : main host cli fs = (ending, last)) :
    (ending.status = 1 ∧ Extends (fun _ => False) fs last ∧
        (Unstuck host → Nameless last fs.fresh)) ∨
      ∃ result text tmpfile contextDir seen,
        EngineRun host cli containerCli fs last result text tmpfile contextDir seen ∧
        (ending.status = 0 ↔
          (engineRun host cli containerCli tmpfile contextDir seen).1 = .ok (some 0)) := by
  rw [main] at ran
  split at ran
  · cases ran
    exact .inl ⟨rfl, .refl _, fun _ => nameless_fresh closed⟩
  · rcases selectRuntime_container container host fs with ⟨e, failed⟩ | selected
    · rw [failed] at ran
      cases ran
      exact .inl ⟨rfl, .refl _, fun _ => nameless_fresh closed⟩
    · have concluded := run_concluded closed host cli containerCli
      rw [selected] at ran
      dsimp only at ran concluded
      cases done : run host cli.tag cli.from_ cli.copyContainerfile
          (backendFor host (.cli containerCli)) fs with
      | error e final =>
        rw [done] at ran concluded
        cases ran
        rcases concluded with ⟨_, _, _, early⟩ | ⟨text, tmpfile, contextDir, seen, run⟩
        · exact .inl ⟨rfl, early⟩
        · refine .inr ⟨_, text, tmpfile, contextDir, seen, run,
            iff_of_false (show ¬ (1 : UInt8) = 0 by decide) fun ended => ?_⟩
          have impossible := run.succeeds_iff.mpr ended
          cases impossible
      | ok _ final =>
        rw [done] at ran concluded
        cases ran
        rcases concluded with ⟨_, impossible, _⟩ | ⟨text, tmpfile, contextDir, seen, run⟩
        · cases impossible
        · exact .inr ⟨_, text, tmpfile, contextDir, seen, run,
            iff_of_true rfl (run.succeeds_iff.mp rfl)⟩

namespace Sample

def layer : FileName := ⟨Utf8.encode "layer", by decide⟩

/-- An engine that puts a layer into `/run` and takes `/etc/resolv.conf` away. -/
def engine (_ : Command) (fs : Files) : Except Text ExitStatus × Files :=
  match fs.createNew 0o644 ⟨true, (runDir ++ [layer]).map .name⟩ with
  | .error _ => (.ok (some 125), fs)
  | .ok (_, grown) => (.ok (some 0), grown.unlink 6 resolvName)

def podman : Host VmSharing.Sample.buildah := { host with engine }

theorem engine_spares (shown : Shown (cli .podman) text tmpfile contextDir seen) :
    Spared (engineRun podman (cli .podman) .podman tmpfile contextDir seen).2 tmpfile
      contextDir := by
  unfold engineRun podman engine
  dsimp only
  split
  · have same : Extends (fun _ => False) seen seen := .refl seen
    exact shown.spared same
  · rename_i made
    obtain ⟨pos, entries, n, named, free, rfl, rfl⟩ := createNew_ok.mp made
    have leaf : ∀ inside, Node.file 0o644 [] = .dir inside →
        inside = (∅ : FiniteMap FileName Nat) := fun inside same => by cases same
    have grown := extends_add (directory_ok.mp (entry_ok.mp named).2).2 free leaf
    exact (shown.spared grown).unlink _ _

end Sample

theorem main_container_alpine : ∃ ending last tmpfile contextDir,
    main Sample.podman (Sample.cli .podman) Sample.files = (ending, last) ∧ ending.status = 0 ∧
    last.reach 6 [resolvName] = none ∧ (last.reach 8 [Sample.layer]).isSome = true ∧
    Nowhere last tmpfile ∧ Nowhere last contextDir := by
  obtain ⟨ending, last, ran⟩ : ∃ ending last,
      main Sample.podman (Sample.cli .podman) Sample.files = (ending, last) :=
    ⟨_, _, (Prod.eta _).symm⟩
  have shown : (fun done : Ending × Files => done.1.status = 0 ∧
      done.2.reach 6 [resolvName] = none ∧ (done.2.reach 8 [Sample.layer]).isSome = true)
      (main Sample.podman (Sample.cli .podman) Sample.files) := by decide +kernel
  rw [ran] at shown
  obtain ⟨success, removed, added⟩ := shown
  rcases main_container rfl VmBuildRun.Sample.closed ran with
    ⟨failed, _⟩ | ⟨_, _, tmpfile, contextDir, _, run, _⟩
  · rw [success] at failed
    cases failed
  · have gone := run.gone (fun _ _ => rfl) (Sample.engine_spares run.shown)
    exact ⟨ending, last, tmpfile, contextDir, ran, success, removed, added, gone⟩

end ImageBuilder.Program
