import ImageBuilder.Program

/-! What the program makes of the files of its host around a build: names of its own, which are
gone when it ends. -/
namespace ImageBuilder.Program

open Inode Inode.FileSystem ContainerBuilder VmBuilder VmBuildFiles VmBuildRun

variable {buildah : VmGuest.Buildah} {host : Host buildah} {fs mid final : Files}
  {changed : Nat → Prop} {path : PathBuf}

/-- A name for something temporary that is not taken. -/
structure Temporary (fs : Files) (path : PathBuf) (pos : Position FileName)
    (entries : FiniteMap FileName Nat) (n : FileName) : Prop where
  named : ∃ route, path.route = some route ∧ fs.entry route = .ok (some (pos, entries, n))
  free : entries.lookup n = none

section Created

theorem createHelper_ok {create : Files → PathBuf → Except FileError (A × Files)}
    (created : createHelper host stem create names fs = .ok (path, a) final) :
    create fs path = .ok (a, final) := by
  induction names with
  | nil => cases created
  | cons name names ih =>
    rw [createHelper] at created
    dsimp only at created
    split at created
    · rename_i made
      cases created
      exact made
    · exact ih created
    · cases created

theorem createHelper_error {create : Files → PathBuf → Except FileError (A × Files)}
    (failed : createHelper host stem create names fs = .error e final) : final = fs := by
  induction names with
  | nil =>
    cases failed
    rfl
  | cons name names ih =>
    rw [createHelper] at failed
    dsimp only at failed
    split at failed
    · cases failed
    · exact ih failed
    · cases failed
      rfl

theorem tempdir_ok (created : tempdir host fs = .ok path final) :
    ∃ pos entries n, Temporary fs path pos entries n ∧ final = fs.add pos entries n (.dir ∅) := by
  obtain ⟨_, _, got, onward⟩ := Fallible.bind_ok.mp created
  cases got
  obtain ⟨⟨_, _⟩, _, helped, same⟩ := Fallible.bind_ok.mp onward
  cases same
  cases made : host.kernel.mkdir fs path with
  | error e =>
    have impossible := createHelper_ok helped
    rw [made] at impossible
    cases impossible
  | ok after =>
    have done := createHelper_ok helped
    rw [made] at done
    cases done
    obtain ⟨_, route, parsed, done⟩ := Kernel.perform_ok.mp made
    obtain ⟨pos, entries, n, named, free, rfl⟩ := mkdir_ok.mp done
    exact ⟨pos, entries, n, ⟨⟨route, parsed, named⟩, free⟩, rfl⟩

theorem tempdir_error (failed : tempdir host fs = .error e final) : final = fs := by
  rcases Fallible.bind_error.mp failed with impossible | ⟨_, _, got, onward⟩
  · cases impossible
  · cases got
    rcases Fallible.bind_error.mp onward with failed | ⟨_, _, _, impossible⟩
    · exact createHelper_error failed
    · cases impossible

theorem createNew_ok : fs.createNew mode route = .ok (ino, final) ↔
    ∃ pos entries n, fs.entry route = .ok (some (pos, entries, n)) ∧ entries.lookup n = none ∧
      ino = fs.fresh ∧ final = fs.add pos entries n (.file mode []) := by
  constructor
  · intro made
    unfold createNew at made
    split at made
    · cases made
    · cases made
    · rename_i pos entries n named
      split at made <;> cases made
      rename_i free
      exact ⟨pos, entries, n, named, free, rfl, rfl⟩
  · rintro ⟨pos, entries, n, named, free, rfl, rfl⟩
    rw [createNew, named]
    dsimp only
    rw [free]

theorem namedTempFile_ok (created : namedTempFile host fs = .ok (path, file) final) :
    ∃ pos entries n, Temporary fs path pos entries n ∧ file = fs.fresh ∧
      final = fs.add pos entries n (.file 0o600 []) := by
  have made := createHelper_ok (show createHelper host _ _ _ fs = _ from created)
  obtain ⟨_, route, parsed, done⟩ := Kernel.perform_ok.mp made
  obtain ⟨pos, entries, n, named, free, rfl, rfl⟩ := createNew_ok.mp done
  exact ⟨pos, entries, n, ⟨⟨route, parsed, named⟩, free⟩, rfl, rfl⟩

theorem namedTempFile_error (failed : namedTempFile host fs = .error e final) : final = fs :=
  createHelper_error (show createHelper host _ _ _ fs = _ from failed)

end Created

namespace Temporary

variable {pos : Position FileName} {entries : FiniteMap FileName Nat} {n : FileName}

theorem found (temporary : Temporary fs path pos entries n) :
    fs.nodes.lookup (fs.inode pos) = some (.dir entries) := by
  obtain ⟨route, _, named⟩ := temporary.named
  exact (directory_ok.mp (entry_ok.mp named).2).2

theorem added (temporary : Temporary fs path pos entries n)
    (bare : ∀ inside, node = .dir inside → inside = ∅) :
    Extends (fun _ => False) fs (fs.add pos entries n node) :=
  extends_add temporary.found temporary.free bare

/-- Nothing is left of growth when its name is taken away but what it has come to elsewhere. -/
theorem unlinked (temporary : Temporary fs path pos entries n) (grown : Extends changed fs final) :
    Extends changed fs (final.unlink (fs.inode pos) n) :=
  grown.unlinked fun inside found => by
    rw [temporary.found] at found
    cases found
    exact temporary.free

/-- The name still leads to what was made under it. -/
theorem entered (temporary : Temporary fs path pos entries n)
    (bare : ∀ inside, node = .dir inside → inside = ∅)
    (grown : Extends changed (fs.add pos entries n node) final) :
    ∃ route more, path.route = some route ∧ final.entry route = .ok (some (pos, more, n)) ∧
      more.lookup n = some fs.fresh ∧ final.inode pos = fs.inode pos := by
  obtain ⟨route, parsed, named⟩ := temporary.named
  obtain ⟨last, there⟩ := entry_ok.mp named
  have added := extends_add temporary.found temporary.free bare
  have whole := added.trans grown
  obtain ⟨more, still, _⟩ := whole.directory there
  refine ⟨route, more, parsed, entry_ok.mpr ⟨last, still⟩, ?_, whole.inode pos⟩
  have apart : fs.inode pos ≠ fs.fresh := by
    intro same
    have present := temporary.found
    rw [same, fresh_absent] at present
    cases present
  have before : (fs.add pos entries n node).nodes.lookup (fs.inode pos) =
      some (.dir (entries.insert n fs.fresh)) := by
    rw [lookup_add, if_neg apart, if_pos rfl]
  obtain ⟨later, now, sub, _⟩ := grown.dir _ _ before
  have found := (directory_ok.mp still).2
  rw [whole.inode, now] at found
  cases found
  exact sub _ _ (Finmap.lookup_insert _)

/-- What has become of a temporary directory is gone with its name. -/
theorem dropped_dir (temporary : Temporary fs path pos entries n)
    (unstuck : host.stuck final path = none)
    (grown : Extends changed (fs.add pos entries n (.dir ∅)) final) :
    dropTempDir host path final = final.unlink (fs.inode pos) n := by
  obtain ⟨route, more, parsed, named, held, same⟩ :=
    temporary.entered (fun inside same => by cases same; rfl) grown
  have made : (fs.add pos entries n (.dir ∅)).nodes.lookup fs.fresh = some (.dir ∅) := by
    rw [lookup_add, if_pos rfl]
  obtain ⟨inside, still, _⟩ := grown.dir _ _ made
  simp only [dropTempDir, parsed, unstuck, removeDirAll, named, held, Option.bind_some, still,
    Except.toOption, Option.getD_some, same]

theorem dropped_file (temporary : Temporary fs path pos entries n)
    (unstuck : host.stuck final path = none)
    (grown : Extends changed (fs.add pos entries n (.file mode contents)) final) :
    dropTempFile host path final = final.unlink (fs.inode pos) n := by
  obtain ⟨route, more, parsed, named, held, same⟩ :=
    temporary.entered (fun inside same => by cases same) grown
  have made : (fs.add pos entries n (.file mode contents)).nodes.lookup fs.fresh =
      some (.file mode contents) := by
    rw [lookup_add, if_pos rfl]
  obtain ⟨inside, still, _⟩ := grown.file _ _ _ made
  simp only [dropTempFile, parsed, unstuck, removeFile, named, held, Option.bind_some, still,
    Except.toOption, Option.getD_some, same]

/-- The directory that was made is the context. -/
theorem context_inode (temporary : Temporary fs path pos entries n)
    (grown : Extends changed (fs.add pos entries n (.dir ∅)) final)
    (context : Context final path q inside) : final.inode q = fs.fresh := by
  obtain ⟨route, more, parsed, named, held, _⟩ :=
    temporary.entered (fun inside same => by cases same; rfl) grown
  have made : (fs.add pos entries n (.dir ∅)).nodes.lookup fs.fresh = some (.dir ∅) := by
    rw [lookup_add, if_pos rfl]
  obtain ⟨_, still, _⟩ := grown.dir _ _ made
  have reached := resolve_follow
    (resolve_entry named held still (fun target same => by cases same))
  have full : path.isEmpty = false := by
    by_contra bare
    rw [Bool.not_eq_false, PathBuf.isEmpty_raw] at bare
    rw [PathBuf.route, bare] at parsed
    cases parsed
    cases (entry_ok.mp named).1
  obtain ⟨above, also, there⟩ := context
  rw [PathBuf.asDirectory, full, if_neg Bool.false_ne_true, parsed] at also
  cases also
  have onward := (directory_ok.mp there).1
  rw [reached] at onward
  cases onward
  rfl

end Temporary

/-- What a computation comes to, whatever it leaves. -/
def reported : EStateM.Result E Files A → Except E A
  | .ok a _ => .ok a
  | .error e _ => .error e

theorem reported_dropping (drop : Files → Files) (done : EStateM E Files A) (h : Files) :
    reported (dropping drop done h) = reported (done h) := by
  cases ended : done h <;> simp only [dropping, ended, reported]

theorem reported_adapt (done : EStateM E Files A) (f : E → F) (h : Files) :
    reported (done.adaptExcept f h) = (reported (done h)).mapError f := by
  cases ended : done h <;> simp only [EStateM.adaptExcept, ended, reported, Except.mapError]

theorem reported_bind (x : EStateM E Files A) (f : A → EStateM E Files B) (h : Files) :
    reported ((x >>= f) h) = (reported (x h)).bind fun a => reported (f a (left (x h))) := by
  cases done : x h <;> simp [bind, EStateM.bind, Except.bind, done, reported, left]

theorem left_dropping (drop : Files → Files) (done : EStateM E Files A) (h : Files) :
    left (dropping drop done h) = drop (left (done h)) := by
  cases ended : done h <;> simp only [dropping, ended, left]

theorem left_adapt (done : EStateM E Files A) (f : E → F) (h : Files) :
    left (done.adaptExcept f h) = left (done h) := by
  cases ended : done h <;> simp only [EStateM.adaptExcept, ended, left]

section Staging

variable {own : Nat → Prop} {places : Nat → FileName → Prop} {contextDir output : PathBuf}
  {containerfile tag : Text} {config : VmConfig} {kernel : Kernel}

def buildEntry : FileName := ⟨Utf8.encode buildContainerfile, by decide⟩

theorem openCreate_free
    (free : ∀ pos entries n, fs.entry route = .ok (some (pos, entries, n)) →
      entries.lookup n = none)
    (opened : fs.openCreate mode links route = .ok (file, mid)) :
    ∃ pos entries n, fs.entry route = .ok (some (pos, entries, n)) ∧
      ∀ bytes, mid.setContents file bytes = fs.written pos entries n mode bytes := by
  unfold openCreate at opened
  split at opened
  · cases opened
  · cases opened
  · rename_i pos entries n named
    rw [free _ _ _ named] at opened
    cases opened
    refine ⟨pos, entries, n, named, fun bytes => ?_⟩
    rw [written, free _ _ _ named, add_setContents]

/-- What becomes of the copy of the Containerfile. -/
theorem write_cases
    (bare : ∀ pos entries, Context fs contextDir pos entries → entries.lookup buildEntry = none) :
    (∃ e, write host (contextDir.join buildContainerfile) containerfile fs = .error e fs) ∨
    ∃ pos entries, Context fs contextDir pos entries ∧
      (write host (contextDir.join buildContainerfile) containerfile fs =
          .ok () (fs.written pos entries buildEntry 0o644 (Utf8.encode containerfile)) ∨
        ∃ e count, write host (contextDir.join buildContainerfile) containerfile fs = .error e
          (fs.written pos entries buildEntry 0o644 ((Utf8.encode containerfile).take count))) := by
  cases opened : host.kernel.perform fs (.openFile (contextDir.join buildContainerfile))
      (contextDir.join buildContainerfile) (fs.openCreate 0o644 fs.hops) with
  | error e =>
    refine .inl ⟨e.message, ?_⟩
    simp only [write, opened]
  | ok result =>
    obtain ⟨file, mid⟩ := result
    obtain ⟨_, route, parsed, began⟩ := Kernel.perform_ok.mp opened
    have spelled : Utf8.encode buildContainerfile = buildEntry.val := rfl
    have free : ∀ pos entries n, fs.entry route = .ok (some (pos, entries, n)) →
        entries.lookup n = none := by
      intro pos entries n named
      obtain ⟨rfl, above, context⟩ := join_entry spelled parsed named
      exact bare pos entries ⟨above, context⟩
    obtain ⟨pos, entries, n, named, written⟩ := openCreate_free free began
    obtain ⟨rfl, above, context⟩ := join_entry spelled parsed named
    refine .inr ⟨pos, entries, ⟨above, context⟩, ?_⟩
    rcases Kernel.writeAll_cases host.kernel mid file (Utf8.encode containerfile) with
      wrote | ⟨e, count, wrote⟩
    · refine .inl ?_
      simp only [write, opened, wrote, written]
    · refine .inr ⟨e.message, count, ?_⟩
      simp only [write, opened, wrote, written]

theorem written_lookup (found : fs.nodes.lookup (fs.inode pos) = some (.dir entries))
    (free : entries.lookup n = none)
    (there : (fs.written pos entries n mode bytes).nodes.lookup (fs.inode pos) = some (.dir more))
    (other : k ≠ n) : more.lookup k = entries.lookup k := by
  have apart : fs.inode pos ≠ fs.fresh := by
    intro same
    rw [same, fresh_absent] at found
    cases found
  rw [written, free] at there
  dsimp only at there
  rw [lookup_add, if_neg apart, if_pos rfl] at there
  cases there
  exact Finmap.lookup_insert_of_ne _ other

/-- The files while a context of one's own is filled. -/
structure Filling (ready : Files) (contextDir : PathBuf) (begun h : Files) : Prop where
  adds : ∀ places, Adds (fun _ => False) (· = ready.fresh) places begun h
  closed : h.Closed
  context : ∀ q inside, Context h contextDir q inside →
    h.inode q = ready.fresh ∧ inside.lookup containerfileEntry = none

section Copying

variable {ready begun : Files} {pos : Position FileName} {entries : FiniteMap FileName Nat}
  {n : FileName}

theorem Temporary.empty_context (temporary : Temporary ready contextDir pos entries n)
    (closed : ready.Closed) (made : begun = ready.add pos entries n (.dir ∅)) :
    begun.Closed ∧ ∀ q inside, Context begun contextDir q inside →
      begun.inode q = ready.fresh ∧ inside = ∅ := by
  subst made
  refine ⟨closed.add temporary.found (fun inside same => by cases same; rfl) n,
    fun q inside context => ?_⟩
  have same : Extends (fun _ => False) (ready.add pos entries n (.dir ∅)) _ := .refl _
  have home := temporary.context_inode same context
  have found := context.found
  rw [home, lookup_add, if_pos rfl] at found
  cases found
  exact ⟨home, rfl⟩

theorem Temporary.filling (temporary : Temporary ready contextDir pos entries n)
    (closed : ready.Closed) (made : begun = ready.add pos entries n (.dir ∅)) :
    Filling ready contextDir begun begun := by
  obtain ⟨closed, bare⟩ := temporary.empty_context closed made
  exact {
    adds := fun _ => .refl closed
    closed := closed
    context := fun q inside context => by
      obtain ⟨home, rfl⟩ := bare q inside context
      exact ⟨home, Finmap.lookup_empty _⟩ }

/-- The context has nothing in it before the copy of the Containerfile. -/
theorem Temporary.filled (temporary : Temporary ready contextDir pos entries n)
    (closed : ready.Closed) (made : begun = ready.add pos entries n (.dir ∅))
    (context : Context begun contextDir q inside) (bytes : List UInt8) :
    Filling ready contextDir begun (begun.written q inside buildEntry 0o644 bytes) := by
  obtain ⟨closed, bare⟩ := temporary.empty_context closed made
  obtain ⟨home, rfl⟩ := bare q inside context
  have grown := extends_written context.found buildEntry 0o644 bytes
  exact {
    adds := fun places => by
      have adds : Adds _ (· = ready.fresh) places begun _ :=
        .written closed context.found home buildEntry 0o644 bytes
      exact adds.mono (fun _ never => by cases never) fun _ _ => id
    closed := closed.written context.found _ _ _
    context := fun q' inside' context' => by
      subst made
      have home' := temporary.context_inode grown context'
      have found := context'.found
      rw [home', ← home] at found
      refine ⟨home', ?_⟩
      rw [written_lookup context.found (Finmap.lookup_empty _) found (by decide),
        Finmap.lookup_empty] }

theorem copy_filling (temporary : Temporary ready contextDir pos entries n)
    (closed : ready.Closed) (made : begun = ready.add pos entries n (.dir ∅)) (host : Host buildah)
    (containerfile : Text) (copy : Bool) :
    Filling ready contextDir begun (left ((if copy then
      write host (contextDir.join buildContainerfile) containerfile else pure ()) begun)) := by
  have before := temporary.filling closed made
  cases copy with
  | false => exact before
  | true =>
    have bare : ∀ q inside, Context begun contextDir q inside →
        inside.lookup buildEntry = none := by
      intro q inside context
      rw [((temporary.empty_context closed made).2 q inside context).2, Finmap.lookup_empty]
    rw [if_pos rfl]
    rcases write_cases bare with ⟨e, failed⟩ | ⟨q, inside, context, wrote | ⟨e, count, failed⟩⟩
    · rw [failed]
      exact before
    · rw [wrote]
      exact temporary.filled closed made context _
    · rw [failed]
      exact temporary.filled closed made context _

/-- The copy of the Containerfile has one name, in the context. -/
theorem copy_held (temporary : Temporary ready contextDir pos entries n) (closed : ready.Closed)
    (made : begun = ready.add pos entries n (.dir ∅))
    (copied : write host (contextDir.join buildContainerfile) containerfile begun =
      .ok () fs) :
    fs.reach ready.fresh [buildEntry] = some begun.fresh ∧
      fs.nodes.lookup begun.fresh = some (.file 0o644 (Utf8.encode containerfile)) := by
  obtain ⟨_, empty⟩ := temporary.empty_context closed made
  have bare : ∀ q inside, Context begun contextDir q inside → inside.lookup buildEntry = none := by
    intro q inside context
    rw [(empty q inside context).2, Finmap.lookup_empty]
  rcases write_cases bare with ⟨e, failed⟩ | ⟨q, inside, context, wrote | ⟨e, count, failed⟩⟩
  · rw [copied] at failed
    cases failed
  · rw [copied] at wrote
    obtain ⟨home, rfl⟩ := empty q inside context
    have found := context.found
    rw [home] at found
    have same : fs = begun.add [(buildEntry, ready.fresh)] ∅ buildEntry
        (.file 0o644 (Utf8.encode containerfile)) := by
      rw [(EStateM.Result.ok.inj wrote).2, written, Finmap.lookup_empty]
      dsimp only
      rw [add, add, home, show begun.inode [(buildEntry, ready.fresh)] = ready.fresh from rfl]
    have leaf : ∀ inside, Node.file 0o644 (Utf8.encode containerfile) = .dir inside →
        inside = (∅ : FiniteMap FileName Nat) := fun inside same => by cases same
    have top : begun.reach ready.fresh [] = some ready.fresh := rfl
    rw [same]
    exact ⟨reach_added found (Finmap.lookup_empty _) leaf top, lookup_added_fresh _ _ _ _⟩
  · rw [copied] at failed
    cases failed

/-- A build in its context fails early on, or has a Containerfile to build. -/
theorem runIn_prepared (created : tempdir host ready = .ok contextDir begun)
    (closed : ready.Closed) (tag from_ : Text) (copy : Bool) (backend : Backend) :
    (∃ e last, runIn host tag from_ copy backend contextDir begun = .error e last ∧
      ((∃ cause, Containerfile.generate from_ copy = .error cause ∧ e = .containerfile cause) ∨
        ∃ cause, e = .io cause) ∧
      ∀ places, Adds (fun _ => False) (· = ready.fresh) places begun last) ∨
    ∃ text early, Containerfile.generate from_ copy = .ok text ∧
      (if copy then write host (contextDir.join buildContainerfile) text else pure ()) begun =
        .ok () early ∧
      Filling ready contextDir begun early ∧
      runIn host tag from_ copy backend contextDir begun =
        buildIn host text tag contextDir backend early := by
  obtain ⟨pos, entries, n, temporary, made⟩ := tempdir_ok created
  cases generated : Containerfile.generate from_ copy with
  | error e =>
    refine .inl ⟨.containerfile e, begun, ?_, .inl ⟨e, rfl, rfl⟩,
      (temporary.filling closed made).adds⟩
    rw [runIn, generated]
    rfl
  | ok text =>
    have filling := copy_filling temporary closed made host text copy
    cases copied : (if copy then write host (contextDir.join buildContainerfile) text
        else pure ()) begun with
    | error e early =>
      rw [copied] at filling
      refine .inl ⟨.io e, early, ?_, .inr ⟨e, rfl⟩, filling.adds⟩
      rw [runIn, generated]
      exact Fallible.bind_error.mpr (.inr ⟨_, _, rfl, Fallible.bind_error.mpr
        (.inl (Fallible.adapt_error.mpr ⟨e, copied, rfl⟩))⟩)
    | ok _ early =>
      rw [copied] at filling
      refine .inr ⟨text, early, rfl, copied, filling, ?_⟩
      rw [runIn, generated]
      exact (Fallible.bind_next rfl).trans (Fallible.bind_next (Fallible.adapt_ok.mpr copied))

end Copying

theorem resolve_closed (closed : fs.Closed) :
    (left (resolve kernel tag config contextDir output fs)).Closed := by
  cases resolved : resolve kernel tag config contextDir output fs with
  | ok vmBuild final =>
    obtain ⟨_, _, _, _, _, _, _, created, _⟩ := resolve_ok.mp resolved
    have last := createDirAll_closed kernel (outputParent output).ancestors closed
    rw [created] at last
    exact last
  | error e final =>
    cases resolve_error resolved with
    | rootfs | context | fileName => exact closed
    | parent created | outputDir created =>
      have last := createDirAll_closed kernel (outputParent output).ancestors closed
      rw [created] at last
      exact last

theorem resolve_onlyDirs : OnlyDirs fs (left (resolve kernel tag config contextDir output fs)) := by
  cases resolved : resolve kernel tag config contextDir output fs with
  | ok vmBuild final => exact (resolve_ok_madeFor resolved).toOnlyDirs
  | error e final => exact (resolve_error_madeFor (resolve_error resolved)).toOnlyDirs

/-- Staging a VM build in a context of one's own. -/
theorem stage_adds (closed : fs.Closed) (home : ∀ pos entries, Context fs contextDir pos entries →
    own (fs.inode pos) ∧ entries.lookup containerfileEntry = none) :
    Adds (fun _ => False) own places fs
      (left (VmBuildFiles.stage kernel containerfile tag config contextDir output fs)) := by
  have wrote : ∀ pos entries bytes, Context fs contextDir pos entries →
      Adds (fun _ => False) own places fs (withContainerfile fs pos entries bytes) := by
    intro pos entries bytes context
    obtain ⟨mine, free⟩ := home pos entries context
    refine (Adds.written closed context.found mine containerfileEntry 0o644 bytes).mono ?_
      fun _ _ => id
    rw [free]
    exact fun _ never => by cases never
  have resolved : ∀ pos entries, Context fs contextDir pos entries →
      Adds (fun _ => False) own places fs (left (resolve kernel tag config contextDir output
        (withContainerfile fs pos entries (Utf8.encode containerfile)))) := by
    intro pos entries context
    have closed' := closed.written context.found containerfileEntry 0o644
      (Utf8.encode containerfile)
    exact ((wrote pos entries (Utf8.encode containerfile) context).trans
      (.of_onlyDirs resolve_onlyDirs (resolve_closed closed'))).mono
        (fun _ either => either.elim id id) fun _ _ => id
  cases staged : VmBuildFiles.stage kernel containerfile tag config contextDir output fs with
  | ok vmBuild final =>
    obtain ⟨mid, _, first, second⟩ := VmBuildFiles.stage_ok.mp staged
    obtain ⟨pos, entries, context, _, rfl⟩ := writeContainerfile_ok first
    have last := resolved pos entries context
    rw [second] at last
    exact last
  | error e final =>
    rcases VmBuildFiles.stage_error.mp staged with ⟨_, rfl⟩ | ⟨_, failed | ⟨mid, first, second⟩⟩
    · exact .refl closed
    · rcases writeContainerfile_error failed with rfl | ⟨_, _, _, context, _, rfl⟩
      · exact .refl closed
      · exact wrote _ _ _ context
    · obtain ⟨pos, entries, context, _, rfl⟩ := writeContainerfile_ok first
      have last := resolved pos entries context
      rw [second] at last
      exact last

end Staging

end ImageBuilder.Program
