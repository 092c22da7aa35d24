import ImageBuilder.ProgramFiles

/-! The context of a build on the files of its host, as the tree that the two backends are
compared on. -/
namespace ImageBuilder.Program

open Inode Inode.FileSystem VmBuilder VmBuildFiles VmBuildRun VmGuest

section Names

variable {buildah : Buildah} {host : Host buildah} {ready begun early last : Files}
  {contextDir tmpfile : PathBuf} {pos : Position FileName} {entries : FiniteMap FileName Nat}
  {n : FileName} {changed : Nat → Prop}

/-- What the `tempfile` crate makes names of: letters and digits. -/
def Alphanumeric (host : Host buildah) : Prop :=
  ∀ h, ∀ name ∈ host.random h, ∀ c ∈ name, c.isAlphanum = true

theorem createHelper_path {create : Files → PathBuf → Except FileError (A × Files)}
    (created : createHelper host stem create names ready = .ok (path, a) begun) :
    ∃ name ∈ names, path = host.tempDir.join (stem ++ name) := by
  induction names with
  | nil => cases created
  | cons name names ih =>
    rw [createHelper] at created
    dsimp only at created
    split at created
    · cases created
      exact ⟨name, List.mem_cons_self, rfl⟩
    · obtain ⟨later, member, same⟩ := ih created
      exact ⟨later, List.mem_cons_of_mem _ member, same⟩
    · cases created

theorem tempdir_path (created : tempdir host ready = .ok contextDir begun) :
    ∃ name ∈ host.random ready,
      contextDir = host.tempDir.join ("openshell-build-image" ++ name) := by
  obtain ⟨_, _, got, onward⟩ := Fallible.bind_ok.mp created
  cases got
  obtain ⟨⟨_, _⟩, _, helped, same⟩ := Fallible.bind_ok.mp onward
  cases same
  exact createHelper_path helped

theorem namedTempFile_path (created : namedTempFile host early = .ok (tmpfile, file) last) :
    ∃ name ∈ host.random early, tmpfile = host.tempDir.join (".tmp" ++ name) :=
  createHelper_path (show createHelper host _ _ _ early = _ from created)

/-- A name that is made up can be given to a file. -/
theorem tempName (alphanumeric : ∀ c ∈ name, c.isAlphanum = true) (stem : Text)
    (clean : 0x2f ∉ Utf8.encode stem ∧ 0 ∉ Utf8.encode stem)
    (long : 2 < (Utf8.encode stem).length) :
    ∃ n : FileName, Utf8.encode (stem ++ name) = n.val := by
  have foreign : ∀ b : UInt8, b.toNat < 128 → (Char.ofNat b.toNat).isAlphanum = false →
      b ∉ Utf8.encode name := by
    intro b ascii other member
    obtain ⟨c, there, same⟩ := Utf8.mem_encode_ascii member ascii
    rw [← same, Char.ofNat_toNat, alphanumeric c there] at other
    cases other
  have size : 2 < (Utf8.encode (stem ++ name)).length := by
    rw [Utf8.encode_append, List.length_append]
    omega
  refine ⟨⟨Utf8.encode (stem ++ name), ?_, ?_, ?_, ?_, ?_⟩, rfl⟩
  · intro bare
    simp [bare] at size
  · intro dot
    simp [dot] at size
  · intro dots
    simp [dots] at size
  · rw [Utf8.encode_append, List.mem_append, not_or]
    exact ⟨clean.1, foreign 0x2f (by decide) (by decide)⟩
  · rw [Utf8.encode_append, List.mem_append, not_or]
    exact ⟨clean.2, foreign 0 (by decide) (by decide)⟩

/-- The temporary Containerfile is made beside the temporary context, not in it. -/
theorem Temporary.beside (alphanumeric : Alphanumeric host)
    (created : tempdir host ready = .ok contextDir begun)
    (made : namedTempFile host early = .ok (tmpfile, file) last)
    (grown : Extends changed ready early) (temporary : Temporary early tmpfile pos entries n) :
    early.inode pos ≠ ready.fresh := by
  obtain ⟨q, inside, m, above, _⟩ := tempdir_ok created
  obtain ⟨name, member, rfl⟩ := tempdir_path created
  obtain ⟨other, also, rfl⟩ := namedTempFile_path made
  obtain ⟨k, called⟩ := tempName (alphanumeric _ _ member) "openshell-build-image"
    (by decide) (by decide)
  obtain ⟨k', called'⟩ := tempName (alphanumeric _ _ also) ".tmp"
    (by decide) (by decide)
  obtain ⟨_, parsed, named⟩ := above.named
  obtain ⟨_, parsed', named'⟩ := temporary.named
  obtain ⟨_, dir, taken, there⟩ := join_entry called parsed named
  obtain ⟨_, dir', taken', there'⟩ := join_entry called' parsed' named'
  rw [taken] at taken'
  cases taken'
  obtain ⟨more, still, _⟩ := grown.directory there
  rw [still] at there'
  cases there'
  rw [grown.inode]
  intro same
  have present := above.found
  rw [same, fresh_absent] at present
  cases present

end Names

/-- A directory on the host has the files of a tree, and nothing else but directories. -/
structure Mirrors (fs : Files) (dir : Nat) (tree : Tree) : Prop where
  held : ∀ name mode contents, tree.lookup name = some (.file mode contents) →
    ∃ n : FileName, n.val = Utf8.encode name ∧
      fs.fileAt dir [n] = some (.file mode (PathBuf.raw contents))
  only : ∀ n node, fs.fileAt dir [n] = some node → ∃ name mode contents,
    n.val = Utf8.encode name ∧ tree.lookup name = some (.file mode contents) ∧
      node = .file mode (PathBuf.raw contents)

namespace Mirrors

variable {fs final : Files} {dir : Nat} {tree : Tree} {pos : Position FileName}
  {entries inside : FiniteMap FileName Nat} {n : FileName}

theorem empty (there : fs.nodes.lookup dir = some (.dir ∅)) : Mirrors fs dir ∅ where
  held _ _ _ found := by
    rw [Finmap.lookup_empty] at found
    cases found
  only n node found := by
    obtain ⟨_, entered, _⟩ := (fileAt_single there n).mp found
    rw [Finmap.lookup_empty] at entered
    cases entered

theorem congr (mirrors : Mirrors fs dir tree)
    (same : ∀ n, final.fileAt dir [n] = fs.fileAt dir [n]) : Mirrors final dir tree where
  held name mode contents found := by
    obtain ⟨n, spelled, held⟩ := mirrors.held name mode contents found
    exact ⟨n, spelled, (same n).trans held⟩
  only n node found := mirrors.only n node ((same n).symm.trans found)

/-- A file is written into the directory under a new name. -/
theorem insert (mirrors : Mirrors fs (fs.inode pos) tree) (closed : fs.Closed)
    (found : fs.nodes.lookup (fs.inode pos) = some (.dir entries)) (free : entries.lookup n = none)
    (spelled : n.val = Utf8.encode name) (text : Text) :
    Mirrors (fs.written pos entries n 0o644 (Utf8.encode text)) (fs.inode pos)
      (tree.insert name (.file 0o644 (.utf8 text))) := by
  have now : ∀ k, (fs.written pos entries n 0o644 (Utf8.encode text)).fileAt (fs.inode pos) [k] =
      if k = n then some (.file 0o644 (Utf8.encode text)) else fs.fileAt (fs.inode pos) [k] := by
    intro k
    rw [written, free]
    exact (add_fileAt closed found found n k 0o644 (Utf8.encode text)).trans (by simp)
  constructor
  · intro other mode contents held
    by_cases same : other = name
    · subst same
      rw [Finmap.lookup_insert] at held
      cases held
      exact ⟨n, spelled, (now n).trans (if_pos rfl)⟩
    · rw [Finmap.lookup_insert_of_ne _ same] at held
      obtain ⟨k, called, held⟩ := mirrors.held other mode contents held
      refine ⟨k, called, (now k).trans ((if_neg ?_).trans held)⟩
      rintro rfl
      exact same (Utf8.encode_injective (called.symm.trans spelled))
  · intro k node held
    rw [now] at held
    split at held
    · rename_i same
      cases held
      exact ⟨name, 0o644, .utf8 text, by rw [same, spelled], Finmap.lookup_insert _, rfl⟩
    · rename_i other
      obtain ⟨called, mode, contents, spelled', held, same⟩ := mirrors.only k node held
      refine ⟨called, mode, contents, spelled', ?_, same⟩
      rw [Finmap.lookup_insert_of_ne _, held]
      rintro rfl
      exact other (Subtype.ext (spelled'.trans spelled.symm))

/-- A file is made somewhere else. -/
theorem aside (mirrors : Mirrors fs dir tree) (closed : fs.Closed)
    (found : fs.nodes.lookup (fs.inode pos) = some (.dir entries))
    (there : fs.nodes.lookup dir = some (.dir inside)) (apart : dir ≠ fs.inode pos) (n : FileName)
    (mode : Nat) (bytes : List UInt8) :
    Mirrors (fs.add pos entries n (.file mode bytes)) dir tree :=
  mirrors.congr fun k => (add_fileAt closed found there n k mode bytes).trans
    (if_neg fun both => apart both.1)

end Mirrors

section Staging

variable {buildah : Buildah} {host : Host buildah} {ready begun early last : Files}
  {contextDir : PathBuf} {pos : Position FileName} {entries : FiniteMap FileName Nat}
  {n : FileName} {text : Text} {changed : Nat → Prop}

/-- The directory that was made is the one that is shared. -/
theorem Temporary.shows (temporary : Temporary ready contextDir pos entries n)
    (grown : Extends changed (ready.add pos entries n (.dir ∅)) last) :
    sharedDirectory last contextDir = some ready.fresh := by
  obtain ⟨route, more, parsed, named, held, _⟩ :=
    temporary.entered (fun inside same => by cases same; rfl) grown
  have made : (ready.add pos entries n (.dir ∅)).nodes.lookup ready.fresh = some (.dir ∅) := by
    rw [lookup_add, if_pos rfl]
  obtain ⟨inside, still, _⟩ := grown.dir _ _ made
  have reached := resolve_follow
    (resolve_entry named held still (fun target same => by cases same))
  exact sharedDirectory_some.mpr ⟨route, _, inside, parsed, reached, still, rfl⟩

/-- The context of a build holds what is staged. -/
theorem Temporary.mirrors (temporary : Temporary ready contextDir pos entries n)
    (closed : ready.Closed) (made : begun = ready.add pos entries n (.dir ∅)) (copy : Bool)
    (copied : (if copy then write host (contextDir.join buildContainerfile) text else pure ())
      begun = .ok () early) : Mirrors early ready.fresh (stagedContext text copy) := by
  obtain ⟨closed', empty⟩ := temporary.empty_context closed made
  have bare : Mirrors begun ready.fresh ∅ := .empty (by rw [made, lookup_added_fresh])
  cases copy with
  | false =>
    cases copied
    exact bare
  | true =>
    have free : ∀ q inside, Context begun contextDir q inside →
        inside.lookup buildEntry = none := by
      intro q inside context
      rw [(empty q inside context).2, Finmap.lookup_empty]
    rw [if_pos rfl] at copied
    rcases write_cases free with ⟨e, failed⟩ | ⟨q, inside, context, wrote | ⟨e, count, failed⟩⟩
    · rw [copied] at failed
      cases failed
    · rw [copied] at wrote
      cases wrote
      obtain ⟨home, _⟩ := empty q inside context
      rw [← home] at bare ⊢
      exact bare.insert closed' context.found (free q inside context) rfl text
    · rw [copied] at failed
      cases failed

end Staging

end ImageBuilder.Program
