import ImageBuilder.BuildContext
import ImageBuilder.Library.InodeGrowth

/-! The host's files behind byte paths, and the calls that staging a build makes of them.
The host may refuse any call. -/
namespace ImageBuilder

open Inode

/-- What a directory entry can be called. -/
abbrev FileName := { name : List UInt8 //
  name ≠ [] ∧ name ≠ [0x2e] ∧ name ≠ [0x2e, 0x2e] ∧ 0x2f ∉ name ∧ 0 ∉ name }

abbrev Files := FileSystem FileName

/-- What a piece of a path asks for; the host takes no NUL byte. -/
def step? (piece : List UInt8) : Option (Step FileName) :=
  if UnixPath.Idle 0x2e piece then some .here
  else if piece = [0x2e, 0x2e] then some .up
  else if valid : piece ≠ [] ∧ piece ≠ [0x2e] ∧ piece ≠ [0x2e, 0x2e] ∧ 0x2f ∉ piece ∧ 0 ∉ piece then
    some (.name ⟨piece, valid⟩)
  else none

/-- An empty piece at the front stands for the root. -/
def ofPieces (pieces : List (List UInt8)) : Option (Route FileName) :=
  let absolute : Bool := pieces.head? = some []
  ((if absolute then pieces.tail else pieces).mapM step?).map fun steps => ⟨absolute, steps⟩

namespace PathBuf

/-- The path as the host takes it. -/
def route (path : PathBuf) : Option (Route FileName) := ofPieces (path.raw.splitOn 0x2f)

/-- The path from the root by names. -/
def ofNames (names : List FileName) : PathBuf :=
  ofRaw (UnixPath.rejoin 0x2f ([] :: names.map Subtype.val))

/-- `Path::ancestors`. -/
def ancestors (path : PathBuf) : List PathBuf := (UnixPath.ancestors 0x2f 0x2e path.raw).map ofRaw

/-- The directory that a relative path starts from when it is joined onto this one. -/
def asDirectory (path : PathBuf) : PathBuf := if path.isEmpty then .utf8 "." else path

def toStringLossy (path : PathBuf) : Text := Utf8.lossy path.raw

end PathBuf

inductive FileError where
  | os (error : Errno)
  | nul
  | wholeTree
  deriving DecidableEq

def FileError.message : FileError → Text
  | .os .noent => "No such file or directory (os error 2)"
  | .os .exist => "File exists (os error 17)"
  | .os .notdir => "Not a directory (os error 20)"
  | .os .isdir => "Is a directory (os error 21)"
  | .os .loop => "Too many levels of symbolic links (os error 62)"
  | .os (.other message) => message
  | .nul => "file name contained an unexpected NUL byte"
  | .wholeTree => "failed to create whole tree"

inductive Call where
  | metadata (path : PathBuf)
  | canonicalize (path : PathBuf)
  | mkdir (path : PathBuf)
  | openFile (path : PathBuf)
  deriving DecidableEq

/-- What the host does not let a process do, by what its files then are. -/
structure Kernel where
  refuses : Files → Call → Option FileError
  /-- How much of a write goes through before it fails. -/
  cuts : Files → List UInt8 → Option (Nat × FileError)

namespace Kernel

variable (kernel : Kernel)

def perform (fs : Files) (call : Call) (path : PathBuf)
    (operation : Route FileName → Except Errno A) : Except FileError A :=
  match kernel.refuses fs call with
  | some error => .error error
  | none =>
    match path.route with
    | none => .error .nul
    | some route => (operation route).mapError .os

/-- `fs::metadata`. -/
def metadata (fs : Files) (path : PathBuf) : Except FileError (Node FileName) :=
  kernel.perform fs (.metadata path) path fs.stat

/-- `Path::is_dir`. -/
def isDir (fs : Files) (path : PathBuf) : Bool :=
  match kernel.metadata fs path with
  | .ok (.dir _) => true
  | _ => false

/-- `Path::canonicalize`. -/
def canonicalize (fs : Files) (path : PathBuf) : Except FileError PathBuf :=
  (kernel.perform fs (.canonicalize path) path fs.realpath).map PathBuf.ofNames

def mkdir (fs : Files) (path : PathBuf) : Except FileError Files :=
  kernel.perform fs (.mkdir path) path fs.mkdir

/-- `OpenOptions::open` of a file to write to, not through a link. -/
def openTruncate (fs : Files) (path : PathBuf) : Except FileError (Nat × Files) :=
  kernel.perform fs (.openFile path) path (fs.openTruncate 0o644)

/-- `write_all`. -/
def writeAll (fs : Files) (ino : Nat) (bytes : List UInt8) : Except FileError Unit × Files :=
  match kernel.cuts fs bytes with
  | some (count, error) =>
    if count < bytes.length then (.error error, fs.setContents ino (bytes.take count))
    else (.ok (), fs.setContents ino bytes)
  | none => (.ok (), fs.setContents ino bytes)

/-- `fs::create_dir_all`, on a path and its ancestors. -/
def createDirAll : List PathBuf → Files → Except FileError Unit × Files
  | [], fs => (.error .wholeTree, fs)
  | path :: parents, fs =>
    if path.isEmpty then (.ok (), fs)
    else match kernel.mkdir fs path with
      | .ok fs => (.ok (), fs)
      | .error (.os .noent) =>
        match createDirAll parents fs with
        | (.error error, fs) => (.error error, fs)
        | (.ok (), fs) =>
          match kernel.mkdir fs path with
          | .ok fs => (.ok (), fs)
          | .error error => (if kernel.isDir fs path then .ok () else .error error, fs)
      | .error error => (if kernel.isDir fs path then .ok () else .error error, fs)

variable {kernel}

theorem perform_ok {operation : Route FileName → Except Errno A} :
    kernel.perform fs call path operation = .ok a ↔
      kernel.refuses fs call = none ∧ ∃ route, path.route = some route ∧ operation route = .ok a := by
  rw [perform]
  cases kernel.refuses fs call with
  | some error => simp
  | none =>
    cases path.route with
    | none => simp
    | some route => cases done : operation route <;> simp [Except.mapError, done]

theorem canonicalize_ok : kernel.canonicalize fs path = .ok real ↔
    kernel.refuses fs (.canonicalize path) = none ∧ ∃ route pos, path.route = some route ∧
      fs.resolve route = .ok pos ∧ real = PathBuf.ofNames (pos.map Prod.fst).reverse := by
  rw [canonicalize]
  constructor
  · intro resolved
    cases asked : kernel.perform fs (.canonicalize path) path fs.realpath with
    | error e =>
      rw [asked] at resolved
      cases resolved
    | ok names =>
      rw [asked] at resolved
      cases resolved
      obtain ⟨allowed, route, parsed, found⟩ := perform_ok.mp asked
      unfold FileSystem.realpath at found
      split at found <;> cases found
      rename_i pos reached
      exact ⟨allowed, route, pos, parsed, reached, rfl⟩
  · rintro ⟨allowed, route, pos, parsed, reached, rfl⟩
    have asked : kernel.perform fs (.canonicalize path) path fs.realpath =
        .ok (pos.map Prod.fst).reverse :=
      perform_ok.mpr ⟨allowed, route, parsed, by rw [FileSystem.realpath, reached]⟩
    rw [asked]
    rfl

end Kernel

theorem step?_idle (idle : UnixPath.Idle 0x2e piece) : step? piece = some .here := if_pos idle

theorem step?_name (name : FileName) : step? name.val = some (.name name) := by
  obtain ⟨full, dot, dots, rest⟩ := name.property
  rw [step?, if_neg (by simp [UnixPath.Idle, full, dot]), if_neg dots, dif_pos name.property]

/-- A piece that is no name of a file is one only for its NUL bytes. -/
theorem step?_busy (busy : ¬ UnixPath.Idle 0x2e piece) (dots : piece ≠ [0x2e, 0x2e])
    (asked : step? piece = some step) : ∃ name : FileName, step = .name name ∧ name.val = piece := by
  unfold step? at asked
  rw [if_neg busy, if_neg dots] at asked
  split at asked
  · rename_i valid
    cases asked
    exact ⟨⟨piece, valid⟩, rfl, rfl⟩
  · cases asked

theorem mapM_cons_some (first : step? piece = some step) (second : pieces.mapM step? = some steps) :
    (piece :: pieces).mapM step? = some (step :: steps) := by
  rw [List.mapM_cons, first, second]
  rfl

theorem mapM_idle {pieces : List (List UInt8)} (idle : ∀ piece ∈ pieces, UnixPath.Idle 0x2e piece) :
    ∃ steps, pieces.mapM step? = some steps ∧ ∀ step ∈ steps, step = .here := by
  induction pieces with
  | nil => exact ⟨[], rfl, by simp⟩
  | cons piece pieces ih =>
    obtain ⟨steps, asked, here⟩ := ih fun other member => idle other (List.mem_cons_of_mem _ member)
    refine ⟨.here :: steps, ?_, List.forall_mem_cons.mpr ⟨rfl, here⟩⟩
    exact mapM_cons_some (step?_idle (idle piece List.mem_cons_self)) asked

theorem mapM_names (names : List FileName) :
    (names.map Subtype.val).mapM step? = some (names.map .name) := by
  induction names with
  | nil => rfl
  | cons name names ih =>
    exact mapM_cons_some (step?_name name) ih

theorem mapM_append_some {a b : List (List UInt8)} (first : a.mapM step? = some x) (second : b.mapM step? = some y) :
    (a ++ b).mapM step? = some (x ++ y) := by
  rw [List.mapM_append, first, second]
  rfl

theorem mapM_none {pieces : List (List UInt8)} (member : piece ∈ pieces) (refused : step? piece = none) :
    pieces.mapM step? = none := by
  obtain ⟨before, after, rfl⟩ := List.append_of_mem member
  rw [List.mapM_append, List.mapM_cons, refused]
  cases before.mapM step? <;> rfl

theorem ofPieces_relative (visible : first ≠ []) :
    ofPieces (first :: rest) = ((first :: rest).mapM step?).map fun steps => ⟨false, steps⟩ := by
  simp [ofPieces, visible]

theorem ofPieces_none (member : piece ∈ pieces) (refused : step? piece = none) :
    ofPieces pieces = none := by
  unfold ofPieces
  cases pieces with
  | nil => cases member
  | cons first rest =>
    by_cases root : first = []
    · subst root
      rcases List.mem_cons.mp member with rfl | member
      · rw [step?_idle (.inl rfl)] at refused
        cases refused
      · simp [mapM_none member refused]
    · simp [root, mapM_none member refused]

/-- More pieces after the first. -/
theorem ofPieces_append (full : kept ≠ []) (more : List (List UInt8)) :
    ofPieces (kept ++ more) = (ofPieces kept).bind fun route =>
      (more.mapM step?).map fun steps => ⟨route.absolute, route.steps ++ steps⟩ := by
  obtain ⟨piece, kept, rfl⟩ := List.exists_cons_of_ne_nil full
  by_cases root : piece = []
  · subst root
    simp only [ofPieces, List.cons_append, List.head?_cons, List.tail_cons, decide_true, ↓reduceIte,
      List.mapM_append]
    cases kept.mapM step? with
    | none => rfl
    | some taken => cases more.mapM step? <;> rfl
  · rw [List.cons_append, ofPieces_relative root, ofPieces_relative root, ← List.cons_append,
      List.mapM_append]
    cases (piece :: kept).mapM step? with
    | none => rfl
    | some taken => cases more.mapM step? <;> rfl

theorem ofNames_join (names : List FileName) (clean : 0x2f ∉ Utf8.encode name) :
    ((PathBuf.ofNames names).join name).route =
      ofPieces ([] :: names.map Subtype.val ++ [Utf8.encode name]) := by
  rw [PathBuf.route, PathBuf.join_raw, PathBuf.ofNames, PathBuf.raw_ofRaw, UnixPath.splitOn_join]
  · simp only [List.mem_map]
    rintro _ ⟨n, _, rfl⟩
    exact n.property.1
  · simp only [List.mem_map]
    rintro _ ⟨n, _, rfl⟩
    exact n.property.2.2.2.1
  · exact clean

theorem asDirectory_raw (path : PathBuf) :
    path.asDirectory.raw = if path.raw = [] then [0x2e] else path.raw := by
  rw [PathBuf.asDirectory]
  by_cases bare : path.isEmpty = true
  · rw [if_pos bare, if_pos ((PathBuf.isEmpty_raw path).mp bare)]
    decide
  · rw [if_neg bare, if_neg (mt (PathBuf.isEmpty_raw path).mpr bare)]

/-- A name after pieces is looked up where they lead. -/
theorem ofPieces_name {kept : List (List UInt8)} {file : FileName} (full : kept ≠ [])
    (parsed : ofPieces (kept ++ [file.val]) = some route) :
    ∃ base, ofPieces kept = some base ∧ route = ⟨base.absolute, base.steps ++ [.name file]⟩ := by
  rw [ofPieces_append full, mapM_cons_some (step?_name file) rfl] at parsed
  obtain ⟨base, taken, same⟩ := Option.bind_eq_some_iff.mp parsed
  cases same
  exact ⟨base, taken, rfl⟩

/-- A name joined onto a path is looked up in the directory that the path leads to. -/
theorem join_route {path : PathBuf} {file : FileName} (spelled : Utf8.encode name = file.val)
    (parsed : (path.join name).route = some route) :
    ∃ (base : Route FileName) (idle : List (Step FileName)),
      route = ⟨base.absolute, base.steps ++ [.name file]⟩ ∧
      path.asDirectory.route = some ⟨base.absolute, base.steps ++ idle⟩ ∧
      ∀ step ∈ idle, step = .here := by
  obtain ⟨full, _, _, clean, _⟩ := file.property
  have single : file.val.splitOn 0x2f = [file.val] := List.splitOn_eq_singleton clean
  rw [PathBuf.route, PathBuf.join_raw, UnixPath.join, spelled] at parsed
  rw [PathBuf.route, asDirectory_raw]
  by_cases bare : path.raw = []
  · rw [bare, if_pos (.inl rfl), List.nil_append, single, ofPieces_relative full,
      mapM_cons_some (step?_name file) rfl] at parsed
    cases parsed
    rw [if_pos bare]
    exact ⟨⟨false, []⟩, [.here], rfl, rfl, by simp⟩
  · rw [if_neg bare]
    by_cases closed : path.raw.getLast? = some 0x2f
    · obtain ⟨init, raw⟩ := List.getLast?_eq_some_iff.mp closed
      rw [if_pos (.inr closed), raw, List.append_assoc, List.singleton_append,
        List.splitOn_append_cons_self, single] at parsed
      have rooted := List.splitOn_ne_nil 0x2f init
      obtain ⟨base, taken, same⟩ := ofPieces_name rooted parsed
      refine ⟨base, [.here], same, ?_, by simp⟩
      rw [raw, List.splitOn_append_cons_self, ofPieces_append rooted, taken]
      rfl
    · rw [if_neg (by simp [bare, closed]), List.splitOn_append_cons_self, single] at parsed
      obtain ⟨base, taken, same⟩ := ofPieces_name (List.splitOn_ne_nil 0x2f path.raw) parsed
      exact ⟨base, [], same, by rw [taken, List.append_nil], by simp⟩

/-- The entry of a name joined onto a path. -/
theorem join_entry {fs : Files} {path : PathBuf} {file : FileName}
    (spelled : Utf8.encode name = file.val) (parsed : (path.join name).route = some route)
    (named : fs.entry route = .ok (some (pos, entries, n))) :
    n = file ∧ ∃ above, path.asDirectory.route = some above ∧
      fs.directory above = .ok (pos, entries) := by
  obtain ⟨base, idle, rfl, above, here⟩ := join_route spelled parsed
  obtain ⟨last, there⟩ := FileSystem.entry_ok.mp named
  simp only [List.getLast?_concat, List.dropLast_concat, Option.some.injEq] at last there
  cases last
  obtain ⟨followed, found⟩ := FileSystem.directory_ok.mp there
  exact ⟨rfl, _, above, (FileSystem.directory_idle here followed).mpr ⟨rfl, found⟩⟩

/-- Growth by directories that some of the paths lead to. -/
structure MadeFor (paths : List PathBuf) (fs final : Files) : Prop
    extends FileSystem.OnlyDirs fs final where
  named : ∀ ino node, fs.nodes.lookup ino = none → final.nodes.lookup ino = some node →
    ∃ path ∈ paths, ∃ route pos, path.route = some route ∧ final.resolve route = .ok pos ∧
      final.inode pos = ino

namespace MadeFor

theorem refl (paths : List PathBuf) (fs : Files) : MadeFor paths fs fs where
  toOnlyDirs := .refl fs
  named ino node absent found := by
    rw [absent] at found
    cases found

theorem trans (first : MadeFor paths fs mid) (second : MadeFor paths mid final) :
    MadeFor paths fs final where
  toOnlyDirs := first.toOnlyDirs.trans second.toOnlyDirs
  named ino node absent found := by
    cases between : mid.nodes.lookup ino with
    | none => exact second.named _ _ between found
    | some middle =>
      obtain ⟨path, member, route, pos, parsed, reached, same⟩ := first.named _ _ absent between
      refine ⟨path, member, route, pos, parsed, second.resolve reached, ?_⟩
      rw [second.inode, same]

theorem mono (made : MadeFor paths fs final) (more : paths ⊆ others) : MadeFor others fs final where
  toOnlyDirs := made.toOnlyDirs
  named ino node absent found := by
    obtain ⟨path, member, onward⟩ := made.named _ _ absent found
    exact ⟨path, more member, onward⟩

end MadeFor

namespace Kernel

variable {kernel : Kernel}

theorem mkdir_madeFor (made : kernel.mkdir fs path = .ok final) (member : path ∈ paths) :
    MadeFor paths fs final := by
  obtain ⟨_, route, parsed, made⟩ := perform_ok.mp made
  obtain ⟨pos, reached, only⟩ := FileSystem.mkdir_resolve made
  exact {
    toOnlyDirs := FileSystem.mkdir_onlyDirs made
    named := fun ino node absent found =>
      ⟨path, member, route, pos, parsed, reached, (only ino node absent found).symm⟩ }

theorem writeAll_cases (kernel : Kernel) (fs : Files) (ino : Nat) (bytes : List UInt8) :
    kernel.writeAll fs ino bytes = (.ok (), fs.setContents ino bytes) ∨
    ∃ error count, kernel.writeAll fs ino bytes = (.error error, fs.setContents ino (bytes.take count)) := by
  unfold writeAll
  split
  · split
    · exact .inr ⟨_, _, rfl⟩
    · exact .inl rfl
  · exact .inl rfl

/-- `fs::create_dir_all` makes missing directories among a path and its ancestors, whether
it succeeds or not. -/
theorem createDirAll_madeFor (kernel : Kernel) (paths : List PathBuf) (fs : Files) :
    MadeFor paths fs (kernel.createDirAll paths fs).2 := by
  induction paths generalizing fs with
  | nil => exact .refl [] fs
  | cons path parents ih =>
    rw [createDirAll]
    split
    · exact .refl _ fs
    · split
      · rename_i made
        exact mkdir_madeFor made List.mem_cons_self
      · have above : MadeFor (path :: parents) fs (kernel.createDirAll parents fs).2 :=
          (ih fs).mono (List.subset_cons_self _ _)
        split
        · rename_i created
          rw [created] at above
          exact above
        · rename_i created
          rw [created] at above
          split
          · rename_i made
            exact above.trans (mkdir_madeFor made List.mem_cons_self)
          · exact above
      · exact .refl _ fs

/-- The current directory is not made. -/
theorem createDirAll_here (kernel : Kernel) (fs : Files) :
    (kernel.createDirAll (PathBuf.ancestors (.utf8 ".")) fs).2 = fs := by
  have paths : PathBuf.ancestors (.utf8 ".") = [.utf8 ".", .utf8 []] := by decide
  have never (final : Files) : kernel.mkdir fs (.utf8 ".") ≠ .ok final := by
    intro made
    obtain ⟨_, route, parsed, made⟩ := perform_ok.mp made
    cases parsed
    obtain ⟨_, _, _, named, _⟩ := FileSystem.mkdir_ok.mp made
    cases (FileSystem.entry_ok.mp named).1
  rw [paths, createDirAll]
  split
  · rfl
  · split
    · rename_i made
      exact absurd made (never _)
    · have above : kernel.createDirAll [.utf8 []] fs = (.ok (), fs) := by
        rw [createDirAll]
        exact if_pos rfl
      rw [above]
      dsimp only
      split
      · rename_i made
        exact absurd made (never _)
      · rfl
    · rfl

end Kernel
end ImageBuilder
