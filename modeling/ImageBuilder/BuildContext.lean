import ImageBuilder.Rootfs
import ImageBuilder.Library.UnixPath
import ImageBuilder.Library.Utf8

/-! Where a build is staged: paths, the directories they lead to, and the operations
of the host that staging a build performs, each of which may fail. -/
namespace ImageBuilder

/-- A path, which need not be text. -/
abbrev PathBuf := Bytes

namespace PathBuf

/-- The bytes of a path. -/
def raw : PathBuf → List UInt8
  | .utf8 path => Utf8.encode path
  | .binary path => path

def ofRaw (bytes : List UInt8) : PathBuf :=
  match Utf8.decode? bytes with
  | some path => .utf8 path
  | none => .binary bytes

def fileName : PathBuf → Option PathBuf
  | .utf8 path => (UnixPath.fileName '/' '.' path).map .utf8
  | .binary path => (UnixPath.fileName 0x2f 0x2e path).map ofRaw

def parent : PathBuf → Option PathBuf
  | .utf8 path => (UnixPath.parent '/' '.' path).map .utf8
  | .binary path => (UnixPath.parent 0x2f 0x2e path).map ofRaw

def isEmpty : PathBuf → Bool
  | .utf8 path => path.isEmpty
  | .binary path => path.isEmpty

/-- Joins a file name onto a path. -/
def join (path : PathBuf) (name : Text) : PathBuf :=
  match path with
  | .utf8 path => .utf8 (UnixPath.join '/' path name)
  | .binary path => .binary (UnixPath.join 0x2f path (Utf8.encode name))

@[simp] theorem raw_utf8 (path : Text) : raw (.utf8 path) = Utf8.encode path := rfl

@[simp] theorem raw_ofRaw (bytes : List UInt8) : (ofRaw bytes).raw = bytes := by
  unfold ofRaw
  split
  · rename_i decoded
    exact Utf8.encode_decode? decoded
  · rfl

theorem raw_comp_ofRaw : raw ∘ ofRaw = id := funext raw_ofRaw

/-- Texts and their bytes are taken apart alike. -/
theorem encoding : UnixPath.Encoding '/' '.' 0x2f 0x2e Utf8.encode where
  nil := rfl
  append := Utf8.encode_append
  atSlash := by decide
  atDot := by decide
  injective := Utf8.encode_injective
  split := Utf8.encode_splitOn (by decide) (by decide)

theorem fileName_raw (path : PathBuf) :
    path.fileName.map raw = UnixPath.fileName 0x2f 0x2e path.raw := by
  cases path with
  | utf8 path =>
    rw [raw_utf8, encoding.fileName, fileName, Option.map_map]
    rfl
  | binary path =>
    rw [fileName, Option.map_map, raw_comp_ofRaw, Option.map_id]
    rfl

theorem parent_raw (path : PathBuf) :
    path.parent.map raw = UnixPath.parent 0x2f 0x2e path.raw := by
  cases path with
  | utf8 path =>
    rw [raw_utf8, encoding.parent, parent, Option.map_map]
    rfl
  | binary path =>
    rw [parent, Option.map_map, raw_comp_ofRaw, Option.map_id]
    rfl

theorem join_raw (path : PathBuf) (name : Text) :
    (path.join name).raw = UnixPath.join 0x2f path.raw (Utf8.encode name) := by
  cases path with
  | utf8 path => exact (encoding.join path name).symm
  | binary path => rfl

theorem isEmpty_raw (path : PathBuf) : path.isEmpty = true ↔ path.raw = [] := by
  cases path with
  | utf8 path => rw [raw_utf8, encoding.eq_nil, isEmpty, List.isEmpty_iff]
  | binary path => exact List.isEmpty_iff

end PathBuf

/-- The files of every directory. A directory is known by its identity: several paths
may lead to it. -/
abbrev Disk := Nat → Tree

/-- Why a file could not be written: it was not opened, or not written to. -/
inductive WriteError where
  | opening (error : Text)
  | writing (error : Text)

def WriteError.error : WriteError → Text
  | .opening e | .writing e => e

/-- The host as one build finds it, which asks for a canonical path by what it is of. Canonical
paths lead where the original does, and a temporary file is not created inside the new temporary
directory. -/
structure BuildHost where
  directory : PathBuf → Nat
  file : PathBuf → Nat × Text
  rootfs : PathBuf → Option Tree
  tempdir : Except Text PathBuf
  tempfile : Except Text PathBuf
  refuses : Nat → Text → Option WriteError
  canonicalize : Text → PathBuf → Except Text PathBuf
  createDirAll : PathBuf → Except Text Unit
  toStringLossy : List UInt8 → Text
  canonical : ∀ what path real, canonicalize what path = .ok real →
    directory real = directory path
  outside : ∀ context temp, tempdir = .ok context → tempfile = .ok temp →
    (file temp).1 ≠ directory context

namespace BuildHost

variable (host : BuildHost)

/-- Creates the file or replaces what it holds. -/
def write (disk : Disk) (place : Nat × Text) (text : Text) : Except WriteError Disk :=
  match host.refuses place.1 place.2 with
  | some error => .error error
  | none =>
    match writeFile (disk place.1) place.2 text with
    | some tree => .ok (Function.update disk place.1 tree)
    | none => .error (.opening "Is a directory (os error 21)")

/-- A new directory of its own for the context. -/
def createTempdir (disk : Disk) : Except Text (PathBuf × Disk) :=
  match host.tempdir with
  | .error error => .error error
  | .ok path => .ok (path, Function.update disk (host.directory path) ∅)

/-- `NamedTempFile::new`. -/
def createTempfile (disk : Disk) : Except Text (PathBuf × Disk) :=
  match host.tempfile with
  | .error error => .error error
  | .ok path =>
    let (dir, name) := host.file path
    .ok (path, Function.update disk dir ((disk dir).insert name (.file 0o600 (.utf8 []))))

/-- The bytes of the file a path leads to. -/
def read (disk : Disk) (place : Nat × Text) : Option Bytes :=
  match (disk place.1).lookup place.2 with
  | some (.file _ contents) => some contents
  | some .other | none => none

/-- `to_string_lossy`. -/
def lossy : PathBuf → Text
  | .utf8 text => text
  | .binary bytes => host.toStringLossy bytes

theorem write_read (wrote : host.write disk place text = .ok new) :
    read new place = some (.utf8 text) := by
  unfold write at wrote
  split at wrote
  · cases wrote
  · split at wrote
    · rename_i tree written
      cases wrote
      obtain ⟨mode, found⟩ := writeFile_lookup written
      simp [read, found]
    · cases wrote

/-- A write leaves every other directory alone. -/
theorem write_frame (wrote : host.write disk place text = .ok new) (apart : dir ≠ place.1) :
    new dir = disk dir := by
  unfold write at wrote
  split at wrote
  · cases wrote
  · split at wrote
    · cases wrote
      exact Function.update_of_ne apart _ _
    · cases wrote

/-- What a write makes of its directory. -/
theorem write_tree (wrote : host.write disk place text = .ok new) :
    writeFile (disk place.1) place.2 text = some (new place.1) := by
  unfold write at wrote
  split at wrote
  · cases wrote
  · split at wrote
    · rename_i tree written
      cases wrote
      rw [written, Function.update_self]
    · cases wrote

/-- A host that refuses nothing. -/
def willing : BuildHost where
  directory path := if path = .utf8 "/tmp/context" then 1 else 0
  file path := (0, match path.fileName with
    | some (.utf8 name) => name
    | some (.binary _) | none => [])
  rootfs _ := some ((∅ : Tree).insert Rootfs.helper (.file 0o755 (.utf8 [])))
  tempdir := .ok (.utf8 "/tmp/context")
  tempfile := .ok (.utf8 "/tmp/containerfile")
  refuses _ _ := none
  canonicalize _ := .ok
  createDirAll _ := .ok ()
  toStringLossy _ := []
  canonical _ path real same := by
    cases same
    rfl
  outside context temp made _ := by
    cases made
    exact Nat.zero_ne_one

end BuildHost

/-- How far a build gets: it stops before its runner is invoked, or invokes it once,
on the disk as it then is. -/
inductive Outcome (Call Error : Type) where
  | stopped (error : Error)
  | invoked (call : Call) (disk : Disk) (result : Except Error Unit)

def Outcome.map (call : A → B) (error : E → F) : Outcome A E → Outcome B F
  | .stopped e => .stopped (error e)
  | .invoked a disk result => .invoked (call a) disk (result.mapError error)

end ImageBuilder
