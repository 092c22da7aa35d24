import ImageBuilder.Library.FiniteMap
import ImageBuilder.Library.Text

/-! The files of a build rootfs and the two probes made of them: the marker that
names the archive a tree came from, and `VmConfig::check_rootfs`. -/
namespace ImageBuilder

/-- What a path names. The marker and the helper are never reached through a
symbolic link, so links, directories and devices need no more than their presence. -/
inductive Entry where
  | file (mode : Nat) (contents : Bytes)
  | other
  deriving DecidableEq

/-- The files below one directory, keyed by their path relative to it. -/
abbrev Tree := FiniteMap Text Entry

/-- `fs::write` of a file below a directory; an entry that is not a file refuses it.
A new file gets the mode the process's umask leaves. -/
def writeFile (tree : Tree) (path text : Text) : Option Tree :=
  match tree.lookup path with
  | none => some (tree.insert path (.file 0o644 (.utf8 text)))
  | some (.file mode _) => some (tree.insert path (.file mode (.utf8 text)))
  | some .other => none

/-- What was written is there. -/
theorem writeFile_lookup (wrote : writeFile tree path text = some new) :
    ∃ mode, new.lookup path = some (.file mode (.utf8 text)) := by
  unfold writeFile at wrote
  split at wrote <;> cases wrote <;> exact ⟨_, Finmap.lookup_insert _⟩

/-- A second write to the same path leaves what writing the second text alone would. -/
theorem writeFile_twice (first : writeFile tree path text = some middle) :
    writeFile middle path other = writeFile tree path other := by
  unfold writeFile at first
  split at first <;> cases first <;> simp [writeFile, *]

namespace Rootfs

/-- `VM_BUILD_SCRIPT`, an absolute path inside the VM. -/
def vmBuildScript : Text := "/usr/local/bin/vm-build"

/-- `VM_BUILD_SCRIPT.trim_start_matches('/')`, joined onto the host-side rootfs. -/
def helper : Text := vmBuildScript.dropWhile (· == '/')

/-- `MARKER`. -/
def marker : Text := ".rootfs-archive"

/-- The reasons of `VmBuildError::Rootfs`. -/
inductive Problem where
  | notADirectory
  | missingHelper
  | notExecutable
  deriving DecidableEq

def Problem.reason : Problem → Text
  | .notADirectory => "not a directory — build it with vm-image/make-rootfs.sh"
  | .missingHelper => "missing /usr/local/bin/vm-build — not a build rootfs"
  | .notExecutable => "/usr/local/bin/vm-build is not executable"

/-- `VmConfig::check_rootfs` on what the configured path holds; `none` is anything
that is not a directory. -/
def checkRootfs : Option Tree → Except Problem Unit
  | none => .error .notADirectory
  | some tree =>
    match tree.lookup helper with
    | some (.file mode _) => if mode &&& 0o111 = 0 then .error .notExecutable else .ok ()
    | _ => .error .missingHelper

/-- `check_rootfs().is_ok()` of a directory. -/
def Usable (tree : Tree) : Prop := checkRootfs (some tree) = .ok ()

instance (tree : Tree) : Decidable (Usable tree) :=
  match h : checkRootfs (some tree) with
  | .ok () => isTrue h
  | .error _ => isFalse (by rw [Usable, h]; exact nofun)

/-- `marker_matches` of a directory. -/
def MarkerMatches (tree : Tree) (key : Text) : Prop :=
  ∃ mode found, tree.lookup marker = some (.file mode (.utf8 found)) ∧ Text.trim found = key

instance (tree : Tree) (key : Text) : Decidable (MarkerMatches tree key) :=
  match h : tree.lookup marker with
  | some (.file mode (.utf8 found)) =>
    decidable_of_iff (Text.trim found = key) (by simp [MarkerMatches, h])
  | some (.file _ (.binary _)) | some .other | none => isFalse (by simp [MarkerMatches, h])

theorem usable_iff {tree : Tree} : Usable tree ↔
    ∃ mode contents, tree.lookup helper = some (.file mode contents) ∧ mode &&& 0o111 ≠ 0 := by
  cases h : tree.lookup helper with
  | none => simp [Usable, checkRootfs, h]
  | some entry =>
    cases entry with
    | file mode contents => by_cases bits : mode &&& 0o111 = 0 <;> simp [Usable, checkRootfs, h, bits]
    | other => simp [Usable, checkRootfs, h]

/-- Deleting files never makes a rejected tree acceptable. -/
theorem Usable.of_sub {small large : Tree} (sub : FiniteMap.Sub small large)
    (usable : Usable small) : Usable large := by
  obtain ⟨mode, contents, found, bits⟩ := usable_iff.mp usable
  exact usable_iff.mpr ⟨mode, contents, sub _ _ found, bits⟩

theorem MarkerMatches.of_sub {small large : Tree} {key : Text} (sub : FiniteMap.Sub small large)
    (matched : MarkerMatches small key) : MarkerMatches large key := by
  obtain ⟨mode, found, present, trimmed⟩ := matched
  exact ⟨mode, found, sub _ _ present, trimmed⟩

theorem MarkerMatches.key_unique {tree : Tree} {key other : Text} (first : MarkerMatches tree key)
    (second : MarkerMatches tree other) : key = other := by
  obtain ⟨_, _, present, rfl⟩ := first
  obtain ⟨_, _, also, rfl⟩ := second
  rw [present] at also
  cases also
  rfl

example : helper = "usr/local/bin/vm-build".toList := rfl

end Rootfs
end ImageBuilder
