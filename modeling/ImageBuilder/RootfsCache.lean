import ImageBuilder.Rootfs
import Mathlib.Data.Nat.Digits.Defs

/-! The cache of extracted rootfs trees: the names under its root, the key that
ties a tree to an archive, and the directory operations `install` performs.
A directory keeps its identity when it is renamed, as an open handle on it does. -/
namespace ImageBuilder

/-- `CARGO_PKG_VERSION`, a semantic version. -/
structure Version where
  text : Text
  numeric : ∃ c rest, text = c :: rest ∧ c.isDigit = true
  plain : ∀ c ∈ text, c.isAlphanum = true ∨ c = '.' ∨ c = '-' ∨ c = '+'

namespace RootfsCache

/-- `STAGING_PREFIX`. -/
def stagingPrefix : Text := ".staging-"

/-- `{STAGING_PREFIX}{VERSION}-{pid}`. -/
def stagingName (version : Version) (pid : Nat) : Text :=
  stagingPrefix ++ version.text ++ '-' :: Nat.toDigits 10 pid

/-- `{byte:02x}` of each byte, as `build.rs` writes a digest. -/
def hex (bytes : List UInt8) : Text :=
  bytes.flatMap fun byte => [Nat.digitChar (byte.toNat / 16), Nat.digitChar (byte.toNat % 16)]

/-- `cache_key` of a digest text, in a build of this version. -/
def cacheKey (version digest : Text) : Text := version ++ '-' :: Text.trim digest

/-- What `zstd::Decoder` and the `tar` reader make of an archive: the entries in
the order they are written, and the error the stream ends in, if any. -/
inductive Decoded where
  | unreadable (error : Text)
  | stream (entries : List (Text × Entry)) (ending : Option Text)

/-- The crates `install` and `build.rs` rely on, as functions of the archive. -/
structure Crates where
  sha256 : List UInt8 → List UInt8
  decode : List UInt8 → Decoded

/-- One build of the program: its version and the archive it embeds. -/
structure Binary where
  version : Version
  archive : List UInt8

/-- `root.join(VERSION)`, relative to the cache root. -/
def Binary.dir (b : Binary) : Text := b.version.text

def Binary.staging (b : Binary) (pid : Nat) : Text := stagingName b.version pid

/-- `cache_key` of the digest that `build.rs` wrote. -/
def Crates.key (crates : Crates) (b : Binary) : Text :=
  cacheKey b.version.text (hex (crates.sha256 b.archive))

/-- The tree that unpacking writes, entry by entry. -/
def unpacked (entries : List (Text × Entry)) : Tree :=
  entries.foldl (fun tree entry => tree.insert entry.1 entry.2) ∅

/-- The archive's tree with the marker in it: what a complete extraction leaves. -/
def Crates.extraction (crates : Crates) (b : Binary) : Option Tree :=
  match crates.decode b.archive with
  | .stream entries none => writeFile (unpacked entries) Rootfs.marker (crates.key b)
  | _ => none

/-- An entry directly under the cache root. `id` is the directory's identity. -/
inductive Node where
  | dir (id : Nat) (tree : Tree)
  | file (contents : Bytes)
  deriving DecidableEq

def Node.tree? : Node → Option Tree
  | .dir _ tree => some tree
  | .file _ => none

/-- Identities are given out in order, so `next` is in use nowhere. -/
def Fresh (root : FiniteMap Text Node) (next : Nat) : Prop :=
  ∀ name id tree, root.lookup name = some (.dir id tree) → id < next

/-- A directory has one name. -/
def Single (root : FiniteMap Text Node) : Prop :=
  ∀ a b id s t, root.lookup a = some (.dir id s) → root.lookup b = some (.dir id t) → a = b

theorem Fresh.sub {small large : FiniteMap Text Node} (fresh : Fresh large next)
    (sub : FiniteMap.Sub small large) : Fresh small next :=
  fun name id tree h => fresh name id tree (sub _ _ h)

theorem Single.sub {small large : FiniteMap Text Node} (single : Single large)
    (sub : FiniteMap.Sub small large) : Single small :=
  fun a b id s t ha hb => single a b id s t (sub _ _ ha) (sub _ _ hb)

theorem Fresh.insert {root : FiniteMap Text Node} (fresh : Fresh root next)
    (bound : ∀ id tree, node = .dir id tree → id < next) : Fresh (root.insert name node) next := by
  intro a id tree h
  rcases FiniteMap.lookup_insert_some.mp h with ⟨_, same⟩ | ⟨_, h⟩
  · exact bound id tree same.symm
  · exact fresh a id tree h

/-- Binding a name keeps `Single` when no other name has the directory. -/
theorem Single.insert {root : FiniteMap Text Node} (single : Single root)
    (alone : ∀ a id s t, node = .dir id s → root.lookup a = some (.dir id t) → a = name) :
    Single (root.insert name node) := by
  intro a b id s t ha hb
  rcases FiniteMap.lookup_insert_some.mp ha with ⟨ea, na⟩ | ⟨_, ha⟩ <;>
    rcases FiniteMap.lookup_insert_some.mp hb with ⟨eb, nb⟩ | ⟨_, hb⟩
  · exact ea.trans eb.symm
  · exact ea.trans (alone b id s t na.symm hb).symm
  · exact (alone a id t s nb.symm ha).trans eb.symm
  · exact single a b id s t ha hb

/-- The cache root. A missing root has no entries. -/
structure Cache where
  root : FiniteMap Text Node
  next : Nat
  fresh : Fresh root next
  single : Single root

namespace Cache

def empty : Cache where
  root := ∅
  next := 0
  fresh := by simp [Fresh]
  single := by simp [Single]

/-- Replaces the files below a directory, keeping its identity. -/
def setTree (c : Cache) (name : Text) (id : Nat) (old new : Tree)
    (present : c.root.lookup name = some (.dir id old)) : Cache where
  root := c.root.insert name (.dir id new)
  next := c.next
  fresh := c.fresh.insert fun i t same => by
    cases same
    exact c.fresh _ _ _ present
  single := c.single.insert fun a i s t same h => by
    cases same
    exact c.single _ _ _ _ _ h present

/-- Applies a file operation below `name`, when that is a directory. -/
def modify (c : Cache) (name : Text) (change : Tree → Tree) : Cache :=
  match present : c.root.lookup name with
  | some (.dir id tree) => c.setTree name id tree (change tree) present
  | some (.file _) | none => c

def unlink (c : Cache) (name : Text) : Cache where
  root := c.root.erase name
  next := c.next
  fresh := c.fresh.sub (FiniteMap.Sub.erase _ _)
  single := c.single.sub (FiniteMap.Sub.erase _ _)

/-- `fs::create_dir_all` of an absent entry. -/
def mkdir (c : Cache) (name : Text) : Cache where
  root := c.root.insert name (.dir c.next ∅)
  next := c.next + 1
  fresh := by
    have weaker : Fresh c.root (c.next + 1) := fun a i t h => Nat.lt_succ_of_lt (c.fresh a i t h)
    refine weaker.insert fun i t same => ?_
    cases same
    exact Nat.lt_succ_self _
  single := c.single.insert fun a i s t same h => by
    cases same
    exact absurd (c.fresh _ _ _ h) (Nat.lt_irrefl _)

/-- Gives the node at `source` the name `target`. -/
def move (c : Cache) (source target : Text) (node : Node)
    (present : c.root.lookup source = some node) : Cache where
  root := (c.root.erase source).insert target node
  next := c.next
  fresh := (c.fresh.sub (FiniteMap.Sub.erase _ _)).insert fun i t same =>
    c.fresh source i t (by rw [present, same])
  single := (c.single.sub (FiniteMap.Sub.erase _ _)).insert fun a i s t same h => by
    obtain ⟨apart, h⟩ := FiniteMap.lookup_erase_some.mp h
    exact absurd (c.single _ _ _ _ _ h (by rw [present, same])) apart

/-- `fs::rename` of a directory: atomic, and only onto an absent or empty target. -/
def rename (c : Cache) (source target : Text) : Except Text Cache :=
  match present : c.root.lookup source with
  | none => .error "No such file or directory"
  | some node =>
    match c.root.lookup target with
    | none => .ok (c.move source target node present)
    | some (.dir _ tree) =>
      if tree = ∅ then .ok (c.move source target node present)
      else .error "Directory not empty"
    | some (.file _) => .error "Not a directory"

end Cache
end RootfsCache
end ImageBuilder
