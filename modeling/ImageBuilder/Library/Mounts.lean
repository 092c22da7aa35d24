import ImageBuilder.Library.InodeReach
import Mathlib.Data.List.Find

/-! Several file systems seen as one: each is mounted on a path, and the last mount above a
path holds what the path leads to. -/
namespace Inode

/-- A directory or a file that can be mounted, in one of several file systems. -/
structure Volume (S : Type) where
  store : S
  root : Nat
  deriving DecidableEq

structure Mounted (N S : Type) where
  stores : S → FileSystem N
  top : Volume S
  /-- The mounts, the last one first. -/
  table : List (List N × Volume S)
  hops : Nat

/-- How far steps lead without following a link. -/
inductive Stretch (N : Type) where
  | arrived (path : List N)
  | missing (dir : List N) (name : N)
  | linked (dir : List N) (target : Route N) (rest : List (Step N))

namespace Mounted

variable {N S : Type} [DecidableEq N] (m : Mounted N S)

/-- The volume that holds a path without links, and the path below its root. -/
def place (path : List N) : Volume S × List N :=
  match m.table.find? fun mount => mount.1 <+: path with
  | some (point, volume) => (volume, path.drop point.length)
  | none => (m.top, path)

def inode (path : List N) : Option (S × Nat) :=
  ((m.stores (m.place path).1.store).reach (m.place path).1.root (m.place path).2).map
    ((m.place path).1.store, ·)

def node (path : List N) : Option (Node N) :=
  (m.stores (m.place path).1.store).nodeAt (m.place path).1.root (m.place path).2

def isDir (path : List N) : Bool :=
  match m.node path with
  | some (.dir _) => true
  | _ => false

def scan : List N → List (Step N) → Except Errno (Stretch N)
  | path, [] => .ok (.arrived path)
  | path, step :: rest =>
    match m.node path with
    | some (.dir _) =>
      match step with
      | .here => scan path rest
      | .up => scan path.dropLast rest
      | .name n =>
        match m.node (path ++ [n]) with
        | none => if rest = [] then .ok (.missing path n) else .error .noent
        | some (.link target) => .ok (.linked path target rest)
        | some _ => scan (path ++ [n]) rest
    | some _ => .error .notdir
    | none => .error .noent

/-- Where steps lead, links followed. A last name that is missing is given apart from its
directory. -/
def seek : Nat → List N → List (Step N) → Except Errno (List N × Option N)
  | hops, path, steps =>
    match m.scan path steps with
    | .error e => .error e
    | .ok (.arrived path) => .ok (path, none)
    | .ok (.missing dir n) => .ok (dir, some n)
    | .ok (.linked dir target rest) =>
      match hops with
      | 0 => .error .loop
      | hops + 1 =>
        if target.steps = [] then .error .noent
        else seek hops (if target.absolute then [] else dir) (target.steps ++ rest)

/-- A path from the root that leads to something. -/
def resolve (steps : List (Step N)) : Except Errno (List N) :=
  match m.seek m.hops [] steps with
  | .error e => .error e
  | .ok (_, some _) => .error .noent
  | .ok (path, none) => if (m.node path).isSome then .ok path else .error .noent

/-- `mount` of a volume on what a path leads to, a directory on a directory or a file on a
file. -/
def mount (volume : Volume S) (steps : List (Step N)) : Except Errno (Mounted N S) :=
  match m.resolve steps with
  | .error e => .error e
  | .ok path =>
    match (m.stores volume.store).nodes.lookup volume.root with
    | none => .error .noent
    | some (.dir _) =>
      if m.isDir path then .ok { m with table := (path, volume) :: m.table } else .error .notdir
    | some _ =>
      if m.isDir path then .error .notdir else .ok { m with table := (path, volume) :: m.table }

/-- No link stands on a path. -/
def Plain (path : List N) : Prop :=
  ∀ pre, pre <+: path → ∀ target, m.node pre ≠ some (.link target)

variable {m}

theorem place_uncovered (uncovered : ∀ mount ∈ m.table, ¬ mount.1 <+: path) :
    m.place path = (m.top, path) := by
  have none_ : m.table.find? (fun mount => mount.1 <+: path) = none := by
    rw [List.find?_eq_none]
    simpa using uncovered
  rw [place, none_]

/-- Where nothing is mounted below a path, its volume holds all that is below it. -/
theorem place_append (bare : ∀ mount ∈ m.table, path <+: mount.1 → mount.1 = path)
    (rest : List N) : m.place (path ++ rest) = ((m.place path).1, (m.place path).2 ++ rest) := by
  have above : ∀ mount ∈ m.table, mount.1 <+: path ++ rest ↔ mount.1 <+: path := by
    intro mount member
    constructor
    · intro covers
      rcases List.prefix_or_prefix_of_prefix covers (List.prefix_append path rest) with up | down
      · exact up
      · rw [bare mount member down]
    · exact fun covers => covers.trans (List.prefix_append path rest)
  have chosen : m.table.find? (fun mount => mount.1 <+: path ++ rest) =
      m.table.find? (fun mount => mount.1 <+: path) := by
    apply List.find?_congr
    intro mount member
    exact decide_eq_decide.mpr (above mount member)
  rw [place, chosen, place]
  split
  · rename_i point volume found
    have covers : point <+: path := by simpa using List.find?_some found
    rw [List.drop_append_of_le_length covers.length_le]
  · rfl

theorem node_inode : m.node path = some found ↔
    ∃ ino, m.inode path = some ((m.place path).1.store, ino) ∧
      (m.stores (m.place path).1.store).nodes.lookup ino = some found := by
  simp [node, FileSystem.nodeAt, inode, Option.bind_eq_some_iff]

theorem isDir_iff : m.isDir path = true ↔ ∃ entries, m.node path = some (.dir entries) := by
  rw [isDir]
  split
  · rename_i entries found
    simp [found]
  · rename_i other
    simpa using fun entries found => other entries found

/-- Names lead along themselves where no link stands. -/
theorem scan_names {names : List N}
    (plain : ∀ pre, pre <+: names → ∀ target, m.node (base ++ pre) ≠ some (.link target))
    (scanned : m.scan base (names.map .name) = .ok stretch) :
    stretch = .arrived (base ++ names) ∨
    ∃ init n, names = init ++ [n] ∧ stretch = .missing (base ++ init) n ∧
      m.isDir (base ++ init) = true ∧ m.node (base ++ names) = none := by
  induction names generalizing base with
  | nil =>
    cases scanned
    exact .inl (by rw [List.append_nil])
  | cons n names ih =>
    rw [List.map_cons, scan] at scanned
    split at scanned
    · rename_i entries found
      split at scanned
      · rename_i absent
        split at scanned
        · rename_i last
          rw [List.map_eq_nil_iff] at last
          subst last
          cases scanned
          refine .inr ⟨[], n, rfl, by rw [List.append_nil], ?_, absent⟩
          rw [List.append_nil]
          exact isDir_iff.mpr ⟨entries, found⟩
        · cases scanned
      · rename_i target linked
        exact absurd linked (plain [n] ⟨names, rfl⟩ target)
      · have further : ∀ pre, pre <+: names → ∀ target,
            m.node (base ++ [n] ++ pre) ≠ some (.link target) := by
          intro pre covers target
          rw [List.append_assoc]
          exact plain (n :: pre) (List.cons_prefix_cons.mpr ⟨rfl, covers⟩) target
        rcases ih further scanned with arrived | ⟨init, last, rfl, missing, inside, absent⟩
        · rw [List.append_assoc] at arrived
          exact .inl arrived
        · rw [List.append_assoc] at missing inside absent
          exact .inr ⟨n :: init, last, rfl, missing, inside, absent⟩
    · cases scanned
    · cases scanned

theorem seek_names {links : Nat} {names : List N} (plain : m.Plain names)
    (found : m.seek links [] (names.map .name) = .ok (path, last)) :
    (path = names ∧ last = none) ∨
    ∃ n, names = path ++ [n] ∧ last = some n ∧ m.isDir path = true ∧ m.node names = none := by
  have below : ∀ pre, pre <+: names → ∀ target, m.node ([] ++ pre) ≠ some (.link target) := plain
  rw [seek.eq_def] at found
  dsimp only at found
  split at found
  · cases found
  · rename_i arrived
    cases found
    rcases scan_names below arrived with same | ⟨_, _, _, impossible, _⟩
    · cases same
      exact .inl ⟨rfl, rfl⟩
    · cases impossible
  · rename_i missing
    cases found
    rcases scan_names below missing with impossible | ⟨init, n, rfl, same, inside, absent⟩
    · cases impossible
    · cases same
      exact .inr ⟨_, rfl, rfl, inside, absent⟩
  · rename_i linked
    rcases scan_names below linked with impossible | ⟨_, _, _, impossible, _⟩ <;> cases impossible

theorem resolve_names {names : List N} (plain : m.Plain names)
    (resolved : m.resolve (names.map .name) = .ok path) : path = names ∧ (m.node names).isSome := by
  rw [resolve] at resolved
  split at resolved
  · cases resolved
  · cases resolved
  · rename_i found
    rcases seek_names plain found with ⟨rfl, _⟩ | ⟨_, _, impossible, _⟩
    · split at resolved <;> cases resolved
      rename_i there
      exact ⟨rfl, there⟩
    · cases impossible

/-- Names lead along themselves through directories. -/
theorem scan_dirs {names : List N} {last : Node N}
    (dirs : ∀ pre, pre <+: names → pre ≠ names → m.isDir (base ++ pre) = true)
    (found : m.node (base ++ names) = some last) (plain : ∀ target, last ≠ .link target) :
    m.scan base (names.map .name) = .ok (.arrived (base ++ names)) := by
  induction names generalizing base with
  | nil => rw [List.map_nil, scan, List.append_nil]
  | cons n names ih =>
    obtain ⟨entries, here⟩ := isDir_iff.mp (dirs [] List.nil_prefix (List.cons_ne_nil n names).symm)
    rw [List.append_nil] at here
    have further : ∀ pre, pre <+: names → pre ≠ names → m.isDir (base ++ [n] ++ pre) = true := by
      intro pre covers proper
      rw [List.append_assoc]
      refine dirs (n :: pre) (List.cons_prefix_cons.mpr ⟨rfl, covers⟩) ?_
      exact fun same => proper (List.cons.inj same).2
    have there : m.node (base ++ [n] ++ names) = some last := by
      rw [List.append_assoc]
      exact found
    have next : ∃ other, m.node (base ++ [n]) = some other ∧ ∀ target, other ≠ .link target := by
      by_cases ended : names = []
      · subst ended
        exact ⟨last, found, plain⟩
      · have inside := further [] List.nil_prefix (Ne.symm ended)
        rw [List.append_nil] at inside
        obtain ⟨entries, there⟩ := isDir_iff.mp inside
        exact ⟨_, there, fun target same => by cases same⟩
    have onward := ih further there
    rw [List.append_assoc] at onward
    obtain ⟨other, inside, unlinked⟩ := next
    rw [List.map_cons, scan, here]
    dsimp only
    rw [inside]
    cases other with
    | link target => exact absurd rfl (unlinked target)
    | dir entries => exact onward
    | file mode contents => exact onward

theorem resolve_dirs {names : List N} {last : Node N}
    (dirs : ∀ pre, pre <+: names → pre ≠ names → m.isDir pre = true)
    (found : m.node names = some last) (plain : ∀ target, last ≠ .link target) :
    m.resolve (names.map .name) = .ok names := by
  have arrived : m.scan [] (names.map .name) = .ok (.arrived names) := scan_dirs dirs found plain
  have sought : m.seek m.hops [] (names.map .name) = .ok (names, none) := by
    rw [seek.eq_def]
    dsimp only
    rw [arrived]
  rw [resolve, sought]
  dsimp only
  rw [found]
  rfl

theorem Plain.concat (plain : m.Plain init) (last : ∀ target, m.node (init ++ [n]) ≠ some (.link target)) :
    m.Plain (init ++ [n]) := by
  intro pre covers
  rcases List.prefix_concat_iff.mp covers with rfl | above
  · exact last
  · exact plain pre above

theorem Plain.shorter (plain : m.Plain path) (covers : pre <+: path) : m.Plain pre :=
  fun other up => plain other (up.trans covers)

theorem mount_names {names : List N} (plain : m.Plain names)
    (mounted : m.mount volume (names.map .name) = .ok final) :
    final = { m with table := (names, volume) :: m.table } := by
  rw [mount] at mounted
  split at mounted
  · cases mounted
  · rename_i path resolved
    obtain ⟨rfl, _⟩ := resolve_names plain resolved
    split at mounted
    · cases mounted
    all_goals
      split at mounted <;> cases mounted
      rfl

section Changes

variable [DecidableEq S]

variable (m) in
/-- The mounts stay, one of the file systems under them changes. -/
def alter (store : S) (fs : FileSystem N) : Mounted N S :=
  { m with stores := Function.update m.stores store fs }

variable (m) in
/-- A new node under a name in a directory. -/
def add (dir : List N) (n : N) (node : Node N) : Mounted N S :=
  match m.inode dir with
  | none => m
  | some (store, ino) =>
    match (m.stores store).nodes.lookup ino with
    | some (.dir entries) => m.alter store ((m.stores store).add [(n, ino)] entries n node)
    | _ => m

variable (m) in
/-- One directory of `mkdir -p`: made if it is missing, else it has to be one. -/
def makeDir (refuses : List N → N → Bool) (steps : List (Step N)) : Bool × Mounted N S :=
  match steps.getLast? with
  | some (.name n) =>
    match m.resolve steps.dropLast with
    | .error _ => (false, m)
    | .ok dir =>
      if m.isDir dir then
        match m.node (dir ++ [n]) with
        | none => if refuses dir n then (false, m) else (true, m.add dir n (.dir ∅))
        | some _ =>
          match m.resolve steps with
          | .error _ => (false, m)
          | .ok path => (m.isDir path, m)
      else (false, m)
  | _ =>
    match m.resolve steps with
    | .error _ => (false, m)
    | .ok path => (m.isDir path, m)

/-- `mkdir -p`, on a path and what is above it, from the top. -/
def makeDirs (refuses : List N → N → Bool) : List (List (Step N)) → Mounted N S → Bool × Mounted N S
  | [], m => (true, m)
  | steps :: rest, m =>
    match m.makeDir refuses steps with
    | (true, m) => makeDirs refuses rest m
    | (false, m) => (false, m)

variable (m) in
/-- `open` for writing with `O_CREAT` and `O_TRUNC`. -/
def openTruncate (mode : Nat) (steps : List (Step N)) : Except Errno ((S × Nat) × Mounted N S) :=
  match m.seek m.hops [] steps with
  | .error e => .error e
  | .ok (dir, some n) =>
    match m.inode dir with
    | none => .error .noent
    | some (store, ino) =>
      match (m.stores store).nodes.lookup ino with
      | some (.dir entries) => .ok ((store, (m.stores store).fresh),
          m.alter store ((m.stores store).add [(n, ino)] entries n (.file mode [])))
      | _ => .error .notdir
  | .ok (path, none) =>
    match m.inode path with
    | none => .error .noent
    | some (store, ino) =>
      match (m.stores store).nodes.lookup ino with
      | some (.file mode _) =>
        .ok ((store, ino), m.alter store ((m.stores store).put ino (.file mode [])))
      | some (.dir _) => .error .isdir
      | some (.link _) => .error .loop
      | none => .error .noent

variable (m) in
/-- What a file holds once it has been written to. -/
def setContents (file : S × Nat) (contents : List UInt8) : Mounted N S :=
  m.alter file.1 ((m.stores file.1).setContents file.2 contents)

/-- What becomes of a directory that is to be made. -/
theorem makeDir_names {names : List N} (plain : m.Plain names) (refuses : List N → N → Bool) :
    (m.makeDir refuses (names.map .name)).2 = m ∨
    ∃ init n, names = init ++ [n] ∧ m.isDir init = true ∧ m.node names = none ∧
      (m.makeDir refuses (names.map .name)).2 = m.add init n (.dir ∅) := by
  rw [makeDir]
  split
  · rename_i n last
    obtain ⟨init, rfl⟩ : ∃ init, names = init ++ [n] := by
      rw [List.getLast?_map] at last
      obtain ⟨k, ended, same⟩ := Option.map_eq_some_iff.mp last
      cases same
      obtain ⟨init, rfl⟩ := List.getLast?_eq_some_iff.mp ended
      exact ⟨init, rfl⟩
    rw [List.map_append, List.map_singleton, List.dropLast_concat]
    split
    · exact .inl rfl
    · rename_i dir resolved
      obtain ⟨rfl, _⟩ := resolve_names (plain.shorter ⟨[n], rfl⟩) resolved
      split
      · rename_i inside
        split
        · rename_i absent
          split
          · exact .inl rfl
          · exact .inr ⟨dir, n, rfl, inside, absent, rfl⟩
        · split <;> exact .inl rfl
      · exact .inl rfl
  · split <;> exact .inl rfl

/-- What making directories one after the other preserves. -/
theorem makeDirs_induction (holds : Mounted N S → Prop) {paths : List (List N)}
    (refuses : List N → N → Bool)
    (plain : ∀ path ∈ paths, ∀ m, holds m → m.Plain path)
    (made : ∀ m init n, init ++ [n] ∈ paths → holds m → m.isDir init = true →
      m.node (init ++ [n]) = none → holds (m.add init n (.dir ∅)))
    (initial : holds m) : holds (makeDirs refuses (paths.map (·.map .name)) m).2 := by
  induction paths generalizing m with
  | nil => exact initial
  | cons path paths ih =>
    have next : holds (m.makeDir refuses (path.map .name)).2 := by
      rcases makeDir_names (plain path List.mem_cons_self m initial) refuses with
        same | ⟨init, n, rfl, inside, absent, added⟩
      · rw [same]
        exact initial
      · rw [added]
        exact made m init n List.mem_cons_self initial inside absent
    rw [List.map_cons, makeDirs]
    split
    · rename_i after done
      rw [done] at next
      exact ih (fun other member => plain other (List.mem_cons_of_mem _ member))
        (fun m init n member => made m init n (List.mem_cons_of_mem _ member)) next
    · rename_i after failed
      rw [failed] at next
      exact next

/-- What a new node in a directory changes. -/
theorem add_eq (found : m.node dir = some (.dir entries)) (n : N) (node : Node N) :
    ∃ ino, (m.stores (m.place dir).1.store).reach (m.place dir).1.root (m.place dir).2 = some ino ∧
      (m.stores (m.place dir).1.store).nodes.lookup ino = some (.dir entries) ∧
      m.add dir n node = m.alter (m.place dir).1.store
        ((m.stores (m.place dir).1.store).add [(n, ino)] entries n node) := by
  obtain ⟨ino, reached, present⟩ := node_inode.mp found
  refine ⟨ino, by simpa [inode] using reached, present, ?_⟩
  simp only [add, reached, present]

/-- A file that is opened for writing by its names is new or was one before. -/
theorem openTruncate_names {names : List N} (plain : m.Plain names)
    (opened : m.openTruncate mode (names.map .name) = .ok (file, final)) :
    (∃ init n ino entries, names = init ++ [n] ∧ m.node names = none ∧
      m.inode init = some ((m.place init).1.store, ino) ∧
      (m.stores (m.place init).1.store).nodes.lookup ino = some (.dir entries) ∧
      file = ((m.place init).1.store, (m.stores (m.place init).1.store).fresh) ∧
      final = m.alter (m.place init).1.store
        ((m.stores (m.place init).1.store).add [(n, ino)] entries n (.file mode []))) ∨
    ∃ ino kept old, m.inode names = some ((m.place names).1.store, ino) ∧
      (m.stores (m.place names).1.store).nodes.lookup ino = some (.file kept old) ∧
      file = ((m.place names).1.store, ino) ∧
      final = m.alter (m.place names).1.store
        ((m.stores (m.place names).1.store).put ino (.file kept [])) := by
  rw [openTruncate] at opened
  split at opened
  · cases opened
  · rename_i dir n found
    rcases seek_names plain found with ⟨_, impossible⟩ | ⟨k, rfl, same, inside, absent⟩
    · cases impossible
    · cases same
      obtain ⟨entries, there⟩ := isDir_iff.mp inside
      obtain ⟨ino, reached, present⟩ := node_inode.mp there
      simp only [reached, present] at opened
      cases opened
      exact .inl ⟨dir, n, ino, entries, rfl, absent, reached, present, rfl, rfl⟩
  · rename_i path found
    rcases seek_names plain found with ⟨rfl, _⟩ | ⟨_, _, impossible, _⟩
    · split at opened
      · cases opened
      · rename_i store ino reached
        obtain rfl : store = (m.place path).1.store := by
          obtain ⟨_, _, same⟩ := Option.map_eq_some_iff.mp reached
          cases same
          rfl
        split at opened <;> cases opened
        rename_i kept old present
        exact .inr ⟨ino, kept, old, reached, present, rfl, rfl⟩
    · cases impossible

omit [DecidableEq N] in
theorem alter_setContents (store : S) (fs : FileSystem N) (ino : Nat) (contents : List UInt8) :
    (m.alter store fs).setContents (store, ino) contents =
      m.alter store (fs.setContents ino contents) := by
  simp [setContents, alter]

/-- A file that is opened for writing, and what it holds after a write. -/
theorem openTruncate_written {init : List N} (plain : m.Plain (init ++ [n]))
    (below : m.place (init ++ [n]) = ((m.place init).1, (m.place init).2 ++ [n]))
    (closed : (m.stores (m.place init).1.store).Closed)
    (opened : m.openTruncate mode ((init ++ [n]).map .name) = .ok (file, final)) :
    ∃ ino entries, m.inode init = some ((m.place init).1.store, ino) ∧
      (m.stores (m.place init).1.store).nodes.lookup ino = some (.dir entries) ∧
      (entries.lookup n = none ∨ ∃ j kept old, entries.lookup n = some j ∧
        (m.stores (m.place init).1.store).nodes.lookup j = some (.file kept old)) ∧
      final = m.alter (m.place init).1.store
        ((m.stores (m.place init).1.store).written [(n, ino)] entries n mode []) ∧
      ∀ bytes, final.setContents file bytes = m.alter (m.place init).1.store
        ((m.stores (m.place init).1.store).written [(n, ino)] entries n mode bytes) := by
  rcases openTruncate_names plain opened with
    ⟨dir, last, ino, entries, split, absent, reached, found, rfl, rfl⟩ |
    ⟨j, kept, old, reached, found, rfl, rfl⟩
  · obtain ⟨rfl, same⟩ := List.append_inj' split rfl
    cases same
    have free : entries.lookup n = none := by
      cases named : entries.lookup n with
      | none => rfl
      | some j =>
        obtain ⟨_, there, same⟩ := Option.map_eq_some_iff.mp reached
        cases same
        have present := closed _ _ _ _ found named
        rw [node, below, FileSystem.nodeAt, FileSystem.reach_append, there, Option.bind_some,
          FileSystem.reach_single found, named] at absent
        exact absurd absent present
    refine ⟨ino, entries, reached, found, .inl free, ?_, fun bytes => ?_⟩
    · rw [FileSystem.written, free]
    · rw [alter_setContents, FileSystem.add_setContents, FileSystem.written, free]
  · rw [inode, below] at reached
    rw [below] at found ⊢
    obtain ⟨_, there, same⟩ := Option.map_eq_some_iff.mp reached
    cases same
    rw [FileSystem.reach_append] at there
    obtain ⟨ino, above, entered⟩ := Option.bind_eq_some_iff.mp there
    obtain ⟨entries, dir, named⟩ := FileSystem.reach_single_dir entered
    refine ⟨ino, entries, ?_, dir, .inr ⟨j, kept, old, named, found⟩, ?_, fun bytes => ?_⟩
    · rw [inode, above]
      rfl
    · rw [FileSystem.written, named]
      dsimp only
      rw [FileSystem.setContents, found]
    · rw [alter_setContents, FileSystem.put_setContents, FileSystem.written, named]
      dsimp only
      rw [FileSystem.setContents, found]

end Changes

end Mounted
end Inode
