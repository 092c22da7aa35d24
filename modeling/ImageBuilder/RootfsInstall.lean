import ImageBuilder.RootfsCache
import ImageBuilder.Library.Transition

/-! `install` as a machine that takes one file-system operation at a time. Any
number of processes run it on one cache; between two operations of one process
the others may take any number of theirs, and a process may be killed. -/
namespace ImageBuilder.RootfsInstall

open RootfsCache

/-- The reasons `install` and `stage` fail, with the error of the operation. -/
inductive InstallError where
  | notEmbedded
  | clearStaging (error : Text)
  | createStaging (error : Text)
  | readArchive (error : Text)
  | unpack (error : Text)
  | writeMarker (error : Text)
  | removeStale (error : Text)
  | rename (error : Text)
  deriving DecidableEq

/-- The message, given the displayed paths of the staging and version directories. -/
def InstallError.message (staging dir : Text) : InstallError → Text
  | .notEmbedded => "no VM rootfs is embedded in this build — point --vm-rootfs ".toList ++
      "at one, or use a release build, which carries its own"
  | .clearStaging e => "remove " ++ staging ++ ": " ++ e
  | .createStaging e => "create " ++ staging ++ ": " ++ e
  | .readArchive e => "read the embedded VM rootfs: " ++ e
  | .unpack e => "unpack the embedded VM rootfs into " ++ staging ++ ": " ++ e
  | .writeMarker e => "write " ++ staging ++ '/' :: Rootfs.marker ++ ": " ++ e
  | .removeStale e => "remove stale VM rootfs " ++ dir ++ ": " ++ e
  | .rename e => "install VM rootfs into " ++ dir ++ ": " ++ e

/-- How far a `remove_dir_all` is. Once it holds the directory open it deletes
the entries one by one, in an order of the system's choosing. -/
inductive Removal where
  | opening
  | emptying (id : Nat) (deleted : List Text)
  deriving DecidableEq

/-- The next operation of a process. -/
inductive Pc where
  | start
  | firstMarker
  | firstRootfs
  | stagingExists
  | clearStaging (at_ : Removal)
  | createStaging
  | openArchive
  /-- `torn`: the head of `rest` exists but does not have its contents yet. -/
  | unpack (rest : List (Text × Entry)) (ending : Option Text) (torn : Bool)
  | writeMarker (torn : Bool)
  | secondMarker
  | secondRootfs
  | dirExists
  | removeStale (at_ : Removal)
  | rename
  | readRoot
  | sweep (names : List Text)
  | sweepRemove (name : Text) (at_ : Removal) (names : List Text)
  /-- `let _ = fs::remove_dir_all(&staging)`, after which `result` is returned. -/
  | dropStaging (at_ : Removal) (result : Except InstallError Text)
  | returned (result : Except InstallError Text)
  deriving DecidableEq

/-- What the environment decides about an operation. -/
inductive Choice where
  /-- The operation answers as the file system stands. -/
  | proceed
  /-- A removal deletes this entry next. -/
  | delete (path : Text)
  /-- `read_dir` returns these entries. -/
  | list (names : List Text)
  | fail (error : Text)

inductive Removing where
  | running (at_ : Removal)
  | finished
  | failed (error : Text)

/-- One step of `fs::remove_dir_all` of the entry called `name`. Entries another
process deleted first are not missed; the last step removes the directory by name. -/
def removeDirAll (name : Text) : Removal → Choice → Cache → Option (Removing × Cache)
  | .opening, .proceed, c =>
    match c.root.lookup name with
    | some (.dir id _) => some (.running (.emptying id []), c)
    | some (.file _) => some (.failed "Not a directory", c)
    | none => some (.failed "No such file or directory", c)
  | .emptying id deleted, .delete path, c =>
    match c.root.lookup name with
    | some (.dir found tree) =>
      if found = id ∧ (tree.lookup path).isSome then
        some (.running (.emptying id (path :: deleted)), c.modify name (·.erase path))
      else none
    | _ => none
  | .emptying id _, .proceed, c =>
    match c.root.lookup name with
    | none => some (.finished, c)
    | some (.dir found tree) =>
      if tree = ∅ then some (.finished, c.unlink name)
      -- The directory still holds entries this removal has to delete, unless
      -- another one has taken its name.
      else if found = id then none
      else some (.failed "Directory not empty", c)
    | some (.file _) => some (.failed "Not a directory", c)
  | _, .fail e, c => some (.failed e, c)
  | _, _, _ => none

/-- An entry whose contents are not written yet. -/
def Entry.torn : Entry → Entry
  | .file mode _ => .file mode (.utf8 [])
  | .other => .other

/-- `fs::write(staging.join(MARKER), …)` on the staged tree. -/
def writeMarker (staging text : Text) (c : Cache) : Except Text Cache :=
  match c.root.lookup staging with
  | some (.dir _ tree) =>
    match writeFile tree Rootfs.marker text with
    | some new => .ok (c.modify staging fun _ => new)
    | none => .error "Is a directory"
  | _ => .error "No such file or directory"

/-- `marker_matches(dir, key)`. -/
def markerMatches (c : Cache) (dir key : Text) : Bool :=
  match c.root.lookup dir with
  | some (.dir _ tree) => decide (Rootfs.MarkerMatches tree key)
  | _ => false

/-- `VmConfig::new(dir).check_rootfs().is_ok()`. -/
def rootfsOk (c : Cache) (dir : Text) : Bool :=
  match Rootfs.checkRootfs ((c.root.lookup dir).bind Node.tree?) with
  | .ok () => true
  | .error _ => false

def isDir (c : Cache) (name : Text) : Bool := ((c.root.lookup name).bind Node.tree?).isSome

/-- `fs::remove_dir_all(&staging)` and `Err` after a failed `stage`. -/
abbrev Pc.fail (error : InstallError) : Pc := .dropStaging .opening (.error error)

/-- One operation of `install`, as the process with this binary and pid runs it. -/
def advance (crates : Crates) (b : Binary) (pid : Nat) : Pc → Choice → Cache → Option (Pc × Cache)
  | .start, .proceed, c =>
    some (if b.archive.isEmpty then .returned (.error .notEmbedded) else .firstMarker, c)
  | .firstMarker, .proceed, c =>
    some (if markerMatches c b.dir (crates.key b) then .firstRootfs else .stagingExists, c)
  | .firstMarker, .fail _, c => some (.stagingExists, c)
  | .firstRootfs, .proceed, c =>
    some (if rootfsOk c b.dir then .returned (.ok b.dir) else .stagingExists, c)
  | .firstRootfs, .fail _, c => some (.stagingExists, c)
  -- stage
  | .stagingExists, .proceed, c =>
    some (if (c.root.lookup (b.staging pid)).isSome then .clearStaging .opening
      else .createStaging, c)
  | .clearStaging at_, choice, c =>
    (removeDirAll (b.staging pid) at_ choice c).map fun
      | (.running next, c) => (.clearStaging next, c)
      | (.finished, c) => (.createStaging, c)
      | (.failed e, c) => (.fail (.clearStaging e), c)
  | .createStaging, .proceed, c =>
    match c.root.lookup (b.staging pid) with
    | none => some (.openArchive, c.mkdir (b.staging pid))
    | some (.dir _ _) => some (.openArchive, c)
    | some (.file _) => some (.fail (.createStaging "File exists"), c)
  | .createStaging, .fail e, c => some (.fail (.createStaging e), c)
  | .openArchive, .proceed, c =>
    match crates.decode b.archive with
    | .unreadable e => some (.fail (.readArchive e), c)
    | .stream entries ending => some (.unpack entries ending false, c)
  | .openArchive, .fail e, c => some (.fail (.readArchive e), c)
  | .unpack ((path, entry) :: rest) ending false, .proceed, c =>
    some (.unpack ((path, entry) :: rest) ending true,
      c.modify (b.staging pid) (·.insert path (Entry.torn entry)))
  | .unpack ((path, entry) :: rest) ending true, .proceed, c =>
    some (.unpack rest ending false, c.modify (b.staging pid) (·.insert path entry))
  | .unpack [] none _, .proceed, c => some (.writeMarker false, c)
  | .unpack [] (some e) _, .proceed, c => some (.fail (.unpack e), c)
  | .unpack _ _ _, .fail e, c => some (.fail (.unpack e), c)
  | .writeMarker false, .proceed, c =>
    match writeMarker (b.staging pid) [] c with
    | .ok c => some (.writeMarker true, c)
    | .error e => some (.fail (.writeMarker e), c)
  | .writeMarker true, .proceed, c =>
    match writeMarker (b.staging pid) (crates.key b) c with
    | .ok c => some (.secondMarker, c)
    | .error e => some (.fail (.writeMarker e), c)
  | .writeMarker _, .fail e, c => some (.fail (.writeMarker e), c)
  -- install, once the tree is staged
  | .secondMarker, .proceed, c =>
    some (if markerMatches c b.dir (crates.key b) then .secondRootfs else .dirExists, c)
  | .secondMarker, .fail _, c => some (.dirExists, c)
  | .secondRootfs, .proceed, c =>
    some (if rootfsOk c b.dir then .dropStaging .opening (.ok b.dir) else .dirExists, c)
  | .secondRootfs, .fail _, c => some (.dirExists, c)
  | .dirExists, .proceed, c =>
    some (if (c.root.lookup b.dir).isSome then .removeStale .opening else .rename, c)
  -- `Path::exists` answers `false` where it cannot tell.
  | .dirExists, .fail _, c => some (.rename, c)
  | .removeStale at_, choice, c =>
    (removeDirAll b.dir at_ choice c).map fun
      | (.running next, c) => (.removeStale next, c)
      | (.finished, c) => (.rename, c)
      | (.failed e, c) => (.fail (.removeStale e), c)
  | .rename, .proceed, c =>
    match c.rename (b.staging pid) b.dir with
    | .ok c => some (.readRoot, c)
    | .error e => some (.fail (.rename e), c)
  | .rename, .fail e, c => some (.fail (.rename e), c)
  -- sweep_old_versions
  | .readRoot, .list names, c => some (.sweep names, c)
  | .readRoot, .fail _, c => some (.returned (.ok b.dir), c)
  | .sweep [], .proceed, c => some (.returned (.ok b.dir), c)
  | .sweep (name :: names), .proceed, c =>
    some (if name = b.dir ∨ isDir c name = false ∨ stagingPrefix.isPrefixOf name then .sweep names
      else .sweepRemove name .opening names, c)
  | .sweep (_ :: names), .fail _, c => some (.sweep names, c)
  | .sweepRemove name at_ names, choice, c =>
    (removeDirAll name at_ choice c).map fun
      | (.running next, c) => (.sweepRemove name next names, c)
      | (.finished, c) | (.failed _, c) => (.sweep names, c)
  | .dropStaging at_ result, choice, c =>
    (removeDirAll (b.staging pid) at_ choice c).map fun
      | (.running next, c) => (.dropStaging next result, c)
      | (.finished, c) | (.failed _, c) => (.returned result, c)
  | _, _, _ => none

structure Process where
  binary : Binary
  pc : Pc

/-- The cache and the processes, by pid. A pid whose process was killed is free;
one whose process has returned may be given out again. -/
structure State where
  cache : Cache
  procs : FiniteMap Nat Process

inductive Action where
  | spawn (pid : Nat) (binary : Binary)
  | step (pid : Nat) (choice : Choice)
  | kill (pid : Nat)

def Pc.Returned (pc : Pc) : Prop := ∃ result, pc = .returned result

instance (pc : Pc) : Decidable pc.Returned :=
  match pc with
  | .returned result => isTrue ⟨result, rfl⟩
  | .start | .firstMarker | .firstRootfs | .stagingExists | .clearStaging _ | .createStaging
  | .openArchive | .unpack .. | .writeMarker _ | .secondMarker | .secondRootfs | .dirExists
  | .removeStale _ | .rename | .readRoot | .sweep _ | .sweepRemove .. | .dropStaging .. =>
    isFalse nofun

/-- A pid the system can give to a new process. -/
def State.Free (s : State) (pid : Nat) : Prop :=
  ∀ proc, s.procs.lookup pid = some proc → proc.pc.Returned

instance (s : State) (pid : Nat) : Decidable (s.Free pid) :=
  match h : s.procs.lookup pid with
  | none => isTrue (by simp [State.Free, h])
  | some proc => decidable_of_iff proc.pc.Returned (by simp [State.Free, h])

def step (crates : Crates) (s : State) : Action → Option State
  | .spawn pid binary =>
    if s.Free pid then
      some { s with procs := s.procs.insert pid ⟨binary, .start⟩ }
    else none
  | .step pid choice =>
    match s.procs.lookup pid with
    | none => none
    | some proc =>
      (advance crates proc.binary pid proc.pc choice s.cache).map fun (pc, cache) =>
        { cache, procs := s.procs.insert pid ⟨proc.binary, pc⟩ }
  | .kill pid => some { s with procs := s.procs.erase pid }

end ImageBuilder.RootfsInstall
