import ImageBuilder.Library.Inode

/-! What the operations of a file system leave alone: nothing is removed, no file but the
one written to changes, and what a path led to it still leads to. -/
namespace Inode.FileSystem

variable {N : Type} [DecidableEq N] {fs mid final : FileSystem N}

/-- One file system grown into another. Only `changed` files may hold something else, and
only new inodes get names. -/
structure Extends (changed : Nat → Prop) (fs final : FileSystem N) : Prop where
  root : final.root = fs.root
  cwd : final.cwd = fs.cwd
  hops : final.hops = fs.hops
  file : ∀ ino mode contents, fs.nodes.lookup ino = some (.file mode contents) →
    ∃ new, final.nodes.lookup ino = some (.file mode new) ∧ (¬ changed ino → new = contents)
  link : ∀ ino target, fs.nodes.lookup ino = some (.link target) →
    final.nodes.lookup ino = some (.link target)
  dir : ∀ ino entries, fs.nodes.lookup ino = some (.dir entries) →
    ∃ more, final.nodes.lookup ino = some (.dir more) ∧ FiniteMap.Sub entries more ∧
      ∀ n j, entries.lookup n = none → more.lookup n = some j → fs.nodes.lookup j = none
  new : ∀ ino entries, fs.nodes.lookup ino = none →
    final.nodes.lookup ino = some (.dir entries) →
    ∀ n j, entries.lookup n = some j → fs.nodes.lookup j = none

namespace Extends

variable {changed other : Nat → Prop}

theorem refl (fs : FileSystem N) : Extends changed fs fs where
  root := rfl
  cwd := rfl
  hops := rfl
  file _ _ contents found := ⟨contents, found, fun _ => rfl⟩
  link _ _ found := found
  dir _ entries found := ⟨entries, found, .refl entries, fun n j absent named => by
    rw [absent] at named
    cases named⟩
  new _ _ absent found := by
    rw [absent] at found
    cases found

/-- What was there still is. -/
theorem present (grown : Extends changed fs final) (found : fs.nodes.lookup ino = some node) :
    ∃ new, final.nodes.lookup ino = some new ∧
      ((∀ target, node ≠ .link target) → ∀ target, new ≠ .link target) := by
  cases node with
  | file mode contents =>
    obtain ⟨new, still, _⟩ := grown.file _ _ _ found
    exact ⟨_, still, fun _ _ same => by cases same⟩
  | dir entries =>
    obtain ⟨more, still, _⟩ := grown.dir _ _ found
    exact ⟨_, still, fun _ _ same => by cases same⟩
  | link target => exact ⟨_, grown.link _ _ found, id⟩

/-- What is not there was not. -/
theorem absent (grown : Extends changed fs final) (gone : final.nodes.lookup ino = none) :
    fs.nodes.lookup ino = none := by
  cases found : fs.nodes.lookup ino with
  | none => rfl
  | some node =>
    obtain ⟨new, still, _⟩ := grown.present found
    rw [gone] at still
    cases still

theorem dir_new (grown : Extends changed fs final) (absent : fs.nodes.lookup ino = none ∨
    ∃ entries, fs.nodes.lookup ino = some (.dir entries) ∧ entries.lookup n = none)
    (found : final.nodes.lookup ino = some (.dir more)) (named : more.lookup n = some j) :
    fs.nodes.lookup j = none := by
  rcases absent with absent | ⟨entries, before, absent⟩
  · exact grown.new _ _ absent found _ _ named
  · obtain ⟨more', still, _, fresh⟩ := grown.dir _ _ before
    rw [found] at still
    cases still
    exact fresh _ _ absent named

theorem dir_old (grown : Extends changed fs final) (before : fs.nodes.lookup ino = some node)
    (found : final.nodes.lookup ino = some (.dir more)) :
    ∃ entries, node = .dir entries ∧ FiniteMap.Sub entries more := by
  cases node with
  | file mode contents =>
    obtain ⟨_, still, _⟩ := grown.file _ _ _ before
    rw [found] at still
    cases still
  | link target =>
    rw [grown.link _ _ before] at found
    cases found
  | dir entries =>
    obtain ⟨_, still, sub, _⟩ := grown.dir _ _ before
    rw [found] at still
    cases still
    exact ⟨entries, rfl, sub⟩

/-- Where nothing changes, files and links stay as they are. -/
theorem leaf (grown : Extends (fun _ => False) fs final) (before : fs.nodes.lookup ino = some old)
    (found : final.nodes.lookup ino = some node) (leaf : ∀ entries, node ≠ .dir entries) :
    node = old := by
  cases old with
  | file mode contents =>
    obtain ⟨new, still, kept⟩ := grown.file _ _ _ before
    rw [found, kept id, Option.some.injEq] at still
    exact still
  | link target =>
    have still := grown.link _ _ before
    rw [found, Option.some.injEq] at still
    exact still
  | dir entries =>
    obtain ⟨more, still, _⟩ := grown.dir _ _ before
    rw [found, Option.some.injEq] at still
    exact absurd still (leaf more)

theorem trans (first : Extends changed fs mid) (second : Extends other mid final) :
    Extends (fun ino => changed ino ∨ other ino) fs final where
  root := second.root.trans first.root
  cwd := second.cwd.trans first.cwd
  hops := second.hops.trans first.hops
  file ino mode contents found := by
    obtain ⟨middle, between, kept⟩ := first.file _ _ _ found
    obtain ⟨last, still, also⟩ := second.file _ _ _ between
    refine ⟨last, still, fun untouched => ?_⟩
    rw [not_or] at untouched
    rw [also untouched.2, kept untouched.1]
  link ino target found := second.link _ _ (first.link _ _ found)
  dir ino entries found := by
    obtain ⟨middle, between, sub, fresh⟩ := first.dir _ _ found
    obtain ⟨last, still, also, later⟩ := second.dir _ _ between
    refine ⟨last, still, sub.trans also, fun n j absent named => ?_⟩
    cases entered : middle.lookup n with
    | none => exact first.absent (later _ _ entered named)
    | some k =>
      have same := also _ _ entered
      rw [named] at same
      cases same
      exact fresh _ _ absent entered
  new ino entries absent found n j named := by
    cases between : mid.nodes.lookup ino with
    | none => exact first.absent (second.new _ _ between found _ _ named)
    | some node =>
      obtain ⟨middle, rfl, _⟩ := second.dir_old between found
      obtain ⟨last, still, also, later⟩ := second.dir _ _ between
      rw [found] at still
      cases still
      cases entered : middle.lookup n with
      | none => exact first.absent (later _ _ entered named)
      | some k =>
        have same := also _ _ entered
        rw [named] at same
        cases same
        exact first.new _ _ absent between _ _ entered

theorem mono (grown : Extends changed fs final) (wider : ∀ ino, changed ino → other ino) :
    Extends other fs final :=
  { grown with file := fun _ _ _ found => (grown.file _ _ _ found).imp fun _ still =>
      ⟨still.1, fun untouched => still.2 (mt (wider _) untouched)⟩ }

theorem inode (grown : Extends changed fs final) (pos : Position N) :
    final.inode pos = fs.inode pos := by
  cases pos with
  | nil => exact grown.root
  | cons step pos => rfl

theorem scan (grown : Extends changed fs final) (scanned : fs.scan pos steps = .ok leg) :
    final.scan pos steps = .ok leg := by
  induction steps generalizing pos with
  | nil => exact scanned
  | cons step rest ih =>
    obtain ⟨entries, found, onward⟩ := scan_cons.mp scanned
    obtain ⟨more, still, sub, _⟩ := grown.dir _ _ found
    refine scan_cons.mpr ⟨more, by rw [grown.inode]; exact still, ?_⟩
    cases step with
    | here => exact ih onward
    | up => exact ih onward
    | name n =>
      obtain ⟨ino, node, named, present, ⟨target, rfl, rfl⟩ | ⟨plain, onward⟩⟩ := onward
      · exact ⟨ino, _, sub _ _ named, grown.link _ _ present, .inl ⟨target, rfl, rfl⟩⟩
      · obtain ⟨new, there, kind⟩ := grown.present present
        exact ⟨ino, new, sub _ _ named, there, .inr ⟨kind plain, ih onward⟩⟩

theorem walk {links : Nat} (grown : Extends changed fs final)
    (walked : fs.walk links pos steps = .ok q) : final.walk links pos steps = .ok q := by
  refine walk_induction (motive := fun links pos steps => final.walk links pos steps = .ok q)
    (fun links pos steps arrived => ?_)
    (fun links pos steps start target rest linked full ih => ?_) walked
  · exact walk_arrived (grown.scan arrived)
  · rw [walk_turned (grown.scan linked) full]
    exact ih

theorem origin (grown : Extends changed fs final) (begun : fs.origin route = .ok pos) :
    final.origin route = .ok pos := by
  unfold FileSystem.origin at begun ⊢
  split at begun
  · rename_i absolute
    rw [if_pos absolute]
    exact begun
  · rename_i relative
    rw [if_neg relative, home, grown.cwd]
    exact grown.walk begun

/-- A path that led somewhere still leads there. -/
theorem follow (grown : Extends changed fs final) (followed : fs.follow route = .ok pos) :
    final.follow route = .ok pos := by
  unfold FileSystem.follow at followed ⊢
  split at followed
  · cases followed
  · rename_i begun
    rw [grown.origin begun, grown.hops]
    exact grown.walk followed

theorem resolve (grown : Extends changed fs final) (resolved : fs.resolve route = .ok pos) :
    final.resolve route = .ok pos := by
  unfold FileSystem.resolve at resolved ⊢
  split at resolved
  · cases resolved
  · rename_i full
    rw [if_neg full]
    exact grown.follow resolved

theorem directory (grown : Extends changed fs final)
    (found : fs.directory route = .ok (pos, entries)) :
    ∃ more, final.directory route = .ok (pos, more) ∧ FiniteMap.Sub entries more := by
  unfold FileSystem.directory at found ⊢
  split at found
  · cases found
  · rename_i reached followed
    split at found <;> cases found
    rename_i present
    obtain ⟨more, still, sub, _⟩ := grown.dir _ _ present
    rw [grown.follow followed]
    dsimp only
    rw [grown.inode, still]
    exact ⟨more, rfl, sub⟩

end Extends

omit [DecidableEq N] in
theorem lookup_put (ino j : Nat) (node : Node N) :
    (fs.put ino node).nodes.lookup j = if j = ino then some node else fs.nodes.lookup j := by
  rw [put]
  by_cases same : j = ino
  · rw [if_pos same, same, Finmap.lookup_insert]
  · rw [if_neg same, Finmap.lookup_insert_of_ne _ same]

theorem lookup_add (pos : Position N) (entries : FiniteMap N Nat) (n : N) (node : Node N) (j : Nat) :
    (fs.add pos entries n node).nodes.lookup j =
      if j = fs.fresh then some node
      else if j = fs.inode pos then some (.dir (entries.insert n fs.fresh))
      else fs.nodes.lookup j := by
  rw [add, lookup_put, lookup_put]

/-- Replacing what one file holds. -/
theorem extends_put (found : fs.nodes.lookup ino = some (.file mode old)) (new : List UInt8) :
    Extends (· = ino) fs (fs.put ino (.file mode new)) where
  root := rfl
  cwd := rfl
  hops := rfl
  file j mode' contents there := by
    rw [lookup_put]
    by_cases same : j = ino
    · subst same
      rw [found] at there
      cases there
      exact ⟨new, if_pos rfl, fun other => absurd rfl other⟩
    · exact ⟨contents, by rw [if_neg same]; exact there, fun _ => rfl⟩
  link j target there := by
    rw [lookup_put, if_neg]
    · exact there
    · rintro rfl
      rw [found] at there
      cases there
  dir j entries there := by
    refine ⟨entries, ?_, .refl entries, fun n k absent named => ?_⟩
    · rw [lookup_put, if_neg]
      · exact there
      · rintro rfl
        rw [found] at there
        cases there
    · rw [absent] at named
      cases named
  new j entries absent there := by
    rw [lookup_put] at there
    split at there
    · cases there
    · rw [absent] at there
      cases there

theorem lookup_add_kept (found : fs.nodes.lookup (fs.inode pos) = some (.dir entries))
    (there : fs.nodes.lookup j = some kept) (other : ∀ inside, kept ≠ .dir inside) (n : N)
    (node : Node N) : (fs.add pos entries n node).nodes.lookup j = some kept := by
  rw [lookup_add, if_neg, if_neg]
  · exact there
  · rintro rfl
    rw [found, Option.some.injEq] at there
    exact other _ there.symm
  · rintro rfl
    rw [fresh_absent] at there
    cases there

/-- A new file, or a new empty directory. -/
theorem extends_add (found : fs.nodes.lookup (fs.inode pos) = some (.dir entries))
    (free : entries.lookup n = none) (bare : ∀ inside, node = .dir inside → inside = ∅) :
    Extends (fun _ => False) fs (fs.add pos entries n node) where
  root := rfl
  cwd := rfl
  hops := rfl
  file j mode contents there :=
    ⟨contents, lookup_add_kept found there (fun _ same => by cases same) n node, fun _ => rfl⟩
  link j target there := lookup_add_kept found there (fun _ same => by cases same) n node
  dir j inside there := by
    have old : j ≠ fs.fresh := by
      rintro rfl
      rw [fresh_absent] at there
      cases there
    rw [lookup_add, if_neg old]
    by_cases same : j = fs.inode pos
    · subst same
      rw [found] at there
      cases there
      refine ⟨_, if_pos rfl, .insert free _, fun k v absent named => ?_⟩
      rcases FiniteMap.lookup_insert_some.mp named with ⟨_, rfl⟩ | ⟨_, named⟩
      · exact fresh_absent fs
      · rw [absent] at named
        cases named
    · refine ⟨inside, by rw [if_neg same]; exact there, .refl inside, fun k v absent named => ?_⟩
      rw [absent] at named
      cases named
  new j inside absent there k v named := by
    rw [lookup_add] at there
    split at there
    · cases there
      rw [bare _ rfl, Finmap.lookup_empty] at named
      cases named
    · split at there
      · rename_i same
        rw [same, found] at absent
        cases absent
      · rw [absent] at there
        cases there

/-- What a file is given once it is open. -/
theorem extends_setContents (ino : Nat) (contents : List UInt8) :
    Extends (· = ino) fs (fs.setContents ino contents) := by
  unfold setContents
  split
  · rename_i found
    exact extends_put found contents
  · exact .refl fs

omit [DecidableEq N] in
theorem put_setContents (ino mode : Nat) (old new : List UInt8) :
    (fs.put ino (.file mode old)).setContents ino new = fs.put ino (.file mode new) := by
  rw [setContents, lookup_put, if_pos rfl]
  simp only [put]
  congr 1
  exact Finmap.insert_insert _

theorem add_setContents (pos : Position N) (entries : FiniteMap N Nat) (n : N) (mode : Nat)
    (old new : List UInt8) : (fs.add pos entries n (.file mode old)).setContents fs.fresh new =
      fs.add pos entries n (.file mode new) :=
  put_setContents fs.fresh mode old new

variable (fs) in
/-- The files once a file of this name holds these bytes. -/
def written (pos : Position N) (entries : FiniteMap N Nat) (n : N) (mode : Nat)
    (bytes : List UInt8) : FileSystem N :=
  match entries.lookup n with
  | none => fs.add pos entries n (.file mode bytes)
  | some ino => fs.setContents ino bytes

/-- Opening a file to replace what it holds, and writing to it. -/
theorem openTruncate_written (opened : fs.openTruncate mode route = .ok (file, mid)) :
    ∃ pos entries n, fs.entry route = .ok (some (pos, entries, n)) ∧
      (entries.lookup n = none ∨ ∃ ino mode old, entries.lookup n = some ino ∧
        fs.nodes.lookup ino = some (.file mode old)) ∧
      ∀ bytes, mid.setContents file bytes = fs.written pos entries n mode bytes := by
  obtain ⟨pos, entries, n, named, ⟨free, rfl, rfl⟩ | ⟨entered, kept, old, present, rfl⟩⟩ :=
    openTruncate_ok.mp opened
  · refine ⟨pos, entries, n, named, .inl free, fun bytes => ?_⟩
    rw [written, free, add_setContents]
  · refine ⟨pos, entries, n, named, .inr ⟨file, kept, old, entered, present⟩, fun bytes => ?_⟩
    rw [written, entered, put_setContents]
    dsimp only
    rw [setContents, present]

/-- A write changes the file of its name and no other. -/
theorem extends_written (found : fs.nodes.lookup (fs.inode pos) = some (.dir entries)) (n : N)
    (mode : Nat) (bytes : List UInt8) :
    Extends (fun ino => entries.lookup n = some ino) fs (fs.written pos entries n mode bytes) := by
  rw [written]
  split
  · rename_i free
    exact (extends_add found free (fun inside same => by cases same)).mono fun _ never => never.elim
  · rename_i ino entered
    exact (extends_setContents ino bytes).mono fun other same => by rw [entered, same]

omit [DecidableEq N] in
theorem setContents_absent (absent : fs.nodes.lookup j = none) (ino : Nat)
    (contents : List UInt8) : (fs.setContents ino contents).nodes.lookup j = none := by
  unfold setContents
  split
  · rename_i found
    rw [lookup_put, if_neg]
    · exact absent
    · rintro rfl
      rw [absent] at found
      cases found
  · exact absent

/-- What is new after a write is the file, under its name. -/
theorem written_new (found : fs.nodes.lookup (fs.inode pos) = some (.dir entries))
    (absent : fs.nodes.lookup ino = none)
    (new : (fs.written pos entries n mode bytes).nodes.lookup ino = some node) :
    node = .file mode bytes ∧ entries.lookup n = none ∧
      (fs.written pos entries n mode bytes).nodes.lookup (fs.inode pos) =
        some (.dir (entries.insert n ino)) := by
  rw [written] at new ⊢
  split at new
  · rename_i free
    have apart : fs.inode pos ≠ fs.fresh := by
      intro same
      rw [same, fresh_absent] at found
      cases found
    rw [lookup_add] at new
    split at new
    · rename_i same
      cases new
      refine ⟨rfl, free, ?_⟩
      rw [lookup_add, if_neg apart, if_pos rfl, same]
    · split at new
      · rename_i same
        rw [same, found] at absent
        cases absent
      · rw [absent] at new
        cases new
  · rw [setContents_absent absent] at new
    cases new

/-- Growth by directories alone. -/
structure OnlyDirs (fs final : FileSystem N) : Prop extends Extends (fun _ => False) fs final where
  made : ∀ ino node, fs.nodes.lookup ino = none → final.nodes.lookup ino = some node →
    ∃ entries, node = .dir entries

theorem OnlyDirs.refl (fs : FileSystem N) : OnlyDirs fs fs where
  toExtends := .refl fs
  made ino node absent found := by
    rw [absent] at found
    cases found

theorem OnlyDirs.trans (first : OnlyDirs fs mid) (second : OnlyDirs mid final) :
    OnlyDirs fs final where
  toExtends := (first.toExtends.trans second.toExtends).mono fun _ either => either.elim id id
  made ino node absent found := by
    cases between : mid.nodes.lookup ino with
    | none => exact second.made _ _ between found
    | some middle =>
      obtain ⟨entries, rfl⟩ := first.made _ _ absent between
      obtain ⟨more, still, _⟩ := second.dir _ _ between
      rw [found] at still
      cases still
      exact ⟨more, rfl⟩

theorem mkdir_onlyDirs (made : fs.mkdir route = .ok final) : OnlyDirs fs final := by
  obtain ⟨pos, entries, n, named, free, rfl⟩ := mkdir_ok.mp made
  obtain ⟨_, there⟩ := entry_ok.mp named
  have found := (directory_ok.mp there).2
  refine ⟨extends_add found free (fun inside same => by cases same; rfl), fun ino node absent new => ?_⟩
  rw [lookup_add] at new
  split at new
  · cases new
    exact ⟨∅, rfl⟩
  · split at new
    · cases new
      exact ⟨_, rfl⟩
    · rw [absent] at new
      cases new

/-- A directory that was made is the one its path now leads to, and the only new one. -/
theorem mkdir_resolve (made : fs.mkdir route = .ok final) :
    ∃ pos, final.resolve route = .ok pos ∧ ∀ ino node, fs.nodes.lookup ino = none →
      final.nodes.lookup ino = some node → ino = final.inode pos := by
  have grown := mkdir_onlyDirs made
  obtain ⟨pos, entries, n, named, free, rfl⟩ := mkdir_ok.mp made
  obtain ⟨last, there⟩ := entry_ok.mp named
  obtain ⟨followed, found⟩ := directory_ok.mp there
  have apart : fs.inode pos ≠ fs.fresh := by
    intro same
    rw [same, fresh_absent] at found
    cases found
  have entered : (fs.add pos entries n (.dir ∅)).entry route =
      .ok (some (pos, entries.insert n fs.fresh, n)) := by
    refine entry_ok.mpr ⟨last, directory_ok.mpr ⟨grown.follow followed, ?_⟩⟩
    rw [grown.inode, lookup_add, if_neg apart, if_pos rfl]
  have made : (fs.add pos entries n (.dir ∅)).nodes.lookup fs.fresh = some (.dir ∅) := by
    rw [lookup_add, if_pos rfl]
  refine ⟨(n, fs.fresh) :: pos,
    resolve_entry entered (Finmap.lookup_insert _) made (fun target same => by cases same), ?_⟩
  intro ino node absent new
  rw [lookup_add] at new
  split at new
  · assumption
  · split at new
    · rename_i same
      rw [same, found] at absent
      cases absent
    · rw [absent] at new
      cases new

variable (fs) in
/-- What names lead to below a directory, without following links. -/
def reach : Nat → List N → Option Nat
  | ino, [] => some ino
  | ino, n :: rest =>
    match fs.nodes.lookup ino with
    | some (.dir entries) => (entries.lookup n).bind (reach · rest)
    | _ => none

variable (fs) in
/-- The file or link at the end of a list of names. -/
def fileAt (ino : Nat) (names : List N) : Option (Node N) :=
  (fs.reach ino names).bind fun ino =>
    match fs.nodes.lookup ino with
    | some (.dir _) | none => none
    | some node => some node

theorem reach_cons : fs.reach ino (n :: rest) = some j ↔
    ∃ entries k, fs.nodes.lookup ino = some (.dir entries) ∧ entries.lookup n = some k ∧
      fs.reach k rest = some j := by
  rw [reach]
  split
  · rename_i entries found
    simp [found, Option.bind_eq_some_iff]
  · rename_i other
    constructor
    · intro impossible
      cases impossible
    · rintro ⟨entries, k, found, _⟩
      exact absurd found (other entries)

theorem fileAt_some : fs.fileAt ino names = some node ↔
    ∃ j, fs.reach ino names = some j ∧ fs.nodes.lookup j = some node ∧
      ∀ entries, node ≠ .dir entries := by
  rw [fileAt, Option.bind_eq_some_iff]
  apply exists_congr
  intro j
  apply and_congr_right
  intro _
  cases fs.nodes.lookup j with
  | none => simp
  | some found => cases found <;> simp <;> rintro rfl <;> simp

theorem Extends.reach_new {changed : Nat → Prop} (grown : Extends changed fs final)
    (absent : fs.nodes.lookup ino = none) (reached : final.reach ino names = some j) :
    fs.nodes.lookup j = none := by
  induction names generalizing ino with
  | nil =>
    cases reached
    exact absent
  | cons n rest ih =>
    obtain ⟨entries, k, found, named, reached⟩ := reach_cons.mp reached
    exact ih (grown.new _ _ absent found _ _ named) reached

theorem Extends.reach_old {changed : Nat → Prop} (grown : Extends changed fs final)
    (reached : final.reach ino names = some j) (present : fs.nodes.lookup j = some node) : fs.reach ino names = some j := by
  induction names generalizing ino with
  | nil => exact reached
  | cons n rest ih =>
    obtain ⟨more, k, found, named, reached⟩ := reach_cons.mp reached
    have fresh : fs.nodes.lookup k ≠ none := by
      intro absent
      rw [grown.reach_new absent reached] at present
      cases present
    cases before : fs.nodes.lookup ino with
    | none => exact absurd (grown.new _ _ before found _ _ named) fresh
    | some inside =>
      obtain ⟨entries, rfl, sub⟩ := grown.dir_old before found
      refine reach_cons.mpr ⟨entries, k, before, ?_, ih reached⟩
      cases entered : entries.lookup n with
      | none => exact absurd (grown.dir_new (.inr ⟨entries, before, entered⟩) found named) fresh
      | some other =>
        have same := sub _ _ entered
        rw [named] at same
        exact same.symm

theorem Extends.reach {changed : Nat → Prop} (grown : Extends changed fs final)
    (reached : fs.reach ino names = some j) : final.reach ino names = some j := by
  induction names generalizing ino with
  | nil => exact reached
  | cons n rest ih =>
    obtain ⟨entries, k, found, named, reached⟩ := reach_cons.mp reached
    obtain ⟨more, still, sub, _⟩ := grown.dir _ _ found
    exact reach_cons.mpr ⟨more, k, still, sub _ _ named, ih reached⟩

/-- New directories hold no files. -/
theorem OnlyDirs.fileAt (grown : OnlyDirs fs final) (ino : Nat) (names : List N) :
    final.fileAt ino names = fs.fileAt ino names := by
  apply Option.ext
  intro node
  rw [fileAt_some, fileAt_some]
  constructor
  · rintro ⟨j, reached, found, leaf⟩
    cases before : fs.nodes.lookup j with
    | none =>
      obtain ⟨entries, same⟩ := grown.made _ _ before found
      exact absurd same (leaf entries)
    | some old =>
      have same : node = old := grown.leaf before found leaf
      exact ⟨j, grown.reach_old reached before, by rw [same]; exact before, leaf⟩
  · rintro ⟨j, reached, found, leaf⟩
    refine ⟨j, grown.reach reached, ?_, leaf⟩
    obtain ⟨new, still, _⟩ := grown.present found
    have other : ∀ entries, new ≠ .dir entries := by
      rintro entries rfl
      obtain ⟨_, same, _⟩ := grown.dir_old found still
      exact leaf _ same
    rw [still, grown.leaf found still other]

end Inode.FileSystem
