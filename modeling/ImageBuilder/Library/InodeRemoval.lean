import ImageBuilder.Library.InodeReach

/-! Names that are made for a while and taken away again, and what has been made under them
in between. -/
namespace Inode.FileSystem

variable {N : Type} [DecidableEq N]

section Operations

variable (fs : FileSystem N)

/-- Takes a name away; what it leads to may have others. -/
def unlink (ino : Nat) (n : N) : FileSystem N :=
  match fs.nodes.lookup ino with
  | some (.dir entries) => fs.put ino (.dir (entries.erase n))
  | _ => fs

/-- `open` with `O_CREAT` and `O_EXCL`. -/
def createNew (mode : Nat) (route : Route N) : Except Errno (Nat × FileSystem N) :=
  match fs.entry route with
  | .error e => .error e
  | .ok none => .error .exist
  | .ok (some (pos, entries, n)) =>
    match entries.lookup n with
    | some _ => .error .exist
    | none => .ok (fs.fresh, fs.add pos entries n (.file mode []))

/-- Where a link in a directory leads, from the root. -/
def target (pos : Position N) (route : Route N) : Route N :=
  if route.absolute then route
  else ⟨true, (pos.map Prod.fst).reverse.map .name ++ route.steps⟩

/-- `open` for writing with `O_CREAT` and `O_TRUNC`, through links. -/
def openCreate (mode : Nat) : Nat → Route N → Except Errno (Nat × FileSystem N)
  | links, route =>
    match fs.entry route with
    | .error e => .error e
    | .ok none => .error .isdir
    | .ok (some (pos, entries, n)) =>
      match entries.lookup n with
      | none => .ok (fs.fresh, fs.add pos entries n (.file mode []))
      | some ino =>
        match fs.nodes.lookup ino with
        | none => .error .noent
        | some (.file mode _) => .ok (ino, fs.put ino (.file mode []))
        | some (.dir _) => .error .isdir
        | some (.link route) =>
          match links with
          | 0 => .error .loop
          | links + 1 => openCreate mode links (target pos route)

/-- `unlink` of a path. -/
def removeFile (route : Route N) : Except Errno (FileSystem N) :=
  match fs.entry route with
  | .error e => .error e
  | .ok none => .error .isdir
  | .ok (some (pos, entries, n)) =>
    match (entries.lookup n).bind fs.nodes.lookup with
    | none => .error .noent
    | some (.dir _) => .error .isdir
    | some _ => .ok (fs.unlink (fs.inode pos) n)

/-- `remove_dir_all`. What is below the directory is no longer reached through it. -/
def removeDirAll (route : Route N) : Except Errno (FileSystem N) :=
  match fs.entry route with
  | .error e => .error e
  | .ok none => .error .isdir
  | .ok (some (pos, entries, n)) =>
    match (entries.lookup n).bind fs.nodes.lookup with
    | none => .error .noent
    | some (.file _ _) => .error .notdir
    | some _ => .ok (fs.unlink (fs.inode pos) n)

end Operations

variable {fs mid final : FileSystem N} {changed other : Nat → Prop}

theorem lookup_unlink (ino : Nat) (n : N) (j : Nat) : (fs.unlink ino n).nodes.lookup j =
    if j = ino then (fs.nodes.lookup ino).map fun
      | .dir entries => .dir (entries.erase n)
      | node => node
    else fs.nodes.lookup j := by
  unfold unlink
  split
  · rename_i entries found
    rw [lookup_put, found]
    rfl
  · rename_i plain
    split
    · rename_i same
      rw [same]
      cases found : fs.nodes.lookup ino with
      | none => rfl
      | some node =>
        cases node with
        | dir entries => exact absurd found (plain entries)
        | file mode contents => rfl
        | link target => rfl
    · rfl

/-- What is no directory stays as it is. -/
theorem lookup_unlink_leaf (leaf : ∀ entries, node ≠ .dir entries) :
    (fs.unlink ino n).nodes.lookup j = some node ↔ fs.nodes.lookup j = some node := by
  rw [lookup_unlink]
  split
  · rename_i same
    rw [same]
    cases fs.nodes.lookup ino with
    | none => exact Iff.rfl
    | some found =>
      cases found with
      | dir entries =>
        have apart : ∀ inside, some (Node.dir inside) ≠ some node :=
          fun inside same => leaf inside (Option.some.inj same).symm
        exact iff_of_false (apart _) (apart _)
      | file mode contents => exact Iff.rfl
      | link target => exact Iff.rfl
  · exact Iff.rfl

theorem lookup_unlink_dir : (fs.unlink ino n).nodes.lookup j = some (.dir entries) ↔
    ∃ before, fs.nodes.lookup j = some (.dir before) ∧
      entries = if j = ino then before.erase n else before := by
  rw [lookup_unlink]
  by_cases same : j = ino
  · subst same
    simp only [↓reduceIte]
    cases fs.nodes.lookup j with
    | none => simp
    | some found => cases found <;> simp [eq_comm]
  · simp only [same, ↓reduceIte, exists_eq_right']

theorem lookup_unlink_none : (fs.unlink ino n).nodes.lookup j = none ↔ fs.nodes.lookup j = none := by
  rw [lookup_unlink]
  split
  · rename_i same
    rw [same, Option.map_eq_none_iff]
  · exact Iff.rfl

/-- Taking away a name that is not there. -/
theorem unlink_absent (free : ∀ entries, fs.nodes.lookup ino = some (.dir entries) →
    entries.lookup n = none) : fs.unlink ino n = fs := by
  unfold unlink
  split
  · rename_i entries found
    rw [FiniteMap.erase_absent (free entries found), put, FiniteMap.insert_present found]
  · rfl

theorem inode_unlink (pos : Position N) : (fs.unlink ino n).inode pos = fs.inode pos := by
  cases pos with
  | nil =>
    unfold unlink
    split <;> rfl
  | cons step pos => rfl

theorem cwd_unlink : (fs.unlink ino n).cwd = fs.cwd := by
  unfold unlink
  split <;> rfl

theorem hops_unlink : (fs.unlink ino n).hops = fs.hops := by
  unfold unlink
  split <;> rfl

/-- A walk that does without the name goes the same way with it. -/
theorem scan_unlink (scanned : (fs.unlink ino n).scan pos steps = .ok leg) :
    fs.scan pos steps = .ok leg := by
  induction steps generalizing pos with
  | nil => exact scanned
  | cons step rest ih =>
    obtain ⟨entries, found, onward⟩ := scan_cons.mp scanned
    rw [inode_unlink] at found
    obtain ⟨before, there, same⟩ := lookup_unlink_dir.mp found
    refine scan_cons.mpr ⟨before, there, ?_⟩
    cases step with
    | here => exact ih onward
    | up => exact ih onward
    | name k =>
      obtain ⟨j, node, named, present, ways⟩ := onward
      have entered : before.lookup k = some j := by
        rw [same] at named
        split at named
        · exact (FiniteMap.lookup_erase_some.mp named).2
        · exact named
      rcases ways with ⟨target, rfl, rfl⟩ | ⟨plain, onward⟩
      · have link := (lookup_unlink_leaf (by simp)).mp present
        exact ⟨j, _, entered, link, .inl ⟨target, rfl, rfl⟩⟩
      · cases node with
        | dir inside =>
          obtain ⟨old, there, _⟩ := lookup_unlink_dir.mp present
          exact ⟨j, _, entered, there, .inr ⟨by simp, ih onward⟩⟩
        | file mode contents =>
          have file := (lookup_unlink_leaf (by simp)).mp present
          exact ⟨j, _, entered, file, .inr ⟨by simp, ih onward⟩⟩
        | link target => exact absurd rfl (plain target)

theorem walk_unlink {links : Nat} (walked : (fs.unlink ino n).walk links pos steps = .ok q) :
    fs.walk links pos steps = .ok q := by
  refine walk_induction (motive := fun links pos steps => fs.walk links pos steps = .ok q)
    (fun links pos steps arrived => ?_)
    (fun links pos steps start target rest linked full ih => ?_) walked
  · exact walk_arrived (scan_unlink arrived)
  · rw [walk_turned (scan_unlink linked) full]
    exact ih

theorem follow_unlink (followed : (fs.unlink ino n).follow route = .ok pos) :
    fs.follow route = .ok pos := by
  unfold follow origin home at followed ⊢
  rw [cwd_unlink, hops_unlink] at followed
  split at followed
  · cases followed
  · rename_i start begun
    have begun : (if route.absolute then .ok [] else fs.walk 0 [] (fs.cwd.map .name)) =
        (.ok start : Except Errno (Position N)) := by
      split at begun
      · rename_i absolute
        rw [if_pos absolute]
        exact begun
      · rename_i relative
        rw [if_neg relative]
        exact walk_unlink begun
    rw [begun]
    exact walk_unlink followed

theorem resolve_unlink (resolved : (fs.unlink ino n).resolve route = .ok pos) :
    fs.resolve route = .ok pos := by
  unfold resolve at resolved ⊢
  split at resolved
  · cases resolved
  · rename_i full
    rw [if_neg full]
    exact follow_unlink resolved

/-- Other names lead where they did. -/
theorem reach_unlink (apart : (top, k) ≠ (ino, n)) (reached : fs.reach top [k] = some j) :
    (fs.unlink ino n).reach top [k] = some j := by
  obtain ⟨entries, found, named⟩ := reach_single_dir reached
  have there : (fs.unlink ino n).nodes.lookup top =
      some (.dir (if top = ino then entries.erase n else entries)) :=
    lookup_unlink_dir.mpr ⟨entries, found, rfl⟩
  rw [reach_single there]
  split
  · rename_i same
    have other : k ≠ n := fun names => apart (by rw [same, names])
    exact FiniteMap.lookup_erase_some.mpr ⟨other, named⟩
  · exact named

/-- A walk that ends with a name goes through its entry. -/
theorem walk_named {links : Nat} (walked : fs.walk links pos (a ++ [.name n]) = .ok q) :
    ∃ r entries ino node, fs.walk links pos a = .ok r ∧
      fs.nodes.lookup (fs.inode r) = some (.dir entries) ∧ entries.lookup n = some ino ∧
      fs.nodes.lookup ino = some node := by
  refine walk_induction (motive := fun links pos steps => ∀ a, steps = a ++ [.name n] →
    ∃ r entries ino node, fs.walk links pos a = .ok r ∧
      fs.nodes.lookup (fs.inode r) = some (.dir entries) ∧ entries.lookup n = some ino ∧
      fs.nodes.lookup ino = some node) (fun links pos _ arrived a steps => ?_)
    (fun links pos _ start target rest linked full ih a steps => ?_) walked a rfl
  · subst steps
    rw [scan_append] at arrived
    split at arrived
    · cases arrived
    · rename_i r before
      obtain ⟨entries, found, ino, node, entered, present, _⟩ := scan_cons.mp arrived
      exact ⟨r, entries, ino, node, walk_arrived before, found, entered, present⟩
    · cases arrived
  · subst steps
    rw [scan_append] at linked
    split at linked
    · cases linked
    · rename_i r before
      obtain ⟨entries, found, ino, node, entered, present, _⟩ := scan_cons.mp linked
      exact ⟨r, entries, ino, node, walk_arrived before, found, entered, present⟩
    · rename_i before
      cases linked
      obtain ⟨r, entries, ino, node, onward, there⟩ := ih _ (List.append_assoc _ _ _).symm
      exact ⟨r, entries, ino, node, (walk_turned before full).trans onward, there⟩

/-- A path that ends with a name and leads somewhere goes through its entry. -/
theorem resolve_named (last : route.steps.getLast? = some (.name n))
    (resolved : fs.resolve route = .ok q) :
    ∃ pos entries ino node, fs.entry route = .ok (some (pos, entries, n)) ∧
      entries.lookup n = some ino ∧ fs.nodes.lookup ino = some node := by
  obtain ⟨init, steps⟩ := List.getLast?_eq_some_iff.mp last
  have followed := resolve_follow resolved
  unfold follow at followed
  split at followed
  · cases followed
  · rename_i begun
    rw [steps] at followed
    obtain ⟨pos, entries, ino, node, walked, found, named⟩ := walk_named followed
    refine ⟨pos, entries, ino, node, entry_ok.mpr ⟨last, directory_ok.mpr ⟨?_, found⟩⟩, named⟩
    rw [follow, show fs.origin ⟨route.absolute, route.steps.dropLast⟩ = _ from begun, steps,
      List.dropLast_concat]
    exact walked

/-- A name that is taken away leads nowhere. -/
theorem resolve_gone (named : fs.entry route = .ok (some (pos, entries, n))) :
    (fs.unlink (fs.inode pos) n).resolve route ≠ .ok q := by
  intro resolved
  obtain ⟨last, there⟩ := entry_ok.mp named
  obtain ⟨r, inside, ino, node, still, entered, _⟩ := resolve_named last resolved
  obtain ⟨followed, found⟩ := directory_ok.mp (entry_ok.mp still).2
  have same := follow_unlink followed
  rw [(directory_ok.mp there).1] at same
  cases same
  obtain ⟨before, _, rfl⟩ := lookup_unlink_dir.mp found
  rw [inode_unlink, if_pos rfl, Finmap.lookup_erase] at entered
  cases entered

namespace Extends

/-- Growth is seen past a name that is taken away. -/
theorem unlink (grown : Extends changed fs final) (ino : Nat) (n : N) :
    Extends changed (fs.unlink ino n) (final.unlink ino n) where
  root := by
    have top := grown.root
    rw [show (fs.unlink ino n).root = fs.root from inode_unlink [],
      show (final.unlink ino n).root = final.root from inode_unlink [], top]
  cwd := by rw [cwd_unlink, cwd_unlink, grown.cwd]
  hops := by rw [hops_unlink, hops_unlink, grown.hops]
  file j mode contents found := by
    obtain ⟨new, still, kept⟩ := grown.file _ _ _ ((lookup_unlink_leaf (by simp)).mp found)
    exact ⟨new, (lookup_unlink_leaf (by simp)).mpr still, kept⟩
  link j target found :=
    (lookup_unlink_leaf (by simp)).mpr (grown.link _ _ ((lookup_unlink_leaf (by simp)).mp found))
  dir j entries found := by
    obtain ⟨before, there, rfl⟩ := lookup_unlink_dir.mp found
    obtain ⟨more, still, sub, fresh⟩ := grown.dir _ _ there
    refine ⟨_, lookup_unlink_dir.mpr ⟨more, still, rfl⟩, ?_⟩
    simp only [lookup_unlink_none]
    split
    · refine ⟨fun k v named => ?_, fun k v absent named => ?_⟩
      · obtain ⟨apart, named⟩ := FiniteMap.lookup_erase_some.mp named
        exact FiniteMap.lookup_erase_some.mpr ⟨apart, sub _ _ named⟩
      · obtain ⟨apart, named⟩ := FiniteMap.lookup_erase_some.mp named
        rw [Finmap.lookup_erase_ne apart] at absent
        exact fresh _ _ absent named
    · exact ⟨sub, fresh⟩
  new j entries absent found k v named := by
    obtain ⟨more, there, rfl⟩ := lookup_unlink_dir.mp found
    have entered : more.lookup k = some v := by
      split at named
      · exact (FiniteMap.lookup_erase_some.mp named).2
      · exact named
    exact lookup_unlink_none.mpr
      (grown.new _ _ (lookup_unlink_none.mp absent) there _ _ entered)

/-- A name that was not there before leaves nothing behind. -/
theorem unlinked (grown : Extends changed fs final) (free : ∀ entries,
    fs.nodes.lookup ino = some (.dir entries) → entries.lookup n = none) :
    Extends changed fs (final.unlink ino n) := by
  have kept := grown.unlink ino n
  rwa [unlink_absent free] at kept

end Extends

/-- No name leads there. -/
def Nameless (fs : FileSystem N) (c : Nat) : Prop :=
  ∀ ino entries n, fs.nodes.lookup ino = some (.dir entries) → entries.lookup n ≠ some c

theorem nameless_fresh (closed : fs.Closed) : Nameless fs fs.fresh :=
  fun _ _ _ found entered => closed _ _ _ _ found entered (fresh_absent fs)

/-- No walk ends there either. -/
theorem Nameless.unreached (nameless : Nameless fs c) (apart : fs.root ≠ c)
    (linked : Linked fs pos) : fs.inode pos ≠ c := by
  cases linked with
  | root => exact apart
  | entry _ found named =>
    rintro rfl
    exact nameless _ _ _ found named

theorem Linked.root_present (linked : Linked fs pos)
    (found : fs.nodes.lookup (fs.inode pos) = some node) : fs.nodes.lookup fs.root ≠ none := by
  induction linked generalizing node with
  | root =>
    rw [show fs.nodes.lookup fs.root = _ from found]
    exact Option.some_ne_none _
  | entry _ above _ _ _ ih => exact ih above

/-- A node that is made under a name has no other until the name is taken away, and none then. -/
theorem nameless_unlink (closed : fs.Closed)
    (found : fs.nodes.lookup (fs.inode pos) = some (.dir entries))
    (bare : ∀ inside, node = .dir inside → inside = ∅)
    (grown : Extends changed (fs.add pos entries n node) final) :
    Nameless (final.unlink (fs.inode pos) n) fs.fresh := by
  intro ino inside k there entered
  obtain ⟨more, dir, rfl⟩ := lookup_unlink_dir.mp there
  have made : (fs.add pos entries n node).nodes.lookup fs.fresh = some node := by
    rw [lookup_add, if_pos rfl]
  have named : more.lookup k = some fs.fresh ∧ (ino = fs.inode pos → k ≠ n) := by
    split at entered
    · obtain ⟨apart, named⟩ := FiniteMap.lookup_erase_some.mp entered
      exact ⟨named, fun _ => apart⟩
    · rename_i elsewhere
      exact ⟨entered, fun same => absurd same elsewhere⟩
  obtain ⟨named, apart⟩ := named
  cases early : (fs.add pos entries n node).nodes.lookup ino with
  | none =>
    have impossible := grown.new _ _ early dir _ _ named
    rw [made] at impossible
    cases impossible
  | some old =>
    obtain ⟨less, rfl, sub⟩ := grown.dir_old early dir
    have before : less.lookup k = some fs.fresh := by
      cases held : less.lookup k with
      | none =>
        have impossible := grown.dir_new (.inr ⟨less, early, held⟩) dir named
        rw [made] at impossible
        cases impossible
      | some v =>
        have same := sub _ _ held
        rw [named] at same
        cases same
        rfl
    rw [lookup_add] at early
    split at early
    · cases early
      rw [bare _ rfl, Finmap.lookup_empty] at before
      cases before
    · split at early
      · rename_i same
        cases early
        rcases FiniteMap.lookup_insert_some.mp before with ⟨rfl, _⟩ | ⟨_, before⟩
        · exact apart same rfl
        · exact closed _ _ _ _ found before (fresh_absent fs)
      · exact closed _ _ _ _ early before (fresh_absent fs)

/-- Growth by directories. Files appear in directories of one's `own` and in some `places`. -/
structure Adds (changed own : Nat → Prop) (places : Nat → N → Prop) (fs final : FileSystem N) : Prop
    extends Extends changed fs final where
  entered : ∀ ino entries n j, final.nodes.lookup ino = some (.dir entries) →
    entries.lookup n = some j → fs.nodes.lookup j = none →
    (∃ inside, final.nodes.lookup j = some (.dir inside)) ∨ own ino ∨
      ∃ top k, places top k ∧ final.reach top [k] = some j

namespace Adds

variable {own : Nat → Prop} {places wider : Nat → N → Prop}

theorem refl (closed : fs.Closed) : Adds changed own places fs fs where
  toExtends := .refl fs
  entered _ _ _ _ found entered absent := absurd absent (closed _ _ _ _ found entered)

theorem trans (first : Adds changed own places fs mid) (second : Adds other own places mid final) :
    Adds (fun ino => changed ino ∨ other ino) own places fs final where
  toExtends := first.toExtends.trans second.toExtends
  entered ino entries n j found entered absent := by
    cases between : mid.nodes.lookup j with
    | none => exact second.entered _ _ _ _ found entered between
    | some node =>
      have before : ∃ less, mid.nodes.lookup ino = some (.dir less) ∧ less.lookup n = some j := by
        cases early : mid.nodes.lookup ino with
        | none =>
          have impossible := second.new _ _ early found _ _ entered
          rw [between] at impossible
          cases impossible
        | some old =>
          obtain ⟨less, rfl, sub⟩ := second.dir_old early found
          refine ⟨less, rfl, ?_⟩
          cases held : less.lookup n with
          | none =>
            have impossible := second.dir_new (.inr ⟨less, early, held⟩) found entered
            rw [between] at impossible
            cases impossible
          | some v =>
            have same := sub _ _ held
            rwa [entered, eq_comm] at same
      obtain ⟨less, early, held⟩ := before
      rcases first.entered _ _ _ _ early held absent with ⟨inside, dir⟩ | mine | ⟨top, k, there⟩
      · obtain ⟨more, still, _⟩ := second.dir _ _ dir
        exact .inl ⟨more, still⟩
      · exact .inr (.inl mine)
      · exact .inr (.inr ⟨top, k, there.1, second.reach there.2⟩)

theorem mono (adds : Adds changed own places fs final) (more : ∀ ino, changed ino → other ino)
    (broader : ∀ top k, places top k → wider top k) : Adds other own wider fs final where
  toExtends := adds.toExtends.mono more
  entered ino entries n j found entered absent := by
    rcases adds.entered _ _ _ _ found entered absent with dir | mine | ⟨top, k, here, reached⟩
    · exact .inl dir
    · exact .inr (.inl mine)
    · exact .inr (.inr ⟨top, k, broader _ _ here, reached⟩)

/-- What changes matters only where there was a file. -/
theorem weaken (adds : Adds changed own places fs final)
    (more : ∀ ino mode contents, fs.nodes.lookup ino = some (.file mode contents) →
      changed ino → other ino) : Adds other own places fs final where
  toExtends := adds.toExtends.weaken more
  entered := adds.entered

theorem of_onlyDirs (grown : OnlyDirs fs final) (closed : final.Closed) :
    Adds (fun _ => False) own places fs final where
  toExtends := grown.toExtends
  entered ino entries n j found entered absent := by
    cases there : final.nodes.lookup j with
    | none => exact absurd there (closed _ _ _ _ found entered)
    | some node =>
      obtain ⟨inside, rfl⟩ := grown.made _ _ absent there
      exact .inl ⟨inside, rfl⟩

theorem written (closed : fs.Closed)
    (found : fs.nodes.lookup (fs.inode pos) = some (.dir entries)) (mine : own (fs.inode pos))
    (n : N) (mode : Nat) (bytes : List UInt8) : Adds (fun ino => entries.lookup n = some ino) own
      places fs (fs.written pos entries n mode bytes) where
  toExtends := extends_written found n mode bytes
  entered ino inside k j there entered absent := by
    rw [FileSystem.written] at there
    split at there
    · have reached : (fs.add [(n, fs.inode pos)] entries n (.file mode bytes)).reach ino [k] =
          some j := (reach_single there k).trans entered
      obtain ⟨rfl, _⟩ := closed.added_name found (fun inside same => by cases same) absent reached
      exact .inr (.inl mine)
    · unfold setContents at there
      split at there
      · rw [lookup_put] at there
        split at there
        · cases there
        · exact absurd absent (closed _ _ _ _ there entered)
      · exact absurd absent (closed _ _ _ _ there entered)

/-- A name is taken away that was not there before, and is none of the places. -/
theorem unlinked (adds : Adds changed own places fs final) (free : ∀ entries,
    fs.nodes.lookup ino = some (.dir entries) → entries.lookup n = none)
    (apart : ¬ places ino n) : Adds changed own places fs (final.unlink ino n) where
  toExtends := adds.toExtends.unlinked free
  entered j entries k v found entered absent := by
    obtain ⟨more, there, rfl⟩ := lookup_unlink_dir.mp found
    have held : more.lookup k = some v := by
      split at entered
      · exact (FiniteMap.lookup_erase_some.mp entered).2
      · exact entered
    rcases adds.entered _ _ _ _ there held absent with ⟨inside, dir⟩ | mine | ⟨top, m, here, reached⟩
    · exact .inl ⟨_, lookup_unlink_dir.mpr ⟨inside, dir, rfl⟩⟩
    · exact .inr (.inl mine)
    · have other : (top, m) ≠ (ino, n) := fun same => by
        cases same
        exact apart here
      exact .inr (.inr ⟨top, m, here, reach_unlink other reached⟩)

end Adds

end Inode.FileSystem
