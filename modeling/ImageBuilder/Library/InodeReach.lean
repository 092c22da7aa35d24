import ImageBuilder.Library.InodeGrowth

/-! What names lead to below a directory as a file system grows. -/
namespace Inode.FileSystem

variable {N : Type} [DecidableEq N] {fs mid final : FileSystem N}

variable (fs) in
/-- What names lead to below a directory, without following links. -/
def nodeAt (ino : Nat) (names : List N) : Option (Node N) :=
  (fs.reach ino names).bind fs.nodes.lookup

variable (fs) in
/-- Every entry leads to something. -/
def Closed : Prop :=
  ∀ ino entries n j, fs.nodes.lookup ino = some (.dir entries) → entries.lookup n = some j →
    fs.nodes.lookup j ≠ none

/-- Growth without links. -/
def Linkless (fs final : FileSystem N) : Prop :=
  ∀ ino target, fs.nodes.lookup ino = none → final.nodes.lookup ino ≠ some (.link target)

theorem nodeAt_some : fs.nodeAt ino names = some found ↔
    ∃ j, fs.reach ino names = some j ∧ fs.nodes.lookup j = some found := by
  rw [nodeAt, Option.bind_eq_some_iff]

theorem nodeAt_nil (ino : Nat) : fs.nodeAt ino [] = fs.nodes.lookup ino := rfl

theorem reach_append (a b : List N) : fs.reach ino (a ++ b) = (fs.reach ino a).bind (fs.reach · b) := by
  induction a generalizing ino with
  | nil => rfl
  | cons n a ih =>
    rw [List.cons_append, reach, reach]
    split
    · rename_i entries found
      cases entries.lookup n with
      | none => rfl
      | some j => exact ih
    · rfl

theorem reach_single (found : fs.nodes.lookup ino = some (.dir entries)) (n : N) :
    fs.reach ino [n] = entries.lookup n := by
  rw [reach, found]
  dsimp only
  cases entries.lookup n <;> rfl

theorem reach_single_dir (reached : fs.reach ino [n] = some j) :
    ∃ entries, fs.nodes.lookup ino = some (.dir entries) ∧ entries.lookup n = some j := by
  obtain ⟨entries, k, found, named, same⟩ := reach_cons.mp reached
  cases same
  exact ⟨entries, found, named⟩

/-- What has something below it is a directory. -/
theorem nodeAt_above (found : fs.nodeAt ino (a ++ b) = some node) (below : b ≠ []) :
    ∃ entries, fs.nodeAt ino a = some (.dir entries) := by
  obtain ⟨j, reached, _⟩ := nodeAt_some.mp found
  rw [reach_append] at reached
  obtain ⟨k, above, onward⟩ := Option.bind_eq_some_iff.mp reached
  obtain ⟨n, rest, rfl⟩ := List.exists_cons_of_ne_nil below
  obtain ⟨entries, _, there, _⟩ := reach_cons.mp onward
  exact ⟨entries, nodeAt_some.mpr ⟨k, above, there⟩⟩

namespace Extends

variable {changed other : Nat → Prop}

/-- What changes matters only where there was a file. -/
theorem weaken (grown : Extends changed fs final)
    (wider : ∀ ino mode contents, fs.nodes.lookup ino = some (.file mode contents) →
      changed ino → other ino) : Extends other fs final :=
  { grown with file := fun ino mode contents found =>
      (grown.file ino mode contents found).imp fun _ still =>
        ⟨still.1, fun untouched => still.2 (mt (wider ino mode contents found) untouched)⟩ }

theorem nodeAt_dir (grown : Extends changed fs final)
    (found : fs.nodeAt ino names = some (.dir entries)) :
    ∃ more, final.nodeAt ino names = some (.dir more) := by
  obtain ⟨j, reached, there⟩ := nodeAt_some.mp found
  obtain ⟨more, still, _⟩ := grown.dir _ _ there
  exact ⟨more, nodeAt_some.mpr ⟨j, grown.reach reached, still⟩⟩

theorem nodeAt_file (grown : Extends changed fs final)
    (found : fs.nodeAt ino names = some (.file mode contents))
    (untouched : ∀ j, fs.reach ino names = some j → ¬ changed j) :
    final.nodeAt ino names = some (.file mode contents) := by
  obtain ⟨j, reached, there⟩ := nodeAt_some.mp found
  obtain ⟨new, still, same⟩ := grown.file _ _ _ there
  rw [same (untouched j reached)] at still
  exact nodeAt_some.mpr ⟨j, grown.reach reached, still⟩

/-- Where no link stood, none stands later. -/
theorem nodeAt_plain (grown : Extends changed fs final) (linkless : Linkless fs final)
    (plain : ∀ target, fs.nodeAt ino names ≠ some (.link target)) (target : Route N) :
    final.nodeAt ino names ≠ some (.link target) := by
  intro linked
  obtain ⟨j, reached, there⟩ := nodeAt_some.mp linked
  cases before : fs.nodes.lookup j with
  | none => exact linkless j target before there
  | some old =>
    have earlier := grown.reach_old reached before
    cases old with
    | file mode contents =>
      obtain ⟨_, still, _⟩ := grown.file _ _ _ before
      rw [there] at still
      cases still
    | dir entries =>
      obtain ⟨_, still, _⟩ := grown.dir _ _ before
      rw [there] at still
      cases still
    | link target => exact plain target (nodeAt_some.mpr ⟨j, earlier, before⟩)

/-- A file that is there later was there, or is new. -/
theorem file_origin (grown : Extends changed fs final)
    (found : final.nodes.lookup ino = some (.file mode contents)) :
    fs.nodes.lookup ino = none ∨ ∃ old, fs.nodes.lookup ino = some (.file mode old) := by
  cases before : fs.nodes.lookup ino with
  | none => exact .inl rfl
  | some node =>
    cases node with
    | file kept old =>
      obtain ⟨_, still, _⟩ := grown.file _ _ _ before
      rw [found] at still
      cases still
      exact .inr ⟨old, rfl⟩
    | dir entries =>
      obtain ⟨_, still, _⟩ := grown.dir _ _ before
      rw [found] at still
      cases still
    | link target =>
      rw [grown.link _ _ before] at found
      cases found

end Extends

theorem OnlyDirs.linkless (grown : OnlyDirs fs final) : Linkless fs final := by
  intro ino target absent linked
  obtain ⟨_, same⟩ := grown.made _ _ absent linked
  cases same

theorem extends_added (found : fs.nodes.lookup ino = some (.dir entries))
    (free : entries.lookup n = none) (bare : ∀ inside, node = .dir inside → inside = ∅) :
    Extends (fun _ => False) fs (fs.add [(n, ino)] entries n node) :=
  extends_add found free bare

/-- A new entry is found below every path to its directory. -/
theorem reach_added (found : fs.nodes.lookup ino = some (.dir entries))
    (free : entries.lookup n = none) (bare : ∀ inside, node = .dir inside → inside = ∅)
    (reached : fs.reach top path = some ino) :
    (fs.add [(n, ino)] entries n node).reach top (path ++ [n]) = some fs.fresh := by
  have grown := extends_added found free bare
  rw [reach_append, grown.reach reached]
  have apart : ino ≠ fs.fresh := by
    rintro rfl
    rw [fresh_absent] at found
    cases found
  have entered : (fs.add [(n, ino)] entries n node).nodes.lookup ino =
      some (.dir (entries.insert n fs.fresh)) := by
    rw [lookup_add, if_neg apart]
    exact if_pos rfl
  exact (reach_single entered n).trans (Finmap.lookup_insert _)

theorem lookup_added_fresh (pos : Position N) (entries : FiniteMap N Nat) (n : N) (node : Node N) :
    (fs.add pos entries n node).nodes.lookup fs.fresh = some node := by
  rw [lookup_add, if_pos rfl]

omit [DecidableEq N] in
theorem lookup_put_present (present : fs.nodes.lookup j ≠ none) (ino : Nat) (node : Node N) :
    (fs.put ino node).nodes.lookup j ≠ none := by
  rw [lookup_put]
  split
  · exact Option.some_ne_none _
  · exact present

theorem lookup_add_present (present : fs.nodes.lookup j ≠ none) (pos : Position N)
    (entries : FiniteMap N Nat) (n : N) (node : Node N) :
    (fs.add pos entries n node).nodes.lookup j ≠ none :=
  lookup_put_present (lookup_put_present present _ _) _ _

/-- Names lead through directories alone. -/
theorem reach_congr (same : ∀ ino entries, final.nodes.lookup ino = some (.dir entries) ↔
    fs.nodes.lookup ino = some (.dir entries)) : final.reach ino names = fs.reach ino names := by
  induction names generalizing ino with
  | nil => rfl
  | cons n rest ih =>
    apply Option.ext
    intro j
    rw [reach_cons, reach_cons]
    simp only [same, ih]

theorem reach_put (found : fs.nodes.lookup file = some (.file mode old)) (kept : Nat)
    (contents : List UInt8) (ino : Nat) (names : List N) :
    (fs.put file (.file kept contents)).reach ino names = fs.reach ino names := by
  apply reach_congr
  intro j entries
  rw [lookup_put]
  split
  · rename_i same
    rw [same, found]
    simp
  · rfl

theorem Closed.add (closed : fs.Closed) (found : fs.nodes.lookup (fs.inode pos) = some (.dir entries))
    (bare : ∀ inside, node = .dir inside → inside = ∅) (n : N) :
    (fs.add pos entries n node).Closed := by
  intro ino inside k j there entered
  rw [lookup_add] at there
  split at there
  · cases there
    rw [bare inside rfl, Finmap.lookup_empty] at entered
    cases entered
  · split at there
    · cases there
      rcases FiniteMap.lookup_insert_some.mp entered with ⟨_, rfl⟩ | ⟨_, entered⟩
      · rw [lookup_added_fresh]
        exact Option.some_ne_none _
      · exact lookup_add_present (closed _ _ _ _ found entered) _ _ _ _
    · exact lookup_add_present (closed _ _ _ _ there entered) _ _ _ _

theorem Closed.added (closed : fs.Closed) (found : fs.nodes.lookup ino = some (.dir entries))
    (bare : ∀ inside, node = .dir inside → inside = ∅) (n : N) :
    (fs.add [(n, ino)] entries n node).Closed :=
  closed.add (show fs.nodes.lookup (fs.inode [(n, ino)]) = _ from found) bare n

theorem Closed.setContents (closed : fs.Closed) (ino : Nat) (contents : List UInt8) :
    (fs.setContents ino contents).Closed := by
  unfold FileSystem.setContents
  split
  · rename_i found
    intro j inside n k there entered
    rw [lookup_put] at there
    split at there
    · cases there
    · exact lookup_put_present (closed _ _ _ _ there entered) _ _
  · exact closed

theorem Closed.written (closed : fs.Closed)
    (found : fs.nodes.lookup (fs.inode pos) = some (.dir entries)) (n : N) (mode : Nat)
    (bytes : List UInt8) : (fs.written pos entries n mode bytes).Closed := by
  unfold FileSystem.written
  split
  · exact closed.add found (fun inside same => by cases same) n
  · exact closed.setContents _ _

theorem Closed.mkdir (closed : fs.Closed) (made : fs.mkdir route = .ok final) : final.Closed := by
  obtain ⟨pos, entries, n, named, _, rfl⟩ := mkdir_ok.mp made
  obtain ⟨_, there⟩ := entry_ok.mp named
  exact closed.add (directory_ok.mp there).2 (fun inside same => by cases same; rfl) n

/-- What is written under a name is found under it. -/
theorem written_nodeAt (found : fs.nodes.lookup ino = some (.dir entries))
    (writable : entries.lookup n = none ∨ ∃ j kept old, entries.lookup n = some j ∧
      fs.nodes.lookup j = some (.file kept old)) (mode : Nat) (bytes : List UInt8) :
    ∃ kept, (fs.written [(n, ino)] entries n mode bytes).nodeAt ino [n] = some (.file kept bytes) := by
  rcases writable with free | ⟨j, kept, old, entered, there⟩
  · refine ⟨mode, nodeAt_some.mpr ⟨fs.fresh, ?_, ?_⟩⟩
    · rw [written, free]
      have top : fs.reach ino [] = some ino := rfl
      exact reach_added found free (fun inside same => by cases same) top
    · rw [written, free]
      exact lookup_added_fresh _ _ _ _
  · have replaced : fs.written [(n, ino)] entries n mode bytes = fs.put j (.file kept bytes) := by
      rw [written, entered]
      dsimp only
      rw [FileSystem.setContents, there]
    refine ⟨kept, nodeAt_some.mpr ⟨j, ?_, ?_⟩⟩
    · rw [replaced, reach_put there, reach_single found, entered]
    · rw [replaced, lookup_put, if_pos rfl]

/-- The only name of a new node is the one it was added under. -/
theorem Closed.added_name (closed : fs.Closed) (found : fs.nodes.lookup ino = some (.dir entries))
    (bare : ∀ inside, node = .dir inside → inside = ∅) (absent : fs.nodes.lookup j = none)
    (reached : (fs.add [(n, ino)] entries n node).reach top [k] = some j) : top = ino ∧ k = n := by
  obtain ⟨inside, there, named⟩ := reach_single_dir reached
  rw [lookup_add] at there
  split at there
  · cases there
    rw [bare inside rfl, Finmap.lookup_empty] at named
    cases named
  · split at there
    · rename_i same
      cases there
      rcases FiniteMap.lookup_insert_some.mp named with ⟨rfl, _⟩ | ⟨_, old⟩
      · exact ⟨same, rfl⟩
      · exact absurd absent (closed _ _ _ _ found old)
    · exact absurd absent (closed _ _ _ _ there named)

theorem fileAt_single (there : fs.nodes.lookup dir = some (.dir entries)) (n : N) :
    fs.fileAt dir [n] = some node ↔ ∃ j, entries.lookup n = some j ∧
      fs.nodes.lookup j = some node ∧ ∀ inside, node ≠ .dir inside := by
  rw [fileAt_some, reach_single there]

/-- Something new is no file that was there. -/
theorem lookup_add_leaf (found : fs.nodes.lookup (fs.inode pos) = some (.dir entries))
    (present : fs.nodes.lookup j ≠ none) (leaf : ∀ inside, node ≠ .dir inside) (n : N)
    (new : Node N) :
    (fs.add pos entries n new).nodes.lookup j = some node ↔ fs.nodes.lookup j = some node := by
  have old : j ≠ fs.fresh := by
    rintro rfl
    exact present (fresh_absent fs)
  rw [lookup_add, if_neg old]
  split
  · rename_i same
    rw [same, found]
    have apart : ∀ inside, some (Node.dir inside) ≠ some node :=
      fun inside same => leaf inside (Option.some.inj same).symm
    exact iff_of_false (apart _) (apart _)
  · exact Iff.rfl

/-- A new file is found under its name, and what other names lead to is as it was. -/
theorem add_fileAt (closed : fs.Closed)
    (found : fs.nodes.lookup (fs.inode pos) = some (.dir entries))
    (there : fs.nodes.lookup dir = some (.dir inside)) (n k : N) (mode : Nat)
    (bytes : List UInt8) : (fs.add pos entries n (.file mode bytes)).fileAt dir [k] =
      if dir = fs.inode pos ∧ k = n then some (.file mode bytes) else fs.fileAt dir [k] := by
  have old : dir ≠ fs.fresh := by
    rintro rfl
    rw [fresh_absent] at there
    cases there
  have now : (fs.add pos entries n (.file mode bytes)).nodes.lookup dir = _ :=
    lookup_add pos entries n (.file mode bytes) dir
  rw [if_neg old] at now
  apply Option.ext
  intro node
  have elsewhere : (∃ j, inside.lookup k = some j ∧
        (fs.add pos entries n (.file mode bytes)).nodes.lookup j = some node ∧
          ∀ more, node ≠ .dir more) ↔
      ∃ j, inside.lookup k = some j ∧ fs.nodes.lookup j = some node ∧ ∀ more, node ≠ .dir more :=
    exists_congr fun j => and_congr_right fun entered => and_congr_left fun leaf =>
      lookup_add_leaf found (closed _ _ _ _ there entered) leaf n _
  by_cases home : dir = fs.inode pos
  · rw [if_pos home] at now
    rw [fileAt_single now]
    by_cases same : k = n
    · rw [if_pos ⟨home, same⟩, same, Finmap.lookup_insert]
      constructor
      · rintro ⟨j, entered, held, _⟩
        cases entered
        rwa [lookup_added_fresh] at held
      · rintro ⟨⟩
        exact ⟨_, rfl, lookup_added_fresh _ _ _ _, fun _ same => by cases same⟩
    · rw [if_neg fun both => same both.2, Finmap.lookup_insert_of_ne _ same, fileAt_single there]
      rw [home, found] at there
      cases there
      exact elsewhere
  · rw [if_neg home, there] at now
    rw [if_neg fun both => home both.1, fileAt_single now, fileAt_single there]
    exact elsewhere

end Inode.FileSystem
