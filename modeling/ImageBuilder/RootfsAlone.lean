import ImageBuilder.RootfsProgress

/-! One `install` with the cache to itself and no operation failing: what it leaves
under the root, phase by phase, whatever was there before. -/
namespace ImageBuilder.RootfsInstall

open RootfsCache Transition

/-- `install` as the only process: its next operation, and the cache. -/
def solo (crates : Crates) (b : Binary) (pid : Nat) (s : Pc × Cache) (choice : Choice) :
    Option (Pc × Cache) :=
  advance crates b pid s.1 choice s.2

/-- No operation fails by itself, and `read_dir` returns what is there, in any order. -/
def Undisturbed (s : Pc × Cache) : Choice → Prop
  | .fail _ => False
  | .list names => ∀ name, name ∈ names ↔ s.2.root.lookup name ≠ none
  | .proceed | .delete _ => True

instance (s : Pc × Cache) : DecidablePred (Undisturbed s)
  | .fail _ => isFalse id
  | .list names =>
    decidable_of_iff (names.toFinset = s.2.root.keys) (by
      simp only [Undisturbed, Finset.ext_iff, List.mem_toFinset, Finmap.mem_keys,
        ← Finmap.lookup_isSome, Option.isSome_iff_ne_none])
  | .proceed | .delete _ => isTrue trivial

/-- Whatever order deletions and listings come in, the install gets there. -/
abbrev Certain (crates : Crates) (b : Binary) (pid : Nat) (goal : Pc × Cache → Prop) :
    Pc × Cache → Prop :=
  Inevitable (solo crates b pid) Undisturbed goal

/-- Only a removal and a listing leave the environment a choice. -/
def Pc.chooses : Pc → Bool
  | .clearStaging _ | .removeStale _ | .sweepRemove _ _ _ | .dropStaging _ _ | .readRoot => true
  | _ => false

theorem Move.proceeds (move : Move crates b pid pc choice c pc' d) (fixed : pc.chooses = false) :
    choice = .proceed ∨ ∃ e, choice = .fail e := by
  cases move with
  | listed | unlisted | clearing | cleared | clearFailed | removing | removed | removeFailed
  | sweeping | sweptOne | dropping | dropped => cases fixed
  | firstMarkerMiss answer | firstRootfsMiss answer | secondMarkerMiss answer
  | secondRootfsMiss answer | dirAbsent answer | sweepSkip answer | createFailed answer
  | unreadable answer | unpackFailed answer | markerFailed answer | renameFailed answer =>
    cases answer with
    | stands => exact .inl rfl
    | fails => exact .inr ⟨_, rfl⟩
  | _ => exact .inl rfl

theorem certain_proceed {goal : Pc × Cache → Prop} (fixed : pc.chooses = false)
    (taken : advance crates b pid pc .proceed c = some next)
    (rest : Certain crates b pid goal next) : Certain crates b pid goal (pc, c) := by
  refine .onward .proceed trivial taken ?_
  rintro choice ⟨pc', d⟩ permits moved
  rcases (advance_cases moved).proceeds fixed with rfl | ⟨e, rfl⟩
  · cases Option.some.inj (taken.symm.trans moved)
    exact rest
  · exact permits.elim

section
variable {crates : Crates} {b : Binary} {pid : Nat} {goal : Pc × Cache → Prop} {name : Text}
  {after : Pc} {continue_ : Removing × Cache → Pc × Cache} (wrap : Removal → Pc)
  (drives : ∀ at_ choice c, advance crates b pid (wrap at_) choice c =
    (removeDirAll name at_ choice c).map continue_)
  (running : ∀ at_ c, continue_ (.running at_, c) = (wrap at_, c))
  (finished : ∀ c, continue_ (.finished, c) = (after, c))
include drives running finished

/-- By induction on the number of entries left to delete. -/
theorem certain_emptying {c : Cache} (found : c.root.lookup name = some (.dir i tree))
    (rest : ∀ d, d.root = c.root.erase name → Certain crates b pid goal (after, d)) :
    Certain crates b pid goal (wrap (.emptying i gone), c) := by
  induction size : tree.keys.card using Nat.strong_induction_on generalizing tree gone c with
  | _ n ih =>
    obtain ⟨choice, allowed, enabled⟩ := removal_enabled found gone
    obtain ⟨r, taken⟩ := Option.isSome_iff_exists.mp enabled
    have permits : Undisturbed (wrap (.emptying i gone), c) choice := by
      rcases allowed with rfl | ⟨path, rfl⟩ <;> trivial
    have step : solo crates b pid (wrap (.emptying i gone), c) choice = some (continue_ r) := by
      rw [solo, drives, taken]
      rfl
    refine .onward choice permits step ?_
    intro choice next permits moved
    rw [solo, drives] at moved
    obtain ⟨⟨outcome, d⟩, taken, rfl⟩ := Option.map_eq_some_iff.mp moved
    cases removeDirAll_cases taken with
    | deleted before present =>
      rw [found] at before
      cases before
      rw [running]
      have fewer := entryCount_delete found present
      rw [entryCount_of found, entryCount_of (Cache.modify_lookup_same c found)] at fewer
      refine ih _ (by omega) (Cache.modify_lookup_same c found) ?_ rfl
      intro d same
      apply rest
      rw [same, Cache.modify_of_dir c found, FiniteMap.erase_insert]
    | vanished absent =>
      rw [found] at absent
      cases absent
    | unlinked =>
      rw [finished]
      exact rest _ rfl
    | replaced other =>
      exact absurd found (other tree)
    | failed => exact permits.elim

theorem certain_removal {c : Cache} (found : c.root.lookup name = some (.dir i tree))
    (rest : ∀ d, d.root = c.root.erase name → Certain crates b pid goal (after, d)) :
    Certain crates b pid goal (wrap .opening, c) := by
  have step : solo crates b pid (wrap .opening, c) .proceed = some (wrap (.emptying i []), c) := by
    simp [solo, drives, removeDirAll, found, running]
  refine .onward .proceed trivial step ?_
  intro choice next permits moved
  rw [solo, drives] at moved
  obtain ⟨⟨outcome, d⟩, taken, rfl⟩ := Option.map_eq_some_iff.mp moved
  cases removeDirAll_cases taken with
  | opened again =>
    rw [found] at again
    cases again
    rw [running]
    exact certain_emptying wrap drives running finished found rest
  | missing absent => exact absurd found (absent i tree)
  | failed => exact permits.elim

end

theorem dir_ne_staging (b : Binary) (pid : Nat) : b.dir ≠ b.staging pid := staging_ne_dir _ _ _

/-- An entry that a directory operation can replace: there is none, or it is a directory. -/
def Replaceable (c : Cache) (name : Text) : Prop :=
  c.root.lookup name = none ∨ ∃ i tree, c.root.lookup name = some (.dir i tree)

section
variable {crates : Crates} {b : Binary} {pid : Nat} {goal : Pc × Cache → Prop}

theorem certain_clear {c : Cache} (replaceable : Replaceable c (b.staging pid))
    (rest : ∀ d, d.root = c.root.erase (b.staging pid) →
      Certain crates b pid goal (.createStaging, d)) :
    Certain crates b pid goal (.stagingExists, c) := by
  rcases replaceable with absent | ⟨i, tree, found⟩
  · have taken : advance crates b pid .stagingExists .proceed c = some (.createStaging, c) := by
      simp [advance, absent]
    exact certain_proceed rfl taken (rest c (FiniteMap.erase_absent absent).symm)
  · have taken : advance crates b pid .stagingExists .proceed c =
        some (.clearStaging .opening, c) := by
      simp [advance, found]
    apply certain_proceed rfl taken
    exact certain_removal .clearStaging (fun _ _ _ => rfl) (fun _ _ => rfl) (fun _ => rfl) found rest

/-- By induction on the entries still in the archive. -/
theorem certain_unpack {c : Cache} (found : c.root.lookup (b.staging pid) = some (.dir i (unpacked done)))
    (rest : ∀ d, d.root = c.root.insert (b.staging pid) (.dir i (unpacked (done ++ entries))) →
      Certain crates b pid goal (.writeMarker false, d)) :
    Certain crates b pid goal (.unpack entries none false, c) := by
  induction entries generalizing done c with
  | nil =>
    refine certain_proceed rfl rfl (rest c ?_)
    rw [List.append_nil, FiniteMap.insert_present found]
  | cons entry entries ih =>
    obtain ⟨path, entry⟩ := entry
    have torn : (c.modify (b.staging pid) (·.insert path (Entry.torn entry))).root.lookup
        (b.staging pid) = some (.dir i ((unpacked done).insert path (Entry.torn entry))) :=
      Cache.modify_lookup_same c found
    have whole : ((c.modify (b.staging pid) (·.insert path (Entry.torn entry))).modify
        (b.staging pid) (·.insert path entry)).root.lookup (b.staging pid) =
        some (.dir i (((unpacked done).insert path (Entry.torn entry)).insert path entry)) :=
      Cache.modify_lookup_same _ torn
    rw [Finmap.insert_insert, ← unpacked_snoc] at whole
    refine certain_proceed rfl rfl (certain_proceed rfl rfl (ih whole ?_))
    intro d same
    apply rest
    rw [same, Cache.modify_of_dir _ torn, Cache.modify_of_dir c found, Finmap.insert_insert,
      Finmap.insert_insert, List.append_assoc]
    rfl

theorem certain_marker {c : Cache} (found : c.root.lookup (b.staging pid) = some (.dir i tree))
    (wrote : writeFile tree Rootfs.marker (crates.key b) = some full)
    (rest : ∀ d, d.root = c.root.insert (b.staging pid) (.dir i full) →
      Certain crates b pid goal (.secondMarker, d)) :
    Certain crates b pid goal (.writeMarker false, c) := by
  obtain ⟨bare, torn⟩ := writeFile_isSome wrote []
  have first : advance crates b pid (.writeMarker false) .proceed c =
      some (.writeMarker true, c.modify (b.staging pid) fun _ => bare) := by
    simp [advance, writeMarker, found, torn]
  have held : (c.modify (b.staging pid) fun _ => bare).root.lookup (b.staging pid) =
      some (.dir i bare) := Cache.modify_lookup_same c found
  have second : advance crates b pid (.writeMarker true) .proceed
      (c.modify (b.staging pid) fun _ => bare) =
      some (.secondMarker, (c.modify (b.staging pid) fun _ => bare).modify (b.staging pid)
        fun _ => full) := by
    simp [advance, writeMarker, held, writeFile_twice torn, wrote]
  refine certain_proceed rfl first (certain_proceed rfl second (rest _ ?_))
  rw [Cache.modify_of_dir _ held, Cache.modify_of_dir c found, Finmap.insert_insert]

theorem certain_stage {c : Cache} (replaceable : Replaceable c (b.staging pid))
    (decoded : crates.decode b.archive = .stream entries none)
    (wrote : writeFile (unpacked entries) Rootfs.marker (crates.key b) = some full)
    (rest : ∀ d i, d.root = c.root.insert (b.staging pid) (.dir i full) →
      Certain crates b pid goal (.secondMarker, d)) :
    Certain crates b pid goal (.stagingExists, c) := by
  apply certain_clear replaceable
  intro cleared same
  have absent : cleared.root.lookup (b.staging pid) = none := by
    rw [same, Finmap.lookup_erase]
  have created : advance crates b pid .createStaging .proceed cleared =
      some (.openArchive, cleared.mkdir (b.staging pid)) := by
    simp [advance, absent]
  have opened : advance crates b pid .openArchive .proceed (cleared.mkdir (b.staging pid)) =
      some (.unpack entries none false, cleared.mkdir (b.staging pid)) := by
    simp [advance, decoded]
  refine certain_proceed rfl created (certain_proceed rfl opened ?_)
  have made : (cleared.mkdir (b.staging pid)).root.lookup (b.staging pid) =
      some (.dir cleared.next (unpacked [])) := Cache.mkdir_lookup_same cleared
  apply certain_unpack made
  intro unpacked_ whole
  have found : unpacked_.root.lookup (b.staging pid) = some (.dir cleared.next (unpacked entries)) := by
    rw [whole, Finmap.lookup_insert]
    rfl
  apply certain_marker found wrote
  intro d marked
  apply rest d cleared.next
  rw [marked, whole, Finmap.insert_insert, Cache.mkdir, Finmap.insert_insert, same,
    FiniteMap.insert_erase]

/-- The version directory is a cache hit. -/
def Hit (crates : Crates) (b : Binary) (c : Cache) : Prop :=
  markerMatches c b.dir (crates.key b) = true ∧ rootfsOk c b.dir = true

instance (crates : Crates) (b : Binary) (c : Cache) : Decidable (Hit crates b c) :=
  inferInstanceAs (Decidable (_ ∧ _))

theorem certain_rename {c : Cache} (staged : c.root.lookup (b.staging pid) = some (.dir i full))
    (absent : c.root.lookup b.dir = none)
    (rest : ∀ d, d.root = (c.root.erase (b.staging pid)).insert b.dir (.dir i full) →
      Certain crates b pid goal (.readRoot, d)) :
    Certain crates b pid goal (.rename, c) := by
  obtain ⟨d, renamed⟩ := c.rename_ok staged (.inl absent)
  have taken : advance crates b pid .rename .proceed c = some (.readRoot, d) := by
    simp [advance, renamed]
  refine certain_proceed rfl taken (rest d ?_)
  obtain ⟨node, source, _, _, root⟩ := Cache.rename_cases renamed
  rw [staged] at source
  cases source
  exact root

theorem certain_replace {c : Cache} (miss : ¬ Hit crates b c)
    (staged : c.root.lookup (b.staging pid) = some (.dir i full)) (replaceable : Replaceable c b.dir)
    (rest : ∀ d, d.root = (c.root.erase (b.staging pid)).insert b.dir (.dir i full) →
      Certain crates b pid goal (.readRoot, d)) :
    Certain crates b pid goal (.secondMarker, c) := by
  have replace : Certain crates b pid goal (.dirExists, c) := by
    rcases replaceable with absent | ⟨j, tree, found⟩
    · have taken : advance crates b pid .dirExists .proceed c = some (.rename, c) := by
        simp [advance, absent]
      exact certain_proceed rfl taken (certain_rename staged absent rest)
    · have taken : advance crates b pid .dirExists .proceed c =
          some (.removeStale .opening, c) := by
        simp [advance, found]
      apply certain_proceed rfl taken
      apply certain_removal .removeStale (fun _ _ _ => rfl) (fun _ _ => rfl) (fun _ => rfl) found
      intro removed root
      have still : removed.root.lookup (b.staging pid) = some (.dir i full) := by
        rw [root, Finmap.lookup_erase_ne (dir_ne_staging b pid).symm, staged]
      apply certain_rename still (by rw [root, Finmap.lookup_erase])
      intro d renamed
      apply rest
      rw [renamed, root, Finmap.erase_erase, FiniteMap.insert_erase]
  by_cases matched : markerMatches c b.dir (crates.key b) = true
  · have marker : advance crates b pid .secondMarker .proceed c = some (.secondRootfs, c) := by
      simp [advance, matched]
    have rootfs : advance crates b pid .secondRootfs .proceed c = some (.dirExists, c) := by
      simp [advance, show rootfsOk c b.dir ≠ true from fun usable => miss ⟨matched, usable⟩]
    exact certain_proceed rfl marker (certain_proceed rfl rootfs replace)
  · have marker : advance crates b pid .secondMarker .proceed c = some (.dirExists, c) := by
      simp [advance, matched]
    exact certain_proceed rfl marker replace

/-- What a sweep removes: every directory but its own and those being unpacked into. -/
def Sweeps (b : Binary) (c : Cache) (name : Text) : Prop :=
  name ≠ b.dir ∧ isDir c name = true ∧ stagingPrefix.isPrefixOf name = false

instance (b : Binary) (c : Cache) (name : Text) : Decidable (Sweeps b c name) :=
  inferInstanceAs (Decidable (_ ∧ _ ∧ _))

theorem isDir_iff : isDir c name = true ↔ ∃ i tree, c.root.lookup name = some (.dir i tree) := by
  unfold isDir
  cases found : c.root.lookup name with
  | none => simp
  | some node => cases node <;> simp [Node.tree?]

/-- By induction on the names still to be swept. -/
theorem certain_sweep {c : Cache} (rest : ∀ d, (∀ name, d.root.lookup name =
      if name ∈ names ∧ Sweeps b c name then none else c.root.lookup name) →
      Certain crates b pid goal (.returned (.ok b.dir), d)) :
    Certain crates b pid goal (.sweep names, c) := by
  induction names generalizing c with
  | nil =>
    refine certain_proceed rfl rfl (rest c ?_)
    simp
  | cons name names ih =>
    by_cases sweeps : Sweeps b c name
    · obtain ⟨i, tree, found⟩ := isDir_iff.mp sweeps.2.1
      have taken : advance crates b pid (.sweep (name :: names)) .proceed c =
          some (.sweepRemove name .opening names, c) := by
        simp [advance, sweeps.1, sweeps.2.1, sweeps.2.2]
      apply certain_proceed rfl taken
      apply certain_removal (.sweepRemove name · names) (fun _ _ _ => rfl) (fun _ _ => rfl)
        (fun _ => rfl) found
      intro removed root
      apply ih
      intro d swept
      apply rest
      intro other
      rw [swept, root]
      by_cases same : other = name
      · subst same
        simp [sweeps]
      · have frame : removed.root.lookup other = c.root.lookup other := by
          rw [root, Finmap.lookup_erase_ne same]
        simp [same, Finmap.lookup_erase_ne same, Sweeps, isDir, frame]
    · have taken : advance crates b pid (.sweep (name :: names)) .proceed c =
          some (.sweep names, c) := by
        have skip : name = b.dir ∨ isDir c name = false ∨ stagingPrefix.isPrefixOf name = true := by
          simpa [Sweeps, or_iff_not_imp_left] using sweeps
        simp only [advance, skip, ↓reduceIte]
      apply certain_proceed rfl taken
      apply ih
      intro d swept
      apply rest
      intro other
      rw [swept]
      by_cases same : other = name
      · subst same
        simp [sweeps]
      · simp [same]

theorem certain_readRoot {c : Cache} (rest : ∀ d, (∀ name, d.root.lookup name =
      if Sweeps b c name then none else c.root.lookup name) →
      Certain crates b pid goal (.returned (.ok b.dir), d)) :
    Certain crates b pid goal (.readRoot, c) := by
  have listing (name : Text) : name ∈ c.root.keys.toList ↔ c.root.lookup name ≠ none := by
    rw [Finset.mem_toList, Finmap.mem_keys, ← Finmap.lookup_isSome, Option.isSome_iff_ne_none]
  refine .onward (.list c.root.keys.toList) listing rfl ?_
  rintro choice ⟨pc, d⟩ permits moved
  cases choice with
  | list names =>
    cases moved
    apply certain_sweep
    intro e swept
    apply rest
    intro name
    rw [swept]
    have listed (sweeps : Sweeps b c name) : name ∈ names := by
      obtain ⟨i, tree, found⟩ := isDir_iff.mp sweeps.2.1
      exact (permits name).mpr (by simp [found])
    by_cases sweeps : Sweeps b c name
    · simp [sweeps, listed sweeps]
    · simp [sweeps]
  | fail e => exact permits.elim
  | proceed | delete path => cases moved

theorem certain_start {c : Cache} (embedded : b.archive ≠ [])
    (hit : Hit crates b c → Certain crates b pid goal (.returned (.ok b.dir), c))
    (miss : ¬ Hit crates b c → Certain crates b pid goal (.stagingExists, c)) :
    Certain crates b pid goal (.start, c) := by
  have started : advance crates b pid .start .proceed c = some (.firstMarker, c) := by
    simp [advance, embedded]
  apply certain_proceed rfl started
  by_cases matched : markerMatches c b.dir (crates.key b) = true
  · have marker : advance crates b pid .firstMarker .proceed c = some (.firstRootfs, c) := by
      simp [advance, matched]
    apply certain_proceed rfl marker
    by_cases usable : rootfsOk c b.dir = true
    · have rootfs : advance crates b pid .firstRootfs .proceed c =
          some (.returned (.ok b.dir), c) := by
        simp [advance, usable]
      exact certain_proceed rfl rootfs (hit ⟨matched, usable⟩)
    · have rootfs : advance crates b pid .firstRootfs .proceed c = some (.stagingExists, c) := by
        simp [advance, usable]
      exact certain_proceed rfl rootfs (miss fun both => usable both.2)
  · have marker : advance crates b pid .firstMarker .proceed c = some (.stagingExists, c) := by
      simp [advance, matched]
    exact certain_proceed rfl marker (miss fun both => matched both.1)

/-- What an install that unpacked makes of the root. -/
structure Installed (b : Binary) (pid : Nat) (full : Tree) (before after : Cache) : Prop where
  dir : ∃ i, after.root.lookup b.dir = some (.dir i full)
  own : after.root.lookup (b.staging pid) = none
  staging : ∀ name, stagingPrefix.isPrefixOf name = true → name ≠ b.staging pid →
    after.root.lookup name = before.root.lookup name
  files : ∀ name contents, after.root.lookup name = some (.file contents) ↔
    before.root.lookup name = some (.file contents)
  directories : ∀ name i tree, after.root.lookup name = some (.dir i tree) →
    name = b.dir ∨ stagingPrefix.isPrefixOf name = true

theorem Replaceable.not_file {c : Cache} (replaceable : Replaceable c name) (contents : Bytes) :
    c.root.lookup name ≠ some (.file contents) := by
  rcases replaceable with absent | ⟨i, tree, found⟩
  · simp [absent]
  · simp [found]

theorem installed_of_swept {before replaced after : Cache} (dir : Replaceable before b.dir)
    (staging : Replaceable before (b.staging pid))
    (root : replaced.root = (before.root.erase (b.staging pid)).insert b.dir (.dir i full))
    (swept : ∀ name, after.root.lookup name =
      if Sweeps b replaced name then none else replaced.root.lookup name) :
    Installed b pid full before after := by
  have apart := (dir_ne_staging b pid).symm
  have frame (name : Text) (notDir : name ≠ b.dir) (notOwn : name ≠ b.staging pid) :
      replaced.root.lookup name = before.root.lookup name := by
    rw [root, Finmap.lookup_insert_of_ne _ notDir, Finmap.lookup_erase_ne notOwn]
  constructor
  case dir =>
    refine ⟨i, ?_⟩
    rw [swept, if_neg fun sweeps => sweeps.1 rfl, root, Finmap.lookup_insert]
  case own =>
    rw [swept, root, Finmap.lookup_insert_of_ne _ apart, Finmap.lookup_erase, ite_self]
  case staging =>
    intro name prefixed notOwn
    have notDir : name ≠ b.dir := by
      rintro rfl
      simp [Binary.dir, version_not_staging] at prefixed
    rw [swept, if_neg fun sweeps => by simp [sweeps.2.2] at prefixed, frame name notDir notOwn]
  case files =>
    intro name contents
    by_cases isDir_ : name = b.dir
    · subst isDir_
      simp [swept, Sweeps, root, dir.not_file]
    · by_cases isOwn : name = b.staging pid
      · subst isOwn
        simp [swept, root, Finmap.lookup_insert_of_ne _ apart, staging.not_file]
      · rw [swept, frame name isDir_ isOwn]
        split
        · rename_i sweeps
          obtain ⟨j, tree, found⟩ := isDir_iff.mp sweeps.2.1
          rw [frame name isDir_ isOwn] at found
          simp [found]
        · rfl
  case directories =>
    intro name j tree found
    rw [swept] at found
    split at found
    · cases found
    · rename_i keeps
      simp only [Sweeps, isDir_iff, not_and, Bool.not_eq_false] at keeps
      exact or_iff_not_imp_left.mpr fun notDir => keeps notDir ⟨j, tree, found⟩

theorem writeFile_of_plain {tree : Tree} (plain : tree.lookup path ≠ some .other) (text : Text) :
    ∃ new, writeFile tree path text = some new := by
  unfold writeFile
  split
  · exact ⟨_, rfl⟩
  · exact ⟨_, rfl⟩
  · exact absurd ‹_› plain

/-- Writing the marker touches no other file. -/
theorem writeFile_usable (wrote : writeFile tree Rootfs.marker text = some new)
    (usable : Rootfs.Usable tree) : Rootfs.Usable new := by
  obtain ⟨mode, contents, found, bits⟩ := Rootfs.usable_iff.mp usable
  have apart : Rootfs.helper ≠ Rootfs.marker := by decide
  refine Rootfs.usable_iff.mpr ⟨mode, contents, ?_, bits⟩
  unfold writeFile at wrote
  split at wrote <;> cases wrote <;> rw [Finmap.lookup_insert_of_ne _ apart, found]

theorem hit_congr {c d : Cache} (same : d.root.lookup b.dir = c.root.lookup b.dir) :
    Hit crates b d ↔ Hit crates b c := by
  simp [Hit, markerMatches, rootfsOk, same]

theorem installed_hit (wrote : writeFile tree Rootfs.marker (crates.key b) = some full)
    (usable : Rootfs.Usable tree) (installed : Installed b pid full before after) :
    Hit crates b after := by
  obtain ⟨i, found⟩ := installed.dir
  obtain ⟨mode, marked⟩ := writeFile_lookup wrote
  exact ⟨markerMatches_iff.mpr ⟨i, full, found, mode, _, marked, trim_key crates b⟩,
    rootfsOk_iff.mpr ⟨i, full, found, writeFile_usable wrote usable⟩⟩

end

/-- Another version's directory, a leftover of this process's staging directory, and a
staging directory of another process. -/
def Sample.cluttered : Cache :=
  ((Cache.empty.mkdir second.text).mkdir (stagingName first 7)).mkdir (stagingName first 8)

end ImageBuilder.RootfsInstall
