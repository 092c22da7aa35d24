import ImageBuilder.RootfsExclusive
import Mathlib.Algebra.Order.BigOperators.Group.Finset

/-! Processes that take turns all finish: one of them can always move, and each move
uses up some of the work that was left at the start. -/
namespace ImageBuilder.RootfsInstall

open RootfsCache Transition

/-- A removal that still finds its directory has an entry or the directory to delete. -/
theorem removal_enabled {c : Cache} (found : c.root.lookup name = some (.dir i tree))
    (gone : List Text) : ∃ choice, (choice = .proceed ∨ ∃ path, choice = .delete path) ∧
      (removeDirAll name (.emptying i gone) choice c).isSome := by
  by_cases bare : tree = ∅
  · exact ⟨.proceed, .inl rfl, by simp [removeDirAll, found, bare]⟩
  · obtain ⟨path, present⟩ := not_forall.mp (mt FiniteMap.eq_empty_iff.mpr bare)
    obtain ⟨entry, present⟩ := Option.ne_none_iff_exists'.mp present
    exact ⟨.delete path, .inr ⟨path, rfl⟩, by simp [removeDirAll, found, present]⟩

/-- An operation is always possible, and only the listing needs an answer. -/
theorem advance_enabled {c : Cache} (expects : Expects crates b c₀ past c pid pc)
    (live : ¬ pc.Returned) : ∃ choice,
      (choice = .proceed ∨ (∃ path, choice = .delete path) ∨ choice = .list c.root.keys.toList) ∧
      (advance crates b pid pc choice c).isSome := by
  cases pc with
  | clearStaging | sweepRemove => exact expects.elim
  | returned result => exact absurd ⟨result, rfl⟩ live
  | removeStale at_ =>
    cases at_ with
    | opening =>
      refine ⟨.proceed, .inl rfl, ?_⟩
      simp only [advance, removeDirAll, Option.isSome_map]
      split <;> rfl
    | emptying i gone =>
      obtain ⟨tree, found⟩ := expects
      obtain ⟨choice, allowed, taken⟩ := removal_enabled found gone
      exact ⟨choice, allowed.imp id .inl, by simpa [advance] using taken⟩
  | dropStaging at_ result =>
    obtain ⟨_, _, i, tree, found, _, handle⟩ := expects
    cases at_ with
    | opening => exact ⟨.proceed, .inl rfl, by simp [advance, removeDirAll, found]⟩
    | emptying j gone =>
      rw [← handle j gone rfl] at found
      obtain ⟨choice, allowed, taken⟩ := removal_enabled found gone
      exact ⟨choice, allowed.imp id .inl, by simpa [advance] using taken⟩
  | readRoot => exact ⟨.list c.root.keys.toList, .inr (.inr rfl), rfl⟩
  | start | firstMarker | firstRootfs | stagingExists | secondMarker | secondRootfs | dirExists =>
    exact ⟨.proceed, .inl rfl, rfl⟩
  | createStaging | openArchive | rename =>
    refine ⟨.proceed, .inl rfl, ?_⟩
    simp only [advance]
    split <;> rfl
  | unpack rest ending torn =>
    refine ⟨.proceed, .inl rfl, ?_⟩
    cases rest <;> cases ending <;> cases torn <;> rfl
  | writeMarker torn =>
    refine ⟨.proceed, .inl rfl, ?_⟩
    cases torn <;> simp only [advance] <;> split <;> rfl
  | sweep names =>
    refine ⟨.proceed, .inl rfl, ?_⟩
    cases names <;> rfl

theorem turns_progress (racing : Racing crates b c₀ s) (running : s.procs.lookup pid = some proc)
    (live : ¬ proc.pc.Returned) : ∃ action next, TakingTurns s action ∧
      step crates s action = some next := by
  -- A process that is replacing the version directory may always go on.
  have chosen : ∃ q mover, s.procs.lookup q = some mover ∧ ¬ mover.pc.Returned ∧
      (Busy s → ¬ Enters s.cache mover) := by
    by_cases busy : Busy s
    · obtain ⟨q, mover, held, replacing⟩ := busy
      refine ⟨q, mover, held, ?_, fun _ enters => ?_⟩
      · rintro ⟨result, at_pc⟩
        rw [at_pc] at replacing
        cases replacing
      · rcases enters with at_pc | ⟨at_pc, _⟩ <;> rw [at_pc] at replacing <;> cases replacing
    · exact ⟨pid, proc, running, live, fun impossible => absurd impossible busy⟩
  obtain ⟨q, mover, held, unfinished, free⟩ := chosen
  obtain ⟨owner, pc⟩ := mover
  obtain rfl : owner = b := racing.members _ _ held
  obtain ⟨choice, allowed, taken⟩ := advance_enabled (racing.expects _ _ held) unfinished
  obtain ⟨⟨pc', cache⟩, taken⟩ := Option.isSome_iff_exists.mp taken
  refine ⟨.step q choice, ⟨cache, s.procs.insert q ⟨owner, pc'⟩⟩, ⟨?_, ?_⟩, by simp [step, held, taken]⟩
  · rcases allowed with rfl | ⟨path, rfl⟩ | rfl
    · trivial
    · trivial
    · exact ⟨Finset.nodup_toList _, fun name member => Finset.mem_toList.mp member⟩
  · rcases allowed with rfl | ⟨path, rfl⟩ | rfl
    · intro proc same enters busy
      rw [held] at same
      cases same
      exact free busy enters
    · trivial
    · trivial

/-- The number of files of a directory. -/
def entryCount (c : Cache) (name : Text) : Nat :=
  match c.root.lookup name with
  | some (.dir _ tree) => tree.keys.card
  | _ => 0

/-- The number of entries to unpack. -/
def Crates.entryCount (crates : Crates) (b : Binary) : Nat :=
  match crates.decode b.archive with
  | .stream entries _ => entries.length
  | .unreadable _ => 0

/-- At most how many operations a process has left: `names` bounds a listing of the
root, `stale` the tree in the version directory and `full` a staged tree. -/
def remaining (crates : Crates) (b : Binary) (names stale full : Nat) (c : Cache) (pid : Nat) :
    Pc → Nat
  | .returned _ | .clearStaging _ | .sweepRemove _ _ _ => 0
  | .sweep rest => rest.length + 1
  | .readRoot => names + 2
  | .rename => names + 3
  | .removeStale (.emptying _ _) => names + 4 + entryCount c b.dir
  | .removeStale .opening => names + 5 + stale
  | .dirExists => names + 6 + stale
  | .dropStaging (.emptying _ _) _ => 1 + entryCount c (b.staging pid)
  | .dropStaging .opening _ => 2 + full
  | .secondRootfs => names + stale + full + 7
  | .secondMarker => names + stale + full + 8
  | .writeMarker torn => names + stale + full + 9 + (!torn).toNat
  | .unpack rest _ torn => names + stale + full + 11 + 2 * rest.length + (!torn).toNat
  | .openArchive => names + stale + full + 13 + 2 * Crates.entryCount crates b
  | .createStaging => names + stale + full + 14 + 2 * Crates.entryCount crates b
  | .stagingExists => names + stale + full + 15 + 2 * Crates.entryCount crates b
  | .firstRootfs => names + stale + full + 16 + 2 * Crates.entryCount crates b
  | .firstMarker => names + stale + full + 17 + 2 * Crates.entryCount crates b
  | .start => names + stale + full + 18 + 2 * Crates.entryCount crates b

theorem entryCount_of {c : Cache} (found : c.root.lookup name = some (.dir i tree)) :
    entryCount c name = tree.keys.card := by
  simp [entryCount, found]

theorem entryCount_congr {c d : Cache} (same : d.root.lookup name = c.root.lookup name) :
    entryCount d name = entryCount c name := by
  simp [entryCount, same]

/-- Deleting an entry leaves one fewer. -/
theorem entryCount_delete {c : Cache} (found : c.root.lookup name = some (.dir i tree))
    (present : tree.lookup path = some entry) :
    entryCount (c.modify name (·.erase path)) name < entryCount c name := by
  have member : path ∈ tree.keys := Finmap.mem_keys.mpr (Finmap.mem_of_lookup_eq_some present)
  rw [entryCount_of found, entryCount_of (Cache.modify_lookup_same c found), Finmap.keys_erase]
  exact Finset.card_erase_lt_of_mem member

/-- A tree that a process opens for removal is the first one, or a complete one. -/
theorem entryCount_opened (racing : Racing crates b c₀ s) (idle : ¬ Busy s)
    (extracted : crates.extraction b = some full) :
    entryCount s.cache b.dir ≤ max (entryCount c₀ b.dir) full.keys.card := by
  rcases racing.settled with (busy | ⟨i, tree, found, whole⟩) | first
  · exact absurd busy idle
  · rw [extracted] at whole
    cases whole
    rw [entryCount_of found]
    exact Nat.le_max_right _ _
  · rw [entryCount_congr first]
    exact Nat.le_max_left _ _

/-- The root holds a version directory and one staging directory for each process. -/
theorem listing_length {names : List Text} (racing : Racing crates b c₀ s)
    (distinct : names.Nodup) (present : ∀ name ∈ names, name ∈ s.cache.root.keys) :
    names.length ≤ s.procs.keys.card + 1 := by
  have known : names.toFinset ⊆ insert b.dir (s.procs.keys.image b.staging) := by
    intro name member
    have bound := Finmap.mem_keys.mp (present name (List.mem_toFinset.mp member))
    obtain ⟨node, found⟩ := Finmap.mem_iff.mp bound
    rcases (racing.names _ _ found).2 with rfl | ⟨q, running, rfl⟩
    · exact Finset.mem_insert_self _ _
    · exact Finset.mem_insert_of_mem
        (Finset.mem_image_of_mem _ (Finmap.mem_keys.mpr running))
  calc names.length = names.toFinset.card := (List.toFinset_card_of_nodup distinct).symm
    _ ≤ (insert b.dir (s.procs.keys.image b.staging)).card := Finset.card_le_card known
    _ ≤ (s.procs.keys.image b.staging).card + 1 := Finset.card_insert_le _ _
    _ ≤ s.procs.keys.card + 1 := Nat.succ_le_succ Finset.card_image_le

section
variable {crates : Crates} {b : Binary} {c₀ : Cache} {s : State} {full : Tree}
  (first : EmptyOrStale crates b c₀) (embedded : b.archive ≠ [])
  (extracted : crates.extraction b = some full) (racing : Racing crates b c₀ s)
include first embedded extracted racing

/-- Every operation uses up some of the work its process has left. -/
theorem remaining_move (running : s.procs.lookup pid = some ⟨b, pc₀⟩)
    (move : Move crates b pid pc₀ choice s.cache pc cache)
    (turns : TakingTurns s (.step pid choice)) (listing : s.procs.keys.card + 1 ≤ names)
    (opening : max (entryCount c₀ b.dir) full.keys.card ≤ stale) :
    remaining crates b names stale full.keys.card cache pid pc <
      remaining crates b names stale full.keys.card s.cache pid pc₀ := by
  have expects := racing.expects _ _ running
  have after := expects_move racing first embedded extracted running move turns.1.not_fail turns.2
  dsimp only at expects
  cases move with
  | clearing | cleared | clearFailed | sweeping | sweptOne => exact expects.elim
  | notEmbedded | createFailed | unreadable | unpackFailed | markerFailed | removeFailed
  | renameFailed => exact absurd after.1 nofun
  | begin_ | firstMarkerHit | firstMarkerMiss | firstRootfsHit | firstRootfsMiss | stagingAbsent
  | created | createdAlready | secondMarkerHit | secondMarkerMiss | secondRootfsHit
  | secondRootfsMiss | dirPresent | dirAbsent | renamed | unlisted | swept =>
    simp only [remaining]
    omega
  | stagingPresent => exact after.elim
  | sweepPick => exact after.elim
  | opened decoded =>
    simp only [remaining, Crates.entryCount, decoded, Bool.not_false, Bool.toNat_true]
    omega
  | tore | wrote | streamEnded | markerTorn | markerWritten =>
    simp only [remaining, List.length_cons, Bool.not_false, Bool.not_true, Bool.toNat_true,
      Bool.toNat_false]
    omega
  | removing removes =>
    cases removes with
    | opened found =>
      have idle := turns.2 _ running (.inl rfl)
      have bound := entryCount_opened racing idle extracted
      simp only [remaining]
      omega
    | deleted found present =>
      have fewer := entryCount_delete found present
      simp only [remaining]
      omega
  | removed removes =>
    cases removes with
    | vanished | unlinked =>
      simp only [remaining]
      omega
  | dropping removes =>
    obtain ⟨_, _, i, tree, found, whole, _⟩ := expects
    cases removes with
    | opened opened =>
      rw [extracted] at whole
      cases whole rfl
      simp only [remaining, entryCount_of found]
      omega
    | deleted before present =>
      have fewer := entryCount_delete before present
      simp only [remaining]
      omega
  | @dropped at_ _ _ _ _ _ removes _ =>
    cases at_ <;> simp only [remaining] <;> omega
  | listed =>
    have bound := listing_length racing turns.1.1 turns.1.2
    simp only [remaining]
    omega
  | sweepSkip => simp [remaining]

omit first embedded extracted in
/-- The work of the others does not depend on what a process does. -/
theorem remaining_frame (running : s.procs.lookup pid = some ⟨b, pc₀⟩)
    (move : Move crates b pid pc₀ choice s.cache pc cache)
    (held : s.procs.lookup q = some ⟨b, other⟩) (apart : q ≠ pid) :
    remaining crates b names stale size cache q other =
      remaining crates b names stale size s.cache q other := by
  have theirs : b.staging q ≠ b.staging pid := fun eq => apart (stagingName_injective eq).2
  have staging := racing.orderly.staging_frame running move theirs (stagingPrefix_isPrefixOf _ _)
  have dir (still : other.Replacing) := dir_frame racing running move fun mine =>
    apart (racing.exclusive _ _ _ _ held running still mine)
  cases other with
  | removeStale at_ =>
    cases at_ with
    | opening => rfl
    | emptying => simp only [remaining, entryCount_congr (dir trivial)]
  | dropStaging at_ =>
    cases at_ with
    | opening => rfl
    | emptying => simp only [remaining, entryCount_congr staging]
  | _ => rfl

end

/-- The work all processes have left. -/
def work (crates : Crates) (b : Binary) (names stale full : Nat) (s : State) : Nat :=
  ∑ pid ∈ s.procs.keys, match s.procs.lookup pid with
    | some proc => remaining crates b names stale full s.cache pid proc.pc
    | none => 0

theorem work_step {full : Tree} (first : EmptyOrStale crates b c₀) (embedded : b.archive ≠ [])
    (extracted : crates.extraction b = some full) (racing : Racing crates b c₀ s)
    (turns : TakingTurns s action) (taken : step crates s action = some next)
    (listing : s.procs.keys.card + 1 ≤ names)
    (opening : max (entryCount c₀ b.dir) full.keys.card ≤ stale) :
    next.procs.keys = s.procs.keys ∧
      work crates b names stale full.keys.card next < work crates b names stale full.keys.card s := by
  cases step_cases taken with
  | spawn | kill => exact turns.1.elim
  | @move choice cache pid proc pc running move =>
    obtain ⟨owner, pc₀⟩ := proc
    obtain rfl : owner = b := racing.members _ _ running
    have member : pid ∈ s.procs.keys := Finmap.mem_keys.mpr (Finmap.mem_of_lookup_eq_some running)
    have keys : (s.procs.insert pid ⟨owner, pc⟩).keys = s.procs.keys := by
      ext q
      simp only [Finmap.mem_keys, Finmap.mem_insert, or_iff_right_iff_imp]
      rintro rfl
      exact Finmap.mem_keys.mp member
    refine ⟨keys, ?_⟩
    simp only [work, keys]
    have less := remaining_move first embedded extracted racing running move turns listing opening
    refine Finset.sum_lt_sum ?_ ⟨pid, member, ?_⟩
    · intro q _
      by_cases mine : q = pid
      · subst mine
        simp only [Finmap.lookup_insert, running]
        exact less.le
      · rw [Finmap.lookup_insert_of_ne _ mine]
        cases held : s.procs.lookup q with
        | none => exact le_rfl
        | some bystander =>
          obtain ⟨other, pc'⟩ := bystander
          obtain rfl : other = owner := racing.members _ _ held
          exact (remaining_frame racing running move held mine).le
    · simp only [Finmap.lookup_insert, running]
      exact less

instance : DecidablePred Pc.Replacing := fun pc =>
  match pc with
  | .removeStale (.emptying _ _) | .rename => isTrue trivial
  | .removeStale .opening | .start | .firstMarker | .firstRootfs | .stagingExists
  | .clearStaging _ | .createStaging | .openArchive | .unpack .. | .writeMarker _ | .secondMarker
  | .secondRootfs | .dirExists | .readRoot | .sweep _ | .sweepRemove .. | .dropStaging ..
  | .returned _ => isFalse nofun

theorem busy_iff {s : State} :
    Busy s ↔ ∃ pid ∈ s.procs.keys, ∃ proc ∈ s.procs.lookup pid, proc.pc.Replacing := by
  constructor
  · rintro ⟨pid, proc, running, replacing⟩
    exact ⟨pid, Finmap.mem_keys.mpr (Finmap.mem_of_lookup_eq_some running), proc, running, replacing⟩
  · rintro ⟨pid, _, proc, running, replacing⟩
    exact ⟨pid, proc, running, replacing⟩

instance (s : State) : Decidable (Busy s) := decidable_of_iff _ busy_iff.symm

instance (c : Cache) (proc : Process) : Decidable (Enters c proc) :=
  inferInstanceAs (Decidable (_ ∨ _))

instance (s : State) : DecidablePred (Unfailing s)
  | .step _ (.fail _) | .spawn _ _ | .kill _ => isFalse nofun
  | .step _ (.list names) =>
    inferInstanceAs (Decidable (names.Nodup ∧ ∀ name ∈ names, name ∈ s.cache.root.keys))
  | .step _ .proceed | .step _ (.delete _) => isTrue trivial

instance (s : State) : DecidablePred (Exclusive s)
  | .step pid .proceed =>
    inferInstanceAs (Decidable (∀ proc ∈ s.procs.lookup pid, Enters s.cache proc → ¬ Busy s))
  | .step _ (.fail _) | .step _ (.list _) | .step _ (.delete _) | .spawn _ _ | .kill _ =>
    isTrue trivial

instance (s : State) : DecidablePred (TakingTurns s) :=
  fun _ => inferInstanceAs (Decidable (_ ∧ _))

namespace Sample

def build : Binary := ⟨first, archive⟩

def together : State :=
  ⟨Cache.empty, (Finmap.singleton 8 ⟨build, .start⟩).insert 7 ⟨build, .start⟩⟩

theorem together_starting : Starting build together := by
  intro pid proc running
  rcases FiniteMap.lookup_insert_some.mp running with ⟨_, rfl⟩ | ⟨_, running⟩
  · rfl
  · by_cases same : pid = 8
    · subst same
      exact (Option.some.inj running).symm
    · have member := Finmap.mem_of_lookup_eq_some running
      simp [same] at member

/-- A staged tree is deleted, entry by entry. -/
def drop (pid : Nat) : List Action :=
  proceeds pid 1 ++ (entries.map fun entry => .step pid (.delete entry.1)) ++
    [.step pid (.delete Rootfs.marker)] ++ proceeds pid 1

/-- Both unpack; the second finds the first one's tree installed. -/
def turns : List Action :=
  proceeds 7 20 ++ proceeds 8 20 ++ proceeds 7 3 ++
  [.step 7 (.list [first.text, stagingName first 8])] ++ proceeds 7 3 ++ proceeds 8 2 ++ drop 8

/-- Both unpack and find no tree installed; the second to rename finds one there. -/
def collision : List Action :=
  proceeds 7 22 ++ proceeds 8 22 ++ proceeds 7 1 ++ proceeds 8 1 ++ drop 8

end Sample

end ImageBuilder.RootfsInstall
