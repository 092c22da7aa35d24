import ImageBuilder.RootfsProgress

/-! No process waits for another. Whatever the others do, and wherever operations fail or
processes are killed, a process always has an operation to take, and it returns after a number
of its own that the trees it may have to remove bound. -/
namespace ImageBuilder.RootfsInstall

open RootfsCache Transition

/-- No tree has more entries. -/
def Bounded (size : Nat) (c : Cache) : Prop :=
  ∀ name i tree, c.root.lookup name = some (.dir i tree) → tree.keys.card ≤ size

theorem insert_card (tree : Tree) (path : Text) (entry : Entry) :
    (tree.insert path entry).keys.card ≤ tree.keys.card + 1 := by
  have known : (tree.insert path entry).keys ⊆ insert path tree.keys := by
    intro key member
    rw [Finmap.mem_keys, Finmap.mem_insert] at member
    rcases member with rfl | member
    · exact Finset.mem_insert_self _ _
    · exact Finset.mem_insert_of_mem (Finmap.mem_keys.mpr member)
  exact (Finset.card_le_card known).trans (Finset.card_insert_le _ _)

theorem unpacked_card (entries : List (Text × Entry)) :
    (unpacked entries).keys.card ≤ entries.length := by
  induction entries using List.reverseRecOn with
  | nil => simp [unpacked]
  | append_singleton done entry ih =>
    have last := insert_card (unpacked done) entry.1 entry.2
    rw [unpacked_snoc, List.length_append, List.length_singleton]
    omega

theorem writeFile_card (wrote : writeFile tree path text = some new) :
    new.keys.card ≤ tree.keys.card + 1 := by
  unfold writeFile at wrote
  split at wrote <;> cases wrote <;> exact insert_card _ _ _

/-- What a process is unpacking is no larger than its archive and the marker. -/
theorem staged_card {crates : Crates} (staged : Staged crates b pid c pc)
    (writing : (∃ rest ending torn, pc = .unpack rest ending torn) ∨
      pc = .writeMarker true ∨ pc = .secondMarker)
    (found : c.root.lookup (b.staging pid) = some (.dir i tree)) :
    tree.keys.card ≤ Crates.entryCount crates b + 1 := by
  rcases writing with ⟨rest, ending, torn, rfl⟩ | rfl | rfl
  · cases torn with
    | false =>
      obtain ⟨done, j, decoded, holds⟩ := staged
      rw [found] at holds
      cases holds
      have bound := unpacked_card done
      simp only [Crates.entryCount, decoded, List.length_append]
      omega
    | true =>
      obtain ⟨done, path, entry, tail, j, decoded, rfl, holds⟩ := staged
      rw [found] at holds
      cases holds
      have bound := unpacked_card done
      have last := insert_card (unpacked done) path (Entry.torn entry)
      simp only [Crates.entryCount, decoded, List.length_append, List.length_cons]
      omega
  · obtain ⟨entries, j, marked, decoded, holds, written⟩ := staged
    rw [found] at holds
    cases holds
    have bound := unpacked_card entries
    have last := writeFile_card written
    simp only [Crates.entryCount, decoded]
    omega
  · obtain ⟨j, full, holds, extracted⟩ := staged
    rw [found] at holds
    cases holds
    unfold Crates.extraction at extracted
    split at extracted
    · rename_i entries decoded
      have bound := unpacked_card entries
      have last := writeFile_card extracted
      simp only [Crates.entryCount, decoded]
      omega
    · cases extracted

theorem Bounded.removes (bounded : Bounded size c)
    (removes : Removes name at_ choice c outcome d) : Bounded size d := by
  intro m i tree found
  cases removes with
  | deleted held present =>
    by_cases same : m = name
    · subst same
      rw [Cache.modify_lookup_same _ held] at found
      cases found
      rw [Finmap.keys_erase]
      exact (Finset.card_erase_le).trans (bounded _ _ _ held)
    · rw [Cache.modify_lookup_other _ same] at found
      exact bounded _ _ _ found
  | unlinked => exact bounded _ _ _ (FiniteMap.lookup_erase_some.mp found).2
  | opened | missing | vanished | replaced | failed => exact bounded _ _ _ found

/-- Outside its own staging directory, writing changes nothing. -/
theorem Bounded.written {pc : Pc} (bounded : Bounded size c) (effect : Effect b pid pc c d)
    (idle : pc.removal b pid = none) (notRename : pc ≠ .rename)
    (own : ∀ i tree, d.root.lookup (b.staging pid) = some (.dir i tree) → tree.keys.card ≤ size) :
    Bounded size d := by
  intro m i tree found
  by_cases same : m = b.staging pid
  · subst same
    exact own _ _ found
  · rw [effect.frame same (fun atRename => absurd atRename notRename)
      (by simp [idle])] at found
    exact bounded _ _ _ found

theorem bounded_move {crates : Crates} (move : Move crates b pid pc choice c pc' d)
    (staged : Staged crates b pid c pc) (archive : Crates.entryCount crates b < size)
    (bounded : Bounded size c) : Bounded size d := by
  have after := staged_move move staged
  have effect := move.effect
  cases move with
  | clearing removes | cleared removes | clearFailed removes | removing removes | removed removes
  | removeFailed removes | sweeping removes | dropping removes => exact bounded.removes removes
  | sweptOne removes _ | dropped removes _ => exact bounded.removes removes
  | created =>
    refine bounded.written effect rfl nofun fun i tree found => ?_
    rw [Cache.mkdir_lookup_same] at found
    cases found
    exact Nat.zero_le _
  | tore | wrote =>
    exact bounded.written effect rfl nofun fun i tree found =>
      (staged_card after (.inl ⟨_, _, _, rfl⟩) found).trans archive
  | markerTorn =>
    exact bounded.written effect rfl nofun fun i tree found =>
      (staged_card after (.inr (.inl rfl)) found).trans archive
  | markerWritten =>
    exact bounded.written effect rfl nofun fun i tree found =>
      (staged_card after (.inr (.inr rfl)) found).trans archive
  | renamed done =>
    intro m i tree found
    obtain ⟨node, held, _, _, root⟩ := Cache.rename_cases done
    rw [root] at found
    rcases FiniteMap.lookup_insert_some.mp found with ⟨_, rfl⟩ | ⟨_, found⟩
    · exact bounded _ _ _ held
    · exact bounded _ _ _ (FiniteMap.lookup_erase_some.mp found).2
  | _ => exact bounded

/-- What bounds the work of every process. -/
structure Limited (crates : Crates) (size : Nat) (s : State) : Prop where
  orderly : Orderly s
  staged : ∀ q proc, s.procs.lookup q = some proc → Staged crates proc.binary q s.cache proc.pc
  archives : ∀ q proc, s.procs.lookup q = some proc → Crates.entryCount crates proc.binary < size
  bounded : Bounded size s.cache

theorem limited_idle (bounded : Bounded size c) (crates : Crates) :
    Limited crates size (idle c) where
  orderly := orderly_idle c
  staged := by simp [idle]
  archives := by simp [idle]
  bounded := bounded

theorem limited_step (limited : Limited crates size s)
    (spawns : ∀ q b, action = .spawn q b → Crates.entryCount crates b < size)
    (taken : step crates s action = some next) : Limited crates size next where
  orderly := orderly_step limited.orderly taken
  staged := staged_step limited.orderly limited.staged taken
  archives := (step_cases taken).forall_procs
    (fun _ _ proc => Crates.entryCount crates proc.binary < size) limited.archives spawns
    (fun pid proc _ _ _ _ running _ => limited.archives pid proc running)
    (fun _ _ _ _ _ q bystander _ _ found _ => limited.archives q bystander found)
  bounded := by
    cases step_cases taken with
    | spawn | kill => exact limited.bounded
    | move pid proc pc running move =>
      exact bounded_move move (limited.staged _ _ running) (limited.archives _ _ running)
        limited.bounded

/-- How much is left of the tree that a removal has opened. -/
def heldCount (c : Cache) (name : Text) (i : Nat) : Nat :=
  match c.root.lookup name with
  | some (.dir j tree) => if j = i then tree.keys.card else 0
  | _ => 0

/-- At most how many operations a removal has left. -/
def Removal.cost (size : Nat) (c : Cache) (name : Text) : Removal → Nat
  | .opening => size + 2
  | .emptying i _ => heldCount c name i + 1

/-- At most how many operations a process has left, when no tree has more than `size` entries
and the root is listed with at most `names`. -/
def allowance (crates : Crates) (b : Binary) (size names : Nat) (c : Cache) (pid : Nat) : Pc → Nat
  | .returned _ => 0
  | .dropStaging at_ _ => at_.cost size c (b.staging pid)
  | .sweep rest => rest.length * (size + 3) + 1
  | .sweepRemove name at_ rest => rest.length * (size + 3) + 1 + at_.cost size c name
  | .readRoot => names * (size + 3) + 2
  | .rename => names * (size + 3) + size + 3
  | .removeStale at_ => names * (size + 3) + size + 3 + at_.cost size c b.dir
  | .dirExists => names * (size + 3) + 2 * size + 6
  | .secondRootfs => names * (size + 3) + 2 * size + 7
  | .secondMarker => names * (size + 3) + 2 * size + 8
  | .writeMarker torn => names * (size + 3) + 2 * size + 9 + (!torn).toNat
  | .unpack rest _ torn => names * (size + 3) + 2 * size + 11 + 2 * rest.length + (!torn).toNat
  | .openArchive => names * (size + 3) + 2 * size + 13 + 2 * Crates.entryCount crates b
  | .createStaging => names * (size + 3) + 2 * size + 14 + 2 * Crates.entryCount crates b
  | .clearStaging at_ =>
    names * (size + 3) + 2 * size + 14 + 2 * Crates.entryCount crates b +
      at_.cost size c (b.staging pid)
  | .stagingExists => names * (size + 3) + 3 * size + 17 + 2 * Crates.entryCount crates b
  | .firstRootfs => names * (size + 3) + 3 * size + 18 + 2 * Crates.entryCount crates b
  | .firstMarker => names * (size + 3) + 3 * size + 19 + 2 * Crates.entryCount crates b
  | .start => names * (size + 3) + 3 * size + 20 + 2 * Crates.entryCount crates b

theorem heldCount_of {c : Cache} (found : c.root.lookup name = some (.dir i tree)) :
    heldCount c name i = tree.keys.card := by
  simp [heldCount, found]

theorem heldCount_congr {c d : Cache} (same : d.root.lookup name = c.root.lookup name) :
    heldCount d name i = heldCount c name i := by
  simp [heldCount, same]

@[simp] theorem Removal.cost_opening (size : Nat) (c : Cache) (name : Text) :
    Removal.opening.cost size c name = size + 2 := rfl

theorem Removal.cost_pos (size : Nat) (c : Cache) (name : Text) (at_ : Removal) :
    0 < at_.cost size c name := by
  cases at_ <;> exact Nat.succ_pos _

/-- A removal opens its tree, or deletes one entry of it. -/
theorem Removes.cost_lt (removes : Removes name at_ choice c (.running next) d)
    (bounded : Bounded size c) : next.cost size d name < at_.cost size c name := by
  cases removes with
  | opened found =>
    have bound := bounded _ _ _ found
    rw [Removal.cost, Removal.cost, heldCount_of found]
    omega
  | deleted found present =>
    have fewer := entryCount_delete found present
    rw [entryCount_of found, entryCount_of (Cache.modify_lookup_same c found)] at fewer
    rw [Removal.cost, Removal.cost, heldCount_of found,
      heldCount_of (Cache.modify_lookup_same c found)]
    omega

/-- Every operation of a process uses up some of its allowance. -/
theorem allowance_move {crates : Crates} (move : Move crates b pid pc choice c pc' d)
    (bounded : Bounded size c)
    (listing : ∀ listed, choice = .list listed → listed.length ≤ names) :
    allowance crates b size names d pid pc' < allowance crates b size names c pid pc := by
  cases move with
  | clearing removes | removing removes | sweeping removes | dropping removes =>
    have less := removes.cost_lt bounded
    simp only [allowance]
    omega
  | @cleared at_ | @clearFailed at_ | @dropped at_ =>
    have cost := at_.cost_pos size c (b.staging pid)
    simp only [allowance, Removal.cost_opening]
    omega
  | @removed at_ | @removeFailed at_ =>
    have cost := at_.cost_pos size c b.dir
    simp only [allowance, Removal.cost_opening]
    omega
  | @sweptOne name at_ =>
    have cost := at_.cost_pos size c name
    simp only [allowance]
    omega
  | opened decoded =>
    simp only [allowance, Crates.entryCount, decoded, Bool.not_false, Bool.toNat_true]
    omega
  | listed =>
    have bound := Nat.mul_le_mul_right (size + 3) (listing _ rfl)
    simp only [allowance]
    omega
  | sweepSkip | sweepPick =>
    simp only [allowance, List.length_cons, Nat.succ_mul, Removal.cost_opening]
    omega
  | _ =>
    simp only [allowance, Removal.cost_opening, List.length_cons, List.length_nil, Bool.not_false,
      Bool.not_true, Bool.toNat_true, Bool.toNat_false]
    omega

/-- What others do leaves no more of the tree that a process has opened for removal. -/
theorem heldCount_frame (orderly : Orderly s) (running : s.procs.lookup pid = some proc)
    (move : Move crates proc.binary pid proc.pc choice s.cache pc cache)
    (held : s.procs.lookup q = some other) (apart : q ≠ pid)
    (target : other.pc.removal other.binary q = some (name, .emptying i gone)) :
    heldCount cache name i ≤ heldCount s.cache name i := by
  rcases orderly.target held target with rfl | version
  · have theirs : other.binary.staging q ≠ proc.binary.staging pid :=
      fun eq => apart (stagingName_injective eq).2
    exact (heldCount_congr
      (orderly.staging_frame running move theirs (stagingPrefix_isPrefixOf _ _))).le
  · cases move.effect.version version with
    | same unchanged => exact (heldCount_congr unchanged).le
    | @delete j _ tree path entry _ before _ after =>
      by_cases own : j = i
      · subst own
        rw [heldCount_of after, heldCount_of before, Finmap.keys_erase]
        exact Finset.card_erase_le
      · simp [heldCount, after, own]
    | unlink _ _ after => simp [heldCount, after]
    | @install node _ _ _ staged after =>
      -- The tree that took the name is not the one that was opened under it.
      have foreign : ∀ tree, node ≠ .dir i tree := by
        rintro tree rfl
        have same := (orderly.handles _ _ _ _ _ held target).named _ _ staged
        exact staging_ne_of_not_staging version _ _ same.symm
      cases node with
      | file contents => simp [heldCount, after]
      | dir j tree =>
        have other : j ≠ i := by
          rintro rfl
          exact foreign tree rfl
        simp [heldCount, after, other]

/-- What others do takes nothing from the allowance of a process, and adds nothing to it. -/
theorem allowance_frame (orderly : Orderly s) (running : s.procs.lookup pid = some proc)
    (move : Move crates proc.binary pid proc.pc choice s.cache pc cache)
    (held : s.procs.lookup q = some other) (apart : q ≠ pid) (size names : Nat) :
    allowance crates other.binary size names cache q other.pc ≤
      allowance crates other.binary size names s.cache q other.pc := by
  have cost (name : Text) (at_ : Removal)
      (target : other.pc.removal other.binary q = some (name, at_)) :
      at_.cost size cache name ≤ at_.cost size s.cache name := by
    cases at_ with
    | opening => exact le_rfl
    | emptying i gone =>
      exact Nat.succ_le_succ (heldCount_frame orderly running move held apart target)
  obtain ⟨b, at_pc⟩ := other
  dsimp only at cost ⊢
  cases at_pc with
  | clearStaging at_ | removeStale at_ | sweepRemove name at_ | dropStaging at_ =>
    have less := cost _ _ rfl
    simp only [allowance]
    omega
  | _ => exact le_rfl

/-- What is left of the allowance of the process with this pid. -/
def State.allowance (crates : Crates) (size names : Nat) (s : State) (pid : Nat) : Nat :=
  match s.procs.lookup pid with
  | some proc => RootfsInstall.allowance crates proc.binary size names s.cache pid proc.pc
  | none => 0

def Action.isStepOf (pid : Nat) : Action → Bool
  | .step q _ => q = pid
  | .spawn _ _ | .kill _ => false

theorem allowance_step (limited : Limited crates size s)
    (listing : ∀ listed, action = .step pid (.list listed) → listed.length ≤ names)
    (once : ∀ b, action ≠ .spawn pid b) (taken : step crates s action = some next) :
    next.allowance crates size names pid + (action.isStepOf pid).toNat ≤
      s.allowance crates size names pid := by
  cases step_cases taken with
  | @spawn q b =>
    have apart : pid ≠ q := by
      rintro rfl
      exact once b rfl
    simp [State.allowance, Action.isStepOf, Finmap.lookup_insert_of_ne _ apart]
  | @kill q =>
    by_cases mine : pid = q
    · subst mine
      simp [State.allowance, Action.isStepOf]
    · simp [State.allowance, Action.isStepOf, Finmap.lookup_erase_ne mine]
  | @move choice cache q proc pc running move =>
    by_cases mine : q = pid
    · subst mine
      have less : allowance crates proc.binary size names cache q pc <
          allowance crates proc.binary size names s.cache q proc.pc :=
        allowance_move move limited.bounded fun listed same => listing listed (by rw [same])
      simp only [State.allowance, Finmap.lookup_insert, running, Action.isStepOf, decide_true,
        Bool.toNat_true]
      omega
    · simp only [State.allowance, Action.isStepOf, mine, decide_false, Bool.toNat_false,
        Nat.add_zero, Finmap.lookup_insert_of_ne _ (Ne.symm mine)]
      cases held : s.procs.lookup pid with
      | none => exact le_rfl
      | some other =>
        exact allowance_frame limited.orderly running move held (Ne.symm mine) size names

/-- A removal that has not ended can go on, whatever has become of its directory. -/
theorem removal_possible (name : Text) (at_ : Removal) (c : Cache) :
    ∃ choice, (∀ e, choice ≠ .fail e) ∧ (removeDirAll name at_ choice c).isSome := by
  cases at_ with
  | opening =>
    refine ⟨.proceed, by simp, ?_⟩
    simp only [removeDirAll]
    split <;> rfl
  | emptying i gone =>
    by_cases held : ∃ tree, c.root.lookup name = some (.dir i tree)
    · obtain ⟨tree, found⟩ := held
      obtain ⟨choice, allowed, taken⟩ := removal_enabled found gone
      refine ⟨choice, ?_, taken⟩
      rcases allowed with rfl | ⟨path, rfl⟩
      · simp
      · simp
    · refine ⟨.proceed, by simp, ?_⟩
      simp only [removeDirAll]
      split
      · rfl
      · rename_i j tree found
        split
        · rfl
        · rw [if_neg]
          · rfl
          · rintro rfl
            exact held ⟨tree, found⟩
      · rfl

/-- A process that has not returned has an operation to take, which need not fail. -/
theorem advance_possible (crates : Crates) (b : Binary) (pid : Nat) (c : Cache)
    (live : ¬ pc.Returned) : ∃ choice, (∀ e, choice ≠ .fail e) ∧
      (advance crates b pid pc choice c).isSome := by
  cases pc with
  | returned result => exact absurd ⟨result, rfl⟩ live
  | clearStaging at_ | removeStale at_ | sweepRemove _ at_ | dropStaging at_ =>
    obtain ⟨choice, allowed, taken⟩ := removal_possible _ at_ c
    exact ⟨choice, allowed, by simpa [advance] using taken⟩
  | readRoot => exact ⟨.list [], by simp, rfl⟩
  | start | firstMarker | firstRootfs | stagingExists | secondMarker | secondRootfs | dirExists =>
    exact ⟨.proceed, by simp, rfl⟩
  | createStaging | openArchive | rename =>
    refine ⟨.proceed, by simp, ?_⟩
    simp only [advance]
    split <;> rfl
  | unpack rest ending torn =>
    refine ⟨.proceed, by simp, ?_⟩
    cases rest <;> cases ending <;> cases torn <;> rfl
  | writeMarker torn =>
    refine ⟨.proceed, by simp, ?_⟩
    cases torn <;> simp only [advance] <;> split <;> rfl
  | sweep names =>
    refine ⟨.proceed, by simp, ?_⟩
    cases names <;> rfl

/-- Every process that is not new was spawned in the run. -/
theorem limited_run {c₀ : Cache} (trees : Bounded size c₀)
    (archives : ∀ q b, .spawn q b ∈ actions → Crates.entryCount crates b < size)
    (run : Run (step crates) (fun _ _ => True) (idle c₀) actions s) : Limited crates size s := by
  refine run.of_mem.invariant (Limited crates size) ?_ (limited_idle trees crates)
  rintro s action next limited ⟨_, member⟩ taken
  refine limited_step limited (fun q b same => archives q b ?_) taken
  rwa [← same]

namespace Sample

/-- Another version is at work when the process starts, and is killed before it ends. -/
def interference : List Action := .spawn 8 ⟨second, archive⟩ :: proceeds 8 12

def alongside : List Action :=
  proceeds 7 9 ++ proceeds 8 3 ++ proceeds 7 14 ++ [.kill 8, .step 7 (.list [first.text])] ++
    proceeds 7 2

end Sample

end ImageBuilder.RootfsInstall
