import ImageBuilder.RootfsSequential

/-! Processes of one version and key on a cache in any state. A tree that a process
has returned stays as it is, provided a stale tree is only opened for removal while
it is still one from before the processes started, and one that fails the check. -/
namespace ImageBuilder.RootfsInstall

open RootfsCache Transition

/-- What the cache hit looks for. -/
def Good (key : Text) (tree : Tree) : Prop := Rootfs.MarkerMatches tree key ∧ Rootfs.Usable tree

instance (key : Text) : DecidablePred (Good key) := fun tree =>
  inferInstanceAs (Decidable (Rootfs.MarkerMatches tree key ∧ Rootfs.Usable tree))

theorem Good.of_sub (sub : FiniteMap.Sub small large) (good : Good key small) : Good key large :=
  ⟨good.1.of_sub sub, good.2.of_sub sub⟩

theorem Good.ne_empty (good : Good key tree) : tree ≠ ∅ := by
  obtain ⟨_, _, present, _⟩ := good.1
  exact FiniteMap.ne_empty_of_lookup present

/-- An entry that dates from before identity `old` was given out, and is no cache hit. -/
def Stale (old : Nat) (key : Text) : Option Node → Prop
  | some (.dir i tree) => i < old ∧ ¬ Good key tree
  | some (.file _) | none => True

instance (old : Nat) (key : Text) : DecidablePred (Stale old key)
  | some (.dir i tree) => inferInstanceAs (Decidable (i < old ∧ ¬ Good key tree))
  | some (.file _) | none => isTrue trivial

/-- `remove_dir_all(&dir)` is entered only while what the last check saw still stands. -/
def RemovesStale (crates : Crates) (old : Nat) (s : State) : Action → Prop
  | .step pid .proceed => ∀ proc ∈ s.procs.lookup pid, proc.pc = .removeStale .opening →
      Stale old (crates.key proc.binary) (s.cache.root.lookup proc.binary.dir)
  | _ => True

/-- The builds of one version whose archives have one key. -/
def Same (crates : Crates) (v : Version) (key : Text) (b : Binary) : Prop :=
  b.version.text = v.text ∧ crates.key b = key

/-- The environment: processes of one version and key, killed or failing at will. -/
def Careful (crates : Crates) (v : Version) (key : Text) (old : Nat) (s : State) (action : Action) :
    Prop :=
  Spawns (Same crates v key) action ∧ RemovesStale crates old s action

/-- The version directory the processes found was a cache hit to begin with. -/
def Sound (c₀ : Cache) (v : Version) (key : Text) : Prop :=
  ∃ i tree, c₀.root.lookup v.text = some (.dir i tree) ∧ Good key tree

/-- A tree that no process will touch: one they installed, or one that passes the check. -/
def Settled (old : Nat) (v : Version) (key : Text) (c : Cache) : Prop :=
  ∃ i tree, c.root.lookup v.text = some (.dir i tree) ∧ tree ≠ ∅ ∧ (old ≤ i ∨ Good key tree)

/-- The staging directory is the process's own creation. -/
def Pc.Staging : Pc → Prop
  | .openArchive | .unpack _ _ _ | .writeMarker _ | .secondMarker | .secondRootfs | .dirExists
  | .removeStale _ | .rename => True
  | _ => False

/-- The marker was matched: on the tree there was at the start, or on one that stays. -/
def Marked (c₀ : Cache) (v : Version) (key : Text) (c : Cache) : Prop :=
  (∃ i tree, c₀.root.lookup v.text = some (.dir i tree) ∧ Rootfs.MarkerMatches tree key) ∨
  ∃ i tree, c.root.lookup v.text = some (.dir i tree) ∧ c₀.next ≤ i

/-- What a process knows of the version directory. -/
def Knows (c₀ : Cache) (v : Version) (key : Text) (c : Cache) : Pc → Prop
  | .firstRootfs | .secondRootfs => Marked c₀ v key c
  | .readRoot | .sweep _ | .sweepRemove _ _ _ => Settled c₀.next v key c
  | .dropStaging _ (.ok dir) | .returned (.ok dir) => dir = v.text ∧ Settled c₀.next v key c
  | _ => True

structure Living (crates : Crates) (c₀ : Cache) (v : Version) (key : Text) (s : State) : Prop where
  orderly : Orderly s
  members : ∀ q proc, s.procs.lookup q = some proc → Same crates v key proc.binary
  staged : ∀ q proc, s.procs.lookup q = some proc → Staged crates proc.binary q s.cache proc.pc
  next : c₀.next ≤ s.cache.next
  /-- A tree from before is part of what was there, and all of it if that was a hit. -/
  old : ∀ i tree, s.cache.root.lookup v.text = some (.dir i tree) → i < c₀.next →
    ∃ first, c₀.root.lookup v.text = some (.dir i first) ∧ FiniteMap.Sub tree first ∧
      (Sound c₀ v key → tree = first)
  new : ∀ i tree, s.cache.root.lookup v.text = some (.dir i tree) → c₀.next ≤ i → tree ≠ ∅
  created : ∀ q proc i tree, s.procs.lookup q = some proc → proc.pc.Staging →
    s.cache.root.lookup (proc.binary.staging q) = some (.dir i tree) → c₀.next ≤ i
  removals : ∀ q proc i gone, s.procs.lookup q = some proc →
    proc.pc.removal proc.binary q = some (v.text, .emptying i gone) →
    i < c₀.next ∧ ¬ Sound c₀ v key
  knows : ∀ q proc, s.procs.lookup q = some proc → Knows c₀ v key s.cache proc.pc

theorem living_idle (crates : Crates) (c₀ : Cache) (v : Version) (key : Text) :
    Living crates c₀ v key (idle c₀) where
  orderly := orderly_idle c₀
  members := by simp [idle]
  staged := by simp [idle]
  next := Nat.le_refl _
  old i tree found _ := ⟨tree, found, FiniteMap.Sub.refl _, fun _ => rfl⟩
  new i tree found bound := absurd (c₀.fresh _ _ _ found) (Nat.not_lt.mpr bound)
  created := by simp [idle]
  removals := by simp [idle]
  knows := by simp [idle]

/-- A settled tree is neither being removed nor open to a rename. -/
theorem settled_frame (living : Living crates c₀ v key s) (running : s.procs.lookup pid = some proc)
    (move : Move crates proc.binary pid proc.pc choice s.cache pc cache)
    (settled : Settled c₀.next v key s.cache) :
    cache.root.lookup v.text = s.cache.root.lookup v.text := by
  obtain ⟨i, tree, found, full, kind⟩ := settled
  cases move.effect.version (version_not_staging v) with
  | same eq => exact eq
  | delete target before _ _ =>
    rw [found] at before
    cases before
    obtain ⟨bound, damaged⟩ := living.removals _ _ _ _ running target
    rcases kind with new | good
    · omega
    · obtain ⟨first, held, sub, _⟩ := living.old _ _ found bound
      exact absurd ⟨i, first, held, good.of_sub sub⟩ damaged
  | unlink _ before _ =>
    rw [found] at before
    cases before
    exact absurd rfl full
  | install _ _ clear _ _ =>
    rcases clear with absent | ⟨j, bare⟩
    · rw [found] at absent
      cases absent
    · rw [found] at bare
      cases bare
      exact absurd rfl full

theorem settled_move (living : Living crates c₀ v key s) (running : s.procs.lookup pid = some proc)
    (move : Move crates proc.binary pid proc.pc choice s.cache pc cache)
    (settled : Settled c₀.next v key s.cache) : Settled c₀.next v key cache := by
  have same := settled_frame living running move settled
  obtain ⟨i, tree, found, kind⟩ := settled
  exact ⟨i, tree, same.trans found, kind⟩

/-- A directory the processes created under the version's name stays. -/
theorem created_settled (living : Living crates c₀ v key s)
    (found : s.cache.root.lookup v.text = some (.dir i tree)) (bound : c₀.next ≤ i) :
    Settled c₀.next v key s.cache :=
  ⟨i, tree, found, living.new i tree found bound, .inl bound⟩

theorem knows_frame (living : Living crates c₀ v key s) (running : s.procs.lookup pid = some proc)
    (move : Move crates proc.binary pid proc.pc choice s.cache pc cache)
    (knows : Knows c₀ v key s.cache held) : Knows c₀ v key cache held := by
  have marked (known : Marked c₀ v key s.cache) : Marked c₀ v key cache := by
    rcases known with first | ⟨i, tree, found, bound⟩
    · exact .inl first
    · have same := settled_frame living running move (created_settled living found bound)
      exact .inr ⟨i, tree, same.trans found, bound⟩
  unfold Knows at knows ⊢
  split
  · exact marked knows
  · exact marked knows
  · exact settled_move living running move knows
  · exact settled_move living running move knows
  · exact settled_move living running move knows
  · exact ⟨knows.1, settled_move living running move knows.2⟩
  · exact ⟨knows.1, settled_move living running move knows.2⟩
  · trivial

theorem Move.staging_origin (move : Move crates b pid pc choice c pc' d) (staging : pc'.Staging) :
    pc.Staging ∨ pc = .createStaging := by
  cases move with
  | created | createdAlready => exact .inr rfl
  | opened | tore | wrote | streamEnded | markerTorn | markerWritten | secondMarkerHit
  | secondMarkerMiss | secondRootfsMiss | dirPresent | dirAbsent | removing | removed =>
    exact .inl trivial
  | _ => cases staging

/-- The staging directory a process fills is one the cache had not seen before. -/
theorem created_move (move : Move crates b pid pc choice c pc' d) (staged : Staged crates b pid c pc)
    (next : old ≤ c.next)
    (created : pc.Staging → ∀ i tree, c.root.lookup (b.staging pid) = some (.dir i tree) → old ≤ i)
    (staging : pc'.Staging) (found : d.root.lookup (b.staging pid) = some (.dir i tree)) :
    old ≤ i := by
  rcases move.effect.dir_origin found with ⟨before, held⟩ | ⟨_, rfl⟩ | ⟨_, dir, _⟩
  · rcases move.staging_origin staging with earlier | rfl
    · exact created earlier _ _ held
    · rw [show c.root.lookup (b.staging pid) = none from staged] at held
      cases held
  · exact next
  · exact absurd dir.symm (staging_ne_dir _ _ _)

theorem removals_move (living : Living crates c₀ v key s) (stale : RemovesStale crates c₀.next s
    (.step pid choice)) (running : s.procs.lookup pid = some proc)
    (move : Move crates proc.binary pid proc.pc choice s.cache pc cache)
    (target : pc.removal proc.binary pid = some (v.text, .emptying i gone)) :
    i < c₀.next ∧ ¬ Sound c₀ v key := by
  obtain ⟨version, same⟩ := living.members _ _ running
  rcases move.handle_origin target with ⟨before, held⟩ | ⟨opening, rfl, _, tree, found⟩
  · exact living.removals _ _ _ _ running held
  · have pc_eq : proc.pc = .removeStale .opening := by
      cases at_pc : proc.pc <;> simp only [at_pc, Pc.removal, reduceCtorEq, Option.some.injEq,
        Prod.mk.injEq] at opening
      case removeStale => rw [opening.2]
      case sweepRemove =>
        exact absurd (opening.1.trans version.symm) (living.orderly.sweeps _ _ _ _ _ running at_pc).1
      all_goals exact absurd opening.1.symm (staging_ne_dir _ _ _)
    have checked := stale proc running pc_eq
    rw [same, Binary.dir, version, found] at checked
    refine ⟨checked.1, fun sound => checked.2 ?_⟩
    obtain ⟨first, held, _, whole⟩ := living.old _ _ found checked.1
    obtain ⟨j, tree', held', good⟩ := sound
    rw [held] at held'
    cases held'
    exact whole ⟨_, _, held, good⟩ ▸ good

theorem knows_marked (living : Living crates c₀ v key s)
    (matched : markerMatches s.cache v.text key = true) : Marked c₀ v key s.cache := by
  obtain ⟨i, tree, found, matched⟩ := markerMatches_iff.mp matched
  by_cases bound : i < c₀.next
  · obtain ⟨first, held, sub, _⟩ := living.old _ _ found bound
    exact .inl ⟨i, first, held, matched.of_sub sub⟩
  · exact .inr ⟨i, tree, found, Nat.not_lt.mp bound⟩

/-- Both halves of the check, although other processes ran between them. -/
theorem settled_of_check (living : Living crates c₀ v key s)
    (marked : Marked c₀ v key s.cache) (usable : rootfsOk s.cache v.text = true) : Settled c₀.next v key s.cache := by
  obtain ⟨i, tree, found, usable⟩ := rootfsOk_iff.mp usable
  by_cases bound : i < c₀.next
  · obtain ⟨first, held, sub, whole⟩ := living.old _ _ found bound
    rcases marked with ⟨j, tree', held', matched⟩ | ⟨j, tree', found', after⟩
    · rw [held] at held'
      cases held'
      have good : Good key first := ⟨matched, usable.of_sub sub⟩
      have same := whole ⟨i, first, held, good⟩
      subst same
      exact ⟨i, tree, found, good.ne_empty, .inr good⟩
    · rw [found] at found'
      cases found'
      exact absurd bound (Nat.not_lt.mpr after)
  · exact created_settled living found (Nat.not_lt.mp bound)

theorem knows_move (living : Living crates c₀ v key s) (running : s.procs.lookup pid = some proc)
    (move : Move crates proc.binary pid proc.pc choice s.cache pc cache) :
    Knows c₀ v key cache pc := by
  have knows := living.knows _ _ running
  have staged := living.staged _ _ running
  have created := fun i tree => living.created _ _ i tree running
  obtain ⟨version, same⟩ := living.members _ _ running
  obtain ⟨b, pc₀⟩ := proc
  change b.dir = v.text at version
  dsimp only at move knows staged created same
  have settles := settled_move living running move
  cases move with
  | firstMarkerHit matched | secondMarkerHit matched =>
    rw [version, same] at matched
    exact knows_marked living matched
  | firstRootfsHit usable | secondRootfsHit usable =>
    rw [version] at usable
    exact ⟨version, settled_of_check living knows usable⟩
  | renamed done =>
    obtain ⟨i, full, holds, extracted⟩ := staged
    obtain ⟨node, source, _, _, root⟩ := Cache.rename_cases done
    rw [holds] at source
    cases source
    refine ⟨i, full, ?_, extraction_ne_empty extracted, .inl (created _ _ trivial holds)⟩
    rw [root, version, Finmap.lookup_insert]
  | listed | sweepSkip | sweepPick | sweeping | sweptOne => exact settles knows
  | unlisted | swept => exact ⟨version, settles knows⟩
  | dropping removes | dropped removes stopped =>
    rename_i result
    cases result with
    | error => trivial
    | ok dir => exact ⟨knows.1, settles knows.2⟩
  | _ => trivial

/-- What is left of the first tree, and what took its place. -/
theorem living_dir (living : Living crates c₀ v key s) (running : s.procs.lookup pid = some proc)
    (move : Move crates proc.binary pid proc.pc choice s.cache pc cache)
    (found : cache.root.lookup v.text = some (.dir i tree)) :
    (i < c₀.next → ∃ first, c₀.root.lookup v.text = some (.dir i first) ∧
      FiniteMap.Sub tree first ∧ (Sound c₀ v key → tree = first)) ∧
    (c₀.next ≤ i → tree ≠ ∅) := by
  cases move.effect.version (version_not_staging v) with
  | same eq =>
    rw [eq] at found
    exact ⟨living.old i tree found, living.new i tree found⟩
  | delete target before _ after =>
    rw [after] at found
    cases found
    obtain ⟨bound, damaged⟩ := living.removals _ _ _ _ running target
    obtain ⟨first, held, sub, _⟩ := living.old _ _ before bound
    refine ⟨fun _ => ⟨first, held, (FiniteMap.Sub.erase _ _).trans sub, ?_⟩, ?_⟩
    · exact fun sound => absurd sound damaged
    · exact fun after => absurd bound (Nat.not_lt.mpr after)
  | unlink _ _ after =>
    rw [after] at found
    cases found
  | install atRename _ _ source after =>
    have staged := living.staged _ _ running
    simp only [Staged, atRename] at staged
    obtain ⟨j, full, holds, extracted⟩ := staged
    rw [after] at found
    rw [source, found] at holds
    cases holds
    have created := living.created _ _ _ _ running (by rw [atRename]; trivial) (source.trans (by rw [found]))
    refine ⟨fun before => absurd before (Nat.not_lt.mpr created), fun _ => extraction_ne_empty extracted⟩

theorem living_step (living : Living crates c₀ v key s)
    (careful : Careful crates v key c₀.next s action) (taken : step crates s action = some next) :
    Living crates c₀ v key next := by
  have stepped := step_cases taken
  refine ⟨orderly_step living.orderly taken, ?_, staged_step living.orderly living.staged taken,
    ?_, ?_, ?_, ?_, ?_, ?_⟩
  · refine stepped.forall_procs (fun _ _ proc => Same crates v key proc.binary)
      living.members ?_ ?_ ?_
    · rintro pid b rfl
      exact careful.1
    · exact fun pid proc _ _ _ _ running _ => living.members pid proc running
    · exact fun _ _ _ _ _ q bystander _ _ found _ => living.members q bystander found
  · cases stepped with
    | spawn | kill => exact living.next
    | move pid proc pc running move => exact living.next.trans move.effect.next_le
  · intro i tree found
    cases stepped with
    | spawn | kill => exact living.old i tree found
    | move pid proc pc running move => exact (living_dir living running move found).1
  · intro i tree found
    cases stepped with
    | spawn | kill => exact living.new i tree found
    | move pid proc pc running move => exact (living_dir living running move found).2
  · have created := stepped.forall_procs (fun cache q proc => proc.pc.Staging →
      ∀ i tree, cache.root.lookup (proc.binary.staging q) = some (.dir i tree) → c₀.next ≤ i)
    refine fun q proc i tree running staging => created ?_ ?_ ?_ ?_ q proc running staging i tree
    · exact fun q proc running staging i tree => living.created q proc i tree running staging
    · exact fun _ _ _ => nofun
    · intro pid proc choice pc cache _ running move staging i tree
      exact created_move move (living.staged _ _ running) living.next
        (fun earlier i tree => living.created _ proc i tree running earlier) staging
    · intro pid proc choice pc cache q bystander running apart held move staging i tree found
      have theirs : bystander.binary.staging q ≠ proc.binary.staging pid :=
        fun eq => apart (stagingName_injective eq).2
      rw [living.orderly.staging_frame running move theirs (stagingPrefix_isPrefixOf _ _)] at found
      exact living.created _ _ i tree held staging found
  · have removals := stepped.forall_procs (fun _ q proc => ∀ i gone,
      proc.pc.removal proc.binary q = some (v.text, .emptying i gone) →
      i < c₀.next ∧ ¬ Sound c₀ v key)
    refine fun q proc i gone running => removals ?_ ?_ ?_ ?_ q proc running i gone
    · exact fun q proc running i gone => living.removals q proc i gone running
    · exact fun _ _ _ _ _ => nofun
    · rintro pid proc choice pc cache rfl running move i gone target
      exact removals_move living careful.2 running move target
    · exact fun _ _ _ _ _ q bystander _ _ held _ i gone => living.removals q bystander i gone held
  · refine stepped.forall_procs (fun cache _ proc => Knows c₀ v key cache proc.pc)
      living.knows ?_ ?_ ?_
    · exact fun _ _ _ => trivial
    · exact fun pid proc _ _ _ _ running move => knows_move living running move
    · exact fun pid proc _ _ _ q bystander running _ held move =>
        knows_frame living running move (living.knows _ _ held)

instance (crates : Crates) (old : Nat) (s : State) : DecidablePred (RemovesStale crates old s)
  | .step pid .proceed => inferInstanceAs (Decidable (∀ proc ∈ s.procs.lookup pid, _ → Stale ..))
  | .step _ (.delete _) | .step _ (.list _) | .step _ (.fail _) | .spawn _ _ | .kill _ =>
    isTrue trivial

instance (crates : Crates) (v : Version) (key : Text) : DecidablePred (Same crates v key) := fun b =>
  inferInstanceAs (Decidable (b.version.text = v.text ∧ crates.key b = key))

instance (crates : Crates) (v : Version) (key : Text) (old : Nat) (s : State) :
    DecidablePred (Careful crates v key old s) :=
  fun _ => inferInstanceAs (Decidable (_ ∧ _))

namespace Sample

def key : Text := crates.key ⟨first, archive⟩

/-- Two processes have unpacked the archive, and the first is about to check again. -/
def bothStaged : List Action :=
  [.spawn 7 ⟨first, archive⟩, .spawn 8 ⟨first, archive⟩] ++ proceeds 7 20 ++ proceeds 8 20

/-- The first installs its tree and returns. -/
def installed : List Action := proceeds 7 3 ++ [.step 7 (.list [first.text])] ++ proceeds 7 2

end Sample

end ImageBuilder.RootfsInstall
