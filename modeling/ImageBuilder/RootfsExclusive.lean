import ImageBuilder.RootfsLive

/-! Processes of one build that start together on an empty cache or a stale tree.
When at most one of them is replacing the version directory, every one succeeds. -/
namespace ImageBuilder.RootfsInstall

open RootfsCache Transition

/-- Between opening the removal of the version directory, or finding it absent, and
the end of the rename. -/
def Pc.Replacing : Pc → Prop
  | .removeStale (.emptying _ _) | .rename => True
  | _ => False

def Busy (s : State) : Prop :=
  ∃ pid proc, s.procs.lookup pid = some proc ∧ proc.pc.Replacing

/-- The operations after which a process is replacing the version directory. -/
def Enters (c : Cache) (proc : Process) : Prop :=
  proc.pc = .removeStale .opening ∨
    (proc.pc = .dirExists ∧ c.root.lookup proc.binary.dir = none)

/-- No operation fails by itself, no process dies, and listings are of what is there. -/
def Unfailing (s : State) : Action → Prop
  | .step _ (.fail _) | .spawn _ _ | .kill _ => False
  | .step _ (.list names) => names.Nodup ∧ ∀ name ∈ names, name ∈ s.cache.root.keys
  | .step _ .proceed | .step _ (.delete _) => True

/-- A process starts to replace the version directory only while no other is at it. -/
def Exclusive (s : State) : Action → Prop
  | .step pid .proceed => ∀ proc ∈ s.procs.lookup pid, Enters s.cache proc → ¬ Busy s
  | .step _ (.fail _) | .step _ (.list _) | .step _ (.delete _) | .spawn _ _ | .kill _ => True

/-- The environment in which the processes take turns. -/
def TakingTurns (s : State) (action : Action) : Prop := Unfailing s action ∧ Exclusive s action

/-- The cache is empty, or holds a tree for this version that is not a cache hit. -/
def EmptyOrStale (crates : Crates) (b : Binary) (c : Cache) : Prop :=
  c.root = ∅ ∨ ∃ i tree, c.root = Finmap.singleton b.dir (.dir i tree) ∧
    ¬ Good (crates.key b) tree

/-- Every process is about to run `install` of the same build. -/
def Starting (b : Binary) (s : State) : Prop :=
  ∀ q proc, s.procs.lookup q = some proc → proc = ⟨b, .start⟩

def FirstMarked (crates : Crates) (b : Binary) (c₀ : Cache) : Prop :=
  ∃ i tree, c₀.root.lookup b.dir = some (.dir i tree) ∧
    Rootfs.MarkerMatches tree (crates.key b)

/-- The version directory is complete, or about to be. -/
def Past (crates : Crates) (b : Binary) (s : State) : Prop := Busy s ∨ Complete crates b s.cache

/-- What each process can rely on, where it stands. -/
def Expects (crates : Crates) (b : Binary) (c₀ : Cache) (past : Prop) (c : Cache) (pid : Nat) :
    Pc → Prop
  | .start | .firstMarker | .stagingExists | .createStaging => c.root.lookup (b.staging pid) = none
  | .firstRootfs => c.root.lookup (b.staging pid) = none ∧ (past ∨ FirstMarked crates b c₀)
  | .secondRootfs => past ∨ FirstMarked crates b c₀
  | .removeStale .opening => past ∨ ∃ i tree, c.root.lookup b.dir = some (.dir i tree)
  | .removeStale (.emptying i _) => ∃ tree, c.root.lookup b.dir = some (.dir i tree)
  | .rename => c.root.lookup b.dir = none
  | .readRoot | .sweep _ => c.root.lookup (b.staging pid) = none ∧ past
  | .dropStaging at_ result => result = .ok b.dir ∧ past ∧
      ∃ i tree, c.root.lookup (b.staging pid) = some (.dir i tree) ∧
        (at_ = .opening → crates.extraction b = some tree) ∧
        ∀ j gone, at_ = .emptying j gone → j = i
  | .returned result => result = .ok b.dir ∧ c.root.lookup (b.staging pid) = none ∧ past
  -- There is nothing of its own to clear, and nothing of another version to sweep.
  | .clearStaging _ | .sweepRemove _ _ _ => False
  | .openArchive | .unpack _ _ _ | .writeMarker _ | .secondMarker | .dirExists => True

structure Racing (crates : Crates) (b : Binary) (c₀ : Cache) (s : State) : Prop where
  orderly : Orderly s
  members : ∀ q proc, s.procs.lookup q = some proc → proc.binary = b
  staged : ∀ q proc, s.procs.lookup q = some proc → Staged crates proc.binary q s.cache proc.pc
  names : ∀ name node, s.cache.root.lookup name = some node → (∃ i tree, node = .dir i tree) ∧
    (name = b.dir ∨ ∃ q ∈ s.procs, name = b.staging q)
  exclusive : ∀ p q x y, s.procs.lookup p = some x → s.procs.lookup q = some y →
    x.pc.Replacing → y.pc.Replacing → p = q
  settled : Past crates b s ∨ s.cache.root.lookup b.dir = c₀.root.lookup b.dir
  expects : ∀ q proc, s.procs.lookup q = some proc →
    Expects crates b c₀ (Past crates b s) s.cache q proc.pc

theorem racing_start (first : EmptyOrStale crates b s.cache) (starting : Starting b s) :
    Racing crates b s.cache s := by
  have names (name node) (found : s.cache.root.lookup name = some node) :
      name = b.dir ∧ ∃ i tree, node = .dir i tree := by
    rcases first with bare | ⟨i, tree, single, _⟩
    · simp [bare] at found
    · rw [single] at found
      by_cases same : name = b.dir
      · subst same
        simp only [Finmap.lookup_singleton_eq, Option.some.injEq] at found
        exact ⟨rfl, i, tree, found.symm⟩
      · have member := Finmap.mem_of_lookup_eq_some found
        simp [same] at member
  have start (q proc) (running : s.procs.lookup q = some proc) : proc = ⟨b, .start⟩ :=
    starting q proc running
  refine ⟨⟨?_, ?_⟩, ?_, ?_, ?_, ?_, .inr rfl, ?_⟩
  · intro q proc name at_ rest running at_pc
    rw [start q proc running] at at_pc
    cases at_pc
  · intro q proc name i gone running target
    rw [start q proc running] at target
    cases target
  · intro q proc running
    rw [start q proc running]
  · intro q proc running
    rw [start q proc running]
    trivial
  · exact fun name node found => ⟨(names name node found).2, .inl (names name node found).1⟩
  · intro p q x y hp hq replacing
    rw [start p x hp] at replacing
    cases replacing
  · intro q proc running
    rw [start q proc running]
    cases found : s.cache.root.lookup (b.staging q) with
    | none => exact found
    | some node => exact absurd (names _ _ found).1.symm (staging_ne_dir _ _ _)

/-- Only a process that is replacing the version directory changes it. -/
theorem dir_frame (racing : Racing crates b c₀ s) (running : s.procs.lookup pid = some ⟨b, at_pc⟩)
    (move : Move crates b pid at_pc choice s.cache pc cache) (idle : ¬ at_pc.Replacing) :
    cache.root.lookup b.dir = s.cache.root.lookup b.dir := by
  have expects := racing.expects _ _ running
  have not_removing (i gone) (target : at_pc.removal b pid = some (b.dir, .emptying i gone)) :
      False := by
    cases at_pc <;> simp only [Pc.removal, reduceCtorEq, Option.some.injEq, Prod.mk.injEq] at target
    case clearStaging | sweepRemove => exact expects
    case dropStaging => exact staging_ne_dir _ _ _ target.1.symm
    case removeStale =>
      rw [target.2] at idle
      exact idle trivial
  cases move.effect.version (version_not_staging b.version) with
  | same eq => exact eq
  | delete target _ _ _ | unlink target _ _ => exact absurd target (not_removing _ _)
  | install atRename _ _ _ _ =>
    subst atRename
    exact absurd trivial idle

theorem Move.replacing_origin (move : Move crates b pid pc choice c pc' d)
    (unfailing : ∀ e, choice ≠ .fail e) (replacing : pc'.Replacing) :
    pc.Replacing ∨ (choice = .proceed ∧ Enters c ⟨b, pc⟩) := by
  cases move with
  | dirAbsent answer =>
    obtain ⟨rfl, absent⟩ := answer.of_unfailing unfailing
    exact .inr ⟨rfl, .inr ⟨rfl, absent⟩⟩
  | removing removes =>
    cases removes with
    | opened => exact .inr ⟨rfl, .inl rfl⟩
    | deleted => exact .inl trivial
  | removed removes =>
    cases removes with
    | vanished | unlinked => exact .inl trivial
  | _ => cases replacing

/-- The removal of a directory that stays in place does not fail by itself. -/
theorem Removes.unfailing (removes : Removes name (.emptying i gone) choice c (.failed e) d)
    (found : c.root.lookup name = some (.dir i tree)) : ∃ e, choice = .fail e := by
  cases removes with
  | replaced other => exact absurd found (other tree)
  | failed => exact ⟨_, rfl⟩

theorem rename_unfailing {c : Cache} (failed : Answers (c.rename source target = .error e) choice)
    (staged : c.root.lookup source = some node) (absent : c.root.lookup target = none) :
    ∃ e, choice = .fail e := by
  cases failed with
  | stands failed =>
    obtain ⟨after, done⟩ := c.rename_ok staged (.inl absent)
    rw [failed] at done
    cases done
  | fails => exact ⟨_, rfl⟩

theorem renamed_complete (done : c.rename (b.staging pid) b.dir = .ok d)
    (staged : Staged crates b pid c .rename) : Complete crates b d := by
  obtain ⟨i, full, holds, extracted⟩ := staged
  obtain ⟨node, source, _, _, root⟩ := Cache.rename_cases done
  rw [holds] at source
  cases source
  exact ⟨i, full, by rw [root, Finmap.lookup_insert], extracted⟩

/-- A process that is replacing the version directory goes on, or leaves it complete. -/
theorem replacing_move (move : Move crates b pid pc choice c pc' d) (replacing : pc.Replacing)
    (unfailing : ∀ e, choice ≠ .fail e) (staged : Staged crates b pid c pc)
    (expects : Expects crates b c₀ past c pid pc) : pc'.Replacing ∨ Complete crates b d := by
  cases move with
  | @removing at_ _ _ _ _ removes =>
    cases removes with
    | opened => cases replacing
    | deleted => exact .inl trivial
  | removed => exact .inl trivial
  | @removeFailed at_ _ _ _ _ removes =>
    cases at_ with
    | opening => cases replacing
    | emptying =>
      obtain ⟨tree, found⟩ := expects
      obtain ⟨e, failed⟩ := removes.unfailing found
      exact absurd failed (unfailing e)
  | renamed done => exact .inr (renamed_complete done staged)
  | renameFailed failed =>
    obtain ⟨_, _, holds, _⟩ := staged
    obtain ⟨e, failed⟩ := rename_unfailing failed holds expects
    exact absurd failed (unfailing e)
  | _ => cases replacing

theorem Unfailing.not_fail (unfailing : Unfailing s (.step pid choice)) : ∀ e, choice ≠ .fail e := by
  rintro e rfl
  exact unfailing

/-- Completeness of the version directory is lost only while it is being replaced. -/
theorem past_move (racing : Racing crates b c₀ s) (running : s.procs.lookup pid = some ⟨b, pc₀⟩)
    (move : Move crates b pid pc₀ choice s.cache pc cache) (unfailing : ∀ e, choice ≠ .fail e)
    (past : Past crates b s) : Past crates b ⟨cache, s.procs.insert pid ⟨b, pc⟩⟩ := by
  by_cases replacing : pc₀.Replacing
  · rcases replacing_move move replacing unfailing (racing.staged _ _ running)
      (racing.expects _ _ running) with still | complete
    · exact .inl ⟨pid, _, Finmap.lookup_insert _, still⟩
    · exact .inr complete
  · rcases past with ⟨q, proc, held, still⟩ | ⟨i, full, found, extracted⟩
    · refine .inl ⟨q, proc, ?_, still⟩
      rw [Finmap.lookup_insert_of_ne _ ?_, held]
      rintro rfl
      rw [running] at held
      cases held
      exact replacing still
    · exact .inr ⟨i, full, (dir_frame racing running move replacing).trans found, extracted⟩

theorem firstMarked_of (racing : Racing crates b c₀ s)
    (matched : markerMatches s.cache b.dir (crates.key b) = true) :
    Past crates b s ∨ FirstMarked crates b c₀ := by
  rcases racing.settled with past | first
  · exact .inl past
  · obtain ⟨i, tree, found, matched⟩ := markerMatches_iff.mp matched
    exact .inr ⟨i, tree, first ▸ found, matched⟩

/-- The check passes on no tree that was there at the start. -/
theorem past_of_check (racing : Racing crates b c₀ s) (first : EmptyOrStale crates b c₀)
    (marked : Past crates b s ∨ FirstMarked crates b c₀)
    (usable : rootfsOk s.cache b.dir = true) : Past crates b s := by
  rcases marked with past | ⟨i, tree, found, matched⟩
  · exact past
  · rcases racing.settled with past | same
    · exact past
    · obtain ⟨j, tree', found', usable⟩ := rootfsOk_iff.mp usable
      rw [same, found] at found'
      cases found'
      rcases first with bare | ⟨k, stale, single, damaged⟩
      · simp [bare] at found
      · rw [single, Finmap.lookup_singleton_eq] at found
        cases found
        exact absurd ⟨matched, usable⟩ damaged

/-- Writing a file fails only where a directory or link has its name. -/
theorem writeFile_isSome (wrote : writeFile tree path text = some new) (other : Text) :
    ∃ result, writeFile tree path other = some result := by
  unfold writeFile at wrote ⊢
  split <;> simp_all

theorem writeMarker_ok {c : Cache} (found : c.root.lookup staging = some (.dir i tree))
    (wrote : writeFile tree Rootfs.marker text = some new) :
    writeMarker staging other c ≠ .error e := by
  obtain ⟨result, wrote⟩ := writeFile_isSome wrote other
  simp [writeMarker, found, wrote]

theorem marker_unfailing {c : Cache} (extracted : crates.extraction b = some full)
    (staged : Staged crates b pid c (.writeMarker torn)) :
    writeMarker (b.staging pid) other c ≠ .error e := by
  cases torn with
  | false =>
    obtain ⟨entries, i, decoded, found⟩ := staged
    simp only [Crates.extraction, decoded] at extracted
    exact writeMarker_ok found extracted
  | true =>
    obtain ⟨entries, i, tree, decoded, found, written⟩ := staged
    simp only [Crates.extraction, decoded] at extracted
    exact writeMarker_ok found ((writeFile_twice written).trans extracted)

theorem unpack_unfailing {c : Cache} (extracted : crates.extraction b = some full)
    (staged : Staged crates b pid c (.unpack rest ending torn)) : ending = none := by
  cases torn with
  | false =>
    obtain ⟨done, i, decoded, _⟩ := staged
    simp only [Crates.extraction, decoded] at extracted
    cases ending with
    | none => rfl
    | some e => cases extracted
  | true =>
    obtain ⟨done, _, _, _, i, decoded, _⟩ := staged
    simp only [Crates.extraction, decoded] at extracted
    cases ending with
    | none => rfl
    | some e => cases extracted

/-- Each operation leads to where the next one's expectations hold, and to no error. -/
theorem expects_move (racing : Racing crates b c₀ s) (first : EmptyOrStale crates b c₀)
    (embedded : b.archive ≠ []) (extracted : crates.extraction b = some full)
    (running : s.procs.lookup pid = some ⟨b, pc₀⟩)
    (move : Move crates b pid pc₀ choice s.cache pc cache) (unfailing : ∀ e, choice ≠ .fail e)
    (exclusive : Exclusive s (.step pid choice)) :
    Expects crates b c₀ (Past crates b ⟨cache, s.procs.insert pid ⟨b, pc⟩⟩) cache pid pc := by
  have expects := racing.expects _ _ running
  have staged := racing.staged _ _ running
  have past := past_move racing running move unfailing
  dsimp only at expects staged
  cases move with
  | notEmbedded bare => exact absurd bare embedded
  | begin_ | stagingAbsent => exact expects
  | firstMarkerHit matched =>
    exact ⟨expects, (firstMarked_of racing matched).imp past id⟩
  | firstMarkerMiss => exact expects
  | firstRootfsHit usable =>
    exact ⟨rfl, expects.1, past (past_of_check racing first expects.2 usable)⟩
  | firstRootfsMiss => exact expects.1
  | stagingPresent present => exact absurd expects present
  | clearing | cleared | clearFailed | sweeping | sweptOne => exact expects.elim
  | created | createdAlready | opened | tore | wrote | streamEnded | markerTorn | markerWritten
  | secondMarkerMiss | secondRootfsMiss => trivial
  | createFailed failed =>
    obtain ⟨_, contents, present⟩ := failed.of_unfailing unfailing
    rw [expects] at present
    cases present
  | unreadable answer =>
    simp [Crates.extraction, (answer.of_unfailing unfailing).2] at extracted
  | unpackFailed failed =>
    have ended := (failed.of_unfailing unfailing).2
    rw [unpack_unfailing extracted staged] at ended
    cases ended
  | markerFailed failed =>
    obtain ⟨_, text, refused⟩ := failed.of_unfailing unfailing
    exact absurd refused (marker_unfailing extracted staged)
  | secondMarkerHit matched => exact (firstMarked_of racing matched).imp past id
  | secondRootfsHit usable =>
    obtain ⟨i, tree, found, whole⟩ := staged
    exact ⟨rfl, past (past_of_check racing first expects usable), i, tree, found, fun _ => whole,
      fun _ _ begun => by cases begun⟩
  | dirPresent present =>
    obtain ⟨node, found⟩ := Option.ne_none_iff_exists'.mp present
    obtain ⟨⟨i, tree, rfl⟩, _⟩ := racing.names _ _ found
    exact .inr ⟨i, tree, found⟩
  | dirAbsent answer => exact (answer.of_unfailing unfailing).2
  | removing removes =>
    cases removes with
    | opened found => exact ⟨_, found⟩
    | deleted found present => exact ⟨_, Cache.modify_lookup_same _ found⟩
  | removed removes => exact removes.finished_absent
  | @removeFailed at_ _ _ _ _ removes =>
    cases at_ with
    | opening =>
      cases removes with
      | missing missing =>
        have idle := exclusive _ running (.inl rfl)
        rcases expects with (busy | ⟨i, whole, found, _⟩) | ⟨i, tree, found⟩
        · exact absurd busy idle
        · exact absurd found (missing _ _)
        · exact absurd found (missing _ _)
      | failed => exact absurd rfl (unfailing _)
    | emptying =>
      obtain ⟨tree, found⟩ := expects
      obtain ⟨e, failed⟩ := removes.unfailing found
      exact absurd failed (unfailing e)
  | renamed done =>
    obtain ⟨node, _, _, _, root⟩ := Cache.rename_cases done
    have apart : b.staging pid ≠ b.dir := (staging_ne_dir _ _ _).symm
    refine ⟨?_, .inr (renamed_complete done staged)⟩
    rw [root, Finmap.lookup_insert_of_ne _ apart, Finmap.lookup_erase]
  | renameFailed failed =>
    obtain ⟨_, _, holds, _⟩ := staged
    obtain ⟨e, failed⟩ := rename_unfailing failed holds expects
    exact absurd failed (unfailing e)
  | listed | sweepSkip => exact ⟨expects.1, past expects.2⟩
  | unlisted => exact absurd rfl (unfailing _)
  | swept => exact ⟨rfl, expects.1, past expects.2⟩
  | sweepPick other present notStaging =>
    rename_i name names
    simp only [isDir, Option.isSome_iff_exists, Option.bind_eq_some_iff] at present
    obtain ⟨_, node, found, _⟩ := present
    rcases (racing.names _ _ found).2 with dir | ⟨q, _, rfl⟩
    · exact absurd dir other
    · simp [Binary.staging, stagingPrefix_isPrefixOf] at notStaging
  | dropping removes =>
    obtain ⟨same, held, i, tree, found, whole, handle⟩ := expects
    cases removes with
    | opened opened =>
      rw [found] at opened
      cases opened
      refine ⟨same, past held, i, tree, found, (fun begun => by cases begun), ?_⟩
      intro _ _ eq
      cases eq
      rfl
    | deleted before present =>
      refine ⟨same, past held, _, _, Cache.modify_lookup_same _ before,
        (fun begun => by cases begun), ?_⟩
      intro _ _ eq
      cases eq
      rfl
  | dropped removes stopped =>
    obtain ⟨same, held, i, tree, found, whole, handle⟩ := expects
    refine ⟨same, ?_, past held⟩
    cases removes with
    | opened | deleted => exact absurd rfl (stopped _)
    | missing missing => exact absurd found (missing _ _)
    | vanished absent => exact absent
    | unlinked => exact Cache.unlink_lookup_same _
    | replaced other =>
      rw [handle _ _ rfl] at other
      exact absurd found (other tree)
    | failed => exact absurd rfl (unfailing _)

/-- What a process can rely on holds while another one moves. -/
theorem expects_frame (racing : Racing crates b c₀ s)
    (running : s.procs.lookup pid = some ⟨b, pc₀⟩)
    (move : Move crates b pid pc₀ choice s.cache pc cache)
    (held : s.procs.lookup q = some ⟨b, other⟩) (apart : q ≠ pid)
    (past : Past crates b s → past') :
    Expects crates b c₀ past' cache q other := by
  have expects := racing.expects _ _ held
  have theirs : b.staging q ≠ b.staging pid := fun eq => apart (stagingName_injective eq).2
  have staging : cache.root.lookup (b.staging q) = s.cache.root.lookup (b.staging q) :=
    racing.orderly.staging_frame running move theirs (stagingPrefix_isPrefixOf _ _)
  have dir (still : other.Replacing) :
      cache.root.lookup b.dir = s.cache.root.lookup b.dir :=
    dir_frame racing running move fun mine => apart (racing.exclusive _ _ _ _ held running still mine)
  cases other with
  | start | firstMarker | stagingExists | createStaging => exact staging.trans expects
  | firstRootfs => exact ⟨staging.trans expects.1, expects.2.imp past id⟩
  | secondRootfs => exact expects.imp past id
  | removeStale at_ =>
    cases at_ with
    | opening =>
      rcases expects with before | ⟨i, tree, found⟩
      · exact .inl (past before)
      · by_cases mine : pc₀.Replacing
        · exact .inl (past (.inl ⟨pid, _, running, mine⟩))
        · exact .inr ⟨i, tree, (dir_frame racing running move mine).trans found⟩
    | emptying =>
      obtain ⟨tree, found⟩ := expects
      exact ⟨tree, (dir trivial).trans found⟩
  | rename => exact (dir trivial).trans expects
  | readRoot | sweep => exact ⟨staging.trans expects.1, past expects.2⟩
  | dropStaging =>
    obtain ⟨same, before, i, tree, found, rest⟩ := expects
    exact ⟨same, past before, i, tree, staging.trans found, rest⟩
  | returned => exact ⟨expects.1, staging.trans expects.2.1, past expects.2.2⟩
  | clearStaging | sweepRemove => exact expects.elim
  | openArchive | unpack | writeMarker | secondMarker | dirExists => trivial

theorem exclusive_move (racing : Racing crates b c₀ s)
    (running : s.procs.lookup pid = some ⟨b, pc₀⟩)
    (move : Move crates b pid pc₀ choice s.cache pc cache)
    (unfailing : ∀ e, choice ≠ .fail e) (exclusive : Exclusive s (.step pid choice))
    (replacing : pc.Replacing) (held : s.procs.lookup q = some other)
    (still : other.pc.Replacing) : q = pid := by
  rcases move.replacing_origin unfailing replacing with before | ⟨rfl, enters⟩
  · exact racing.exclusive _ _ _ _ held running still before
  · exact absurd ⟨q, other, held, still⟩ (exclusive _ running enters)

theorem names_move (racing : Racing crates b c₀ s) (running : s.procs.lookup pid = some ⟨b, pc₀⟩)
    (move : Move crates b pid pc₀ choice s.cache pc cache)
    (found : cache.root.lookup name = some node) : (∃ i tree, node = .dir i tree) ∧
      (name = b.dir ∨ ∃ q ∈ s.procs, name = b.staging q) := by
  rcases move.effect.node_origin found with ⟨old, held, same⟩ | ⟨rfl, _, i, rfl⟩ | ⟨rfl, held⟩
  · obtain ⟨⟨i, tree, rfl⟩, owner⟩ := racing.names _ _ held
    refine ⟨?_, owner⟩
    rcases same with rfl | ⟨j, before, after, _, rfl⟩
    · exact ⟨i, tree, rfl⟩
    · exact ⟨j, after, rfl⟩
  · exact ⟨⟨i, ∅, rfl⟩, .inr ⟨pid, Finmap.mem_of_lookup_eq_some running, rfl⟩⟩
  · exact ⟨(racing.names _ _ held).1, .inl rfl⟩

theorem first_move (racing : Racing crates b c₀ s)
    (running : s.procs.lookup pid = some ⟨b, pc₀⟩)
    (move : Move crates b pid pc₀ choice s.cache pc cache) (unfailing : ∀ e, choice ≠ .fail e) :
    Past crates b ⟨cache, s.procs.insert pid ⟨b, pc⟩⟩ ∨
      cache.root.lookup b.dir = c₀.root.lookup b.dir := by
  by_cases replacing : pc₀.Replacing
  · exact .inl (past_move racing running move unfailing (.inl ⟨pid, _, running, replacing⟩))
  · rcases racing.settled with past | first
    · exact .inl (past_move racing running move unfailing past)
    · exact .inr ((dir_frame racing running move replacing).trans first)

theorem racing_step (racing : Racing crates b c₀ s) (first : EmptyOrStale crates b c₀)
    (embedded : b.archive ≠ []) (extracted : crates.extraction b = some full)
    (turns : TakingTurns s action) (taken : step crates s action = some next) :
    Racing crates b c₀ next := by
  have orderly := orderly_step racing.orderly taken
  have staged := staged_step racing.orderly racing.staged taken
  obtain ⟨unfailing, exclusive⟩ := turns
  cases step_cases taken with
  | spawn | kill => exact unfailing.elim
  | move pid proc pc running move =>
    obtain ⟨_, pc₀⟩ := proc
    obtain rfl := racing.members _ _ running
    refine ⟨orderly, ?_, staged, ?_, ?_, first_move racing running move unfailing.not_fail, ?_⟩
    · intro q proc held
      rcases FiniteMap.lookup_insert_some.mp held with ⟨rfl, rfl⟩ | ⟨_, held⟩
      · rfl
      · exact racing.members q proc held
    · intro name node found
      obtain ⟨directory, owner⟩ := names_move racing running move found
      refine ⟨directory, owner.imp id ?_⟩
      rintro ⟨q, member, named⟩
      exact ⟨q, Finmap.mem_insert.mpr (.inr member), named⟩
    · intro p q x y hp hq replacingp replacingq
      rcases FiniteMap.lookup_insert_some.mp hp with ⟨rfl, rfl⟩ | ⟨_, oldp⟩ <;>
        rcases FiniteMap.lookup_insert_some.mp hq with ⟨rfl, rfl⟩ | ⟨_, oldq⟩
      · rfl
      · exact (exclusive_move racing running move unfailing.not_fail exclusive replacingp oldq replacingq).symm
      · exact exclusive_move racing running move unfailing.not_fail exclusive replacingq oldp replacingp
      · exact racing.exclusive p q x y oldp oldq replacingp replacingq
    · intro q proc held
      rcases FiniteMap.lookup_insert_some.mp held with ⟨rfl, rfl⟩ | ⟨apart, old⟩
      · exact expects_move racing first embedded extracted running move unfailing.not_fail exclusive
      · have same := racing.members _ _ old
        obtain ⟨_, other⟩ := proc
        subst same
        exact expects_frame racing running move old apart
          (past_move racing running move unfailing.not_fail)

end ImageBuilder.RootfsInstall
