import ImageBuilder.RootfsMoves

/-! Who changes what: the effect of one operation on each entry of the root, and
the handles that removals in progress hold. These frame the invariants of every
result about several processes. -/
namespace ImageBuilder.RootfsInstall

open RootfsCache

/-- The entry a process is removing, and how far it is. -/
def Pc.removal (b : Binary) (pid : Nat) : Pc → Option (Text × Removal)
  | .clearStaging at_ | .dropStaging at_ _ => some (b.staging pid, at_)
  | .removeStale at_ => some (b.dir, at_)
  | .sweepRemove name at_ _ => some (name, at_)
  | _ => none

def Pc.Writes (pc : Pc) : Prop :=
  (∃ rest ending torn, pc = .unpack rest ending torn) ∨ ∃ torn, pc = .writeMarker torn

/-- Everything one operation can do to the cache. -/
inductive Effect (b : Binary) (pid : Nat) (pc : Pc) : Cache → Cache → Prop where
  | nothing : Effect b pid pc c c
  | delete (name : Text) : pc.removal b pid = some (name, .emptying i gone) →
      c.root.lookup name = some (.dir i tree) → tree.lookup path = some entry →
      Effect b pid pc c (c.modify name (·.erase path))
  | unlink (name : Text) : pc.removal b pid = some (name, .emptying i gone) →
      c.root.lookup name = some (.dir j ∅) → Effect b pid pc c (c.unlink name)
  | create : pc = .createStaging → c.root.lookup (b.staging pid) = none →
      Effect b pid pc c (c.mkdir (b.staging pid))
  | write : pc.Writes → Effect b pid pc c (c.modify (b.staging pid) change)
  | rename : pc = .rename → c.rename (b.staging pid) b.dir = .ok d → Effect b pid pc c d

theorem Removes.frame (removes : Removes name at_ choice c outcome d) (apart : m ≠ name) :
    d.root.lookup m = c.root.lookup m := by
  cases removes with
  | deleted => exact Cache.modify_lookup_other _ apart
  | unlinked => exact Cache.unlink_lookup_other _ apart
  | opened | missing | vanished | replaced | failed => rfl

theorem Removes.effect {pc : Pc} (removes : Removes name at_ choice c outcome d)
    (target : pc.removal b pid = some (name, at_)) : Effect b pid pc c d := by
  cases removes with
  | opened | missing | vanished | replaced | failed => exact .nothing
  | deleted found present => exact .delete name target found present
  | unlinked bare => exact .unlink name target bare

theorem writeMarker_effect {pc : Pc} (wrote : writeMarker (b.staging pid) text c = .ok d)
    (writes : pc.Writes) : Effect b pid pc c d := by
  unfold writeMarker at wrote
  split at wrote
  · split at wrote
    · cases wrote
      exact .write writes
    · cases wrote
  · cases wrote

theorem Move.effect (move : Move crates b pid pc choice c pc' d) : Effect b pid pc c d := by
  cases move with
  | clearing removes | cleared removes | clearFailed removes => exact removes.effect rfl
  | removing removes | removed removes | removeFailed removes => exact removes.effect rfl
  | sweeping removes => exact removes.effect rfl
  | sweptOne removes _ => exact removes.effect rfl
  | dropping removes => exact removes.effect rfl
  | dropped removes _ => exact removes.effect rfl
  | created absent => exact .create rfl absent
  | tore | wrote => exact .write (.inl ⟨_, _, _, rfl⟩)
  | markerTorn wrote | markerWritten wrote => exact writeMarker_effect wrote (.inr ⟨_, rfl⟩)
  | renamed done => exact .rename rfl done
  | _ => exact .nothing

theorem Effect.next_le (effect : Effect b pid pc c d) : c.next ≤ d.next := by
  cases effect with
  | nothing | delete | unlink | write => simp
  | create => simp
  | rename _ done =>
    obtain ⟨_, _, _, next, _⟩ := Cache.rename_cases done
    exact next.ge

/-- An operation leaves alone what is neither its own nor what it is removing. -/
theorem Effect.frame {pc : Pc} (effect : Effect b pid pc c d) (notStaging : m ≠ b.staging pid)
    (notDir : pc = .rename → m ≠ b.dir) (notTarget : ∀ at_, pc.removal b pid ≠ some (m, at_)) :
    d.root.lookup m = c.root.lookup m := by
  cases effect with
  | nothing => rfl
  | delete name target _ _ =>
    apply Cache.modify_lookup_other
    rintro rfl
    exact notTarget _ target
  | unlink name target _ =>
    apply Cache.unlink_lookup_other
    rintro rfl
    exact notTarget _ target
  | create _ _ => exact Cache.mkdir_lookup_other _ notStaging
  | write _ => exact Cache.modify_lookup_other _ notStaging
  | rename at_ done =>
    obtain ⟨node, _, _, _, root⟩ := Cache.rename_cases done
    rw [root, Finmap.lookup_insert_of_ne _ (notDir at_), Finmap.lookup_erase_ne notStaging]

/-- What one operation can do to an entry that is not a staging directory: nothing;
delete a file of a tree it is removing; remove the emptied directory; or, onto an
absent or emptied version directory of its own, move its staged tree. -/
inductive VersionEffect (b : Binary) (pid : Nat) (pc : Pc) (m : Text) (c d : Cache) : Prop where
  | same : d.root.lookup m = c.root.lookup m → VersionEffect b pid pc m c d
  | delete : pc.removal b pid = some (m, .emptying i gone) → c.root.lookup m = some (.dir i tree) →
      tree.lookup path = some entry → d.root.lookup m = some (.dir i (tree.erase path)) →
      VersionEffect b pid pc m c d
  | unlink : pc.removal b pid = some (m, .emptying i gone) → c.root.lookup m = some (.dir j ∅) →
      d.root.lookup m = none → VersionEffect b pid pc m c d
  | install : pc = .rename → m = b.dir →
      (c.root.lookup m = none ∨ ∃ j, c.root.lookup m = some (.dir j ∅)) →
      c.root.lookup (b.staging pid) = some node → d.root.lookup m = some node →
      VersionEffect b pid pc m c d

theorem Effect.version {pc : Pc} (effect : Effect b pid pc c d)
    (version : stagingPrefix.isPrefixOf m = false) : VersionEffect b pid pc m c d := by
  have notStaging : m ≠ b.staging pid := staging_ne_of_not_staging version _ _
  cases effect with
  | nothing => exact .same rfl
  | delete name target found present =>
    by_cases same : m = name
    · subst same
      exact .delete target found present (Cache.modify_lookup_same _ found)
    · exact .same (Cache.modify_lookup_other _ same)
  | unlink name target bare =>
    by_cases same : m = name
    · subst same
      exact .unlink target bare (Cache.unlink_lookup_same _)
    · exact .same (Cache.unlink_lookup_other _ same)
  | create _ _ => exact .same (Cache.mkdir_lookup_other _ notStaging)
  | write _ => exact .same (Cache.modify_lookup_other _ notStaging)
  | rename at_ done =>
    obtain ⟨node, staged, clear, _, root⟩ := Cache.rename_cases done
    by_cases same : m = b.dir
    · subst same
      exact .install at_ rfl clear staged (by rw [root, Finmap.lookup_insert])
    · exact .same (by
        rw [root, Finmap.lookup_insert_of_ne _ same, Finmap.lookup_erase_ne notStaging])

/-- A directory in the new state was there before, unless it is the staging
directory just created; only the rename gives one another name. -/
theorem Effect.dir_origin {pc : Pc} (effect : Effect b pid pc c d)
    (found : d.root.lookup m = some (.dir i tree)) :
    (∃ old, c.root.lookup m = some (.dir i old)) ∨
    (m = b.staging pid ∧ i = c.next) ∨
    (pc = .rename ∧ m = b.dir ∧ ∃ old, c.root.lookup (b.staging pid) = some (.dir i old)) := by
  cases effect with
  | nothing => exact .inl ⟨_, found⟩
  | delete _ _ _ _ | write _ => exact .inl (Cache.modify_dir_origin _ found)
  | unlink _ _ _ => exact .inl ⟨_, (FiniteMap.lookup_erase_some.mp found).2⟩
  | create _ _ =>
    rcases FiniteMap.lookup_insert_some.mp found with ⟨name, node⟩ | ⟨_, found⟩
    · cases node
      exact .inr (.inl ⟨name, rfl⟩)
    · exact .inl ⟨_, found⟩
  | rename at_ done =>
    obtain ⟨node, staged, _, _, root⟩ := Cache.rename_cases done
    rw [root] at found
    rcases FiniteMap.lookup_insert_some.mp found with ⟨name, same⟩ | ⟨_, found⟩
    · exact .inr (.inr ⟨at_, name, _, by rw [staged, same]⟩)
    · exact .inl ⟨_, (FiniteMap.lookup_erase_some.mp found).2⟩

/-- Every entry was there before, except a directory the process has created, and a
staged tree under the version's name. -/
theorem Effect.node_origin {pc : Pc} (effect : Effect b pid pc c d)
    (found : d.root.lookup m = some node) :
    (∃ old, c.root.lookup m = some old ∧
      (node = old ∨ ∃ i before after, old = .dir i before ∧ node = .dir i after)) ∨
    (m = b.staging pid ∧ pc = .createStaging ∧ ∃ i, node = .dir i ∅) ∨
    (m = b.dir ∧ c.root.lookup (b.staging pid) = some node) := by
  cases effect with
  | nothing => exact .inl ⟨_, found, .inl rfl⟩
  | delete _ _ _ _ | write _ => exact .inl (Cache.modify_node_origin _ found)
  | unlink _ _ _ => exact .inl ⟨_, (FiniteMap.lookup_erase_some.mp found).2, .inl rfl⟩
  | create at_ _ =>
    rcases FiniteMap.lookup_insert_some.mp found with ⟨name, rfl⟩ | ⟨_, found⟩
    · exact .inr (.inl ⟨name, at_, _, rfl⟩)
    · exact .inl ⟨_, found, .inl rfl⟩
  | rename _ done =>
    obtain ⟨moved, staged, _, _, root⟩ := Cache.rename_cases done
    rw [root] at found
    rcases FiniteMap.lookup_insert_some.mp found with ⟨name, rfl⟩ | ⟨_, found⟩
    · exact .inr (.inr ⟨name, staged⟩)
    · exact .inl ⟨_, (FiniteMap.lookup_erase_some.mp found).2, .inl rfl⟩

/-- A directory handle opened under `name`: the directory is under that name or
has been removed, and its identity is not given out again. -/
structure Handle (c : Cache) (name : Text) (i : Nat) : Prop where
  used : i < c.next
  named : ∀ m tree, c.root.lookup m = some (.dir i tree) → m = name

theorem Handle.of_lookup {c : Cache} (found : c.root.lookup name = some (.dir i tree)) :
    Handle c name i :=
  ⟨c.fresh _ _ _ found, fun _ _ other => c.single _ _ _ _ _ other found⟩

theorem Effect.handle {pc : Pc} (effect : Effect b pid pc c d) (handle : Handle c name i)
    (apart : pc = .rename → name ≠ b.staging pid) : Handle d name i := by
  refine ⟨handle.used.trans_le effect.next_le, ?_⟩
  intro m tree found
  rcases effect.dir_origin found with ⟨_, old⟩ | ⟨_, fresh⟩ | ⟨atRename, _, _, old⟩
  · exact handle.named _ _ old
  · exact absurd handle.used (by omega)
  · exact absurd (handle.named _ _ old).symm (apart atRename)

/-- What every reachable state satisfies, whatever the cache started as: a sweep
removes neither its own tree nor a staging directory, and removals in progress
hold handles that no other directory will match. -/
structure Orderly (s : State) : Prop where
  sweeps : ∀ pid proc name at_ names, s.procs.lookup pid = some proc →
    proc.pc = .sweepRemove name at_ names →
    name ≠ proc.binary.dir ∧ stagingPrefix.isPrefixOf name = false
  handles : ∀ pid proc name i gone, s.procs.lookup pid = some proc →
    proc.pc.removal proc.binary pid = some (name, .emptying i gone) → Handle s.cache name i

theorem orderly_idle (cache : Cache) : Orderly ⟨cache, ∅⟩ :=
  ⟨by simp, by simp⟩

/-- Apart from its own staging directory, a process removes only version directories
and other entries that are not staging directories. -/
theorem Orderly.target (orderly : Orderly s) (running : s.procs.lookup pid = some proc)
    (target : proc.pc.removal proc.binary pid = some (name, at_)) :
    name = proc.binary.staging pid ∨ stagingPrefix.isPrefixOf name = false := by
  cases at_pc : proc.pc <;> simp only [at_pc, Pc.removal, reduceCtorEq, Option.some.injEq,
    Prod.mk.injEq] at target
  case sweepRemove => exact .inr (target.1 ▸ (orderly.sweeps _ _ _ _ _ running at_pc).2)
  case removeStale => exact .inr (target.1 ▸ version_not_staging _)
  all_goals exact .inl target.1.symm

/-- Another process's staging directory is left alone. -/
theorem Orderly.staging_frame (orderly : Orderly s) (running : s.procs.lookup pid = some proc)
    (move : Move crates proc.binary pid proc.pc choice s.cache pc cache)
    (apart : m ≠ proc.binary.staging pid) (staging : stagingPrefix.isPrefixOf m = true) :
    cache.root.lookup m = s.cache.root.lookup m := by
  refine move.effect.frame apart ?_ ?_
  · rintro _ rfl
    exact absurd staging (by simp [Binary.dir, version_not_staging])
  · intro at_ target
    rcases orderly.target running target with eq | version
    · exact apart eq
    · simp [version] at staging

/-- The three kinds of step, with what they leave. -/
inductive Stepped (crates : Crates) (s : State) : Action → State → Prop where
  | spawn : s.Free pid → Stepped crates s (.spawn pid b)
      ⟨s.cache, s.procs.insert pid ⟨b, .start⟩⟩
  | kill : Stepped crates s (.kill pid) ⟨s.cache, s.procs.erase pid⟩
  | move (pid : Nat) (proc : Process) (pc : Pc) : s.procs.lookup pid = some proc →
      Move crates proc.binary pid proc.pc choice s.cache pc cache →
      Stepped crates s (.step pid choice)
        ⟨cache, s.procs.insert pid ⟨proc.binary, pc⟩⟩

theorem step_cases (h : step crates s action = some next) : Stepped crates s action next := by
  cases action with
  | spawn pid b =>
    simp only [step] at h
    split at h
    · rename_i free
      cases h
      exact .spawn free
    · cases h
  | kill pid =>
    cases h
    exact .kill
  | step pid choice =>
    simp only [step] at h
    split at h
    · cases h
    · rename_i proc running
      obtain ⟨⟨pc, cache⟩, taken, rfl⟩ := Option.map_eq_some_iff.mp h
      exact .move pid proc pc running (advance_cases taken)

theorem Removes.running_handle (removes : Removes name at_ choice c (.running next) d)
    (holds : next = .emptying i gone) :
    (∃ before, at_ = .emptying i before) ∨
    (at_ = .opening ∧ choice = .proceed ∧ d = c ∧ ∃ tree, c.root.lookup name = some (.dir i tree)) := by
  cases removes with
  | opened found =>
    cases holds
    exact .inr ⟨rfl, rfl, rfl, _, found⟩
  | deleted found present =>
    cases holds
    exact .inl ⟨_, rfl⟩

/-- A handle is one the process held already, or one it has just opened. -/
theorem Move.handle_origin (move : Move crates b pid pc choice c pc' d)
    (target : pc'.removal b pid = some (name, .emptying i gone)) :
    (∃ before, pc.removal b pid = some (name, .emptying i before)) ∨
    (pc.removal b pid = some (name, .opening) ∧ choice = .proceed ∧ d = c ∧
      ∃ tree, c.root.lookup name = some (.dir i tree)) := by
  cases move with
  | clearing removes | removing removes | dropping removes | sweeping removes =>
    simp only [Pc.removal, Option.some.injEq, Prod.mk.injEq] at target
    obtain ⟨rfl, holds⟩ := target
    rcases removes.running_handle holds with ⟨before, rfl⟩ | ⟨rfl, opened⟩
    · exact .inl ⟨before, rfl⟩
    · exact .inr ⟨rfl, opened⟩
  | _ => simp [Pc.removal] at target

theorem Move.sweep_origin (move : Move crates b pid pc choice c pc' d)
    (target : pc' = .sweepRemove name at_ names) :
    (∃ before rest, pc = .sweepRemove name before rest) ∨
    name ≠ b.dir ∧ stagingPrefix.isPrefixOf name = false := by
  cases move with
  | sweepPick notDir _ notStaging =>
    cases target
    exact .inr ⟨notDir, notStaging⟩
  | sweeping removes =>
    cases target
    exact .inl ⟨_, _, rfl⟩
  | _ => cases target

/-- The rule for a property of every process: it holds of a new process, the
process that moves keeps it, and the move does not disturb it for the others. -/
theorem Stepped.forall_procs (stepped : Stepped crates s action next)
    (property : Cache → Nat → Process → Prop)
    (held : ∀ q proc, s.procs.lookup q = some proc → property s.cache q proc)
    (spawned : ∀ q b, action = .spawn q b → property s.cache q ⟨b, .start⟩)
    (own : ∀ pid proc choice pc cache, action = .step pid choice →
      s.procs.lookup pid = some proc → Move crates proc.binary pid proc.pc choice s.cache pc cache →
      property cache pid ⟨proc.binary, pc⟩)
    (other : ∀ pid proc choice pc cache q bystander, s.procs.lookup pid = some proc → q ≠ pid →
      s.procs.lookup q = some bystander →
      Move crates proc.binary pid proc.pc choice s.cache pc cache →
      property cache q bystander) :
    ∀ q proc, next.procs.lookup q = some proc → property next.cache q proc := by
  intro q found running
  cases stepped with
  | spawn free =>
    rcases FiniteMap.lookup_insert_some.mp running with ⟨rfl, rfl⟩ | ⟨_, running⟩
    · exact spawned _ _ rfl
    · exact held q found running
  | kill => exact held q found (FiniteMap.lookup_erase_some.mp running).2
  | move pid proc pc moving move =>
    rcases FiniteMap.lookup_insert_some.mp running with ⟨rfl, rfl⟩ | ⟨apart, running⟩
    · exact own _ proc _ pc _ rfl moving move
    · exact other pid proc _ pc _ q found moving apart running move

theorem orderly_step (orderly : Orderly s) (taken : step crates s action = some next) :
    Orderly next := by
  have stepped := step_cases taken
  constructor
  · have sweeps := stepped.forall_procs (fun _ _ proc => ∀ name at_ names,
      proc.pc = .sweepRemove name at_ names →
      name ≠ proc.binary.dir ∧ stagingPrefix.isPrefixOf name = false)
    refine fun pid proc name at_ names running => sweeps ?_ ?_ ?_ ?_ pid proc running name at_ names
    · exact fun q proc running name at_ names => orderly.sweeps q proc name at_ names running
    · exact fun _ _ _ _ _ _ at_pc => by cases at_pc
    · intro pid proc choice pc cache _ running move name at_ names at_pc
      rcases move.sweep_origin at_pc with ⟨before, rest, before_pc⟩ | apart
      · exact orderly.sweeps pid proc name before rest running before_pc
      · exact apart
    · exact fun _ _ _ _ _ q other _ _ running _ name at_ names =>
        orderly.sweeps q other name at_ names running
  · have handles := stepped.forall_procs (fun cache pid proc => ∀ name i gone,
      proc.pc.removal proc.binary pid = some (name, .emptying i gone) → Handle cache name i)
    refine fun pid proc name i gone running => handles ?_ ?_ ?_ ?_ pid proc running name i gone
    · exact fun q proc running name i gone => orderly.handles q proc name i gone running
    · exact fun _ _ _ _ _ _ target => by cases target
    · intro pid proc choice pc cache _ running move name i gone target
      rcases move.handle_origin target with ⟨before, holds⟩ | ⟨_, _, rfl, tree, opened⟩
      · apply move.effect.handle (orderly.handles _ _ _ _ _ running holds)
        intro atRename
        simp [atRename, Pc.removal] at holds
      · exact Handle.of_lookup opened
    · intro pid proc choice pc cache q other _ apart running move name i gone target
      apply move.effect.handle (orderly.handles _ _ _ _ _ running target)
      rintro _ rfl
      rcases orderly.target running target with eq | version
      · exact apart (stagingName_injective eq).2.symm
      · exact staging_ne_of_not_staging version _ _ rfl

end ImageBuilder.RootfsInstall
