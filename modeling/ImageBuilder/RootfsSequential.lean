import ImageBuilder.RootfsStaging

/-! Install runs one after the other. A tree under a version name is whole, or has
lost its marker or its helper, except while the one live process is deleting it.
What breaks this is an interrupted removal that leaves marker and helper standing. -/
namespace ImageBuilder.RootfsInstall

open RootfsCache Transition

/-- No process is running. -/
def State.Quiet (s : State) : Prop := ∀ pid ∈ s.procs.keys, s.Free pid

instance (s : State) : Decidable s.Quiet := inferInstanceAs (Decidable (∀ pid ∈ _, _))

/-- Each run starts after the one before it has returned or was killed. -/
def Sequential (s : State) : Action → Prop
  | .spawn _ _ => s.Quiet
  | .step _ _ | .kill _ => True

instance (s : State) : DecidablePred (Sequential s)
  | .spawn _ _ => inferInstanceAs (Decidable s.Quiet)
  | .step _ _ | .kill _ => isTrue trivial

/-- The installed tree that a process is deleting, once it has deleted an entry of it. -/
def State.undermined (s : State) (pid : Nat) : Option Tree :=
  match s.procs.lookup pid with
  | none => none
  | some proc =>
    match proc.pc.removal proc.binary pid with
    | some (name, .emptying i (_ :: _)) =>
      if name = proc.binary.staging pid then none else
      match s.cache.root.lookup name with
      | some (.dir found tree) => if found = i then some tree else none
      | _ => none
    | _ => none

/-- If the removal that a process has in hand stopped here, it would leave a tree with
entries missing that still has a marker and passes `check_rootfs`. -/
def Deceptive (s : State) (pid : Nat) : Prop :=
  ∃ tree, s.undermined pid = some tree ∧ tree.lookup Rootfs.marker ≠ none ∧ Rootfs.Usable tree

instance (s : State) (pid : Nat) : Decidable (Deceptive s pid) :=
  match h : s.undermined pid with
  | none => isFalse (by simp [Deceptive, h])
  | some tree =>
    decidable_of_iff (tree.lookup Rootfs.marker ≠ none ∧ Rootfs.Usable tree)
      (by simp [Deceptive, h])

/-- Neither a kill nor an error stops a removal at such a point. -/
def StopsClean (s : State) : Action → Prop
  | .kill pid | .step pid (.fail _) => ¬ Deceptive s pid
  | .spawn _ _ | .step _ .proceed | .step _ (.delete _) | .step _ (.list _) => True

instance (s : State) : DecidablePred (StopsClean s)
  | .kill pid | .step pid (.fail _) => inferInstanceAs (Decidable (¬ Deceptive s pid))
  | .spawn _ _ | .step _ .proceed | .step _ (.delete _) | .step _ (.list _) => isTrue trivial

theorem State.undermined_eq {s : State} (running : s.procs.lookup pid = some proc)
    (target : proc.pc.removal proc.binary pid = some (name, .emptying i gone)) (some_ : gone ≠ [])
    (installed : name ≠ proc.binary.staging pid)
    (holds : s.cache.root.lookup name = some (.dir i tree)) : s.undermined pid = some tree := by
  obtain ⟨path, rest, rfl⟩ := List.exists_cons_of_ne_nil some_
  simp [State.undermined, running, target, installed, holds]

theorem Move.not_returned (move : Move crates b pid pc choice c pc' d) : ¬ pc.Returned := by
  rintro ⟨result, rfl⟩
  cases move

theorem removal_not_returned {pc : Pc} (target : pc.removal b pid = some (name, at_)) :
    ¬ pc.Returned := by
  rintro ⟨result, rfl⟩
  cases target

/-- A removal in progress deletes another entry, fails where it stands, or ends with
its directory gone from the name. -/
theorem Removes.emptying_cases (removes : Removes name (.emptying i gone) choice c outcome d) :
    (∃ path, outcome = .running (.emptying i (path :: gone))) ∨
    (d = c ∧ ∃ e, choice = .fail e) ∨ ∀ tree, d.root.lookup name ≠ some (.dir i tree) := by
  cases removes with
  | deleted => exact .inl ⟨_, rfl⟩
  | failed => exact .inr (.inl ⟨rfl, _, rfl⟩)
  | vanished absent => exact .inr (.inr (by simp [absent]))
  | unlinked _ => exact .inr (.inr (by simp))
  | replaced other _ _ => exact .inr (.inr other)

theorem Move.emptying_cases {pc : Pc} (move : Move crates b pid pc choice c pc' d)
    (target : pc.removal b pid = some (name, .emptying i gone)) :
    (∃ path, pc'.removal b pid = some (name, .emptying i (path :: gone))) ∨
    (d = c ∧ ∃ e, choice = .fail e) ∨ ∀ tree, d.root.lookup name ≠ some (.dir i tree) := by
  cases move with
  | clearing removes | removing removes | sweeping removes | dropping removes =>
    cases target
    rcases removes.emptying_cases with ⟨path, same⟩ | rest
    · cases same
      exact .inl ⟨path, rfl⟩
    · exact .inr rest
  | cleared removes | clearFailed removes | removed removes | removeFailed removes =>
    cases target
    rcases removes.emptying_cases with ⟨path, same⟩ | rest
    · cases same
    · exact .inr rest
  | sweptOne removes stopped | dropped removes stopped =>
    cases target
    rcases removes.emptying_cases with ⟨path, same⟩ | rest
    · exact absurd same (stopped _)
    · exact .inr rest
  | _ => cases target

/-- The version directory holds exactly what this binary's archive unpacks to. -/
def Complete (crates : Crates) (b : Binary) (c : Cache) : Prop :=
  ∃ i full, c.root.lookup b.dir = some (.dir i full) ∧ crates.extraction b = some full

theorem complete_iff {crates : Crates} : Complete crates b c ↔
    ∃ full, crates.extraction b = some full ∧ (c.root.lookup b.dir).bind Node.tree? = some full := by
  constructor
  · rintro ⟨i, full, found, extracted⟩
    exact ⟨full, extracted, by simp [found, Node.tree?]⟩
  · rintro ⟨full, extracted, holds⟩
    obtain ⟨node, found, holds⟩ := Option.bind_eq_some_iff.mp holds
    cases node with
    | dir i tree => cases holds; exact ⟨i, _, found, extracted⟩
    | file => cases holds

instance (crates : Crates) (b : Binary) (c : Cache) : Decidable (Complete crates b c) :=
  match h : crates.extraction b with
  | none => isFalse (by simp [complete_iff, h])
  | some full =>
    decidable_of_iff ((c.root.lookup b.dir).bind Node.tree? = some full) (by simp [complete_iff, h])

/-- A tree under a version name: whole, visibly damaged, or being deleted. -/
def Explained (crates : Crates) (fleet : Binary → Prop) (procs : FiniteMap Nat Process)
    (v : Version) (i : Nat) (tree : Tree) : Prop :=
  (∃ b, fleet b ∧ b.dir = v.text ∧ crates.extraction b = some tree) ∨
  (tree.lookup Rootfs.marker = none ∨ ¬ Rootfs.Usable tree) ∨
  ∃ pid proc gone, procs.lookup pid = some proc ∧
    proc.pc.removal proc.binary pid = some (v.text, .emptying i gone) ∧ gone ≠ []

/-- What a process that runs alone knows of its version directory. -/
def Assured (crates : Crates) (b : Binary) (c : Cache) : Pc → Prop
  | .firstRootfs | .secondRootfs => markerMatches c b.dir (crates.key b) = true
  | .readRoot | .sweep _ | .sweepRemove _ _ _ => Complete crates b c
  | .dropStaging _ (.ok dir) => dir = b.dir ∧ Complete crates b c
  | _ => True

structure Trusted (crates : Crates) (fleet : Binary → Prop) (s : State) : Prop where
  isolated : Isolated crates fleet s
  alone : ∀ p q x y, s.procs.lookup p = some x → s.procs.lookup q = some y →
    ¬ x.pc.Returned → ¬ y.pc.Returned → p = q
  explained : ∀ (v : Version) i tree, s.cache.root.lookup v.text = some (.dir i tree) →
    Explained crates fleet s.procs v i tree
  assured : ∀ q proc, s.procs.lookup q = some proc → Assured crates proc.binary s.cache proc.pc

theorem trusted_idle (crates : Crates) (fleet : Binary → Prop) :
    Trusted crates fleet (idle Cache.empty) :=
  ⟨isolated_idle crates fleet, by simp [idle], by simp [idle, Cache.empty], by simp [idle]⟩

/-- Only one process is ever between its start and its return. -/
theorem alone_step
    (alone : ∀ p q x y, s.procs.lookup p = some x → s.procs.lookup q = some y →
      ¬ x.pc.Returned → ¬ y.pc.Returned → p = q)
    (sequential : Sequential s action) (taken : step crates s action = some next) :
    ∀ p q x y, next.procs.lookup p = some x → next.procs.lookup q = some y →
      ¬ x.pc.Returned → ¬ y.pc.Returned → p = q := by
  intro p q x y hp hq livep liveq
  have quiet (pid proc) (still : s.Quiet) (found : s.procs.lookup pid = some proc) :
      proc.pc.Returned :=
    still pid (Finmap.mem_keys.mpr (Finmap.mem_of_lookup_eq_some found)) proc found
  cases step_cases taken with
  | spawn free =>
    rcases FiniteMap.lookup_insert_some.mp hp with ⟨rfl, rfl⟩ | ⟨_, hp⟩
    · rcases FiniteMap.lookup_insert_some.mp hq with ⟨rfl, rfl⟩ | ⟨_, hq⟩
      · rfl
      · exact absurd (quiet q y sequential hq) liveq
    · exact absurd (quiet p x sequential hp) livep
  | kill =>
    exact alone p q x y (FiniteMap.lookup_erase_some.mp hp).2 (FiniteMap.lookup_erase_some.mp hq).2
      livep liveq
  | move pid proc pc running move =>
    rcases FiniteMap.lookup_insert_some.mp hp with ⟨rfl, rfl⟩ | ⟨_, oldp⟩ <;>
      rcases FiniteMap.lookup_insert_some.mp hq with ⟨rfl, rfl⟩ | ⟨_, oldq⟩
    · rfl
    · exact alone _ q proc y running oldq move.not_returned liveq
    · exact alone p _ x proc oldp running livep move.not_returned
    · exact alone p q x y oldp oldq livep liveq

theorem explained_step {fleet : Binary → Prop} (trusted : Trusted crates fleet s)
    (sequential : Sequential s action) (clean : StopsClean s action)
    (taken : step crates s action = some next) (v : Version)
    (found : next.cache.root.lookup v.text = some (.dir i tree)) :
    Explained crates fleet next.procs v i tree := by
  have damaged (pid proc gone) (running : s.procs.lookup pid = some proc)
      (target : proc.pc.removal proc.binary pid = some (v.text, .emptying i gone))
      (some_ : gone ≠ []) (holds : s.cache.root.lookup v.text = some (.dir i tree))
      (honest : ¬ Deceptive s pid) : tree.lookup Rootfs.marker = none ∨ ¬ Rootfs.Usable tree := by
    by_contra standing
    simp only [not_or, not_not] at standing
    have undermined := State.undermined_eq running target some_ (staging_ne_dir _ _ _) holds
    exact honest ⟨tree, undermined, standing.1, standing.2⟩
  cases step_cases taken with
  | spawn free =>
    rcases trusted.explained v i tree found with whole | visible | ⟨q, other, gone, running, target, _⟩
    · exact .inl whole
    · exact .inr (.inl visible)
    · have still := sequential q (Finmap.mem_keys.mpr (Finmap.mem_of_lookup_eq_some running))
      exact absurd (still other running) (removal_not_returned target)
  | @kill pid =>
    rcases trusted.explained v i tree found with whole | visible |
      ⟨q, other, gone, running, target, some_⟩
    · exact .inl whole
    · exact .inr (.inl visible)
    · by_cases same : q = pid
      · subst same
        exact .inr (.inl (damaged q other gone running target some_ found clean))
      · exact .inr (.inr ⟨q, other, gone, (Finmap.lookup_erase_ne same).trans running, target, some_⟩)
  | @move choice cache pid proc pc running move =>
    have only (q other gone) (held : s.procs.lookup q = some other)
        (removes : other.pc.removal other.binary q = some (v.text, .emptying i gone)) :
        q = pid ∧ other = proc := by
      have same := trusted.alone q pid other proc held running (removal_not_returned removes)
        move.not_returned
      subst same
      rw [running] at held
      cases held
      exact ⟨rfl, rfl⟩
    by_cases target : ∃ gone, proc.pc.removal proc.binary pid = some (v.text, .emptying i gone)
    · obtain ⟨gone, target⟩ := target
      rcases move.emptying_cases target with ⟨path, continues⟩ | ⟨rfl, e, rfl⟩ | unlinked
      · exact .inr (.inr ⟨pid, _, path :: gone, Finmap.lookup_insert _, continues, by simp⟩)
      · rcases trusted.explained v i tree found with whole | visible |
          ⟨q, other, deleted, held, removes, some_⟩
        · exact .inl whole
        · exact .inr (.inl visible)
        · obtain ⟨rfl, rfl⟩ := only q other deleted held removes
          exact .inr (.inl (damaged _ _ deleted held removes some_ found clean))
      · exact absurd found (unlinked tree)
    · cases move.effect.version (version_not_staging v) with
      | same eq =>
        rcases trusted.explained v i tree (eq ▸ found) with whole | visible |
          ⟨q, other, gone, held, removes, _⟩
        · exact .inl whole
        · exact .inr (.inl visible)
        · obtain ⟨rfl, rfl⟩ := only q other gone held removes
          exact absurd ⟨gone, removes⟩ target
      | delete removes _ _ after =>
        rw [after] at found
        cases found
        exact absurd ⟨_, removes⟩ target
      | unlink _ _ after =>
        rw [after] at found
        cases found
      | install atRename dir _ source after =>
        have staged := trusted.isolated.staged pid proc running
        simp only [Staged, atRename] at staged
        obtain ⟨j, full, holds, extracted⟩ := staged
        rw [after] at found
        rw [source, found] at holds
        cases holds
        exact .inl ⟨proc.binary, trusted.isolated.members pid proc running, dir.symm, extracted⟩

/-- Equal digests mean equal archives, among the binaries that run. -/
def CollisionFree (crates : Crates) (fleet : Binary → Prop) : Prop :=
  ∀ a b, fleet a → fleet b → crates.sha256 a.archive = crates.sha256 b.archive →
    a.archive = b.archive

theorem extraction_congr {crates : Crates} (archive : a.archive = b.archive)
    (key : crates.key a = crates.key b) : crates.extraction a = crates.extraction b := by
  simp [Crates.extraction, archive, key]

theorem markerMatches_iff : markerMatches c dir key = true ↔
    ∃ i tree, c.root.lookup dir = some (.dir i tree) ∧ Rootfs.MarkerMatches tree key := by
  unfold markerMatches
  split
  · rename_i found
    simp [found]
  · rename_i other
    constructor
    · intro impossible
      cases impossible
    · rintro ⟨i, tree, found, _⟩
      exact absurd found (other i tree)

theorem rootfsOk_iff : rootfsOk c dir = true ↔
    ∃ i tree, c.root.lookup dir = some (.dir i tree) ∧ Rootfs.Usable tree := by
  unfold rootfsOk
  cases found : c.root.lookup dir with
  | none => simp [Rootfs.checkRootfs]
  | some node =>
    cases node with
    | file contents => simp [Node.tree?, Rootfs.checkRootfs]
    | dir i tree =>
      simp only [Option.bind_some, Node.tree?]
      cases checked : Rootfs.checkRootfs (some tree) <;> simp [Rootfs.Usable, checked]

/-- A cache hit found this binary's own archive, complete. -/
theorem trusted_hit {fleet : Binary → Prop} (free : CollisionFree crates fleet)
    (trusted : Trusted crates fleet s) (running : s.procs.lookup pid = some proc)
    (live : ¬ proc.pc.Returned) (idle : proc.pc.removal proc.binary pid = none)
    (marked : markerMatches s.cache proc.binary.dir (crates.key proc.binary) = true)
    (usable : rootfsOk s.cache proc.binary.dir = true) : Complete crates proc.binary s.cache := by
  obtain ⟨i, tree, found, matched⟩ := markerMatches_iff.mp marked
  obtain ⟨j, same, also, usable⟩ := rootfsOk_iff.mp usable
  rw [found] at also
  cases also
  rcases trusted.explained proc.binary.version i tree found with
    ⟨b, member, dir, extracted⟩ | visible | ⟨q, other, gone, holds, target, _⟩
  · obtain ⟨mode, marker⟩ := extraction_marker extracted
    have key : crates.key b = crates.key proc.binary :=
      Rootfs.MarkerMatches.key_unique ⟨mode, _, marker, trim_key crates b⟩ matched
    have archive := free b proc.binary member (trusted.isolated.members pid proc running)
      (key_digest dir key)
    exact ⟨i, tree, found, (extraction_congr archive key).symm.trans extracted⟩
  · obtain ⟨mode, text, marker, _⟩ := matched
    rcases visible with gone | unusable
    · rw [gone] at marker
      cases marker
    · exact absurd usable unusable
  · have only := trusted.alone q pid other proc holds running (removal_not_returned target) live
    subst only
    rw [running] at holds
    cases holds
    rw [idle] at target
    cases target

/-- Removing something else leaves the version directory complete. -/
theorem complete_frame {crates : Crates} (removes : Removes name at_ choice c outcome d)
    (apart : name ≠ b.dir) (complete : Complete crates b c) : Complete crates b d := by
  obtain ⟨i, full, found, extracted⟩ := complete
  exact ⟨i, full, (removes.frame apart.symm).trans found, extracted⟩

theorem assured_move {crates : Crates} (move : Move crates b pid pc choice c pc' d)
    (staged : Staged crates b pid c pc) (assured : Assured crates b c pc)
    (sweeps : ∀ name at_ names, pc = .sweepRemove name at_ names → name ≠ b.dir)
    (hit : pc.removal b pid = none → markerMatches c b.dir (crates.key b) = true →
      rootfsOk c b.dir = true → Complete crates b c) : Assured crates b d pc' := by
  cases move with
  | firstMarkerHit marked | secondMarkerHit marked => exact marked
  | secondRootfsHit usable => exact ⟨rfl, hit rfl assured usable⟩
  | renamed done =>
    obtain ⟨i, full, holds, extracted⟩ := staged
    obtain ⟨node, source, _, _, root⟩ := Cache.rename_cases done
    rw [holds] at source
    cases source
    exact ⟨i, full, by rw [root, Finmap.lookup_insert], extracted⟩
  | listed | sweepSkip | sweepPick => exact assured
  | sweeping removes => exact complete_frame removes (sweeps _ _ _ rfl) assured
  | sweptOne removes _ => exact complete_frame removes (sweeps _ _ _ rfl) assured
  | dropping removes =>
    rename_i result
    cases result with
    | error e => trivial
    | ok dir => exact ⟨assured.1, complete_frame removes (staging_ne_dir _ _ _).symm assured.2⟩
  | _ => trivial

theorem trusted_step {fleet : Binary → Prop} (free : CollisionFree crates fleet)
    (trusted : Trusted crates fleet s) (sequential : Sequential s action)
    (spawns : Spawns fleet action) (clean : StopsClean s action)
    (taken : step crates s action = some next) : Trusted crates fleet next := by
  refine ⟨isolated_step trusted.isolated spawns taken, alone_step trusted.alone sequential taken,
    fun v i tree found => explained_step trusted sequential clean taken v found, ?_⟩
  refine (step_cases taken).forall_procs
    (fun cache _ proc => Assured crates proc.binary cache proc.pc) trusted.assured
    ?_ ?_ ?_
  · exact fun _ _ _ => trivial
  · intro pid proc choice pc cache _ running move
    refine assured_move move (trusted.isolated.staged pid proc running)
      (trusted.assured pid proc running) ?_ ?_
    · exact fun name at_ names at_pc =>
        (trusted.isolated.orderly.sweeps pid proc name at_ names running at_pc).1
    · exact trusted_hit free trusted running move.not_returned
  · intro pid proc choice pc cache q bystander running apart found move
    -- The others have returned, so there is nothing they rely on.
    by_cases returned : bystander.pc.Returned
    · obtain ⟨result, eq⟩ := returned
      rw [eq]
      trivial
    · exact absurd (trusted.alone q pid bystander proc found running returned move.not_returned)
        apart

/-- The environment of the sequential runs that keep the cache trustworthy. -/
def Undeceived (fleet : Binary → Prop) (s : State) (action : Action) : Prop :=
  Sequential s action ∧ Spawns fleet action ∧ StopsClean s action

instance (s : State) [DecidablePred fleet] : DecidablePred (Undeceived fleet s) :=
  fun _ => inferInstanceAs (Decidable (_ ∧ _ ∧ _))

namespace Sample

/-- The first version is installed, and the second is killed while it sweeps the
first, having deleted one entry. The first is then started again. -/
def killed (path : Text) : List Action :=
  install 7 first ++ [.step 7 (.list [first.text])] ++ proceeds 7 2 ++
  install 8 second ++ [.step 8 (.list [first.text, second.text])] ++ proceeds 8 2 ++
  [.step 8 (.delete path), .kill 8, .spawn 9 ⟨first, archive⟩]

/-- A damaged tree is deleted and replaced. -/
def recovered : List Action :=
  killed Rootfs.marker ++ proceeds 9 23 ++ entries.map (.step 9 <| .delete ·.1) ++ proceeds 9 2

def fleet (b : Binary) : Prop := b.archive = archive

instance : DecidablePred fleet := fun b => inferInstanceAs (Decidable (b.archive = archive))

theorem collisionFree : CollisionFree crates fleet :=
  fun _ _ ha hb _ => Eq.trans ha (Eq.symm hb)

end Sample

end ImageBuilder.RootfsInstall
