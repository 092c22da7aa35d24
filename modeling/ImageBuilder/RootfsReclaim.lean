import ImageBuilder.RootfsFailure

/-! What is left directly under the root after a history of runs, none overlapping
another and each killed at any point, once a run has swept. -/
namespace ImageBuilder.RootfsInstall

open RootfsCache Transition

/-- Only this process moves, and nothing fails. -/
def Alone (pid : Nat) (s : State) : Action → Prop
  | .step q choice => q = pid ∧ ∀ proc ∈ s.procs.lookup pid, Undisturbed (proc.pc, s.cache) choice
  | .spawn _ _ | .kill _ => False

/-- A process's staging directory exists from its creation to its rename or clean-up. -/
def Pc.Owns : Pc → Prop
  | .openArchive | .unpack _ _ _ | .writeMarker _ | .secondMarker | .secondRootfs | .dirExists
  | .removeStale _ | .rename | .dropStaging _ _ => True
  | _ => False

def DirAt (c : Cache) (name : Text) : Prop := ∃ i tree, c.root.lookup name = some (.dir i tree)

/-- The staging directory `name` is left behind: its process is killed, or fails to clean up. -/
def LeavesBehind (name : Text) (s : State) : Action → Prop
  | .kill pid => DirAt s.cache name ∧
      ∃ proc, s.procs.lookup pid = some proc ∧ name = proc.binary.staging pid ∧ proc.pc.Owns
  | .step pid choice => DirAt s.cache name ∧
      ∃ proc at_ result e d, s.procs.lookup pid = some proc ∧ name = proc.binary.staging pid ∧
        proc.pc = .dropStaging at_ result ∧
        removeDirAll name at_ choice s.cache = some (.failed e, d)
  | .spawn _ _ => False

/-- A run of the machine in which only one process moves is a run of that process alone. -/
theorem solo_run (run : Run (step crates) (Alone pid) s actions t)
    (running : s.procs.lookup pid = some ⟨b, pc⟩) :
    ∃ choices pc', t.procs.lookup pid = some ⟨b, pc'⟩ ∧
      Run (solo crates b pid) Undisturbed (pc, s.cache) choices (pc', t.cache) := by
  induction run generalizing pc with
  | nil => exact ⟨[], pc, running, .nil⟩
  | @cons s action next rest final permits taken _ ih =>
    cases action with
    | spawn | kill => exact permits.elim
    | step q choice =>
      obtain ⟨rfl, undisturbed⟩ := permits
      simp only [step, running] at taken
      obtain ⟨⟨pc', cache⟩, advanced, rfl⟩ := Option.map_eq_some_iff.mp taken
      obtain ⟨choices, last, stands, tail⟩ := ih (Finmap.lookup_insert _)
      exact ⟨choice :: choices, last, stands, .cons (undisturbed _ running) advanced tail⟩

/-- What holds of every state that runs one after the other lead to. -/
structure Tidy (crates : Crates) (s : State) : Prop where
  orderly : Orderly s
  alone : ∀ p q x y, s.procs.lookup p = some x → s.procs.lookup q = some y →
    ¬ x.pc.Returned → ¬ y.pc.Returned → p = q
  staged : ∀ q proc, s.procs.lookup q = some proc → Staged crates proc.binary q s.cache proc.pc
  installed : ∀ q proc, s.procs.lookup q = some proc → proc.pc = .readRoot →
    s.cache.root.lookup (proc.binary.staging q) = none ∧ DirAt s.cache proc.binary.dir

theorem tidy_idle (crates : Crates) (cache : Cache) : Tidy crates (idle cache) :=
  ⟨orderly_idle cache, by simp [idle], by simp [idle], by simp [idle]⟩

theorem Removes.dirAt (removes : Removes name at_ choice c outcome d) (found : DirAt d m) :
    DirAt c m := by
  obtain ⟨i, tree, found⟩ := found
  cases removes with
  | opened | missing | vanished | replaced | failed => exact ⟨i, tree, found⟩
  | deleted => exact ⟨i, Cache.modify_dir_origin c found⟩
  | unlinked => exact ⟨i, tree, (FiniteMap.lookup_erase_some.mp found).2⟩

theorem installed_move {crates : Crates} (move : Move crates b pid pc choice c .readRoot d)
    (staged : Staged crates b pid c pc) : d.root.lookup (b.staging pid) = none ∧ DirAt d b.dir := by
  cases move with
  | renamed done =>
    obtain ⟨i, tree, found, _⟩ := staged
    obtain ⟨node, source, _, _, root⟩ := Cache.rename_cases done
    rw [found] at source
    cases source
    refine ⟨?_, i, tree, by rw [root, Finmap.lookup_insert]⟩
    rw [root, Finmap.lookup_insert_of_ne _ (dir_ne_staging b pid).symm, Finmap.lookup_erase]

theorem tidy_step (tidy : Tidy crates s) (sequential : Sequential s action)
    (taken : step crates s action = some next) : Tidy crates next := by
  refine ⟨orderly_step tidy.orderly taken, alone_step tidy.alone sequential taken,
    staged_step tidy.orderly tidy.staged taken, ?_⟩
  refine (step_cases taken).forall_procs (fun cache q proc => proc.pc = .readRoot →
    cache.root.lookup (proc.binary.staging q) = none ∧ DirAt cache proc.binary.dir)
    tidy.installed ?_ ?_ ?_
  · exact fun _ _ _ impossible => by cases impossible
  · rintro pid proc choice pc cache _ running move rfl
    exact installed_move move (tidy.staged pid proc running)
  · intro pid proc choice pc cache q bystander running apart found move at_readRoot
    have live : ¬ bystander.pc.Returned := by
      rintro ⟨result, at_returned⟩
      rw [at_readRoot] at at_returned
      cases at_returned
    exact absurd (tidy.alone q pid bystander proc found running live move.not_returned) apart

/-- The owner of a staging directory is still at work, if there is one. -/
def Owned (name : Text) (s : State) : Prop :=
  DirAt s.cache name → ∃ q proc, s.procs.lookup q = some proc ∧ name = proc.binary.staging q ∧
    proc.pc.Owns

/-- A process comes by its staging directory only as its owner, and parts with it only by
renaming it, by removing it, or in failing to. -/
theorem owns_move (move : Move crates b pid pc choice c pc' d) (found : DirAt d (b.staging pid)) :
    pc'.Owns ∨ (¬ pc.Owns ∧ DirAt c (b.staging pid)) ∨ ∃ at_ result, pc = .dropStaging at_ result := by
  cases move with
  | notEmbedded | begin_ | firstMarkerHit | firstMarkerMiss | firstRootfsHit | firstRootfsMiss
  | stagingPresent | stagingAbsent | listed | unlisted | swept | sweepSkip | sweepPick =>
    exact .inr (.inl ⟨id, found⟩)
  | clearing removes | cleared removes | sweeping removes | sweptOne removes =>
    exact .inr (.inl ⟨id, removes.dirAt found⟩)
  | renamed done =>
    obtain ⟨i, tree, found⟩ := found
    obtain ⟨_, _, _, _, root⟩ := Cache.rename_cases done
    rw [root, Finmap.lookup_insert_of_ne _ (dir_ne_staging b pid).symm, Finmap.lookup_erase] at found
    cases found
  | dropping | dropped => exact .inr (.inr ⟨_, _, rfl⟩)
  | clearFailed | created | createdAlready | createFailed | unreadable | opened | tore | wrote
  | streamEnded | unpackFailed | markerTorn | markerWritten | markerFailed | secondMarkerHit
  | secondMarkerMiss | secondRootfsHit | secondRootfsMiss | dirPresent | dirAbsent | removing
  | removed | removeFailed | renameFailed => exact .inl trivial

theorem owned_drop {crates : Crates} {proc : Process}
    (running : s.procs.lookup pid = some proc) (dropping : proc.pc = .dropStaging at_ result)
    (taken : step crates s (.step pid choice) = some next) :
    Owned (proc.binary.staging pid) next ∨
      LeavesBehind (proc.binary.staging pid) s (.step pid choice) := by
  simp only [step, running, dropping] at taken
  obtain ⟨⟨pc, cache⟩, advanced, rfl⟩ := Option.map_eq_some_iff.mp taken
  obtain ⟨⟨outcome, d⟩, removed, answer⟩ := Option.map_eq_some_iff.mp advanced
  have removes := removeDirAll_cases removed
  cases outcome with
  | running at_ =>
    cases answer
    exact .inl fun _ => ⟨pid, _, Finmap.lookup_insert _, rfl, trivial⟩
  | finished =>
    cases answer
    refine .inl fun held => ?_
    obtain ⟨i, tree, found⟩ := held
    rw [removes.finished_absent] at found
    cases found
  | failed e =>
    cases answer
    by_cases left : DirAt s.cache (proc.binary.staging pid)
    · exact .inr ⟨left, proc, _, _, _, _, running, rfl, dropping, removed⟩
    · exact .inl fun found => absurd (removes.dirAt found) left

theorem owned_step (tidy : Tidy crates s) (prefixed : stagingPrefix.isPrefixOf name = true)
    (owned : Owned name s) (taken : step crates s action = some next) :
    Owned name next ∨ LeavesBehind name s action := by
  cases step_cases taken with
  | @spawn pid b free =>
    refine .inl fun found => ?_
    obtain ⟨q, proc, running, rfl, owns⟩ := owned found
    have apart : q ≠ pid := by
      rintro rfl
      obtain ⟨result, returned⟩ := free proc running
      rw [returned] at owns
      exact owns
    exact ⟨q, proc, (Finmap.lookup_insert_of_ne _ apart).trans running, rfl, owns⟩
  | @kill pid =>
    by_cases found : DirAt s.cache name
    · obtain ⟨q, proc, running, rfl, owns⟩ := owned found
      by_cases same : q = pid
      · subst same
        exact .inr ⟨found, proc, running, rfl, owns⟩
      · exact .inl fun _ => ⟨q, proc, (Finmap.lookup_erase_ne same).trans running, rfl, owns⟩
    · exact .inl fun still => absurd still found
  | @move choice cache pid proc pc running move =>
    by_cases own : name = proc.binary.staging pid
    · subst own
      by_cases dropping : ∃ at_ result, proc.pc = .dropStaging at_ result
      · obtain ⟨at_, result, dropping⟩ := dropping
        exact owned_drop running dropping taken
      · refine .inl fun found => ?_
        rcases owns_move move found with owns | ⟨idle, found⟩ | impossible
        · exact ⟨pid, _, Finmap.lookup_insert _, rfl, owns⟩
        · obtain ⟨q, other, held, same, owns⟩ := owned found
          obtain ⟨_, rfl⟩ := stagingName_injective same
          rw [running] at held
          cases held
          exact absurd owns idle
        · exact absurd impossible dropping
    · refine .inl fun ⟨i, tree, found⟩ => ?_
      rw [tidy.orderly.staging_frame running move own prefixed] at found
      obtain ⟨q, other, held, rfl, owns⟩ := owned ⟨i, tree, found⟩
      have apart : q ≠ pid := by
        rintro rfl
        rw [running] at held
        cases held
        exact own rfl
      exact ⟨q, other, (Finmap.lookup_insert_of_ne _ apart).trans held, rfl, owns⟩

theorem returned_stuck (crates : Crates) (b : Binary) (pid : Nat) (result : Except InstallError Text)
    (c : Cache) (choice : Choice) (next : Pc × Cache) :
    solo crates b pid (.returned result, c) choice ≠ some next := by
  intro taken
  cases advance_cases taken

/-- Whatever a sweep meets in which order, it ends with what it is to remove gone. -/
theorem solo_swept {crates : Crates} (rest : Run (step crates) (Alone pid) s sweep t)
    (installed : s.procs.lookup pid = some ⟨b, .readRoot⟩)
    (returned : t.procs.lookup pid = some ⟨b, .returned result⟩) :
    result = .ok b.dir ∧ ∀ name, t.cache.root.lookup name =
      if Sweeps b s.cache name then none else s.cache.root.lookup name := by
  obtain ⟨choices, pc, stands, alone⟩ := solo_run rest installed
  rw [returned] at stands
  cases stands
  have swept : Certain crates b pid (fun r => r.1 = .returned (.ok b.dir) ∧ ∀ name,
      r.2.root.lookup name = if Sweeps b s.cache name then none else s.cache.root.lookup name)
      (.readRoot, s.cache) := certain_readRoot fun d swept => .here ⟨rfl, swept⟩
  have done := swept.of_stuck (by
    rintro ⟨pc, c⟩ choice next ⟨at_pc, _⟩
    rw [show pc = _ from at_pc]
    exact returned_stuck crates b pid _ c choice next) alone
    (fun choice next => returned_stuck crates b pid _ _ choice next)
  obtain ⟨same, swept⟩ := done
  cases same
  exact ⟨rfl, swept⟩

/-- A staging directory that stands when a sweep starts was there from the first, or was
left behind. -/
theorem staging_origin {crates : Crates} {c₀ : Cache}
    (history : Run (step crates) Sequential (idle c₀) actions s)
    (installed : s.procs.lookup pid = some ⟨b, .readRoot⟩)
    (prefixed : stagingPrefix.isPrefixOf name = true) (found : DirAt s.cache name) :
    DirAt c₀ name ∨ Occurs (step crates) (LeavesBehind name) (idle c₀) actions := by
  have tidy : Tidy crates s := history.invariant (Tidy crates)
    (fun _ _ _ held permits taken => tidy_step held permits taken) (tidy_idle crates c₀)
  refine or_iff_not_imp_left.mpr fun later => ?_
  have traced := history.held_or_occurs (LeavesBehind name) (Tidy crates) (Owned name)
    (fun _ _ _ held permits taken => tidy_step held permits taken)
    (fun _ _ _ tidy owned _ taken => owned_step tidy prefixed owned taken)
    (tidy_idle crates c₀) (fun early => absurd early later)
  refine traced.resolve_left fun owned => ?_
  obtain ⟨q, proc, running, rfl, owns⟩ := owned found
  have live : ¬ proc.pc.Returned := by
    rintro ⟨result, at_returned⟩
    rw [at_returned] at owns
    exact owns
  obtain rfl : q = pid := tidy.alone q pid proc _ running installed live fun ⟨_, at_pc⟩ => by
    cases at_pc
  rw [installed] at running
  cases running
  exact owns

/-- After any history of runs, none overlapping another, a run that renames its tree into
place and sweeps without a failure leaves its version directory and no other directory
but staging directories. Each of those was there at first, or is named for a run that
was killed or failed to clean up while it had it; none is its own. -/
theorem cache_reclaimed {crates : Crates} {c₀ : Cache}
    (history : Run (step crates) Sequential (idle c₀) actions s)
    (installed : s.procs.lookup pid = some ⟨b, .readRoot⟩)
    (rest : Run (step crates) (Alone pid) s sweep t)
    (returned : t.procs.lookup pid = some ⟨b, .returned result⟩) :
    result = .ok b.dir ∧ DirAt t.cache b.dir ∧ ¬ DirAt t.cache (b.staging pid) ∧
    ∀ name, DirAt t.cache name → name ≠ b.dir → stagingPrefix.isPrefixOf name = true ∧
      (DirAt c₀ name ∨ Occurs (step crates) (LeavesBehind name) (idle c₀) actions) := by
  have tidy : Tidy crates s := history.invariant (Tidy crates)
    (fun _ _ _ held permits taken => tidy_step held permits taken) (tidy_idle crates c₀)
  obtain ⟨absent, dir⟩ := tidy.installed pid _ installed rfl
  obtain ⟨rfl, swept⟩ := solo_swept rest installed returned
  have kept (name : Text) (found : DirAt t.cache name) :
      ¬ Sweeps b s.cache name ∧ DirAt s.cache name := by
    obtain ⟨i, tree, found⟩ := found
    rw [swept] at found
    split at found
    · cases found
    · rename_i keeps
      exact ⟨keeps, i, tree, found⟩
  refine ⟨rfl, ?_, ?_, ?_⟩
  · obtain ⟨i, tree, found⟩ := dir
    exact ⟨i, tree, by rw [swept, if_neg fun sweeps => sweeps.1 rfl, found]⟩
  · intro found
    obtain ⟨_, i, tree, found⟩ := kept _ found
    rw [absent] at found
    cases found
  · intro name found notDir
    obtain ⟨keeps, found⟩ := kept name found
    have prefixed : stagingPrefix.isPrefixOf name = true := by
      by_contra plain
      exact keeps ⟨notDir, isDir_iff.mpr found, Bool.eq_false_iff.mpr plain⟩
    exact ⟨prefixed, staging_origin history installed prefixed found⟩

instance (pid : Nat) (s : State) : DecidablePred (Alone pid s)
  | .step q _ => inferInstanceAs (Decidable (q = pid ∧ ∀ proc ∈ s.procs.lookup pid, _))
  | .spawn _ _ | .kill _ => isFalse id

namespace Sample

/-- A process is killed while it unpacks, and another installs the same version. -/
def interrupted : List Action :=
  .spawn 7 build :: proceeds 7 6 ++ .kill 7 :: install 8 first

def lastSweep : List Action :=
  .step 8 (.list [first.text, stagingName first 7]) :: proceeds 8 3

set_option maxRecDepth 8000 in
theorem interrupted_swept : ∃ s t b, Run (step crates) Sequential (idle Cache.empty) interrupted s ∧
    s.procs.lookup 8 = some ⟨b, .readRoot⟩ ∧ Run (step crates) (Alone 8) s lastSweep t ∧
    t.procs.lookup 8 = some ⟨b, .returned (.ok b.dir)⟩ ∧ b.dir = first.text ∧
    DirAt t.cache (stagingName first 7) := by
  have evaluated : ((execute (step crates) Sequential interrupted (idle Cache.empty)).map fun s =>
      (s.procs.lookup 8).map fun proc => (execute (step crates) (Alone 8) lastSweep s).map fun t =>
        (t.procs.lookup 8).map fun last => decide (proc.pc = .readRoot ∧
          last.pc = .returned (.ok proc.binary.dir) ∧ proc.binary.dir = first.text ∧
          isDir t.cache (stagingName first 7) = true)) = some (some (some (some true))) := by
    decide
  obtain ⟨s, executed, evaluated⟩ := Option.map_eq_some_iff.mp evaluated
  obtain ⟨⟨b, pc⟩, running, evaluated⟩ := Option.map_eq_some_iff.mp evaluated
  obtain ⟨t, swept, evaluated⟩ := Option.map_eq_some_iff.mp evaluated
  obtain ⟨⟨owner, last⟩, found, evaluated⟩ := Option.map_eq_some_iff.mp evaluated
  obtain ⟨rfl, rfl, dir, left⟩ := of_decide_eq_true evaluated
  have rest := Run.of_execute swept
  obtain ⟨_, _, stands, _⟩ := solo_run rest running
  rw [found] at stands
  cases stands
  exact ⟨s, t, b, Run.of_execute executed, running, rest, found, dir, isDir_iff.mp left⟩

end Sample

theorem cache_reclaimed_interrupted : ∃ t : State,
    DirAt t.cache Sample.first.text ∧ ∀ name, DirAt t.cache name → name ≠ Sample.first.text →
      Occurs (step Sample.crates) (LeavesBehind name) (idle Cache.empty) Sample.interrupted := by
  obtain ⟨s, t, b, history, installed, rest, returned, dir, _⟩ := Sample.interrupted_swept
  obtain ⟨_, present, _, others⟩ := cache_reclaimed history installed rest returned
  rw [dir] at present others
  refine ⟨t, present, fun name found apart => ?_⟩
  refine (others name found apart).2.resolve_left ?_
  rintro ⟨i, tree, impossible⟩
  cases impossible

/-- A staging directory whose process was killed stays, whatever is installed later. -/
theorem killed_staging_kept : ∃ s t b,
    Run (step Sample.crates) Sequential (idle Cache.empty) Sample.interrupted s ∧
    s.procs.lookup 8 = some ⟨b, .readRoot⟩ ∧ Run (step Sample.crates) (Alone 8) s Sample.lastSweep t ∧
    t.procs.lookup 8 = some ⟨b, .returned (.ok b.dir)⟩ ∧
    ∃ name, name ≠ b.dir ∧ DirAt t.cache name := by
  obtain ⟨s, t, b, history, installed, rest, returned, _, left⟩ := Sample.interrupted_swept
  exact ⟨s, t, b, history, installed, rest, returned, _, (staging_ne_dir _ _ _).symm, left⟩

end ImageBuilder.RootfsInstall
