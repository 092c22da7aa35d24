import ImageBuilder.RootfsEffects

/-! Staging directories are private to the process that names them, and a version
directory only ever holds what one complete extraction put there. -/
namespace ImageBuilder.RootfsInstall

open RootfsCache Transition

def idle (cache : Cache) : State := ⟨cache, ∅⟩

/-- A step that changes a staging directory is a step of the process it is named for. -/
theorem staging_owner (orderly : Orderly s) (taken : step crates s action = some next)
    (changed : next.cache.root.lookup (stagingName v pid) ≠
      s.cache.root.lookup (stagingName v pid)) :
    ∃ choice proc, action = .step pid choice ∧ s.procs.lookup pid = some proc ∧
      proc.binary.version.text = v.text := by
  cases step_cases taken with
  | spawn | kill => exact absurd rfl changed
  | @move choice cache q proc pc running move =>
    by_cases own : stagingName v pid = proc.binary.staging q
    · obtain ⟨text, rfl⟩ := stagingName_injective own
      exact ⟨choice, proc, rfl, running, text.symm⟩
    · exact absurd (orderly.staging_frame running move own (stagingPrefix_isPrefixOf _ _)) changed

/-- What the staging directory holds at each point of `stage` and up to the rename. -/
def Staged (crates : Crates) (b : Binary) (pid : Nat) (c : Cache) : Pc → Prop
  | .createStaging => c.root.lookup (b.staging pid) = none
  | .openArchive => ∃ i, c.root.lookup (b.staging pid) = some (.dir i ∅)
  | .unpack rest ending false => ∃ done i, crates.decode b.archive = .stream (done ++ rest) ending ∧
      c.root.lookup (b.staging pid) = some (.dir i (unpacked done))
  | .unpack rest ending true => ∃ done path entry tail i,
      crates.decode b.archive = .stream (done ++ rest) ending ∧ rest = (path, entry) :: tail ∧
      c.root.lookup (b.staging pid) =
        some (.dir i ((unpacked done).insert path (Entry.torn entry)))
  | .writeMarker false => ∃ entries i, crates.decode b.archive = .stream entries none ∧
      c.root.lookup (b.staging pid) = some (.dir i (unpacked entries))
  | .writeMarker true => ∃ entries i tree, crates.decode b.archive = .stream entries none ∧
      c.root.lookup (b.staging pid) = some (.dir i tree) ∧
      writeFile (unpacked entries) Rootfs.marker [] = some tree
  | .secondMarker | .secondRootfs | .dirExists | .removeStale _ | .rename =>
      ∃ i tree, c.root.lookup (b.staging pid) = some (.dir i tree) ∧
        crates.extraction b = some tree
  | _ => True

theorem unpacked_snoc (done : List (Text × Entry)) (path : Text) (entry : Entry) :
    unpacked (done ++ [(path, entry)]) = (unpacked done).insert path entry := by
  simp [unpacked]

/-- The marker a complete extraction ends with is the cache key. -/
theorem extraction_marker {crates : Crates} (extracted : crates.extraction b = some full) :
    ∃ mode, full.lookup Rootfs.marker = some (.file mode (.utf8 (crates.key b))) := by
  unfold Crates.extraction at extracted
  split at extracted
  · exact writeFile_lookup extracted
  · cases extracted

theorem extraction_ne_empty {crates : Crates} (extracted : crates.extraction b = some full) :
    full ≠ ∅ := by
  obtain ⟨_, present⟩ := extraction_marker extracted
  exact FiniteMap.ne_empty_of_lookup present

theorem writeMarker_staged (wrote : writeMarker staging text c = .ok d)
    (holds : c.root.lookup staging = some (.dir i tree)) :
    ∃ new, writeFile tree Rootfs.marker text = some new ∧
      d.root.lookup staging = some (.dir i new) := by
  simp only [writeMarker, holds] at wrote
  split at wrote
  · rename_i new written
    cases wrote
    exact ⟨new, written, Cache.modify_lookup_same _ holds⟩
  · cases wrote

theorem Removes.finished_absent (removes : Removes name at_ choice c .finished d) :
    d.root.lookup name = none := by
  cases removes with
  | vanished absent => exact absent
  | unlinked _ => exact Cache.unlink_lookup_same _

theorem staged_congr (same : d.root.lookup (b.staging pid) = c.root.lookup (b.staging pid))
    (staged : Staged crates b pid c pc) : Staged crates b pid d pc := by
  unfold Staged at staged ⊢
  split <;> simp_all

/-- Each operation of `stage` takes the staging directory to what the next expects. -/
theorem staged_move {crates : Crates} (move : Move crates b pid pc choice c pc' d)
    (staged : Staged crates b pid c pc) : Staged crates b pid d pc' := by
  cases move with
  | stagingAbsent absent => exact absent
  | cleared removes => exact removes.finished_absent
  | created absent => exact ⟨c.next, Cache.mkdir_lookup_same _⟩
  | createdAlready found =>
    simp only [Staged] at staged
    rw [found] at staged
    cases staged
  | opened decoded =>
    obtain ⟨i, bare⟩ := staged
    exact ⟨[], i, decoded, bare⟩
  | tore =>
    obtain ⟨done, i, decoded, holds⟩ := staged
    exact ⟨done, _, _, _, i, decoded, rfl, Cache.modify_lookup_same _ holds⟩
  | wrote =>
    rename_i path entry rest ending
    obtain ⟨done, _, _, _, i, decoded, same, holds⟩ := staged
    cases same
    refine ⟨done ++ [(path, entry)], i, by simpa using decoded, ?_⟩
    rw [Cache.modify_lookup_same _ holds, Finmap.insert_insert, unpacked_snoc]
  | streamEnded =>
    rename_i torn
    cases torn with
    | false =>
      obtain ⟨done, i, decoded, holds⟩ := staged
      exact ⟨done, i, by simpa using decoded, holds⟩
    | true =>
      obtain ⟨_, _, _, _, _, _, same, _⟩ := staged
      cases same
  | markerTorn wrote =>
    obtain ⟨entries, i, decoded, holds⟩ := staged
    obtain ⟨new, written, now⟩ := writeMarker_staged wrote holds
    exact ⟨entries, i, new, decoded, now, written⟩
  | markerWritten wrote =>
    obtain ⟨entries, i, tree, decoded, holds, written⟩ := staged
    obtain ⟨new, rewritten, now⟩ := writeMarker_staged wrote holds
    refine ⟨i, new, now, ?_⟩
    rw [Crates.extraction, decoded, ← rewritten, writeFile_twice written]
  | secondMarkerHit | secondMarkerMiss | secondRootfsMiss | dirPresent | dirAbsent => exact staged
  | removing removes | removed removes =>
    obtain ⟨i, tree, holds, extracted⟩ := staged
    exact ⟨i, tree, (removes.frame (staging_ne_dir _ _ _).symm).trans holds, extracted⟩
  | _ => trivial

/-- Other processes leave what a process has staged. -/
theorem staged_step (orderly : Orderly s)
    (held : ∀ q proc, s.procs.lookup q = some proc → Staged crates proc.binary q s.cache proc.pc)
    (taken : step crates s action = some next) :
    ∀ q proc, next.procs.lookup q = some proc → Staged crates proc.binary q next.cache proc.pc := by
  refine (step_cases taken).forall_procs
    (fun cache q proc => Staged crates proc.binary q cache proc.pc) held ?_ ?_ ?_
  · exact fun _ _ _ => trivial
  · exact fun pid proc _ _ _ _ running move => staged_move move (held pid proc running)
  · intro pid proc choice pc cache q bystander running apart found move
    have theirs : bystander.binary.staging q ≠ proc.binary.staging pid :=
      fun eq => apart (stagingName_injective eq).2
    exact staged_congr (orderly.staging_frame running move theirs (stagingPrefix_isPrefixOf _ _))
      (held q bystander found)

/-- Every version directory holds part of one complete extraction for that version. -/
def Extracted (crates : Crates) (fleet : Binary → Prop) (c : Cache) : Prop :=
  ∀ (v : Version) i tree, c.root.lookup v.text = some (.dir i tree) →
    ∃ b full, fleet b ∧ b.dir = v.text ∧ crates.extraction b = some full ∧ FiniteMap.Sub tree full

structure Isolated (crates : Crates) (fleet : Binary → Prop) (s : State) : Prop where
  orderly : Orderly s
  members : ∀ q proc, s.procs.lookup q = some proc → fleet proc.binary
  staged : ∀ q proc, s.procs.lookup q = some proc → Staged crates proc.binary q s.cache proc.pc
  extracted : Extracted crates fleet s.cache

theorem isolated_idle (crates : Crates) (fleet : Binary → Prop) :
    Isolated crates fleet (idle Cache.empty) :=
  ⟨orderly_idle _, by simp [idle], by simp [idle], by simp [Extracted, idle, Cache.empty]⟩

theorem extracted_move {crates : Crates} {fleet : Binary → Prop}
    (move : Move crates b pid pc choice c pc' d) (member : fleet b)
    (staged : Staged crates b pid c pc) (held : Extracted crates fleet c) :
    Extracted crates fleet d := by
  intro v i tree found
  cases move.effect.version (version_not_staging v) with
  | same eq => exact held v i tree (eq ▸ found)
  | delete _ before _ after =>
    rw [after] at found
    cases found
    obtain ⟨origin, full, known, dir, extracted, sub⟩ := held v _ _ before
    exact ⟨origin, full, known, dir, extracted, (FiniteMap.Sub.erase _ _).trans sub⟩
  | unlink _ _ after =>
    rw [after] at found
    cases found
  | install atRename dir _ source after =>
    subst atRename
    obtain ⟨j, full, holds, extracted⟩ := staged
    rw [after] at found
    rw [source, found] at holds
    cases holds
    exact ⟨b, _, member, dir.symm, extracted, FiniteMap.Sub.refl _⟩

/-- Spawning is limited to a fleet of binaries; everything else is unrestricted. -/
def Spawns (fleet : Binary → Prop) : Action → Prop
  | .spawn _ b => fleet b
  | .step _ _ | .kill _ => True

instance [DecidablePred fleet] : DecidablePred (Spawns fleet)
  | .spawn _ b => inferInstanceAs (Decidable (fleet b))
  | .step _ _ | .kill _ => isTrue trivial

theorem isolated_step {fleet : Binary → Prop} (isolated : Isolated crates fleet s)
    (spawns : Spawns fleet action) (taken : step crates s action = some next) :
    Isolated crates fleet next := by
  refine ⟨orderly_step isolated.orderly taken, ?_,
    staged_step isolated.orderly isolated.staged taken, ?_⟩
  · refine (step_cases taken).forall_procs (fun _ _ proc => fleet proc.binary)
      isolated.members ?_ ?_ ?_
    · rintro pid b rfl
      exact spawns
    · exact fun pid proc _ _ _ _ running _ => isolated.members pid proc running
    · exact fun _ _ _ _ _ q bystander _ _ found _ => isolated.members q bystander found
  · cases step_cases taken with
    | spawn | kill => exact isolated.extracted
    | move pid proc pc running move =>
      exact extracted_move move (isolated.members pid proc running)
        (isolated.staged pid proc running) isolated.extracted

theorem isolated_run {fleet : Binary → Prop}
    (run : Run (step crates) allowed (idle Cache.empty) actions s)
    (spawns : ∀ s action, allowed s action → Spawns fleet action) : Isolated crates fleet s :=
  run.invariant (Isolated crates fleet)
    (fun _ _ _ isolated permits taken => isolated_step isolated (spawns _ _ permits) taken)
    (isolated_idle crates fleet)

namespace Sample

/-- A compressed tarball of an executable `vm-build` and a `bin/buildah`. -/
def archive : List UInt8 := [
  40, 181, 47, 253, 96, 0, 9, 77, 3, 0, 130, 4, 15, 18, 128, 219, 1, 96, 131, 125, 199, 206, 192,
  18, 123, 83, 97, 170, 108, 48, 39, 3, 230, 255, 255, 86, 153, 144, 53, 120, 86, 140, 14, 161, 174,
  107, 113, 63, 116, 50, 63, 230, 253, 62, 230, 127, 35, 164, 222, 46, 66, 204, 136, 204, 101, 66,
  86, 226, 106, 52, 150, 106, 113, 16, 32, 80, 47, 187, 13, 10, 84, 0, 79, 5, 99, 84, 82, 29, 158, 1,
  166, 1, 16, 219, 231, 34, 242, 66, 17, 126, 2, 166, 167, 56, 40, 121, 192, 37, 2, 7, 5, 88, 69, 189,
  24]

def entries : List (Text × Entry) := [
  ("usr", .other), ("usr/local", .other), ("usr/local/bin", .other),
  ("usr/local/bin/vm-build", .file 0o755 (.utf8 "#!/bin/sh\n")),
  ("bin", .other), ("bin/buildah", .file 0o755 (.utf8 ""))]

/-- The libraries as they answer for this archive; no other is looked at. -/
def crates : Crates where
  sha256 _ := [50, 35, 94, 132, 117, 47, 160, 205, 125, 203, 198, 120, 155, 188, 179, 41, 107, 223,
    49, 224, 131, 164, 224, 154, 65, 66, 45, 79, 159, 250, 143, 251]
  decode _ := .stream entries none

def first : Version := ⟨"0.1.0", ⟨'0', ".1.0".toList, by decide, by decide⟩, by simp⟩

def second : Version := ⟨"0.2.0", ⟨'0', ".2.0".toList, by decide, by decide⟩, by simp⟩

def proceeds (pid : Nat) (n : Nat) : List Action := List.replicate n (.step pid .proceed)

/-- A process that runs alone up to its sweep. -/
def install (pid : Nat) (version : Version) : List Action :=
  .spawn pid ⟨version, archive⟩ :: proceeds pid 23

end Sample

end ImageBuilder.RootfsInstall
