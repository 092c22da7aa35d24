import ImageBuilder.RootfsReclaim
import Mathlib.Data.List.Destutter

/-! Runs of `install` one after the other: the cache holds the rootfs of the last one, so an
archive is unpacked whenever the build changes from one run to the next, and only then. -/
namespace ImageBuilder.RootfsInstall

open RootfsCache Transition

/-- The archive unpacks to a rootfs that passes the check. -/
structure Ready (crates : Crates) (b : Binary) (entries : List (Text × Entry)) : Prop where
  embedded : b.archive ≠ []
  decoded : crates.decode b.archive = .stream entries none
  plain : (unpacked entries).lookup Rootfs.marker ≠ some .other
  usable : Rootfs.Usable (unpacked entries)

/-- The names that `install` uses. -/
def Reserved (name : Text) : Prop :=
  stagingPrefix.isPrefixOf name = true ∨ ∃ v : Version, name = v.text

/-- Nothing but directories has one of these names. -/
def Plain (c : Cache) : Prop :=
  ∀ name contents, Reserved name → c.root.lookup name ≠ some (.file contents)

theorem Plain.replaceable (plain : Plain c) (reserved : Reserved name) : Replaceable c name := by
  cases found : c.root.lookup name with
  | none => exact .inl found
  | some node =>
    cases node with
    | dir i tree => exact .inr ⟨i, tree, found⟩
    | file contents => exact absurd found (plain name contents reserved)

theorem Plain.move (plain : Plain c) (move : Move crates b pid pc choice c pc' d) : Plain d := by
  intro name contents reserved found
  rcases move.effect.node_origin found with ⟨old, before, rfl | ⟨_, _, _, _, same⟩⟩ |
    ⟨_, _, _, same⟩ | ⟨_, staged⟩
  · exact plain name contents reserved before
  · cases same
  · cases same
  · exact plain _ contents (.inl (stagingPrefix_isPrefixOf _ _)) staged

/-- Where a run has not touched a version directory, be it killed there or stopped by an error. -/
def Pc.Early : Pc → Prop
  | .start | .firstMarker | .firstRootfs | .stagingExists | .clearStaging _ | .createStaging
  | .openArchive | .unpack _ _ _ | .writeMarker _ | .secondMarker | .secondRootfs
  | .dirExists => True
  | .dropStaging _ (.error e) | .returned (.error e) => e.inStage = true
  | .removeStale _ | .rename | .readRoot | .sweep _ | .sweepRemove _ _ _ | .dropStaging _ (.ok _)
  | .returned (.ok _) => False

theorem untouched_refl (b : Binary) (pid : Nat) (c : Cache) : Untouched b pid c c := fun _ _ => rfl

theorem Contained.untouched (contained : Contained b pid before after)
    (same : after.root.lookup b.dir = before.root.lookup b.dir) : Untouched b pid before after := by
  intro name apart
  by_cases dir : name = b.dir
  · rw [dir, same]
  · exact contained.others name dir apart

theorem untouched_of_early (differs : Differs b pid before after pc) (early : pc.Early) :
    Untouched b pid before after := by
  cases pc with
  | start =>
    obtain rfl : after = before := differs
    exact untouched_refl b pid after
  | firstMarker | firstRootfs | stagingExists =>
    obtain ⟨_, rfl⟩ := differs
    exact untouched_refl b pid after
  | clearStaging | createStaging | openArchive | unpack | writeMarker | secondMarker
  | secondRootfs | dirExists => exact differs.2
  | dropStaging at_ result =>
    cases result with
    | ok => exact early.elim
    | error e => exact differs.2.1.untouched (differs.2.2 early)
  | returned result =>
    cases result with
    | ok => exact early.elim
    | error e =>
      by_cases bare : b.archive = []
      · rw [Differs, if_pos bare] at differs
        rw [differs.2]
        exact untouched_refl b pid before
      · rw [Differs, if_neg bare] at differs
        exact differs.contained.untouched (differs.stage early)
  | removeStale | rename | readRoot | sweep | sweepRemove => exact early.elim

theorem certain_install {c : Cache} (ready : Ready crates b entries) (dir : Replaceable c b.dir)
    (staging : Replaceable c (b.staging pid)) :
    Certain crates b pid (fun s => s.1 = .returned (.ok b.dir) ∧ (Hit crates b c → s.2 = c) ∧
      (¬ Hit crates b c → ∃ full, Installed b pid full c s.2 ∧ Hit crates b s.2)) (.start, c) := by
  obtain ⟨full, wrote⟩ := writeFile_of_plain ready.plain (crates.key b)
  apply certain_start ready.embedded
  · exact fun hit => .here ⟨rfl, fun _ => rfl, fun miss => absurd hit miss⟩
  · intro miss
    apply certain_stage staging ready.decoded wrote
    intro staged i root
    have here : staged.root.lookup b.dir = c.root.lookup b.dir := by
      rw [root, Finmap.lookup_insert_of_ne _ (dir_ne_staging b pid)]
    apply certain_replace (by rwa [hit_congr here]) (by rw [root, Finmap.lookup_insert])
      (by rwa [Replaceable, here])
    intro replaced moved
    rw [root, FiniteMap.erase_insert] at moved
    apply certain_readRoot
    intro d swept
    have installed := installed_of_swept dir staging moved swept
    exact .here ⟨rfl, fun hit => absurd hit miss, fun _ =>
      ⟨full, installed, installed_hit wrote ready.usable installed⟩⟩

/-- What a run that has returned has done. -/
theorem solo_installed {c : Cache} (ready : Ready crates b entries) (plain : Plain c)
    (run : Run (solo crates b pid) Undisturbed (.start, c) choices (.returned result, d)) :
    result = .ok b.dir ∧ (Hit crates b c → d = c) ∧
      (¬ Hit crates b c → ∃ full, Installed b pid full c d ∧ Hit crates b d) := by
  have dir : Replaceable c b.dir := plain.replaceable (.inr ⟨b.version, rfl⟩)
  have staging : Replaceable c (b.staging pid) :=
    plain.replaceable (.inl (stagingPrefix_isPrefixOf _ _))
  obtain ⟨same, kept, installed⟩ := (certain_install ready dir staging).of_stuck (by
    rintro ⟨pc, c⟩ choice next ⟨at_pc, _⟩
    rw [show pc = _ from at_pc]
    exact returned_stuck crates b pid _ c choice next) run
    (fun choice next => returned_stuck crates b pid _ _ choice next)
  cases same
  exact ⟨rfl, kept, installed⟩

theorem plain_attempt (plain : Plain s.2) (taken : attempt crates b pid s choice = some next) :
    Plain next.2 := by
  obtain ⟨pc, c⟩ := s
  rcases attempt_cases taken with ⟨_, rfl⟩ | taken
  · exact plain
  · exact plain.move (advance_cases taken)

/-- The run gets to unpack its archive. -/
def Unpacks (crates : Crates) (b : Binary) (pid : Nat) (c : Cache) (choices : List Choice) : Prop :=
  Occurs (solo crates b pid) (fun s _ => s.1 = .openArchive) (.start, c) choices

/-- Runs one after the other that nothing disturbs, and how many of them unpacked. In between,
other runs are killed, or fail, before they come to a version directory. -/
inductive History (crates : Crates) : Cache → List Binary → Nat → Cache → Prop where
  | done : History crates c [] 0 c
  | aborted : Run (attempt crates b pid) (CleansUp b pid) (.start, c) choices (pc, d) → pc.Early →
      History crates d builds n e → History crates c builds n e
  | reused : Run (solo crates b pid) Undisturbed (.start, c) choices (.returned result, d) →
      ¬ Unpacks crates b pid c choices → History crates d builds n e →
      History crates c (b :: builds) n e
  | extracted : Run (solo crates b pid) Undisturbed (.start, c) choices (.returned result, d) →
      Unpacks crates b pid c choices → History crates d builds n e →
      History crates c (b :: builds) (n + 1) e

/-- The cache between two runs: it holds the rootfs of the last build, and of no other. -/
structure Holds (crates : Crates) (last : Option Binary) (c : Cache) : Prop where
  plain : Plain c
  directories : ∀ name i tree, c.root.lookup name = some (.dir i tree) →
    stagingPrefix.isPrefixOf name = true ∨ ∃ b ∈ last, name = b.dir
  hit : ∀ b ∈ last, Hit crates b c

theorem dir_of_key {crates : Crates} (same : crates.key a = crates.key b) : a.dir = b.dir := by
  rw [Crates.key, Crates.key, cacheKey, cacheKey, trim_hex, trim_hex] at same
  exact (cacheKey_injective same).1

/-- A hit is on the last build. -/
theorem Holds.hit_iff (holds : Holds crates last c) :
    Hit crates b c ↔ ∃ a ∈ last, crates.key a = crates.key b := by
  constructor
  · rintro ⟨marked, _⟩
    obtain ⟨i, tree, found, matched⟩ := markerMatches_iff.mp marked
    rcases holds.directories _ _ _ found with staging | ⟨a, same, dir⟩
    · simp [Binary.dir, version_not_staging] at staging
    · refine ⟨a, same, ?_⟩
      obtain ⟨j, also, there, theirs⟩ := markerMatches_iff.mp (holds.hit a same).1
      rw [← dir, found] at there
      cases there
      exact theirs.key_unique matched
  · rintro ⟨a, same, key⟩
    have hit := holds.hit a same
    rw [Hit] at hit ⊢
    rwa [← key, ← dir_of_key key]

theorem Holds.aborted (holds : Holds crates last c)
    (run : Run (attempt crates b pid) (CleansUp b pid) (.start, c) choices (pc, d))
    (early : pc.Early) : Holds crates last d := by
  have differs : Differs b pid c d pc :=
    run.invariant (fun s : Pc × Cache => Differs b pid c s.2 s.1)
      (fun _ _ _ held permits taken => differs_step held permits taken) rfl
  have untouched := untouched_of_early differs early
  have plain : Plain d := run.invariant (fun s : Pc × Cache => Plain s.2)
    (fun _ _ _ held _ taken => plain_attempt held taken) holds.plain
  refine ⟨plain, fun name i tree found => ?_, fun a same => ?_⟩
  · by_cases own : name = b.staging pid
    · rw [own]
      exact .inl (stagingPrefix_isPrefixOf _ _)
    · rw [untouched name own] at found
      exact holds.directories name i tree found
  · exact (hit_congr (untouched a.dir (staging_ne_dir _ _ _))).mpr (holds.hit a same)

theorem Holds.installed (holds : Holds crates last c) (installed : Installed b pid full c d)
    (hit : Hit crates b d) : Holds crates (some b) d where
  plain name contents reserved found :=
    holds.plain name contents reserved ((installed.files name contents).mp found)
  directories name i tree found := by
    rcases installed.directories name i tree found with rfl | staging
    · exact .inr ⟨b, rfl, rfl⟩
    · exact .inl staging
  hit a same := by
    cases same
    exact hit

/-- Where the environment has no choice, a run goes on as it must. -/
theorem solo_next {c : Cache}
    (run : Run (solo crates b pid) Undisturbed (pc, c) choices (.returned result, d))
    (fixed : pc.chooses = false) (live : ∀ result, pc ≠ .returned result)
    (taken : advance crates b pid pc .proceed c = some next) :
    ∃ rest, choices = .proceed :: rest ∧
      Run (solo crates b pid) Undisturbed next rest (.returned result, d) := by
  cases run with
  | nil => exact absurd rfl (live result)
  | @cons _ choice follower rest _ permits moved tail =>
    rcases (advance_cases moved).proceeds fixed with rfl | ⟨e, rfl⟩
    · cases Option.some.inj (taken.symm.trans moved)
      exact ⟨rest, rfl, tail⟩
    · exact permits.elim

/-- A hit is returned at once. -/
theorem hit_reuses {c : Cache} (embedded : b.archive ≠ []) (hit : Hit crates b c)
    (run : Run (solo crates b pid) Undisturbed (.start, c) choices (.returned result, d)) :
    ¬ Unpacks crates b pid c choices := by
  have started : advance crates b pid .start .proceed c = some (.firstMarker, c) := by
    simp [advance, embedded]
  have marker : advance crates b pid .firstMarker .proceed c = some (.firstRootfs, c) := by
    simp [advance, hit.1]
  have rootfs : advance crates b pid .firstRootfs .proceed c =
      some (.returned (.ok b.dir), c) := by
    simp [advance, hit.2]
  obtain ⟨_, rfl, second⟩ := solo_next run rfl (by simp) started
  obtain ⟨_, rfl, third⟩ := solo_next second rfl (by simp) marker
  obtain ⟨_, rfl, last⟩ := solo_next third rfl (by simp) rootfs
  intro unpacks
  have atMarker := unpacks.later_of (by simp) started
  have atRootfs := atMarker.later_of (by simp) marker
  have atEnd := atRootfs.later_of (by simp) rootfs
  cases atEnd with
  | now happens => cases happens
  | later taken => exact returned_stuck crates b pid _ c _ _ taken

/-- Up to where the archive is opened, and where an install that has not opened it may end. -/
def Pc.Unopened (crates : Crates) (b : Binary) (before after : Cache) : Pc → Prop
  | .start | .firstMarker => after = before
  | .firstRootfs => after = before ∧ markerMatches before b.dir (crates.key b) = true
  | .stagingExists | .clearStaging _ | .createStaging | .openArchive | .dropStaging _ (.error _)
  | .returned (.error _) => True
  | .unpack _ _ _ | .writeMarker _ | .secondMarker | .secondRootfs | .dirExists | .removeStale _
  | .rename | .readRoot | .sweep _ | .sweepRemove _ _ _ | .dropStaging _ (.ok _)
  | .returned (.ok _) => False

theorem unopened_move (move : Move crates b pid pc choice c pc' d) (miss : ¬ Hit crates b before)
    (unopened : pc.Unopened crates b before c) :
    pc'.Unopened crates b before d ∨ pc = .openArchive := by
  cases move with
  | begin_ => exact .inl unopened
  | firstMarkerHit matched =>
    obtain rfl : c = before := unopened
    exact .inl ⟨rfl, matched⟩
  | firstRootfsHit usable =>
    obtain ⟨rfl, matched⟩ := unopened
    exact absurd ⟨matched, usable⟩ miss
  | unreadable | opened => exact .inr rfl
  | @dropping _ _ _ _ _ result | @dropped _ _ _ _ _ result =>
    cases result with
    | ok => exact unopened.elim
    | error => exact .inl trivial
  | notEmbedded | firstMarkerMiss | firstRootfsMiss | stagingPresent | stagingAbsent | clearing
  | cleared | clearFailed | created | createdAlready | createFailed => exact .inl trivial
  | tore | wrote | streamEnded | unpackFailed | markerTorn | markerWritten | markerFailed
  | secondMarkerHit | secondMarkerMiss | secondRootfsHit | secondRootfsMiss | dirPresent
  | dirAbsent | removing | removed | removeFailed | renamed | renameFailed | listed | unlisted
  | swept | sweepSkip | sweepPick | sweeping | sweptOne => exact unopened.elim

theorem miss_unpacks {c : Cache} (miss : ¬ Hit crates b c)
    (run : Run (solo crates b pid) Undisturbed (.start, c) choices (.returned (.ok dir), d)) :
    Unpacks crates b pid c choices := by
  have reached := run.held_or_occurs (fun s _ => s.1 = .openArchive) (fun _ => True)
    (fun s : Pc × Cache => s.1.Unopened crates b c s.2) (fun _ _ _ _ _ _ => trivial)
    (fun _ _ _ _ unopened _ taken => unopened_move (advance_cases taken) miss unopened) trivial rfl
  exact reached.resolve_left id

theorem unpacks_iff {c : Cache} (ready : Ready crates b entries) (plain : Plain c)
    (run : Run (solo crates b pid) Undisturbed (.start, c) choices (.returned result, d)) :
    Unpacks crates b pid c choices ↔ ¬ Hit crates b c := by
  obtain ⟨rfl, _⟩ := solo_installed ready plain run
  exact ⟨fun unpacks hit => hit_reuses ready.embedded hit run unpacks, fun miss =>
    miss_unpacks miss run⟩

/-- Two builds that share a key also share a hit, so the last one can be named either way. -/
theorem Holds.rekeyed (holds : Holds crates (some a) c) (same : crates.key a = crates.key b) :
    Holds crates (some b) c where
  plain := holds.plain
  directories name i tree found := by
    rcases holds.directories name i tree found with staging | ⟨other, held, rfl⟩
    · exact .inl staging
    · cases held
      exact .inr ⟨b, rfl, dir_of_key same⟩
  hit other held := by
    cases held
    exact holds.hit_iff.mpr ⟨a, rfl, same⟩

theorem Holds.reused {c : Cache} (holds : Holds crates last c) (ready : Ready crates b entries)
    (run : Run (solo crates b pid) Undisturbed (.start, c) choices (.returned result, d))
    (reuses : ¬ Unpacks crates b pid c choices) :
    ∃ a ∈ last, crates.key a = crates.key b ∧ Holds crates (some b) d := by
  have hit : Hit crates b c := not_not.mp (mt (unpacks_iff ready holds.plain run).mpr reuses)
  obtain ⟨a, held, same⟩ := holds.hit_iff.mp hit
  cases held
  obtain ⟨_, kept, _⟩ := solo_installed ready holds.plain run
  rw [kept hit]
  exact ⟨a, rfl, same, holds.rekeyed same⟩

theorem Holds.extracted {c : Cache} (holds : Holds crates last c) (ready : Ready crates b entries)
    (run : Run (solo crates b pid) Undisturbed (.start, c) choices (.returned result, d))
    (unpacks : Unpacks crates b pid c choices) :
    (∀ a ∈ last, crates.key a ≠ crates.key b) ∧ Holds crates (some b) d := by
  have miss := (unpacks_iff ready holds.plain run).mp unpacks
  obtain ⟨_, _, installed⟩ := solo_installed ready holds.plain run
  obtain ⟨full, installed, hit⟩ := installed miss
  exact ⟨fun a held same => miss (holds.hit_iff.mpr ⟨a, held, same⟩), holds.installed installed hit⟩

/-- From a cache that holds a build, the builds that are new are unpacked. -/
theorem History.from_held {crates : Crates} (history : History crates c builds n e)
    (ready : ∀ b ∈ builds, ∃ entries, Ready crates b entries) (holds : Holds crates (some a) c) :
    n + 1 = ((builds.map crates.key).destutter' (· ≠ ·) (crates.key a)).length ∧
      Holds crates (some (builds.getLast?.getD a)) e := by
  induction history generalizing a with
  | done => exact ⟨rfl, holds⟩
  | aborted run early _ ih => exact ih ready (holds.aborted run early)
  | @reused b _ _ _ _ _ builds _ _ run reuses _ ih =>
    obtain ⟨entries, here⟩ := ready b List.mem_cons_self
    obtain ⟨_, held, same, next⟩ := holds.reused here run reuses
    cases held
    have later := ih (fun b member => ready b (List.mem_cons_of_mem _ member)) next
    rw [List.map_cons, List.destutter'_cons_neg _ (by simpa using same), List.getLast?_cons, same]
    exact later
  | @extracted b _ _ _ _ _ builds _ _ run unpacks _ ih =>
    obtain ⟨entries, here⟩ := ready b List.mem_cons_self
    obtain ⟨new, next⟩ := holds.extracted here run unpacks
    obtain ⟨count, last⟩ := ih (fun b member => ready b (List.mem_cons_of_mem _ member)) next
    rw [List.map_cons, List.destutter'_cons_pos _ (new a rfl), List.getLast?_cons,
      List.length_cons, count]
    exact ⟨rfl, last⟩

/-- The cache has no rootfs in it, whatever else it has. -/
def Vacant (c : Cache) : Prop :=
  Plain c ∧ ∀ name i tree, c.root.lookup name = some (.dir i tree) →
    stagingPrefix.isPrefixOf name = true

theorem Vacant.holds (vacant : Vacant c) (crates : Crates) : Holds crates none c where
  plain := vacant.1
  directories name i tree found := .inl (vacant.2 name i tree found)
  hit b held := by cases held

namespace Sample

def upgrade : Binary := ⟨second, archive⟩

theorem ready (version : Version) : Ready crates ⟨version, archive⟩ entries where
  embedded := show archive ≠ [] by decide
  decoded := rfl
  plain := by decide
  usable := by decide

theorem vacant : Vacant Cache.empty := by simp [Vacant, Plain, Cache.empty]

/-- An install on an empty cache, to the end. -/
def unpacking : List Choice :=
  List.replicate 23 .proceed ++ [.list [first.text]] ++ List.replicate 2 .proceed

/-- Where three runs end: one that unpacks, an upgrade that is killed while it does, and one
that finds what the first has left. -/
def visits : Option ((Pc × Cache) × (Pc × Cache) × (Pc × Cache)) :=
  (execute (solo crates build 7) Undisturbed unpacking (.start, Cache.empty)).bind fun one =>
    (execute (attempt crates upgrade 8) (CleansUp upgrade 8) (List.replicate 9 .proceed)
      (.start, one.2)).bind fun two =>
        (execute (solo crates build 9) Undisturbed (List.replicate 3 .proceed)
          (.start, two.2)).map fun three => (one, two, three)

end Sample

end ImageBuilder.RootfsInstall
