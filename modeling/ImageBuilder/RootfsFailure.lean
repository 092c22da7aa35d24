import ImageBuilder.RootfsAlone

/-! An `install` that fails: whichever operations failed, its staging directory is gone,
nothing was swept, and the version directory has gained nothing. -/
namespace ImageBuilder.RootfsInstall

open RootfsCache Transition

/-- `install` as the only process, where `exists` may deny a staging directory that is there
as well, so that the archive is unpacked over what it holds. -/
def attempt (crates : Crates) (b : Binary) (pid : Nat) (s : Pc × Cache) (choice : Choice) :
    Option (Pc × Cache) :=
  match s.1, choice with
  | .stagingExists, .fail _ => some (.createStaging, s.2)
  | _, _ => solo crates b pid s choice

/-- How far the removal of the staging directory is that ends an install. -/
def Pc.cleanUp : Pc → Option Removal
  | .dropStaging at_ _ => some at_
  | _ => none

def Removing.isFailed : Removing → Bool
  | .failed _ => true
  | .running _ | .finished => false

/-- A clean-up removal fails only where there is nothing to clean up. -/
def CleansUp (b : Binary) (pid : Nat) (s : Pc × Cache) (choice : Choice) : Prop :=
  ∀ at_ ∈ s.1.cleanUp, ∀ r ∈ removeDirAll (b.staging pid) at_ choice s.2,
    r.1.isFailed = true → s.2.root.lookup (b.staging pid) = none

instance (b : Binary) (pid : Nat) (s : Pc × Cache) : DecidablePred (CleansUp b pid s) :=
  fun _ => inferInstanceAs (Decidable (∀ at_ ∈ _, ∀ r ∈ _, _ → _))

/-- The errors of `stage`. -/
def InstallError.inStage : InstallError → Bool
  | .clearStaging _ | .createStaging _ | .readArchive _ | .unpack _ | .writeMarker _ => true
  | .notEmbedded | .removeStale _ | .rename _ => false

/-- An entry is as it was, or was a directory that has lost files or is gone. -/
inductive Shrunk (before : Option Node) : Option Node → Prop where
  | same : Shrunk before before
  | gone : Shrunk before none
  | fewer : before = some (.dir i large) → FiniteMap.Sub small large →
      Shrunk before (some (.dir i small))

theorem Shrunk.trans (first : Shrunk a b) (second : Shrunk b c) : Shrunk a c := by
  cases second with
  | same => exact first
  | gone => exact .gone
  | fewer held sub =>
    cases first with
    | same => exact .fewer held sub
    | gone => cases held
    | fewer before_ before_sub =>
      cases held
      exact .fewer before_ (sub.trans before_sub)

theorem Removes.shrunk (removes : Removes name at_ choice c outcome d) :
    Shrunk (c.root.lookup name) (d.root.lookup name) := by
  cases removes with
  | opened | missing | vanished | replaced | failed => exact .same
  | deleted found present =>
    rw [Cache.modify_lookup_same c found]
    exact .fewer found (FiniteMap.Sub.erase _ _)
  | unlinked =>
    rw [Cache.unlink_lookup_same]
    exact .gone

/-- Only the staging directory of this process differs. -/
def Untouched (b : Binary) (pid : Nat) (before after : Cache) : Prop :=
  ∀ name, name ≠ b.staging pid → after.root.lookup name = before.root.lookup name

/-- Beyond that, only the version directory differs, which has shrunk. -/
structure Contained (b : Binary) (pid : Nat) (before after : Cache) : Prop where
  others : ∀ name, name ≠ b.dir → name ≠ b.staging pid →
    after.root.lookup name = before.root.lookup name
  dir : Shrunk (before.root.lookup b.dir) (after.root.lookup b.dir)

/-- What a failed `install` leaves. -/
structure Cleaned (b : Binary) (pid : Nat) (before : Cache) (error : InstallError) (after : Cache) :
    Prop where
  staging : after.root.lookup (b.staging pid) = none
  contained : Contained b pid before after
  stage : error.inStage = true → after.root.lookup b.dir = before.root.lookup b.dir

theorem Untouched.contained (untouched : Untouched b pid before after) :
    Contained b pid before after where
  others name _ apart := untouched name apart
  dir := by
    rw [untouched b.dir (dir_ne_staging b pid)]
    exact .same

/-- How far the cache differs from the first one, at each point of `install`. -/
def Differs (b : Binary) (pid : Nat) (before after : Cache) : Pc → Prop
  | .start => after = before
  | .firstMarker | .firstRootfs | .stagingExists => b.archive ≠ [] ∧ after = before
  | .clearStaging _ | .createStaging | .openArchive | .unpack _ _ _ | .writeMarker _
  | .secondMarker | .secondRootfs | .dirExists =>
    b.archive ≠ [] ∧ Untouched b pid before after
  | .removeStale _ | .rename => b.archive ≠ [] ∧ Contained b pid before after
  | .dropStaging _ (.error error) => b.archive ≠ [] ∧ Contained b pid before after ∧
      (error.inStage = true → after.root.lookup b.dir = before.root.lookup b.dir)
  | .returned (.error error) =>
    if b.archive = [] then error = .notEmbedded ∧ after = before
    else Cleaned b pid before error after
  | .dropStaging _ (.ok _) | .readRoot | .sweep _ | .sweepRemove _ _ _ | .returned (.ok _) => True

section
variable {crates : Crates} {b : Binary} {pid : Nat} {before : Cache}

theorem Untouched.removes (untouched : Untouched b pid before c)
    (removes : Removes (b.staging pid) at_ choice c outcome d) : Untouched b pid before d :=
  fun name apart => (removes.frame apart).trans (untouched name apart)

theorem Contained.removes (contained : Contained b pid before c)
    (removes : Removes b.dir at_ choice c outcome d) : Contained b pid before d where
  others name notDir notOwn := (removes.frame notDir).trans (contained.others name notDir notOwn)
  dir := contained.dir.trans removes.shrunk

theorem Untouched.modify (untouched : Untouched b pid before c) :
    Untouched b pid before (c.modify (b.staging pid) change) :=
  fun name apart => (Cache.modify_lookup_other c apart).trans (untouched name apart)

theorem Untouched.writeMarker (untouched : Untouched b pid before c)
    (wrote : writeMarker (b.staging pid) text c = .ok d) : Untouched b pid before d := by
  unfold RootfsInstall.writeMarker at wrote
  split at wrote
  · split at wrote
    · cases wrote
      exact untouched.modify
    · cases wrote
  · cases wrote

/-- A failed `stage` has not come to the version directory. -/
theorem differs_fail {error : InstallError} (embedded : b.archive ≠ [])
    (untouched : Untouched b pid before c) : Differs b pid before c (.fail error) :=
  ⟨embedded, untouched.contained, fun _ => untouched b.dir (dir_ne_staging b pid)⟩

/-- Every operation but the clean-up keeps the difference within its bounds. -/
theorem differs_move (move : Move crates b pid pc choice c pc' d)
    (differs : Differs b pid before c pc) (dropping : ∀ at_ result, pc ≠ .dropStaging at_ result) :
    Differs b pid before d pc' := by
  cases move with
  | notEmbedded bare =>
    rw [Differs, if_pos bare]
    exact ⟨rfl, differs⟩
  | begin_ embedded => exact ⟨embedded, differs⟩
  | firstMarkerHit | firstMarkerMiss | firstRootfsMiss => exact differs
  | stagingPresent | stagingAbsent =>
    obtain ⟨embedded, rfl⟩ := differs
    exact ⟨embedded, fun _ _ => rfl⟩
  | clearing removes | cleared removes => exact ⟨differs.1, differs.2.removes removes⟩
  | clearFailed removes => exact differs_fail differs.1 (differs.2.removes removes)
  | created absent =>
    exact ⟨differs.1, fun name apart =>
      (Cache.mkdir_lookup_other _ apart).trans (differs.2 name apart)⟩
  | createdAlready | opened | streamEnded | secondMarkerHit | secondMarkerMiss
  | secondRootfsMiss => exact differs
  | createFailed | unreadable | unpackFailed | markerFailed => exact differs_fail differs.1 differs.2
  | tore | wrote => exact ⟨differs.1, differs.2.modify⟩
  | markerTorn wrote | markerWritten wrote => exact ⟨differs.1, differs.2.writeMarker wrote⟩
  | dirPresent | dirAbsent => exact ⟨differs.1, differs.2.contained⟩
  | removing removes | removed removes => exact ⟨differs.1, differs.2.removes removes⟩
  | removeFailed removes => exact ⟨differs.1, differs.2.removes removes, fun impossible => by cases impossible⟩
  | renameFailed => exact ⟨differs.1, differs.2, fun impossible => by cases impossible⟩
  | dropping | dropped => exact absurd rfl (dropping _ _)
  | firstRootfsHit | secondRootfsHit | renamed | listed | unlisted | swept | sweepSkip | sweepPick
  | sweeping | sweptOne => trivial

theorem Removes.failed_same (removes : Removes name at_ choice c (.failed e) d) : d = c := by
  cases removes with
  | missing | replaced | failed => rfl

theorem Contained.drops (contained : Contained b pid before c)
    (removes : Removes (b.staging pid) at_ choice c outcome d) : Contained b pid before d where
  others name notDir notOwn := (removes.frame notOwn).trans (contained.others name notDir notOwn)
  dir := by
    rw [removes.frame (dir_ne_staging b pid)]
    exact contained.dir

theorem differs_drop (differs : Differs b pid before c (.dropStaging at_ result))
    (clean : CleansUp b pid (.dropStaging at_ result, c) choice)
    (taken : advance crates b pid (.dropStaging at_ result) choice c = some (pc', d)) :
    Differs b pid before d pc' := by
  cases result with
  | ok dir =>
    obtain ⟨⟨outcome, e⟩, _, answer⟩ := Option.map_eq_some_iff.mp taken
    cases outcome <;> cases answer <;> trivial
  | error error =>
    obtain ⟨⟨outcome, e⟩, removed, answer⟩ := Option.map_eq_some_iff.mp taken
    obtain ⟨embedded, contained, stage⟩ := differs
    have removes := removeDirAll_cases removed
    have staged (inStage : error.inStage = true) :
        e.root.lookup b.dir = before.root.lookup b.dir :=
      (removes.frame (dir_ne_staging b pid)).trans (stage inStage)
    cases outcome with
    | running next =>
      cases answer
      exact ⟨embedded, contained.drops removes, staged⟩
    | finished =>
      cases answer
      rw [Differs, if_neg embedded]
      exact ⟨removes.finished_absent, contained.drops removes, staged⟩
    | failed e' =>
      cases answer
      rw [Differs, if_neg embedded]
      refine ⟨?_, contained.drops removes, staged⟩
      rw [removes.failed_same]
      exact clean _ rfl _ removed rfl

theorem attempt_cases (taken : attempt crates b pid (pc, c) choice = some next) :
    (pc = .stagingExists ∧ next = (.createStaging, c)) ∨
      advance crates b pid pc choice c = some next := by
  unfold attempt at taken
  split at taken
  · rename_i at_pc
    cases taken
    exact .inl ⟨at_pc, rfl⟩
  · exact .inr taken

theorem differs_step (differs : Differs b pid before s.2 s.1) (clean : CleansUp b pid s choice)
    (taken : attempt crates b pid s choice = some next) : Differs b pid before next.2 next.1 := by
  obtain ⟨pc, c⟩ := s
  rcases attempt_cases taken with ⟨rfl, rfl⟩ | taken
  · obtain ⟨embedded, rfl⟩ := differs
    exact ⟨embedded, fun _ _ => rfl⟩
  · by_cases dropping : ∃ at_ result, pc = .dropStaging at_ result
    · obtain ⟨at_, result, rfl⟩ := dropping
      exact differs_drop differs clean taken
    · apply differs_move (advance_cases taken) differs
      exact fun at_ result same => dropping ⟨at_, result, same⟩

end

theorem CleansUp.other (busy : s.1.cleanUp = none) : CleansUp b pid s choice := by
  intro at_ dropping
  rw [busy] at dropping
  cases dropping

section
variable {crates : Crates} {b : Binary} {pid : Nat} {c : Cache} {tree : Tree}
  {entries : List (Text × Entry)}

/-- The tree that unpacking writes over another one. -/
def unpackedOver (tree : Tree) (entries : List (Text × Entry)) : Tree :=
  entries.foldl (fun tree entry => tree.insert entry.1 entry.2) tree

theorem unpackedOver_left (other : ∀ entry ∈ entries, entry.1 ≠ path) :
    (unpackedOver tree entries).lookup path = tree.lookup path := by
  induction entries generalizing tree with
  | nil => rfl
  | cons entry entries ih =>
    have apart := other entry List.mem_cons_self
    have later : (unpackedOver (tree.insert entry.1 entry.2) entries).lookup path =
        (tree.insert entry.1 entry.2).lookup path :=
      ih fun entry member => other entry (List.mem_cons_of_mem _ member)
    exact later.trans (Finmap.lookup_insert_of_ne _ apart.symm)

theorem run_unpack (crates : Crates) (entries : List (Text × Entry))
    (found : c.root.lookup (b.staging pid) = some (.dir i tree)) :
    ∃ choices d, Run (attempt crates b pid) (CleansUp b pid) (.unpack entries none false, c) choices
        (.writeMarker false, d) ∧
      d.root.lookup (b.staging pid) = some (.dir i (unpackedOver tree entries)) := by
  induction entries generalizing tree c with
  | nil => exact ⟨[.proceed], c, .cons (.other rfl) rfl .nil, found⟩
  | cons entry entries ih =>
    obtain ⟨path, entry⟩ := entry
    have torn : (c.modify (b.staging pid) (·.insert path (Entry.torn entry))).root.lookup
        (b.staging pid) = some (.dir i (tree.insert path (Entry.torn entry))) :=
      Cache.modify_lookup_same c found
    have whole : ((c.modify (b.staging pid) (·.insert path (Entry.torn entry))).modify
        (b.staging pid) (·.insert path entry)).root.lookup (b.staging pid) =
        some (.dir i ((tree.insert path (Entry.torn entry)).insert path entry)) :=
      Cache.modify_lookup_same _ torn
    rw [Finmap.insert_insert] at whole
    obtain ⟨choices, d, run, held⟩ := ih whole
    exact ⟨.proceed :: .proceed :: choices, d, .cons (.other rfl) rfl
      (.cons (.other rfl) rfl run), held⟩

/-- Where `exists` denies a leftover, what the archive does not name stays in the tree that is
unpacked over it; the processes of `step` take this `exists` at its word. -/
theorem leftover_mixed (found : c.root.lookup (b.staging pid) = some (.dir i tree))
    (decoded : crates.decode b.archive = .stream entries none) :
    ∃ choices d mixed, Run (attempt crates b pid) (CleansUp b pid) (.stagingExists, c) choices
        (.writeMarker false, d) ∧
      d.root.lookup (b.staging pid) = some (.dir i mixed) ∧
      ∀ path, (∀ entry ∈ entries, entry.1 ≠ path) → mixed.lookup path = tree.lookup path := by
  obtain ⟨choices, d, run, held⟩ := run_unpack crates entries found
  have created : attempt crates b pid (.createStaging, c) .proceed = some (.openArchive, c) := by
    simp [attempt, solo, advance, found]
  have opened : attempt crates b pid (.openArchive, c) .proceed =
      some (.unpack entries none false, c) := by
    simp [attempt, solo, advance, decoded]
  exact ⟨.fail [] :: .proceed :: .proceed :: choices, d, _,
    .cons (.other rfl) rfl (.cons (.other rfl) created (.cons (.other rfl) opened run)), held,
    fun _ other => unpackedOver_left other⟩

end

namespace Sample

/-- The disk is full after the first entry, which the clean-up then deletes. -/
def diskFull : List Choice :=
  List.replicate 9 .proceed ++ [.fail "No space left on device", .proceed, .delete "usr", .proceed]

end Sample

end ImageBuilder.RootfsInstall
