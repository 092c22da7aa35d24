import ImageBuilder.RootfsInstall
import ImageBuilder.RootfsCacheRules

/-! Inversion of one operation: the transitions of `advance` as a relation, each
with the guard it was taken under, and their effect on a given entry of the root. -/
namespace ImageBuilder.RootfsInstall

open RootfsCache

inductive Removes (name : Text) : Removal → Choice → Cache → Removing → Cache → Prop where
  | opened : c.root.lookup name = some (.dir i tree) →
      Removes name .opening .proceed c (.running (.emptying i [])) c
  | missing : (∀ i tree, c.root.lookup name ≠ some (.dir i tree)) →
      Removes name .opening .proceed c (.failed e) c
  | deleted : c.root.lookup name = some (.dir i tree) → tree.lookup path = some entry →
      Removes name (.emptying i gone) (.delete path) c (.running (.emptying i (path :: gone)))
        (c.modify name (·.erase path))
  | vanished : c.root.lookup name = none →
      Removes name (.emptying i gone) .proceed c .finished c
  | unlinked : c.root.lookup name = some (.dir j ∅) →
      Removes name (.emptying i gone) .proceed c .finished (c.unlink name)
  /-- Something else has taken the name. -/
  | replaced : (∀ tree, c.root.lookup name ≠ some (.dir i tree)) →
      (∀ j, c.root.lookup name ≠ some (.dir j ∅)) → c.root.lookup name ≠ none →
      Removes name (.emptying i gone) .proceed c (.failed e) c
  | failed : Removes name at_ (.fail e) c (.failed e) c

theorem removeDirAll_cases (h : removeDirAll name at_ choice c = some (outcome, d)) :
    Removes name at_ choice c outcome d := by
  cases at_ with
  | opening =>
    cases choice with
    | proceed =>
      simp only [removeDirAll] at h
      split at h <;> cases h
      · exact .opened ‹_›
      · apply Removes.missing
        simp [*]
      · apply Removes.missing
        simp [*]
    | fail e => cases h; exact .failed
    | delete | list => cases h
  | emptying i gone =>
    cases choice with
    | proceed =>
      simp only [removeDirAll] at h
      split at h
      · cases h; exact .vanished ‹_›
      · rename_i j tree found
        split at h
        · rename_i bare
          subst bare
          cases h
          exact .unlinked found
        · split at h
          · cases h
          · rename_i full other
            cases h
            exact .replaced (by simp [found, other]) (by simp [found, full]) (by simp [found])
      · cases h
        exact .replaced (by simp [*]) (by simp [*]) (by simp [*])
    | delete path =>
      simp only [removeDirAll] at h
      split at h
      · rename_i j tree found
        split at h
        · rename_i both
          obtain ⟨rfl, present⟩ := both
          obtain ⟨entry, present⟩ := Option.isSome_iff_exists.mp present
          cases h
          exact .deleted found present
        · cases h
      · cases h
    | fail e => cases h; exact .failed
    | list => cases h

/-- An operation answers as the file system stands, which then has the given
property, or fails by itself. -/
inductive Answers (stands : Prop) : Choice → Prop where
  | stands : stands → Answers stands .proceed
  | fails : Answers stands (.fail e)

theorem Answers.of_unfailing (answer : Answers fact choice) (unfailing : ∀ e, choice ≠ .fail e) :
    choice = .proceed ∧ fact := by
  cases answer with
  | stands holds => exact ⟨rfl, holds⟩
  | fails => exact absurd rfl (unfailing _)

/-- One operation of the process with this binary and pid. -/
inductive Move (crates : Crates) (b : Binary) (pid : Nat) :
    Pc → Choice → Cache → Pc → Cache → Prop where
  | notEmbedded : b.archive = [] →
      Move crates b pid .start .proceed c (.returned (.error .notEmbedded)) c
  | begin_ : b.archive ≠ [] → Move crates b pid .start .proceed c .firstMarker c
  | firstMarkerHit : markerMatches c b.dir (crates.key b) = true →
      Move crates b pid .firstMarker .proceed c .firstRootfs c
  | firstMarkerMiss : Answers (markerMatches c b.dir (crates.key b) = false) choice →
      Move crates b pid .firstMarker choice c .stagingExists c
  | firstRootfsHit : rootfsOk c b.dir = true →
      Move crates b pid .firstRootfs .proceed c (.returned (.ok b.dir)) c
  | firstRootfsMiss : Answers (rootfsOk c b.dir = false) choice →
      Move crates b pid .firstRootfs choice c .stagingExists c
  | stagingPresent : c.root.lookup (b.staging pid) ≠ none →
      Move crates b pid .stagingExists .proceed c (.clearStaging .opening) c
  | stagingAbsent : c.root.lookup (b.staging pid) = none →
      Move crates b pid .stagingExists .proceed c .createStaging c
  | clearing : Removes (b.staging pid) at_ choice c (.running next) d →
      Move crates b pid (.clearStaging at_) choice c (.clearStaging next) d
  | cleared : Removes (b.staging pid) at_ choice c .finished d →
      Move crates b pid (.clearStaging at_) choice c .createStaging d
  | clearFailed : Removes (b.staging pid) at_ choice c (.failed e) d →
      Move crates b pid (.clearStaging at_) choice c (.fail (.clearStaging e)) d
  | created : c.root.lookup (b.staging pid) = none →
      Move crates b pid .createStaging .proceed c .openArchive (c.mkdir (b.staging pid))
  | createdAlready : c.root.lookup (b.staging pid) = some (.dir i tree) →
      Move crates b pid .createStaging .proceed c .openArchive c
  | createFailed :
      Answers (∃ contents, c.root.lookup (b.staging pid) = some (.file contents)) choice →
      Move crates b pid .createStaging choice c (.fail (.createStaging e)) c
  | unreadable : Answers (crates.decode b.archive = .unreadable e) choice →
      Move crates b pid .openArchive choice c (.fail (.readArchive e)) c
  | opened : crates.decode b.archive = .stream entries ending →
      Move crates b pid .openArchive .proceed c (.unpack entries ending false) c
  | tore : Move crates b pid (.unpack ((path, entry) :: rest) ending false) .proceed c
      (.unpack ((path, entry) :: rest) ending true)
      (c.modify (b.staging pid) (·.insert path (Entry.torn entry)))
  | wrote : Move crates b pid (.unpack ((path, entry) :: rest) ending true) .proceed c
      (.unpack rest ending false) (c.modify (b.staging pid) (·.insert path entry))
  | streamEnded : Move crates b pid (.unpack [] none torn) .proceed c (.writeMarker false) c
  | unpackFailed : Answers (ending = some e) choice →
      Move crates b pid (.unpack rest ending torn) choice c (.fail (.unpack e)) c
  | markerTorn : writeMarker (b.staging pid) [] c = .ok d →
      Move crates b pid (.writeMarker false) .proceed c (.writeMarker true) d
  | markerWritten : writeMarker (b.staging pid) (crates.key b) c = .ok d →
      Move crates b pid (.writeMarker true) .proceed c .secondMarker d
  | markerFailed : Answers (∃ text, writeMarker (b.staging pid) text c = .error e) choice →
      Move crates b pid (.writeMarker torn) choice c (.fail (.writeMarker e)) c
  | secondMarkerHit : markerMatches c b.dir (crates.key b) = true →
      Move crates b pid .secondMarker .proceed c .secondRootfs c
  | secondMarkerMiss : Answers (markerMatches c b.dir (crates.key b) = false) choice →
      Move crates b pid .secondMarker choice c .dirExists c
  | secondRootfsHit : rootfsOk c b.dir = true →
      Move crates b pid .secondRootfs .proceed c (.dropStaging .opening (.ok b.dir)) c
  | secondRootfsMiss : Answers (rootfsOk c b.dir = false) choice →
      Move crates b pid .secondRootfs choice c .dirExists c
  | dirPresent : c.root.lookup b.dir ≠ none →
      Move crates b pid .dirExists .proceed c (.removeStale .opening) c
  | dirAbsent : Answers (c.root.lookup b.dir = none) choice →
      Move crates b pid .dirExists choice c .rename c
  | removing : Removes b.dir at_ choice c (.running next) d →
      Move crates b pid (.removeStale at_) choice c (.removeStale next) d
  | removed : Removes b.dir at_ choice c .finished d →
      Move crates b pid (.removeStale at_) choice c .rename d
  | removeFailed : Removes b.dir at_ choice c (.failed e) d →
      Move crates b pid (.removeStale at_) choice c (.fail (.removeStale e)) d
  | renamed : c.rename (b.staging pid) b.dir = .ok d →
      Move crates b pid .rename .proceed c .readRoot d
  | renameFailed : Answers (c.rename (b.staging pid) b.dir = .error e) choice →
      Move crates b pid .rename choice c (.fail (.rename e)) c
  | listed : Move crates b pid .readRoot (.list names) c (.sweep names) c
  | unlisted : Move crates b pid .readRoot (.fail e) c (.returned (.ok b.dir)) c
  | swept : Move crates b pid (.sweep []) .proceed c (.returned (.ok b.dir)) c
  | sweepSkip : Answers (name = b.dir ∨ isDir c name = false ∨ stagingPrefix.isPrefixOf name = true) choice →
      Move crates b pid (.sweep (name :: names)) choice c (.sweep names) c
  | sweepPick : name ≠ b.dir → isDir c name = true → stagingPrefix.isPrefixOf name = false →
      Move crates b pid (.sweep (name :: names)) .proceed c (.sweepRemove name .opening names) c
  | sweeping : Removes name at_ choice c (.running next) d →
      Move crates b pid (.sweepRemove name at_ names) choice c (.sweepRemove name next names) d
  | sweptOne : Removes name at_ choice c outcome d → (∀ next, outcome ≠ .running next) →
      Move crates b pid (.sweepRemove name at_ names) choice c (.sweep names) d
  | dropping : Removes (b.staging pid) at_ choice c (.running next) d →
      Move crates b pid (.dropStaging at_ result) choice c (.dropStaging next result) d
  | dropped : Removes (b.staging pid) at_ choice c outcome d → (∀ next, outcome ≠ .running next) →
      Move crates b pid (.dropStaging at_ result) choice c (.returned result) d

/-- Every answer of a removal leads on to what its caller does with it. -/
private theorem removal_cases {continue_ : Removing × Cache → Pc × Cache}
    (h : (removeDirAll name at_ choice c).map continue_ = some (pc, d)) :
    ∃ outcome e, Removes name at_ choice c outcome e ∧ continue_ (outcome, e) = (pc, d) := by
  obtain ⟨⟨outcome, e⟩, taken, answer⟩ := Option.map_eq_some_iff.mp h
  exact ⟨outcome, e, removeDirAll_cases taken, answer⟩

theorem advance_cases {crates : Crates} {b : Binary}
    (h : advance crates b pid pc choice c = some (pc', d)) : Move crates b pid pc choice c pc' d := by
  cases pc with
  | clearStaging at_ =>
    obtain ⟨outcome, e, removes, answer⟩ := removal_cases h
    cases outcome <;> cases answer
    · exact .clearing removes
    · exact .cleared removes
    · exact .clearFailed removes
  | removeStale at_ =>
    obtain ⟨outcome, e, removes, answer⟩ := removal_cases h
    cases outcome <;> cases answer
    · exact .removing removes
    · exact .removed removes
    · exact .removeFailed removes
  | sweepRemove name at_ names =>
    obtain ⟨outcome, e, removes, answer⟩ := removal_cases h
    cases outcome <;> cases answer
    · exact .sweeping removes
    · apply Move.sweptOne removes
      simp
    · apply Move.sweptOne removes
      simp
  | dropStaging at_ result =>
    obtain ⟨outcome, e, removes, answer⟩ := removal_cases h
    cases outcome <;> cases answer
    · exact .dropping removes
    · apply Move.dropped removes
      simp
    · apply Move.dropped removes
      simp
  | start =>
    cases choice with
    | proceed =>
      by_cases bare : b.archive = []
      · simp only [advance, bare, List.isEmpty_nil, ↓reduceIte] at h
        cases h
        exact .notEmbedded bare
      · simp only [advance, List.isEmpty_iff, bare, ↓reduceIte] at h
        cases h
        exact .begin_ bare
    | delete | list | fail => cases h
  | firstMarker =>
    cases choice with
    | proceed =>
      cases hit : markerMatches c b.dir (crates.key b) <;> simp only [advance, hit] at h <;> cases h
      · exact .firstMarkerMiss (.stands hit)
      · exact .firstMarkerHit hit
    | fail e => cases h; exact .firstMarkerMiss .fails
    | delete | list => cases h
  | firstRootfs =>
    cases choice with
    | proceed =>
      cases hit : rootfsOk c b.dir <;> simp only [advance, hit] at h <;> cases h
      · exact .firstRootfsMiss (.stands hit)
      · exact .firstRootfsHit hit
    | fail e => cases h; exact .firstRootfsMiss .fails
    | delete | list => cases h
  | stagingExists =>
    cases choice with
    | proceed =>
      cases found : c.root.lookup (b.staging pid) <;> simp only [advance, found] at h <;> cases h
      · exact .stagingAbsent found
      · apply Move.stagingPresent
        simp [found]
    | delete | list | fail => cases h
  | createStaging =>
    cases choice with
    | proceed =>
      simp only [advance] at h
      split at h <;> cases h
      · exact .created ‹_›
      · exact .createdAlready ‹_›
      · exact .createFailed (.stands ⟨_, ‹_›⟩)
    | fail e => cases h; exact .createFailed .fails
    | delete | list => cases h
  | openArchive =>
    cases choice with
    | proceed =>
      simp only [advance] at h
      split at h <;> cases h
      · exact .unreadable (.stands ‹_›)
      · exact .opened ‹_›
    | fail e => cases h; exact .unreadable .fails
    | delete | list => cases h
  | unpack rest ending torn =>
    cases choice with
    | proceed =>
      match rest, ending, torn, h with
      | (path, entry) :: rest, ending, false, h => cases h; exact .tore
      | (path, entry) :: rest, ending, true, h => cases h; exact .wrote
      | [], none, torn, h => cases h; exact .streamEnded
      | [], some e, torn, h => cases h; exact .unpackFailed (.stands rfl)
    | fail e =>
      simp only [advance] at h
      cases h
      exact .unpackFailed .fails
    | delete | list => simp [advance] at h
  | writeMarker torn =>
    cases choice with
    | proceed =>
      cases torn <;> simp only [advance] at h <;> split at h <;> cases h
      · exact .markerTorn ‹_›
      · exact .markerFailed (.stands ⟨_, ‹_›⟩)
      · exact .markerWritten ‹_›
      · exact .markerFailed (.stands ⟨_, ‹_›⟩)
    | fail e =>
      simp only [advance] at h
      cases h
      exact .markerFailed .fails
    | delete | list => simp [advance] at h
  | secondMarker =>
    cases choice with
    | proceed =>
      cases hit : markerMatches c b.dir (crates.key b) <;> simp only [advance, hit] at h <;> cases h
      · exact .secondMarkerMiss (.stands hit)
      · exact .secondMarkerHit hit
    | fail e => cases h; exact .secondMarkerMiss .fails
    | delete | list => cases h
  | secondRootfs =>
    cases choice with
    | proceed =>
      cases hit : rootfsOk c b.dir <;> simp only [advance, hit] at h <;> cases h
      · exact .secondRootfsMiss (.stands hit)
      · exact .secondRootfsHit hit
    | fail e => cases h; exact .secondRootfsMiss .fails
    | delete | list => cases h
  | dirExists =>
    cases choice with
    | proceed =>
      cases found : c.root.lookup b.dir <;> simp only [advance, found] at h <;> cases h
      · exact .dirAbsent (.stands found)
      · apply Move.dirPresent
        simp [found]
    | fail e => cases h; exact .dirAbsent .fails
    | delete | list => cases h
  | rename =>
    cases choice with
    | proceed =>
      simp only [advance] at h
      split at h <;> cases h
      · exact .renamed ‹_›
      · exact .renameFailed (.stands ‹_›)
    | fail e => cases h; exact .renameFailed .fails
    | delete | list => cases h
  | readRoot =>
    cases choice with
    | list names => cases h; exact .listed
    | fail e => cases h; exact .unlisted
    | proceed | delete => cases h
  | sweep names =>
    cases names with
    | nil =>
      cases choice with
      | proceed => cases h; exact .swept
      | delete | list | fail => cases h
    | cons name names =>
      cases choice with
      | proceed =>
        by_cases skip : name = b.dir ∨ isDir c name = false ∨ stagingPrefix.isPrefixOf name = true
        · simp only [advance, skip, ↓reduceIte] at h
          cases h
          exact .sweepSkip (.stands skip)
        · simp only [advance, skip, ↓reduceIte] at h
          cases h
          simp only [not_or, Bool.not_eq_false, Bool.not_eq_true] at skip
          exact .sweepPick skip.1 skip.2.1 skip.2.2
      | fail e => cases h; exact .sweepSkip .fails
      | delete | list => cases h
  | returned result => cases choice <;> cases h

end ImageBuilder.RootfsInstall
