import ImageBuilder.VmGuest

/-! What the guests of one host do to its files, and what one of them can rely on while the
others do it. -/
namespace ImageBuilder.VmGuest

open Inode Inode.FileSystem VmBuildFiles

def contextDir : List FileName := named ["build", "context"]
def outputDir : List FileName := named ["build", "output"]
def storageDir : List FileName := named ["var", "lib", "containers"]
def runDir : List FileName := named ["run"]
def tmpDir : List FileName := named ["var", "tmp"]
def etcResolv : List FileName := named ["etc", "resolv.conf"]

/-- The directories that the script makes on its root share. -/
def madeDirs : List (List FileName) :=
  [contextDir, outputDir, storageDir, tmpDir].flatMap fun dir => dir.inits.tail

/-- The directories that a VM is given, and the name of its tarball. -/
structure Shares where
  root : Nat
  context : Nat
  output : Nat
  name : FileName

/-- The files of the host that a build reads. -/
def Shares.inputs (shares : Shares) : List (Nat × List FileName) :=
  [(shares.context, [containerfileEntry]), (shares.root, etcResolv)]

/-- Growth by directories that the script makes. -/
structure Prepared (top : Nat) (h h' : Files) : Prop extends OnlyDirs h h' where
  named : ∀ ino node, h.nodes.lookup ino = none → h'.nodes.lookup ino = some node →
    ∃ path ∈ madeDirs, h'.reach top path = some ino
  closed : h.Closed → h'.Closed

/-- The tarball is written, or a part of it. -/
inductive Delivered (shares : Shares) (h : Files) : Files → Prop where
  | wrote (found : h.nodes.lookup (h.inode [(shares.name, shares.output)]) = some (.dir entries))
      (bytes : List UInt8) :
      Delivered shares h (h.written [(shares.name, shares.output)] entries shares.name 0o644 bytes)

/-- What a guest does to the files of the host. -/
def Changes (shares : Shares) (h h' : Files) : Prop :=
  Prepared shares.root h h' ∨ Delivered shares h h'

/-- What a guest relies on: files appear, but no links, and neither what it reads nor what it
has written changes. -/
structure Rely (shares : Shares) (h h' : Files) : Prop where
  grown : ∃ changed, Extends changed h h' ∧ ∀ ino, changed ino →
    h.reach shares.output [shares.name] ≠ some ino ∧
      ∀ input ∈ shares.inputs, h.reach input.1 input.2 ≠ some ino
  linkless : Linkless h h'

/-- No tarball is one of another guest, or what a guest reads. -/
structure Apart {I : Type} (shares : I → Shares) (h : Files) : Prop where
  closed : h.Closed
  present : ∀ i, ∀ input ∈ (shares i).inputs, ∃ ino node,
    h.reach input.1 input.2 = some ino ∧ h.nodes.lookup ino = some node
  outputs : ∀ i j ino mode contents, h.nodes.lookup ino = some (.file mode contents) →
    h.reach (shares i).output [(shares i).name] = some ino →
    h.reach (shares j).output [(shares j).name] = some ino → i = j
  inputs : ∀ i j ino mode contents, h.nodes.lookup ino = some (.file mode contents) →
    h.reach (shares i).output [(shares i).name] = some ino →
    ∀ input ∈ (shares j).inputs, h.reach input.1 input.2 ≠ some ino

/-- What is new is a directory that a script makes, or a tarball; nothing else has changed. -/
structure Kept {I : Type} (shares : I → Shares) (h₀ h : Files) : Prop where
  grown : Extends (fun ino => ∃ i, h₀.reach (shares i).output [(shares i).name] = some ino) h₀ h
  new : ∀ ino node, h₀.nodes.lookup ino = none → h.nodes.lookup ino = some node →
    (∃ entries, node = .dir entries ∧
      ∃ i, ∃ path ∈ madeDirs, h.reach (shares i).root path = some ino) ∨
    ∃ mode contents, node = .file mode contents ∧
      ∃ i, h.reach (shares i).output [(shares i).name] = some ino

theorem Prepared.refl (top : Nat) (h : Files) : Prepared top h h where
  toOnlyDirs := .refl h
  named ino node absent found := by
    rw [absent] at found
    cases found
  closed := id

theorem Prepared.trans (first : Prepared top h mid) (second : Prepared top mid h') :
    Prepared top h h' where
  toOnlyDirs := first.toOnlyDirs.trans second.toOnlyDirs
  named ino node absent found := by
    cases between : mid.nodes.lookup ino with
    | none => exact second.named _ _ between found
    | some middle =>
      obtain ⟨path, member, reached⟩ := first.named _ _ absent between
      exact ⟨path, member, second.reach reached⟩
  closed before := second.closed (first.closed before)

/-- One directory more. -/
theorem prepared_add (found : h.nodes.lookup ino = some (.dir entries))
    (free : entries.lookup n = none) (reached : h.reach top path = some ino)
    (made : path ++ [n] ∈ madeDirs) : Prepared top h (h.add [(n, ino)] entries n (.dir ∅)) where
  toExtends := extends_added found free (fun inside same => by cases same; rfl)
  made j node absent new := by
    rw [lookup_add] at new
    split at new
    · cases new
      exact ⟨∅, rfl⟩
    · split at new
      · cases new
        exact ⟨_, rfl⟩
      · rw [absent] at new
        cases new
  named j node absent new := by
    refine ⟨path ++ [n], made, ?_⟩
    rw [lookup_add] at new
    split at new
    · rename_i same
      rw [same]
      exact reach_added found free (fun inside same => by cases same; rfl) reached
    · split at new
      · rename_i same
        rw [same] at absent
        rw [show h.nodes.lookup (h.inode [(n, ino)]) = _ from found] at absent
        cases absent
      · rw [absent] at new
        cases new
  closed before := before.added found (fun inside same => by cases same; rfl) n

section Delivering

variable {shares : Shares} {h h' : Files}

theorem Delivered.grown (delivered : Delivered shares h h') :
    Extends (fun ino => h.reach shares.output [shares.name] = some ino ∧
      ∃ mode contents, h.nodes.lookup ino = some (.file mode contents)) h h' := by
  cases delivered with
  | wrote found bytes =>
    refine (extends_written found shares.name 0o644 bytes).weaken ?_
    intro ino mode contents there named
    refine ⟨?_, mode, contents, there⟩
    rw [reach_single (show h.nodes.lookup shares.output = _ from found)]
    exact named

theorem Delivered.linkless (delivered : Delivered shares h h') : Linkless h h' := by
  cases delivered with
  | wrote found bytes =>
    intro ino target absent linked
    cases (written_new found absent linked).1

theorem Delivered.closed (delivered : Delivered shares h h') (before : h.Closed) : h'.Closed := by
  cases delivered with
  | wrote found bytes => exact before.written found _ _ _

/-- What is new is a file, under the name of the tarball alone. -/
theorem Delivered.new (delivered : Delivered shares h h') (absent : h.nodes.lookup ino = none)
    (found : h'.nodes.lookup ino = some node) : (∃ mode contents, node = .file mode contents) ∧
      h'.reach shares.output [shares.name] = some ino := by
  cases delivered with
  | wrote dir bytes =>
    obtain ⟨rfl, _, entered⟩ := written_new dir absent found
    refine ⟨⟨_, _, rfl⟩, ?_⟩
    have there : (h.written [(shares.name, shares.output)] _ shares.name 0o644 bytes).nodes.lookup
      shares.output = some _ := entered
    rw [reach_single there]
    exact Finmap.lookup_insert _

theorem Delivered.only_name (delivered : Delivered shares h h') (before : h.Closed)
    (absent : h.nodes.lookup ino = none) (found : h'.nodes.lookup ino = some node)
    (reached : h'.reach top [n] = some ino) : top = shares.output ∧ n = shares.name := by
  cases delivered with
  | @wrote entries dir bytes =>
    have free := (written_new dir absent found).2.1
    rw [written, free] at reached
    exact before.added_name dir (fun inside same => by cases same) absent reached

end Delivering

theorem Changes.grown (changes : Changes shares h h') :
    Extends (fun ino => h.reach shares.output [shares.name] = some ino ∧
      ∃ mode contents, h.nodes.lookup ino = some (.file mode contents)) h h' := by
  rcases changes with prepared | delivered
  · exact prepared.toExtends.mono fun _ never => never.elim
  · exact delivered.grown

theorem Changes.linkless (changes : Changes shares h h') : Linkless h h' := by
  rcases changes with prepared | delivered
  · exact prepared.toOnlyDirs.linkless
  · exact delivered.linkless

section Together

variable {I : Type} {shares : I → Shares} {h₀ h h' : Files}

theorem Kept.refl (shares : I → Shares) (h : Files) : Kept shares h h where
  grown := .refl h
  new ino node absent found := by
    rw [absent] at found
    cases found

/-- A guest disturbs no other. -/
theorem Apart.relied (apart : Apart shares h) (other : i ≠ j) (changes : Changes (shares i) h h') :
    Rely (shares j) h h' where
  grown := by
    refine ⟨_, changes.grown, ?_⟩
    rintro ino ⟨reached, mode, contents, found⟩
    refine ⟨fun same => ?_, apart.inputs i j ino mode contents found reached⟩
    exact other (apart.outputs i j ino mode contents found reached same)
  linkless := changes.linkless

theorem Apart.kept (apart : Apart shares h)
    (distinct : ∀ i j, (shares i).output = (shares j).output → (shares i).name = (shares j).name →
      i = j)
    (changes : Changes (shares i) h h') : Apart shares h' := by
  have grown := changes.grown
  have present : ∀ j, ∀ input ∈ (shares j).inputs, ∃ ino node,
      h'.reach input.1 input.2 = some ino ∧ h'.nodes.lookup ino = some node := by
    intro j input member
    obtain ⟨ino, node, reached, there⟩ := apart.present j input member
    obtain ⟨new, still, _⟩ := grown.present there
    exact ⟨ino, new, grown.reach reached, still⟩
  -- a file that is new is the tarball of this guest
  have fresh : ∀ ino mode contents, h.nodes.lookup ino = none →
      h'.nodes.lookup ino = some (.file mode contents) →
      ∀ j, h'.reach (shares j).output [(shares j).name] = some ino → j = i := by
    intro ino mode contents absent found j reached
    rcases changes with prepared | delivered
    · obtain ⟨_, impossible⟩ := prepared.made _ _ absent found
      cases impossible
    · obtain ⟨dir, name⟩ := delivered.only_name apart.closed absent found reached
      exact distinct j i dir name
  refine ⟨?_, present, ?_, ?_⟩
  · rcases changes with prepared | delivered
    · exact prepared.closed apart.closed
    · exact delivered.closed apart.closed
  · intro j k ino mode contents found first second
    rcases grown.file_origin found with absent | ⟨old, before⟩
    · rw [fresh ino mode contents absent found j first, fresh ino mode contents absent found k second]
    · exact apart.outputs j k ino mode old before (grown.reach_old first before)
        (grown.reach_old second before)
  · intro j k ino mode contents found first input member reached
    obtain ⟨other, node, before, there⟩ := apart.present k input member
    have still := grown.reach before
    rw [reached] at still
    cases still
    rcases grown.file_origin found with absent | ⟨old, earlier⟩
    · rw [absent] at there
      cases there
    · exact apart.inputs j k ino mode old earlier (grown.reach_old first earlier) input member before

theorem Kept.kept (kept : Kept shares h₀ h) (changes : Changes (shares i) h h') :
    Kept shares h₀ h' where
  grown := by
    refine (kept.grown.trans changes.grown).weaken ?_
    rintro ino mode contents before (already | ⟨reached, _⟩)
    · exact already
    · exact ⟨i, kept.grown.reach_old reached before⟩
  new ino node absent found := by
    cases between : h.nodes.lookup ino with
    | none =>
      rcases changes with prepared | delivered
      · obtain ⟨entries, rfl⟩ := prepared.made _ _ between found
        exact .inl ⟨entries, rfl, i, prepared.named _ _ between found⟩
      · obtain ⟨⟨mode, contents, rfl⟩, reached⟩ := delivered.new between found
        exact .inr ⟨mode, contents, rfl, i, reached⟩
    | some middle =>
      rcases kept.new ino middle absent between with
        ⟨entries, rfl, j, path, member, reached⟩ | ⟨mode, contents, rfl, j, reached⟩
      · obtain ⟨more, still, _⟩ := changes.grown.dir _ _ between
        rw [found] at still
        cases still
        exact .inl ⟨more, rfl, j, path, member, changes.grown.reach reached⟩
      · obtain ⟨new, still, _⟩ := changes.grown.file _ _ _ between
        rw [found] at still
        cases still
        exact .inr ⟨mode, new, rfl, j, changes.grown.reach reached⟩

end Together

end ImageBuilder.VmGuest
