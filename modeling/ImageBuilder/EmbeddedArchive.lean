import ImageBuilder.HostFiles
import ImageBuilder.RootfsAlone
import ImageBuilder.Library.Fallible

/-! The rootfs archive that `build.rs` embeds with its digest, and what `install` makes of
the two at run time. -/
namespace ImageBuilder

open RootfsCache

/-- What a `zstd::Decoder` yields when it is read to the end: its bytes, and the error it
stops with, if any. -/
structure Decoding where
  bytes : List UInt8
  ending : Option Text

/-- The `zstd` crate. Its decoder is one function, in the build and at run time. -/
structure Zstd where
  encodeAll : List UInt8 → Int → Except Text (List UInt8)
  decoder : List UInt8 → Except Text Decoding

/-- `Read::read_to_end`. -/
def Decoding.readToEnd (decoding : Decoding) : Except Text (List UInt8) :=
  match decoding.ending with
  | none => .ok decoding.bytes
  | some e => .error e

/-- A whole archive decoded, as the build verifies it. -/
def Zstd.decodeAll (zstd : Zstd) (archive : List UInt8) : Except Text (List UInt8) :=
  zstd.decoder archive >>= Decoding.readToEnd

/-- The decoder makes nothing of nothing. -/
def Zstd.Silent (zstd : Zstd) : Prop := ∀ bytes, zstd.decodeAll [] = .ok bytes → bytes = []

theorem Zstd.decodeAll_ok {zstd : Zstd} : zstd.decodeAll archive = .ok bytes ↔
    zstd.decoder archive = .ok ⟨bytes, none⟩ := by
  constructor
  · intro decoded
    obtain ⟨⟨yielded, ending⟩, opened, read⟩ := Fallible.except_ok decoded
    cases ending with
    | none =>
      cases read
      exact opened
    | some e => cases read
  · intro opened
    rw [Zstd.decodeAll, opened]
    rfl

namespace BuildScript

/-- `ARCHIVE_ENV`. -/
def archiveEnv : Text := "OPENSHELL_BUILD_IMAGE_VM_ROOTFS_ARCHIVE"

/-- `ARCHIVE_OUT`. -/
def archiveOut : Text := "vm-rootfs.tar.zst"

/-- `DIGEST_OUT`. -/
def digestOut : Text := "vm-rootfs.sha256"

/-- `ZSTD_MAGIC`. -/
def zstdMagic : List UInt8 := [0x28, 0xb5, 0x2f, 0xfd]

/-- `COMPRESSION_LEVEL`. -/
def compressionLevel : Int := 12

/-- The environment variables and the files a build finds. -/
structure Host where
  outDir : Except Text Text
  archive : Option PathBuf
  read : PathBuf → Except Text (List UInt8)
  /-- The error of writing this file, if that fails. -/
  writeError : PathBuf → Option Text

/-- The lines a build has printed, and its two files in `OUT_DIR`. -/
structure Outputs where
  printed : List Text
  archive : Option (List UInt8)
  digest : Option Text

/-- A build that may panic, with this message. -/
abbrev Script (A : Type) := EStateM Text Outputs A

def println (line : Text) : Script Unit := fun out =>
  .ok () { out with printed := out.printed ++ [line] }

/-- `unwrap_or_else(|e| panic!(…))`. -/
def orPanic (message : Text → Text) (result : Except Text A) : Script A := fun out =>
  match result with
  | .ok value => .ok value out
  | .error e => .error (message e) out

/-- `assert!`. -/
def assertOr (message : Text) (condition : Bool) : Script Unit := fun out =>
  if condition then .ok () out else .error message out

/-- `fs::write(out_dir.join(ARCHIVE_OUT), …)`. -/
def writeArchive (host : Host) (outDir : Text) (contents : List UInt8) : Script Unit := fun out =>
  match host.writeError (PathBuf.join (.utf8 outDir) archiveOut) with
  | some e => .error ("write " ++ archiveOut ++ ": " ++ e) out
  | none => .ok () { out with archive := some contents }

/-- `fs::write(out_dir.join(DIGEST_OUT), …)`. -/
def writeDigest (host : Host) (outDir digest : Text) : Script Unit := fun out =>
  match host.writeError (PathBuf.join (.utf8 outDir) digestOut) with
  | some e => .error ("write " ++ digestOut ++ ": " ++ e) out
  | none => .ok () { out with digest := some digest }

def compress (zstd : Zstd) (contents : List UInt8) (archive : PathBuf) : Script (List UInt8) := do
  let compressed ← orPanic (fun e => "compress " ++ archive.toStringLossy ++ ": " ++ e)
    (zstd.encodeAll contents compressionLevel)
  let roundtrip ← orPanic (fun e => "verify compressed " ++ archive.toStringLossy ++ ": " ++ e)
    (zstd.decodeAll compressed)
  assertOr ("compressed " ++ archive.toStringLossy ++
    " does not decompress to the original bytes") (roundtrip = contents)
  return compressed

def verifyFrame (zstd : Zstd) (contents : List UInt8) (archive : PathBuf) : Script Unit := do
  let decoded ← orPanic (fun e => "verify compressed " ++ archive.toStringLossy ++ ": " ++ e)
    (zstd.decodeAll contents)
  assertOr ("compressed " ++ archive.toStringLossy ++ " decompresses to nothing")
    (!decoded.isEmpty)

def writePlaceholders (host : Host) (outDir : Text) : Script Unit := do
  writeArchive host outDir []
  writeDigest host outDir []

/-- The bytes to embed, of an archive that is set. -/
def compressedArchive (zstd : Zstd) (contents : List UInt8) (archive : PathBuf) :
    Script (List UInt8) :=
  if zstdMagic.isPrefixOf contents then do
    verifyFrame zstd contents archive
    return contents
  else compress zstd contents archive

def main (sha256 : List UInt8 → List UInt8) (zstd : Zstd) (host : Host) : Script Unit := do
  println ("cargo:rerun-if-env-changed=" ++ archiveEnv)
  let outDir ← orPanic (fun e => "OUT_DIR not set: ".toList ++ e) host.outDir
  match host.archive with
  | none =>
    println ("cargo:warning=" ++ archiveEnv ++ " not set: building without an embedded VM rootfs")
    println ("cargo:warning=Build one with crates/vm-image-builder/vm-image/".toList ++
      "make-rootfs.sh, or pass --vm-rootfs at run time")
    writePlaceholders host outDir
  | some archive =>
    println ("cargo:rerun-if-changed=" ++ archive.toStringLossy)
    let contents ← orPanic (fun e => "read " ++ archiveEnv ++ " (" ++ archive.toStringLossy ++
      "): " ++ e) (host.read archive)
    assertOr (archiveEnv ++ " is empty: " ++ archive.toStringLossy) (!contents.isEmpty)
    let compressed ← compressedArchive zstd contents archive
    let digest := hex (sha256 compressed)
    writeArchive host outDir compressed
    writeDigest host outDir digest
    println ("cargo:warning=Embedded VM rootfs: " ++ Nat.toDigits 10 compressed.length ++
      " bytes (" ++ digest ++ ")")

theorem orPanic_ok : orPanic message result out = .ok value after ↔
    result = .ok value ∧ after = out := by
  cases result <;> simp [orPanic, eq_comm]

theorem assertOr_ok : assertOr message condition out = .ok () after ↔
    condition = true ∧ after = out := by
  cases condition <;> simp [assertOr, eq_comm]

theorem writeArchive_ok (wrote : writeArchive host outDir contents out = .ok () after) :
    after = { out with archive := some contents } := by
  unfold writeArchive at wrote
  split at wrote
  · cases wrote
  · cases wrote
    rfl

theorem writeDigest_ok (wrote : writeDigest host outDir digest out = .ok () after) :
    after = { out with digest := some digest } := by
  unfold writeDigest at wrote
  split at wrote
  · cases wrote
  · cases wrote
    rfl

/-- What the encoder returned is embedded only if it decodes to the original bytes. -/
theorem compress_ok (done : compress zstd contents archive out = .ok compressed after) :
    zstd.decodeAll compressed = .ok contents := by
  obtain ⟨_, _, _, verified⟩ := Fallible.bind_ok.mp done
  obtain ⟨roundtrip, _, read, compared⟩ := Fallible.bind_ok.mp verified
  obtain ⟨_, _, checked, returned⟩ := Fallible.bind_ok.mp compared
  obtain ⟨decoded, _⟩ := orPanic_ok.mp read
  obtain ⟨equal, _⟩ := assertOr_ok.mp checked
  cases returned
  rw [decoded, of_decide_eq_true equal]

theorem verifyFrame_ok (done : verifyFrame zstd contents archive out = .ok () after) :
    ∃ bytes, zstd.decodeAll contents = .ok bytes ∧ bytes ≠ [] := by
  obtain ⟨bytes, _, read, checked⟩ := Fallible.bind_ok.mp done
  obtain ⟨full, _⟩ := assertOr_ok.mp checked
  exact ⟨bytes, (orPanic_ok.mp read).1, by simpa using full⟩

/-- How the embedded archive comes from the file's contents. -/
inductive Comes (zstd : Zstd) (contents : List UInt8) : List UInt8 → Prop where
  | compressed : zstdMagic.isPrefixOf contents = false →
      zstd.decodeAll compressed = .ok contents → Comes zstd contents compressed
  | verified : zstdMagic.isPrefixOf contents = true →
      zstd.decodeAll contents = .ok bytes → bytes ≠ [] → Comes zstd contents contents

theorem compressedArchive_ok
    (done : compressedArchive zstd contents archive out = .ok embedded after) :
    Comes zstd contents embedded := by
  unfold compressedArchive at done
  split at done
  · rename_i magic
    obtain ⟨_, _, checked, returned⟩ := Fallible.bind_ok.mp done
    obtain ⟨bytes, decoded, full⟩ := verifyFrame_ok checked
    cases returned
    exact .verified magic decoded full
  · rename_i plain
    exact .compressed (Bool.eq_false_iff.mpr plain) (compress_ok done)

/-- What a build that does not panic leaves in `OUT_DIR`. -/
inductive Embeds (sha256 : List UInt8 → List UInt8) (zstd : Zstd) (host : Host) :
    List UInt8 → Text → Prop where
  | placeholders : host.archive = none → Embeds sha256 zstd host [] []
  | file : host.archive = some path → host.read path = .ok contents → contents ≠ [] →
      Comes zstd contents archive → Embeds sha256 zstd host archive (hex (sha256 archive))

theorem main_ok (built : main sha256 zstd host before = .ok () after) :
    ∃ archive digest, after.archive = some archive ∧ after.digest = some digest ∧
      Embeds sha256 zstd host archive digest := by
  obtain ⟨_, _, _, started⟩ := Fallible.bind_ok.mp built
  obtain ⟨outDir, _, _, branch⟩ := Fallible.bind_ok.mp started
  cases set : host.archive with
  | none =>
    rw [set] at branch
    obtain ⟨_, _, _, warned⟩ := Fallible.bind_ok.mp branch
    obtain ⟨_, _, _, placed⟩ := Fallible.bind_ok.mp warned
    obtain ⟨_, _, archived, last⟩ := Fallible.bind_ok.mp placed
    have stored := writeArchive_ok archived
    have final := writeDigest_ok last
    subst stored final
    exact ⟨[], [], rfl, rfl, .placeholders set⟩
  | some path =>
    rw [set] at branch
    obtain ⟨_, _, _, onward⟩ := Fallible.bind_ok.mp branch
    obtain ⟨contents, _, read, nonempty⟩ := Fallible.bind_ok.mp onward
    obtain ⟨_, _, full, towardArchive⟩ := Fallible.bind_ok.mp nonempty
    obtain ⟨archive, _, made, towardWrite⟩ := Fallible.bind_ok.mp towardArchive
    obtain ⟨_, _, archived, towardDigest⟩ := Fallible.bind_ok.mp towardWrite
    obtain ⟨_, _, digested, printed⟩ := Fallible.bind_ok.mp towardDigest
    have stored := writeArchive_ok archived
    have recorded := writeDigest_ok digested
    subst stored recorded
    cases printed
    refine ⟨archive, hex (sha256 archive), rfl, rfl, .file set (orPanic_ok.mp read).1 ?_
      (compressedArchive_ok made)⟩
    simpa using (assertOr_ok.mp full).1

end BuildScript

/-- What the `tar` reader makes of the bytes it reads: the entries it unpacks, the error it
stops with, and whether it asks for more bytes than there are. -/
structure Unpacking where
  entries : List (Text × Entry)
  error : Option Text
  wantsMore : Bool

/-- `tar::Archive::unpack` of what a decoder yields. An error of the decoder stops it when
the reader gets that far. -/
def unpackStream (untar : List UInt8 → Unpacking) (decoding : Decoding) : Decoded :=
  let reading := untar decoding.bytes
  match decoding.ending with
  | none => .stream reading.entries reading.error
  | some e => .stream reading.entries (if reading.wantsMore then some e else reading.error)

/-- The crates as `stage` calls them. -/
def Zstd.crates (zstd : Zstd) (sha256 : List UInt8 → List UInt8)
    (untar : List UInt8 → Unpacking) : Crates where
  sha256 := sha256
  decode archive :=
    match zstd.decoder archive with
    | .error e => .unreadable e
    | .ok decoding => unpackStream untar decoding

/-- An archive that decodes to its end leaves the errors to the `tar` reader. -/
theorem Zstd.crates_decode {zstd : Zstd} (decoded : zstd.decodeAll archive = .ok bytes) :
    (zstd.crates sha256 untar).decode archive = .stream (untar bytes).entries (untar bytes).error := by
  simp only [Zstd.crates, Zstd.decodeAll_ok.mp decoded, unpackStream]

namespace RootfsInstall

open Transition

/-- The result that an install has settled on. -/
def Pc.result? : Pc → Option (Except InstallError Text)
  | .dropStaging _ result | .returned result => some result
  | _ => none

/-- Where the result of an install comes from. -/
inductive Cause (crates : Crates) (b : Binary) : Except InstallError Text → Prop where
  | installed : Cause crates b (.ok b.dir)
  | notEmbedded : b.archive = [] → Cause crates b (.error .notEmbedded)
  | unreadable : crates.decode b.archive = .unreadable e → Cause crates b (.error (.readArchive e))
  | other : error ≠ .notEmbedded → (∀ e, error ≠ .readArchive e) → Cause crates b (.error error)

/-- Opening the decoder at run time gives what the decoder as a function gives. -/
def Deterministic (s : State) : Action → Prop
  | .step pid (.fail _) => ∀ proc ∈ s.procs.lookup pid, proc.pc ≠ .openArchive
  | .step _ .proceed | .step _ (.delete _) | .step _ (.list _) | .spawn _ _ | .kill _ => True

instance (s : State) : DecidablePred (Deterministic s)
  | .step pid (.fail _) => inferInstanceAs (Decidable (∀ proc ∈ s.procs.lookup pid, _))
  | .step _ .proceed | .step _ (.delete _) | .step _ (.list _) | .spawn _ _ | .kill _ =>
    isTrue trivial

theorem Move.result_origin (move : Move crates b pid pc choice c pc' d)
    (opens : pc = .openArchive → ∀ e, choice ≠ .fail e)
    (settled : pc'.result? = some result) : pc.result? = some result ∨ Cause crates b result := by
  cases move with
  | notEmbedded empty =>
    cases settled
    exact .inr (.notEmbedded empty)
  | unreadable answer =>
    cases settled
    cases answer with
    | stands decoded => exact .inr (.unreadable decoded)
    | fails => exact absurd rfl (opens rfl _)
  | firstRootfsHit | secondRootfsHit | unlisted | swept =>
    cases settled
    exact .inr .installed
  | clearFailed | createFailed | unpackFailed | markerFailed | removeFailed | renameFailed =>
    cases settled
    exact .inr (.other (by simp) (by simp))
  | dropping | dropped =>
    cases settled
    exact .inl rfl
  | _ => cases settled

/-- What an install does with its archive. -/
structure Consults (crates : Crates) (b : Binary) (pc : Pc) : Prop where
  empty : b.archive = [] → pc = .start ∨ pc = .returned (.error .notEmbedded)
  cause : ∀ result, pc.result? = some result → Cause crates b result

theorem consults_start : Consults crates b .start where
  empty _ := .inl rfl
  cause _ settled := by cases settled

theorem Move.consults (move : Move crates b pid pc choice c pc' d)
    (opens : pc = .openArchive → ∀ e, choice ≠ .fail e)
    (consults : Consults crates b pc) : Consults crates b pc' := by
  constructor
  · intro empty
    rcases consults.empty empty with rfl | rfl
    · cases move with
      | notEmbedded => exact .inr rfl
      | begin_ embedded => exact absurd empty embedded
    · cases move
  · intro result settled
    exact (move.result_origin opens settled).elim (consults.cause result) id

theorem consults_run (run : Run (step crates) Deterministic (idle cache) actions s)
    (running : s.procs.lookup pid = some proc) : Consults crates proc.binary proc.pc := by
  have kept := run.invariant (fun s => ∀ q proc, s.procs.lookup q = some proc →
    Consults crates proc.binary proc.pc)
  refine kept ?_ ?_ pid proc running
  · intro s action next held permits taken
    refine (step_cases taken).forall_procs (fun _ _ proc => Consults crates proc.binary proc.pc)
      held ?_ ?_ ?_
    · exact fun _ _ _ => consults_start
    · rintro q proc choice _ _ rfl found move
      refine move.consults ?_ (held q proc found)
      rintro opening e rfl
      exact permits proc found opening
    · exact fun _ _ _ _ _ q other _ _ found _ => held q other found
  · intro q proc found
    cases found

/-- In any run a staging directory holds what its process has unpacked. -/
theorem staged_run (run : Run (step crates) allowed (idle cache) actions s)
    (running : s.procs.lookup pid = some proc) :
    Staged crates proc.binary pid s.cache proc.pc := by
  have kept := run.invariant (fun s => Orderly s ∧ ∀ q proc, s.procs.lookup q = some proc →
    Staged crates proc.binary q s.cache proc.pc)
    (fun _ _ _ held _ taken => ⟨orderly_step held.1 taken, staged_step held.1 held.2 taken⟩)
    ⟨orderly_idle cache, by simp [idle]⟩
  exact kept.2 pid proc running

/-- An install of nothing says that nothing is embedded. -/
theorem Consults.of_empty (consults : Consults crates b pc) (empty : b.archive = [])
    (settled : pc.result? = some result) : result = .error .notEmbedded := by
  rcases consults.empty empty with rfl | rfl <;> cases settled
  rfl

/-- An install of an archive that can be read blames neither its absence nor its decoder. -/
theorem Consults.of_stream (consults : Consults crates b pc) (full : b.archive ≠ [])
    (decoded : crates.decode b.archive = .stream entries fault)
    (settled : pc.result? = some result) :
    result ≠ .error .notEmbedded ∧ ∀ e, result ≠ .error (.readArchive e) := by
  cases consults.cause result settled with
  | installed => simp
  | notEmbedded empty => exact absurd empty full
  | unreadable unread =>
    rw [decoded] at unread
    cases unread
  | other embedded read => exact ⟨by simpa using embedded, by simpa using read⟩

end RootfsInstall

open BuildScript RootfsInstall Transition

theorem BuildScript.Embeds.unset (embeds : Embeds sha256 zstd host archive digest)
    (unset : host.archive = none) : archive = [] ∧ digest = [] := by
  cases embeds with
  | placeholders => exact ⟨rfl, rfl⟩
  | file set =>
    rw [unset] at set
    cases set

theorem BuildScript.Embeds.nonempty (silent : zstd.Silent)
    (embeds : Embeds sha256 zstd host archive digest) (set : host.archive = some path) :
    archive ≠ [] := by
  cases embeds with
  | placeholders unset =>
    rw [unset] at set
    cases set
  | file _ _ full comes =>
    cases comes with
    | compressed _ decoded =>
      rintro rfl
      exact full (silent _ decoded)
    | verified => exact full

theorem BuildScript.Embeds.decodes (embeds : Embeds sha256 zstd host archive digest)
    (set : host.archive = some path) : ∃ contents bytes, host.read path = .ok contents ∧
      zstd.decodeAll archive = .ok bytes ∧ digest = hex (sha256 archive) ∧
      (zstdMagic.isPrefixOf contents = false → bytes = contents) ∧
      (zstdMagic.isPrefixOf contents = true → zstd.decodeAll contents = .ok bytes ∧ bytes ≠ []) := by
  cases embeds with
  | placeholders unset =>
    rw [unset] at set
    cases set
  | file found read _ comes =>
    rw [found] at set
    cases set
    cases comes with
    | compressed plain decoded =>
      refine ⟨_, _, read, decoded, rfl, fun _ => rfl, fun magic => ?_⟩
      rw [plain] at magic
      cases magic
    | verified magic decoded full =>
      refine ⟨_, _, read, decoded, rfl, fun plain => ?_, fun _ => ⟨decoded, full⟩⟩
      rw [magic] at plain
      cases plain

/-- The key that `install` makes of `DIGEST`. -/
theorem BuildScript.Embeds.key {b : Binary} (embeds : Embeds sha256 zstd host b.archive digest)
    (set : host.archive = some path) :
    cacheKey b.version.text digest = (zstd.crates sha256 untar).key b := by
  obtain ⟨_, _, _, _, rfl, _⟩ := embeds.decodes set
  rfl

/-- What a process unpacks of a decoded archive: the entries of its bytes, in their order. -/
theorem RootfsInstall.Staged.unpacks {crates : Crates}
    (staged : Staged crates b pid c (.unpack rest ending torn))
    (decoded : crates.decode b.archive = .stream entries fault) :
    ending = fault ∧ ∃ done i tree, entries = done ++ rest ∧
      c.root.lookup (b.staging pid) = some (.dir i tree) ∧ (torn = false → tree = unpacked done) := by
  cases torn with
  | false =>
    obtain ⟨done, i, read, holds⟩ := staged
    rw [decoded] at read
    cases read
    exact ⟨rfl, done, i, _, rfl, holds, fun _ => rfl⟩
  | true =>
    obtain ⟨done, _, _, _, i, read, _, holds⟩ := staged
    rw [decoded] at read
    cases read
    exact ⟨rfl, done, i, _, rfl, holds, by simp⟩

/-- What a process renames into place is the whole archive with its marker. -/
theorem RootfsInstall.Staged.whole {crates : Crates} (staged : Staged crates b pid c .rename)
    (decoded : crates.decode b.archive = .stream entries fault) :
    fault = none ∧ ∃ i tree, c.root.lookup (b.staging pid) = some (.dir i tree) ∧
      writeFile (unpacked entries) Rootfs.marker (crates.key b) = some tree := by
  obtain ⟨i, tree, holds, extracted⟩ := staged
  simp only [Crates.extraction, decoded] at extracted
  cases fault with
  | some e => cases extracted
  | none => exact ⟨rfl, i, tree, holds, extracted⟩

/-- An install with the cache to itself unpacks its archive to the end. -/
theorem RootfsInstall.certain_unpacks {crates : Crates} {b : Binary} {pid : Nat} {c : Cache}
    (decoded : crates.decode b.archive = .stream entries none)
    (made : c.root.lookup (b.staging pid) = some (.dir i ∅)) :
    Certain crates b pid (fun s => s.1 = .writeMarker false ∧
      s.2.root = c.root.insert (b.staging pid) (.dir i (unpacked entries))) (.openArchive, c) := by
  have opened : advance crates b pid .openArchive .proceed c =
      some (.unpack entries none false, c) := by
    simp [advance, decoded]
  have bare : c.root.lookup (b.staging pid) = some (.dir i (unpacked [])) := made
  refine certain_proceed rfl opened (certain_unpack bare fun d same => ?_)
  exact .here ⟨rfl, same⟩

/-- What a process that installs the embedded archive does in any state of a run. -/
structure Installs (crates : Crates) (unset : Prop) (archive : Except Text (List UInt8))
    (untar : List UInt8 → Unpacking) (key : Text) (s : State) (pid : Nat) (proc : Process) :
    Prop where
  /-- Where nothing is embedded, the only operation is to say so. -/
  absent : unset → proc.pc = .returned (.error .notEmbedded) ∨
    step crates s (.step pid .proceed) = some { s with
      procs := s.procs.insert pid ⟨proc.binary, .returned (.error .notEmbedded)⟩ }
  embedded : ∀ result, proc.pc = .returned result → (result = .error .notEmbedded ↔ unset)
  decoder : ∀ e, proc.pc.result? ≠ some (.error (.readArchive e))
  /-- The staging directory holds the entries that have been read. -/
  reading : ∀ rest ending torn, proc.pc = .unpack rest ending torn →
    ∃ bytes done i tree, archive = .ok bytes ∧ (untar bytes).entries = done ++ rest ∧
      ending = (untar bytes).error ∧
      s.cache.root.lookup (proc.binary.staging pid) = some (.dir i tree) ∧
      (torn = false → tree = unpacked done)
  /-- What is renamed into place is everything, and the marker. -/
  renames : proc.pc = .rename → ∃ bytes i tree, archive = .ok bytes ∧ (untar bytes).error = none ∧
    s.cache.root.lookup (proc.binary.staging pid) = some (.dir i tree) ∧
    writeFile (unpacked (untar bytes).entries) Rootfs.marker key = some tree

theorem installs_run {zstd : Zstd} {proc : Process} (silent : zstd.Silent)
    (embeds : Embeds sha256 zstd host proc.binary.archive digest)
    (run : Run (step (zstd.crates sha256 untar)) Deterministic (idle cache) actions s)
    (running : s.procs.lookup pid = some proc) :
    Installs (zstd.crates sha256 untar) (host.archive = none)
      (zstd.decodeAll proc.binary.archive) untar (cacheKey proc.binary.version.text digest)
      s pid proc := by
  have consults := consults_run run running
  have staged := staged_run run running
  cases set : host.archive with
  | none =>
    have empty := (embeds.unset set).1
    have ended := consults.empty empty
    constructor
    · intro _
      refine ended.symm.imp id fun started => ?_
      simp [step, running, started, advance, empty]
    · intro result returned
      simp [consults.of_empty empty (by rw [returned]; rfl)]
    · intro e settled
      cases consults.of_empty empty settled
    · intro rest ending torn reading
      rcases ended with start | returned <;> simp_all
    · intro atRename
      rcases ended with start | returned <;> simp_all
  | some path =>
    have full := embeds.nonempty silent set
    obtain ⟨_, bytes, _, decoded, _⟩ := embeds.decodes set
    have read : (zstd.crates sha256 untar).decode proc.binary.archive =
        .stream (untar bytes).entries (untar bytes).error := Zstd.crates_decode decoded
    constructor
    · intro unset
      cases unset
    · intro result returned
      simp [(consults.of_stream full read (by rw [returned]; rfl)).1]
    · intro e settled
      exact (consults.of_stream full read settled).2 e rfl
    · intro rest ending torn reading
      rw [reading] at staged
      obtain ⟨ended, done, i, tree, entries, holds, whole⟩ := staged.unpacks read
      exact ⟨bytes, done, i, tree, decoded, entries, ended, holds, whole⟩
    · intro atRename
      rw [atRename] at staged
      obtain ⟨ended, i, tree, holds, whole⟩ := staged.whole read
      rw [← embeds.key set] at whole
      exact ⟨bytes, i, tree, decoded, ended, holds, whole⟩

/-- What a build that does not panic embeds is what a run unpacks: an archive that decodes to
its end, to the file's bytes or to the decoding of a file that is compressed already, with the
digest of its bytes; or nothing, if no file was named, and then, and only then, `install` says
so. -/
theorem embedded_archive_unpacks {sha256 : List UInt8 → List UInt8} {zstd : Zstd}
    {host : Host} {before after : Outputs} (untar : List UInt8 → Unpacking) (silent : zstd.Silent)
    (built : main sha256 zstd host before = .ok () after) :
    ∃ archive digest, after.archive = some archive ∧ after.digest = some digest ∧
      (host.archive = none → archive = [] ∧ digest = []) ∧
      (∀ path, host.archive = some path → archive ≠ [] ∧ ∃ contents bytes,
        host.read path = .ok contents ∧ zstd.decodeAll archive = .ok bytes ∧
        digest = hex (sha256 archive) ∧
        (zstdMagic.isPrefixOf contents = false → bytes = contents) ∧
        (zstdMagic.isPrefixOf contents = true →
          zstd.decodeAll contents = .ok bytes ∧ bytes ≠ []) ∧
        (zstd.crates sha256 untar).decode archive =
          .stream (untar bytes).entries (untar bytes).error ∧
        ((untar bytes).error = none → ∀ (b : Binary) pid cache i, b.archive = archive →
          cache.root.lookup (b.staging pid) = some (.dir i ∅) →
          Certain (zstd.crates sha256 untar) b pid (fun s => s.1 = .writeMarker false ∧
            s.2.root = cache.root.insert (b.staging pid) (.dir i (unpacked (untar bytes).entries)))
            (.openArchive, cache))) ∧
      (host.archive = none → ∀ (b : Binary) pid cache, b.archive = archive →
        Certain (zstd.crates sha256 untar) b pid
          (fun s => s = (.returned (.error .notEmbedded), cache)) (.start, cache)) ∧
      ∀ cache actions s pid proc,
        Run (step (zstd.crates sha256 untar)) Deterministic (idle cache) actions s →
        s.procs.lookup pid = some proc → proc.binary.archive = archive →
        Installs (zstd.crates sha256 untar) (host.archive = none) (zstd.decodeAll archive) untar
          (cacheKey proc.binary.version.text digest) s pid proc := by
  obtain ⟨archive, digest, archived, digested, embeds⟩ := main_ok built
  refine ⟨archive, digest, archived, digested, embeds.unset, fun path set => ?_, ?_, ?_⟩
  · obtain ⟨contents, bytes, read, decoded, digests, plain, magic⟩ := embeds.decodes set
    have stream : (zstd.crates sha256 untar).decode archive =
        .stream (untar bytes).entries (untar bytes).error := Zstd.crates_decode decoded
    refine ⟨embeds.nonempty silent set, contents, bytes, read, decoded, digests, plain, magic,
      stream, ?_⟩
    rintro whole b pid cache i rfl made
    exact certain_unpacks (whole ▸ stream) made
  · intro unset b pid cache same
    have empty : b.archive = [] := same.trans (embeds.unset unset).1
    have taken : advance (zstd.crates sha256 untar) b pid .start .proceed cache =
        some (.returned (.error .notEmbedded), cache) := by
      simp [advance, empty]
    exact certain_proceed rfl taken (.here rfl)
  · rintro cache actions s pid proc run running rfl
    exact installs_run silent embeds run running

/-- The frame that `encode_all` makes of three bytes. -/
def BuildScript.Sample.frame : List UInt8 :=
  zstdMagic ++ [0x00, 0x60, 0x19, 0x00, 0x00, 0x61, 0x62, 0x63]

def BuildScript.Sample.zstd : Zstd where
  encodeAll _ _ := .ok Sample.frame
  decoder archive :=
    if archive = Sample.frame then .ok ⟨[0x61, 0x62, 0x63], none⟩
    else if archive = [] then .ok ⟨[], some "incomplete frame"⟩
    else .ok ⟨[], some "Unknown frame descriptor"⟩

def BuildScript.Sample.host : Host where
  outDir := .ok "/out"
  archive := some (.utf8 "rootfs.tar")
  read _ := .ok [0x61, 0x62, 0x63]
  writeError _ := none

/-- The digest of the frame. -/
def BuildScript.Sample.sha256 (_ : List UInt8) : List UInt8 := [
  0x33, 0xaa, 0x1c, 0x4f, 0x4d, 0x64, 0x2d, 0x41, 0x0c, 0xf6, 0xb6, 0x0c, 0x2b, 0x1d, 0x5f, 0x1c,
  0xa1, 0x5b, 0x04, 0x2f, 0xaf, 0xd8, 0xe1, 0x9e, 0xaf, 0xe7, 0xce, 0x5b, 0x86, 0x5e, 0xcc, 0x96]

/-- Three bytes are no tar header. -/
def BuildScript.Sample.untar (_ : List UInt8) : Unpacking :=
  ⟨[], some "failed to read entire block", true⟩

/-- A build for which no archive was named. -/
def BuildScript.Sample.unset : Host := { Sample.host with archive := none }

/-- An install of an embedded archive in an empty cache, up to its return. -/
def BuildScript.Sample.alone (archive : List UInt8) (operations : Nat) : List Action :=
  .spawn 7 ⟨RootfsInstall.Sample.first, archive⟩ :: RootfsInstall.Sample.proceeds 7 operations

theorem BuildScript.Sample.alone_run (zstd : Zstd) (sha256 : List UInt8 → List UInt8)
    (untar : List UInt8 → Unpacking) (archive : List UInt8) (operations : Nat)
    (result : Except InstallError Text) (returns : (execute (step (zstd.crates sha256 untar)) Deterministic
        (Sample.alone archive operations) (idle Cache.empty)).map (fun s =>
          (s.procs.lookup 7).map fun proc => decide
            (proc.binary.archive = archive ∧ proc.pc = .returned result)) = some (some true)) :
    ∃ s proc, Run (step (zstd.crates sha256 untar)) Deterministic (idle Cache.empty)
      (Sample.alone archive operations) s ∧ s.procs.lookup 7 = some proc ∧
      proc.binary.archive = archive ∧ proc.pc = .returned result := by
  obtain ⟨s, executed, found⟩ := Option.map_eq_some_iff.mp returns
  obtain ⟨proc, running, holds⟩ := Option.map_eq_some_iff.mp found
  obtain ⟨own, returned⟩ := of_decide_eq_true holds
  exact ⟨s, proc, Run.of_execute executed, running, own, returned⟩

/-- The three bytes come out of the decoder whole, and are no archive; and a build without
one says so. -/
theorem embedded_archive_unpacks_small :
    (∃ after archive s proc,
      main Sample.sha256 Sample.zstd Sample.host ⟨[], none, none⟩ = .ok () after ∧
      after.archive = some archive ∧ archive ≠ [] ∧
      Sample.zstd.decodeAll archive = .ok [0x61, 0x62, 0x63] ∧
      Run (step (Sample.zstd.crates Sample.sha256 Sample.untar)) Deterministic (idle Cache.empty)
        (Sample.alone archive 8) s ∧
      s.procs.lookup 7 = some proc ∧
      proc.pc = .returned (.error (.unpack "failed to read entire block"))) ∧
    ∃ after archive s proc result,
      main Sample.sha256 Sample.zstd Sample.unset ⟨[], none, none⟩ = .ok () after ∧
      after.archive = some archive ∧
      Run (step (Sample.zstd.crates Sample.sha256 Sample.untar)) Deterministic (idle Cache.empty)
        (Sample.alone archive 1) s ∧
      s.procs.lookup 7 = some proc ∧ proc.pc = .returned result ∧ result = .error .notEmbedded := by
  have silent : Sample.zstd.Silent := by
    intro bytes decoded
    cases decoded
  constructor
  · obtain ⟨after, built, stored⟩ : ∃ after,
        main Sample.sha256 Sample.zstd Sample.host ⟨[], none, none⟩ = .ok () after ∧
          after.archive = some Sample.frame := ⟨_, rfl, rfl⟩
    obtain ⟨archive, _, archived, _, _, file, _⟩ :=
      embedded_archive_unpacks Sample.untar silent built
    obtain ⟨full, contents, bytes, read, decoded, _, plain, _⟩ := file _ rfl
    cases read
    rw [plain (by decide)] at decoded
    obtain rfl : Sample.frame = archive := Option.some.inj (stored.symm.trans archived)
    obtain ⟨s, proc, run, running, _, returned⟩ := BuildScript.Sample.alone_run
      Sample.zstd Sample.sha256 Sample.untar Sample.frame 8
      (.error (.unpack "failed to read entire block")) (by decide +kernel)
    exact ⟨after, _, s, proc, built, archived, full, decoded, run, running, returned⟩
  · obtain ⟨after, built⟩ : ∃ after,
        main Sample.sha256 Sample.zstd Sample.unset ⟨[], none, none⟩ = .ok () after := ⟨_, rfl⟩
    obtain ⟨archive, _, archived, _, absent, _, _, installed⟩ :=
      embedded_archive_unpacks Sample.untar silent built
    obtain ⟨rfl, _⟩ := absent rfl
    obtain ⟨s, proc, run, running, own, returned⟩ := BuildScript.Sample.alone_run
      Sample.zstd Sample.sha256 Sample.untar [] 1 (.error .notEmbedded) (by decide +kernel)
    have unpacks := installed _ _ s 7 proc run running own
    exact ⟨after, [], s, proc, _, built, archived, run, running, returned,
      (unpacks.embedded _ returned).mpr rfl⟩

end ImageBuilder
