import ImageBuilder.HostFiles
import ImageBuilder.VmImageBuild

/-! The microVM backend up to its runner, on the files of the host. A failed build keeps
what it has done to them by then. -/
namespace ImageBuilder

open VmBuilder Inode Fallible

/-- `output_path`. -/
def VmBuilder.VmBuild.outputPath (build : VmBuild) : PathBuf :=
  build.outputDir.join build.outputFilename

/-- Where the output directory is mounted in the VM. -/
def outputShare : Text := "/build/output/"

/-- Where the script in the VM writes the tarball. -/
def VmBuilder.VmBuild.outputVmPath (build : VmBuild) : Text := outputShare ++ build.outputFilename

/-- The host path behind a path in the output share. -/
def VmBuilder.VmBuild.hostPath (build : VmBuild) (vmPath : Text) : Option PathBuf :=
  (Text.stripPrefix? outputShare vmPath).map build.outputDir.join

namespace VmBuildFiles

abbrev Staging (A : Type) := EStateM VmBuildError Files A

variable (kernel : Kernel)

/-- `VmConfig::check_rootfs`. -/
def checkRootfs (config : VmConfig) : Staging Unit := fun fs =>
  if kernel.isDir fs config.rootfs then
    match kernel.metadata fs (config.rootfs.join Rootfs.helper) with
    | .ok (.file mode _) =>
      if mode &&& 0o111 = 0 then .error (.rootfs config.rootfs .notExecutable) fs else .ok () fs
    | _ => .error (.rootfs config.rootfs .missingHelper) fs
  else .error (.rootfs config.rootfs .notADirectory) fs

def writeContainerfile (contextDir : PathBuf) (containerfile : Text) : Staging Unit := fun fs =>
  let path := contextDir.join containerfileName
  match kernel.openTruncate fs path with
  | .error source =>
    .error (.path "Containerfile in the build context" path source.message) fs
  | .ok (file, fs) =>
    match kernel.writeAll fs file (Utf8.encode containerfile) with
    | (.error e, fs) => .error (.io e.message) fs
    | (.ok (), fs) => .ok () fs

def canonicalize (path : PathBuf) (what : Text) : Staging PathBuf := fun fs =>
  match kernel.canonicalize fs path with
  | .error source => .error (.path what path source.message) fs
  | .ok real => .ok real fs

def outputFilename (output : PathBuf) : Staging Text := fun fs =>
  match output.fileName with
  | none => .error (.path "output path has no filename" output "no filename") fs
  | some name => .ok name.toStringLossy fs

def createDirAll (path : PathBuf) : Staging Unit := fun fs =>
  match kernel.createDirAll path.ancestors fs with
  | (.error e, fs) => .error (.io e.message) fs
  | (.ok (), fs) => .ok () fs

/-- The paths of a build, once its Containerfile is in place. -/
def resolve (tag : Text) (config : VmConfig) (contextDir output : PathBuf) : Staging VmBuild := do
  let rootfs ← canonicalize kernel config.rootfs "VM rootfs"
  let context ← canonicalize kernel contextDir "build context"
  let outputFilename ← outputFilename output
  createDirAll kernel (outputParent output)
  let outputDir ← canonicalize kernel (outputParent output) "output directory"
  return {
    rootfs
    context
    outputDir
    outputFilename
    tag
    cpus := config.cpus
    memoryMib := config.memoryMib
    nameservers := config.nameservers }

/-- `build` before it invokes its runner. -/
def stage (containerfile tag : Text) (config : VmConfig) (contextDir output : PathBuf) :
    Staging VmBuild := do
  checkRootfs kernel config
  writeContainerfile kernel contextDir containerfile
  resolve kernel tag config contextDir output

/-- `build`. The runner boots a VM, and may change the files too. -/
def build (containerfile tag : Text) (config : VmConfig) (runner : VmBuild → Staging Unit)
    (contextDir output : PathBuf) : Staging Unit := do
  let build ← stage kernel containerfile tag config contextDir output
  runner build

variable {kernel}

/-- Checking the rootfs leaves the files alone. -/
theorem checkRootfs_cases (kernel : Kernel) (config : VmConfig) (fs : Files) :
    checkRootfs kernel config fs = .ok () fs ∨
    ∃ e, checkRootfs kernel config fs = .error e fs := by
  unfold checkRootfs
  split
  · split
    · split
      · exact .inr ⟨_, rfl⟩
      · exact .inl rfl
    · exact .inr ⟨_, rfl⟩
  · exact .inr ⟨_, rfl⟩

theorem checkRootfs_ok (usable : checkRootfs kernel config fs = .ok u final) : final = fs := by
  rcases checkRootfs_cases kernel config fs with same | ⟨e, same⟩
  · rw [same] at usable
    cases usable
    rfl
  · rw [same] at usable
    cases usable

theorem checkRootfs_error (unusable : checkRootfs kernel config fs = .error e final) :
    final = fs := by
  rcases checkRootfs_cases kernel config fs with same | ⟨_, same⟩
  · rw [same] at unusable
    cases unusable
  · rw [same] at unusable
    cases unusable
    rfl

/-- The entry of the Containerfile in a directory. -/
def containerfileEntry : FileName := ⟨Utf8.encode containerfileName, by decide⟩

/-- The directory a build takes as its context. -/
def Context (fs : Files) (contextDir : PathBuf) (pos : Position FileName)
    (entries : FiniteMap FileName Nat) : Prop :=
  ∃ route, contextDir.asDirectory.route = some route ∧ fs.directory route = .ok (pos, entries)

/-- A file can be written under the name of the Containerfile. -/
def Writable (fs : Files) (entries : FiniteMap FileName Nat) : Prop :=
  entries.lookup containerfileEntry = none ∨
  ∃ ino mode old, entries.lookup containerfileEntry = some ino ∧
    fs.nodes.lookup ino = some (.file mode old)

/-- The files once the Containerfile holds these bytes. -/
def withContainerfile (fs : Files) (pos : Position FileName) (entries : FiniteMap FileName Nat)
    (bytes : List UInt8) : Files :=
  fs.written pos entries containerfileEntry 0o644 bytes

theorem Context.found (context : Context fs contextDir pos entries) :
    fs.nodes.lookup (fs.inode pos) = some (.dir entries) := by
  obtain ⟨route, _, there⟩ := context
  exact (FileSystem.directory_ok.mp there).2

theorem withContainerfile_extends (context : Context fs contextDir pos entries)
    (bytes : List UInt8) :
    FileSystem.Extends (fun ino => entries.lookup containerfileEntry = some ino) fs
      (withContainerfile fs pos entries bytes) :=
  FileSystem.extends_written context.found _ _ _

/-- What was written of the Containerfile before its write failed. -/
theorem writeContainerfile_cases {kernel : Kernel} {fs : Files} {contextDir : PathBuf}
    {containerfile : Text} :
    (∃ e, writeContainerfile kernel contextDir containerfile fs = .error e fs) ∨
    ∃ pos entries, Context fs contextDir pos entries ∧ Writable fs entries ∧
      (writeContainerfile kernel contextDir containerfile fs =
          .ok () (withContainerfile fs pos entries (Utf8.encode containerfile)) ∨
        ∃ e count, writeContainerfile kernel contextDir containerfile fs =
          .error e (withContainerfile fs pos entries ((Utf8.encode containerfile).take count))) := by
  cases opened : kernel.openTruncate fs (contextDir.join containerfileName) with
  | error source =>
    refine .inl ⟨.path "Containerfile in the build context"
      (contextDir.join containerfileName) source.message, ?_⟩
    simp only [writeContainerfile, opened]
  | ok result =>
    obtain ⟨file, mid⟩ := result
    obtain ⟨_, route, parsed, began⟩ := Kernel.perform_ok.mp opened
    obtain ⟨pos, entries, n, named, writable, written⟩ := FileSystem.openTruncate_written began
    have spelled : Utf8.encode containerfileName = containerfileEntry.val := rfl
    obtain ⟨rfl, above, context⟩ := join_entry spelled parsed named
    refine .inr ⟨pos, entries, ⟨above, context⟩, writable, ?_⟩
    rcases Kernel.writeAll_cases kernel mid file (Utf8.encode containerfile) with
      wrote | ⟨e, count, wrote⟩
    · refine .inl ?_
      simp only [writeContainerfile, opened, wrote, written]
      rfl
    · refine .inr ⟨.io e.message, count, ?_⟩
      simp only [writeContainerfile, opened, wrote, written]
      rfl

theorem writeContainerfile_ok
    (wrote : writeContainerfile kernel contextDir containerfile fs = .ok u final) :
    ∃ pos entries, Context fs contextDir pos entries ∧ Writable fs entries ∧
      final = withContainerfile fs pos entries (Utf8.encode containerfile) := by
  rcases writeContainerfile_cases with ⟨e, failed⟩ | ⟨pos, entries, context, writable, ended⟩
  · rw [wrote] at failed
    cases failed
  · refine ⟨pos, entries, context, writable, ?_⟩
    rcases ended with done | ⟨e, count, failed⟩
    · rw [wrote] at done
      cases done
      rfl
    · rw [wrote] at failed
      cases failed

theorem writeContainerfile_error
    (failed : writeContainerfile kernel contextDir containerfile fs = .error e final) :
    final = fs ∨ ∃ pos entries count, Context fs contextDir pos entries ∧ Writable fs entries ∧
      final = withContainerfile fs pos entries ((Utf8.encode containerfile).take count) := by
  rcases writeContainerfile_cases with ⟨e, refused⟩ | ⟨pos, entries, context, writable, ended⟩
  · rw [failed] at refused
    cases refused
    exact .inl rfl
  · rcases ended with done | ⟨e, count, cut⟩
    · rw [failed] at done
      cases done
    · rw [failed] at cut
      cases cut
      exact .inr ⟨pos, entries, count, context, writable, rfl⟩

theorem canonicalize_ok : canonicalize kernel path what fs = .ok real final ↔
    kernel.canonicalize fs path = .ok real ∧ final = fs := by
  unfold canonicalize
  cases kernel.canonicalize fs path <;> simp [eq_comm]

theorem canonicalize_error : canonicalize kernel path what fs = .error e final ↔
    ∃ source, kernel.canonicalize fs path = .error source ∧ e = .path what path source.message ∧
      final = fs := by
  unfold canonicalize
  cases kernel.canonicalize fs path <;> simp [eq_comm]

theorem outputFilename_ok : outputFilename output fs = .ok text final ↔
    ∃ name, output.fileName = some name ∧ text = name.toStringLossy ∧ final = fs := by
  unfold outputFilename
  cases output.fileName <;> simp [eq_comm]

theorem outputFilename_error : outputFilename output fs = .error e final ↔
    output.fileName = none ∧ e = .path "output path has no filename" output "no filename" ∧
      final = fs := by
  unfold outputFilename
  cases output.fileName <;> simp [eq_comm]

theorem createDirAll_ok : createDirAll kernel path fs = .ok () final ↔
    kernel.createDirAll path.ancestors fs = (.ok (), final) := by
  unfold createDirAll
  rcases kernel.createDirAll path.ancestors fs with ⟨done, after⟩
  cases done <;> simp

theorem createDirAll_error : createDirAll kernel path fs = .error e final ↔
    ∃ source, kernel.createDirAll path.ancestors fs = (.error source, final) ∧
      e = .io source.message := by
  unfold createDirAll
  rcases kernel.createDirAll path.ancestors fs with ⟨done, after⟩
  cases done <;> simp [eq_comm, and_comm]

/-- What a build's paths resolve to. -/
theorem resolve_ok : resolve kernel tag config contextDir output fs = .ok vmBuild final ↔
    ∃ rootfs context name outputDir, kernel.canonicalize fs config.rootfs = .ok rootfs ∧
      kernel.canonicalize fs contextDir = .ok context ∧ output.fileName = some name ∧
      kernel.createDirAll (outputParent output).ancestors fs = (.ok (), final) ∧
      kernel.canonicalize final (outputParent output) = .ok outputDir ∧
      vmBuild = ⟨rootfs, context, outputDir, name.toStringLossy, tag, config.cpus,
        config.memoryMib, config.nameservers⟩ := by
  constructor
  · intro resolved
    obtain ⟨rootfs, _, first, onward⟩ := bind_ok.mp resolved
    obtain ⟨firstReal, rfl⟩ := canonicalize_ok.mp first
    obtain ⟨context, _, second, towardName⟩ := bind_ok.mp onward
    obtain ⟨secondReal, rfl⟩ := canonicalize_ok.mp second
    obtain ⟨_, _, third, towardParent⟩ := bind_ok.mp towardName
    obtain ⟨name, named, rfl, rfl⟩ := outputFilename_ok.mp third
    obtain ⟨_, mid, fourth, towardOutput⟩ := bind_ok.mp towardParent
    have created := createDirAll_ok.mp fourth
    obtain ⟨outputDir, _, fifth, last⟩ := bind_ok.mp towardOutput
    obtain ⟨lastReal, rfl⟩ := canonicalize_ok.mp fifth
    cases last
    exact ⟨rootfs, context, name, outputDir, firstReal, secondReal, named, created, lastReal, rfl⟩
  · rintro ⟨rootfs, context, name, outputDir, firstReal, secondReal, named, created, lastReal, rfl⟩
    refine bind_ok.mpr ⟨_, _, canonicalize_ok.mpr ⟨firstReal, rfl⟩, ?_⟩
    refine bind_ok.mpr ⟨_, _, canonicalize_ok.mpr ⟨secondReal, rfl⟩, ?_⟩
    refine bind_ok.mpr ⟨_, _, outputFilename_ok.mpr ⟨name, named, rfl, rfl⟩, ?_⟩
    refine bind_ok.mpr ⟨_, _, createDirAll_ok.mpr created, ?_⟩
    exact bind_ok.mpr ⟨_, _, canonicalize_ok.mpr ⟨lastReal, rfl⟩, rfl⟩

/-- Why the paths of a build do not resolve, and the files by then. -/
inductive Unresolved (kernel : Kernel) (config : VmConfig) (contextDir output : PathBuf)
    (fs : Files) : Files → Prop where
  | rootfs : kernel.canonicalize fs config.rootfs = .error e →
      Unresolved kernel config contextDir output fs fs
  | context : kernel.canonicalize fs contextDir = .error e →
      Unresolved kernel config contextDir output fs fs
  | fileName : output.fileName = none → Unresolved kernel config contextDir output fs fs
  | parent : kernel.createDirAll (outputParent output).ancestors fs = (.error e, final) →
      Unresolved kernel config contextDir output fs final
  | outputDir : kernel.createDirAll (outputParent output).ancestors fs = (.ok (), final) →
      kernel.canonicalize final (outputParent output) = .error e →
      Unresolved kernel config contextDir output fs final

/-- An input of a build is rejected. -/
inductive Rejected (kernel : Kernel) (containerfile : Text) (config : VmConfig)
    (contextDir output : PathBuf) (fs : Files) : Prop where
  | rootfs (unusable : checkRootfs kernel config fs = .error e fs)
  | path (usable : checkRootfs kernel config fs = .ok () fs)
      (wrote : writeContainerfile kernel contextDir containerfile fs = .ok () mid)
      (unresolved : Unresolved kernel config contextDir output mid final)

/-- Why a build stops before its runner. -/
inductive Obstacle (kernel : Kernel) (containerfile : Text) (config : VmConfig)
    (contextDir output : PathBuf) (fs : Files) : Prop where
  | input (rejected : Rejected kernel containerfile config contextDir output fs)
  | containerfile (usable : checkRootfs kernel config fs = .ok () fs)
      (failed : writeContainerfile kernel contextDir containerfile fs = .error e final)

theorem resolve_error (failed : resolve kernel tag config contextDir output fs = .error e final) :
    Unresolved kernel config contextDir output fs final := by
  rcases bind_error.mp failed with failed | ⟨rootfs, _, first, onward⟩
  · obtain ⟨_, failed, _, rfl⟩ := canonicalize_error.mp failed
    exact .rootfs failed
  obtain ⟨_, rfl⟩ := canonicalize_ok.mp first
  rcases bind_error.mp onward with failed | ⟨context, _, second, towardName⟩
  · obtain ⟨_, failed, _, rfl⟩ := canonicalize_error.mp failed
    exact .context failed
  obtain ⟨_, rfl⟩ := canonicalize_ok.mp second
  rcases bind_error.mp towardName with failed | ⟨_, _, third, towardParent⟩
  · obtain ⟨nameless, _, rfl⟩ := outputFilename_error.mp failed
    exact .fileName nameless
  obtain ⟨_, _, _, rfl⟩ := outputFilename_ok.mp third
  rcases bind_error.mp towardParent with failed | ⟨_, _, fourth, towardOutput⟩
  · obtain ⟨_, failed, _⟩ := createDirAll_error.mp failed
    exact .parent failed
  rcases bind_error.mp towardOutput with failed | ⟨_, _, _, last⟩
  · obtain ⟨_, failed, _, rfl⟩ := canonicalize_error.mp failed
    exact .outputDir (createDirAll_ok.mp fourth) failed
  cases last

/-- Paths that do not resolve lead to no build. -/
theorem unresolved_resolve (tag : Text)
    (unresolved : Unresolved kernel config contextDir output fs final) :
    ∃ e last, resolve kernel tag config contextDir output fs = .error e last := by
  cases done : resolve kernel tag config contextDir output fs with
  | error e last => exact ⟨e, last, rfl⟩
  | ok vmBuild last =>
    exfalso
    obtain ⟨_, _, name, _, rootfs, context, named, created, outputDir, _⟩ := resolve_ok.mp done
    cases unresolved with
    | rootfs failed =>
      rw [rootfs] at failed
      cases failed
    | context failed =>
      rw [context] at failed
      cases failed
    | fileName nameless =>
      rw [named] at nameless
      cases nameless
    | parent failed =>
      rw [created] at failed
      cases failed
    | outputDir again failed =>
      rw [created] at again
      cases again
      rw [outputDir] at failed
      cases failed

/-- Resolving the paths of a build makes directories for its output, and nothing else. -/
theorem resolve_ok_madeFor
    (resolved : resolve kernel tag config contextDir output fs = .ok vmBuild final) :
    MadeFor (outputParent output).ancestors fs final := by
  have made := Kernel.createDirAll_madeFor kernel (outputParent output).ancestors fs
  obtain ⟨_, _, _, _, _, _, _, created, _⟩ := resolve_ok.mp resolved
  rw [created] at made
  exact made

theorem resolve_error_madeFor
    (unresolved : Unresolved kernel config contextDir output fs final) :
    MadeFor (outputParent output).ancestors fs final := by
  have made := Kernel.createDirAll_madeFor kernel (outputParent output).ancestors fs
  cases unresolved with
  | rootfs | context | fileName => exact .refl _ _
  | parent created | outputDir created =>
    rw [created] at made
    exact made

theorem stage_ok : stage kernel containerfile tag config contextDir output fs = .ok vmBuild final ↔
    ∃ mid, checkRootfs kernel config fs = .ok () fs ∧
      writeContainerfile kernel contextDir containerfile fs = .ok () mid ∧
      resolve kernel tag config contextDir output mid = .ok vmBuild final := by
  constructor
  · intro staged
    obtain ⟨_, _, first, onward⟩ := bind_ok.mp staged
    obtain rfl := checkRootfs_ok first
    obtain ⟨_, mid, second, resolved⟩ := bind_ok.mp onward
    exact ⟨mid, first, second, resolved⟩
  · rintro ⟨mid, first, second, resolved⟩
    exact bind_ok.mpr ⟨_, _, first, bind_ok.mpr ⟨_, _, second, resolved⟩⟩

theorem stage_error : stage kernel containerfile tag config contextDir output fs = .error e final ↔
    (checkRootfs kernel config fs = .error e fs ∧ final = fs) ∨
    (checkRootfs kernel config fs = .ok () fs ∧
      (writeContainerfile kernel contextDir containerfile fs = .error e final ∨
        ∃ mid, writeContainerfile kernel contextDir containerfile fs = .ok () mid ∧
          resolve kernel tag config contextDir output mid = .error e final)) := by
  constructor
  · intro failed
    rcases bind_error.mp failed with unusable | ⟨_, _, first, onward⟩
    · obtain rfl := checkRootfs_error unusable
      exact .inl ⟨unusable, rfl⟩
    · obtain rfl := checkRootfs_ok first
      refine .inr ⟨first, ?_⟩
      rcases bind_error.mp onward with failed | ⟨_, mid, wrote, failed⟩
      · exact .inl failed
      · exact .inr ⟨mid, wrote, failed⟩
  · rintro (⟨unusable, rfl⟩ | ⟨usable, failed | ⟨mid, wrote, failed⟩⟩)
    · exact bind_error.mpr (.inl unusable)
    · exact bind_error.mpr (.inr ⟨_, _, usable, bind_error.mpr (.inl failed)⟩)
    · exact bind_error.mpr (.inr ⟨_, _, usable, bind_error.mpr (.inr ⟨_, _, wrote, failed⟩)⟩)

theorem stage_obstacle :
    (∃ e final, stage kernel containerfile tag config contextDir output fs = .error e final) ↔
      Obstacle kernel containerfile config contextDir output fs := by
  constructor
  · rintro ⟨e, final, failed⟩
    rcases stage_error.mp failed with ⟨unusable, _⟩ | ⟨usable, failed | ⟨mid, wrote, failed⟩⟩
    · exact .input (.rootfs unusable)
    · exact .containerfile usable failed
    · exact .input (.path usable wrote (resolve_error failed))
  · rintro ((unusable | ⟨usable, wrote, unresolved⟩) | ⟨usable, failed⟩)
    · exact ⟨_, fs, stage_error.mpr (.inl ⟨unusable, rfl⟩)⟩
    · obtain ⟨e, final, failed⟩ := unresolved_resolve tag unresolved
      exact ⟨e, final, stage_error.mpr (.inr ⟨usable, .inr ⟨_, wrote, failed⟩⟩)⟩
    · exact ⟨_, _, stage_error.mpr (.inr ⟨usable, .inl failed⟩)⟩

namespace Sample

/-- A kernel that refuses nothing. -/
def willing : Kernel := ⟨fun _ _ => none, fun _ _ => none⟩

def entries (list : List (FileName × Nat)) : FiniteMap FileName Nat :=
  list.foldr (fun entry map => map.insert entry.1 entry.2) ∅

/-- A root that serves as the build rootfs, with a context in it. -/
def nodes (top context : List (FileName × Nat)) : List (Nat × Node FileName) := [
  (0, .dir (entries ((⟨Utf8.encode "context", by decide⟩, 1) ::
    (⟨Utf8.encode "usr", by decide⟩, 2) :: top))),
  (1, .dir (entries context)),
  (2, .dir (entries [(⟨Utf8.encode "local", by decide⟩, 3)])),
  (3, .dir (entries [(⟨Utf8.encode "bin", by decide⟩, 4)])),
  (4, .dir (entries [(⟨Utf8.encode "vm-build", by decide⟩, 5)])),
  (5, .file 0o755 [])]

def files (nodes : List (Nat × Node FileName)) : Files where
  nodes := nodes.foldr (fun entry map => map.insert entry.1 entry.2) ∅
  root := 0
  cwd := []
  hops := 32

def config : VmConfig := ⟨.utf8 "/", defaultCpus, defaultMemoryMib, []⟩

/-- What staging a build in the sample gives. -/
def staged (output : PathBuf) (fs : Files) : EStateM.Result VmBuildError Files VmBuild :=
  stage willing "FROM alpine" "image:latest" config (.utf8 "/context") output fs

/-- A step succeeds with this property. -/
def succeeds (holds : A → Files → Bool) : EStateM.Result VmBuildError Files A → Bool
  | .ok a fs => holds a fs
  | .error _ _ => false

theorem succeeded {result : EStateM.Result VmBuildError Files A} {holds : A → Files → Bool}
    (ok : succeeds holds result = true) : ∃ a fs, result = .ok a fs ∧ holds a fs = true := by
  cases result with
  | ok a fs => exact ⟨a, fs, rfl, ok⟩
  | error e fs => cases ok

/-- A step fails, and leaves files with this property. -/
def fails (holds : Files → Bool) : EStateM.Result VmBuildError Files A → Bool
  | .ok _ _ => false
  | .error _ fs => holds fs

theorem failed {result : EStateM.Result VmBuildError Files A} {holds : Files → Bool}
    (ok : fails holds result = true) : ∃ e fs, result = .error e fs ∧ holds fs = true := by
  cases result with
  | ok a fs => cases ok
  | error e fs => exact ⟨e, fs, rfl, ok⟩

end Sample

end VmBuildFiles
end ImageBuilder
