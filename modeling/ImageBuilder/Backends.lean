import ImageBuilder.VmImageBuild
import ImageBuilder.ContainerBuild
import ImageBuilder.Containerfile

/-! `run`: a build is staged in a temporary context and handed to one of two backends.
Both are asked to build the same Containerfile from the same files. -/
namespace ImageBuilder

open Text ContainerBuilder VmBuilder Containerfile

/-- Where a generated Containerfile is built. -/
inductive Backend where
  | cli (containerCli : ContainerCli) (runner : Runner)
  | vm (config : VmConfig) (runner : VmRunner) (output : PathBuf)

/-- What a runner is invoked with. -/
inductive Invocation where
  | cli (command : Command)
  | vm (build : VmBuild)

inductive RunError where
  | io (error : Text)
  | containerfile (error : ContainerfileError)
  | container (error : BuildError)
  | vm (error : VmBuildError)

def buildContainerfile : Text := "build-containerfile"

/-- `run` up to its backend: the context, and the text to build it with. -/
def stage (host : BuildHost) (disk : Disk) (from_ : Text) (copyContainerfile : Bool) :
    Except RunError (PathBuf × Text × Disk) :=
  match host.createTempdir disk with
  | .error e => .error (.io e)
  | .ok (contextDir, disk) =>
    match generate from_ copyContainerfile with
    | .error e => .error (.containerfile e)
    | .ok output =>
      if copyContainerfile then
        match host.write disk (host.directory contextDir, buildContainerfile) output with
        | .error e => .error (.io e.error)
        | .ok disk => .ok (contextDir, output, disk)
      else .ok (contextDir, output, disk)

def run (host : BuildHost) (disk : Disk) (tag from_ : Text) (copyContainerfile : Bool)
    (backend : Backend) : Outcome Invocation RunError :=
  match stage host disk from_ copyContainerfile with
  | .error e => .stopped e
  | .ok (contextDir, output, disk) =>
    match backend with
    | .cli cli runner =>
      (ContainerBuilder.build host disk output tag cli runner contextDir).map .cli .container
    | .vm config runner vmOutput =>
      (VmBuilder.build host disk output tag config runner contextDir vmOutput).map .vm .vm

/-- What an engine is asked to build. -/
structure Request where
  containerfile : Bytes
  tag : Bytes
  context : Tree

/-- The request of the arguments that a container CLI is given. -/
def cliRequest (host : BuildHost) (disk : Disk) (command : Command) : Option Request :=
  match command.args with
  | [verb, fileFlag, file, tagFlag, tag, context] =>
    if verb = .utf8 "build" ∧ fileFlag = .utf8 "-f" ∧ tagFlag = .utf8 "-t" then
      (BuildHost.read disk (host.file file)).map fun contents =>
        ⟨contents, tag, disk (host.directory context)⟩
    else none
  | _ => none

/-- The request of the guest, which finds its context share below `/build/context`. -/
def guestRequest (host : BuildHost) (disk : Disk) (build : VmBuild) : Option Request :=
  match stripPrefix? "/build/context/" containerfileVmPath with
  | none => none
  | some name =>
    (BuildHost.read disk (host.directory build.context, name)).map fun contents =>
      ⟨contents, .utf8 build.tag, disk (host.directory build.context)⟩

/-- What the engine behind a runner is asked to build. -/
def engineRequest (host : BuildHost) (disk : Disk) : Invocation → Option Request
  | .cli command => cliRequest host disk command
  | .vm vmBuild => guestRequest host disk vmBuild

/-- The files in the context that an instruction copies. -/
def copySources (instruction : Dockerfile.Instruction) : List Text :=
  if instruction.keyword = "COPY".toList then
    instruction.operands.dropLast.filter fun operand => !"--".toList.isPrefixOf operand
  else []

/-- The context of a build: complete for its Containerfile, which it has a copy of
exactly when it was asked for. -/
structure Complete (text : Text) (copyContainerfile : Bool) (context : Tree) : Prop where
  copied : (∃ entry, context.lookup buildContainerfile = some entry) ↔ copyContainerfile = true
  identical : copyContainerfile = true →
    ∃ mode, context.lookup buildContainerfile = some (.file mode (.utf8 text))
  sources : ∃ instructions, Dockerfile.parse text = some instructions ∧
    ∀ instruction ∈ instructions, ∀ source ∈ copySources instruction,
      ∃ mode contents, context.lookup source = some (.file mode contents)

/-- The files that staging puts into the new context. -/
def stagedContext (text : Text) (copyContainerfile : Bool) : Tree :=
  if copyContainerfile then (∅ : Tree).insert buildContainerfile (.file 0o644 (.utf8 text)) else ∅

/-- The file that the VM backend adds. -/
def vmContext (text : Text) (copyContainerfile : Bool) : Tree :=
  (stagedContext text copyContainerfile).insert containerfileName (.file 0o644 (.utf8 text))

theorem writeFile_new {tree : Tree} (absent : tree.lookup name = none) (text : Text) :
    writeFile tree name text = some (tree.insert name (.file 0o644 (.utf8 text))) := by
  simp [writeFile, absent]

theorem stagedContext_lookup (text : Text) (copy : Bool) :
    (stagedContext text copy).lookup buildContainerfile =
      if copy then some (.file 0o644 (.utf8 text)) else none := by
  cases copy
  · exact Finmap.lookup_empty _
  · exact Finmap.lookup_insert _

theorem stagedContext_other (apart : name ≠ buildContainerfile) (text : Text) (copy : Bool) :
    (stagedContext text copy).lookup name = none := by
  cases copy
  · exact Finmap.lookup_empty _
  · exact (Finmap.lookup_insert_of_ne _ apart).trans (Finmap.lookup_empty _)

theorem stage_ok {host : BuildHost}
    (staged : stage host disk from_ copy = .ok (contextDir, text, new)) :
    host.tempdir = .ok contextDir ∧ generate from_ copy = .ok text ∧
      new (host.directory contextDir) = stagedContext text copy := by
  unfold stage BuildHost.createTempdir at staged
  cases made : host.tempdir with
  | error e =>
    rw [made] at staged
    cases staged
  | ok path =>
    rw [made] at staged
    dsimp only at staged
    split at staged
    · cases staged
    · rename_i output generated
      cases copy with
      | false =>
        cases staged
        exact ⟨rfl, generated, Function.update_self _ _ _⟩
      | true =>
        simp only [↓reduceIte] at staged
        split at staged
        · cases staged
        · rename_i wrote
          cases staged
          have tree := host.write_tree wrote
          dsimp only at tree
          rw [Function.update_self, writeFile_new (Finmap.lookup_empty _)] at tree
          exact ⟨rfl, generated, (Option.some.inj tree).symm⟩

theorem copySources_instructions (image : Text) (copy : Bool) :
    ∀ instruction ∈ instructions image copy, ∀ source ∈ copySources instruction,
      source = buildContainerfile ∧ copy = true := by
  intro instruction member source copied
  rcases List.mem_cons.mp member with rfl | later
  · cases copied
  · have fixed : ∀ copy, ∀ instruction ∈ laterInstructions copy,
        ∀ source ∈ copySources instruction, source = buildContainerfile ∧ copy = true := by
      decide
    exact fixed copy instruction later source copied

/-- What a context must hold to be complete. -/
theorem complete_of_lookup (generated : generate from_ copy = .ok text)
    (held : context.lookup buildContainerfile =
      if copy then some (.file 0o644 (.utf8 text)) else none) : Complete text copy context where
  copied := by cases copy <;> simp [held]
  identical copying := ⟨0o644, by rw [held, if_pos copying]⟩
  sources := by
    obtain ⟨accepted, rfl⟩ := generate_ok.mp generated
    refine ⟨_, parse_generated accepted, fun instruction member source copied => ?_⟩
    obtain ⟨rfl, copying⟩ := copySources_instructions from_ copy instruction member source copied
    exact ⟨0o644, _, by rw [held, if_pos copying]⟩

theorem complete_stagedContext (generated : generate from_ copy = .ok text) :
    Complete text copy (stagedContext text copy) :=
  complete_of_lookup generated (stagedContext_lookup text copy)

theorem complete_vmContext (generated : generate from_ copy = .ok text) :
    Complete text copy (vmContext text copy) := by
  apply complete_of_lookup generated
  rw [vmContext, Finmap.lookup_insert_of_ne _ (by decide), stagedContext_lookup]

/-- What the container CLI is asked to build. -/
theorem run_cli {host : BuildHost} {runner : Runner}
    (invoked : run host disk tag from_ copy (.cli cli runner) = .invoked call new result) :
    ∃ text, generate from_ copy = .ok text ∧ engineRequest host new call =
      some ⟨.utf8 text, .utf8 tag, stagedContext text copy⟩ := by
  unfold run at invoked
  split at invoked
  · cases invoked
  · rename_i contextDir text staging staged
    obtain ⟨created, generated, context⟩ := stage_ok staged
    dsimp only at invoked
    cases built : ContainerBuilder.build host staging text tag cli runner contextDir with
    | stopped e =>
      rw [built] at invoked
      cases invoked
    | invoked command disk outcome =>
      rw [built] at invoked
      cases invoked
      obtain ⟨tmpfile, rfl, held, kept⟩ := ContainerBuilder.build_invoked built created
      refine ⟨text, generated, ?_⟩
      simp [engineRequest, cliRequest, buildCommand, held, kept, context]

/-- What the guest is asked to build. -/
theorem run_vm {host : BuildHost} {runner : VmRunner}
    (invoked : run host disk tag from_ copy (.vm config runner output) =
      .invoked call new result) :
    ∃ text, generate from_ copy = .ok text ∧ engineRequest host new call =
      some ⟨.utf8 text, .utf8 tag, vmContext text copy⟩ := by
  unfold run at invoked
  split at invoked
  · cases invoked
  · rename_i contextDir text staging staged
    obtain ⟨created, generated, context⟩ := stage_ok staged
    dsimp only at invoked
    cases built : VmBuilder.build host staging text tag config runner contextDir output with
    | stopped e =>
      rw [built] at invoked
      cases invoked
    | invoked build disk outcome =>
      rw [built] at invoked
      cases invoked
      obtain ⟨rfl, _, _, _, same, wrote⟩ := VmBuilder.build_invoked built
      have held := host.write_read wrote
      have tree := host.write_tree wrote
      dsimp only at tree
      rw [context, writeFile_new (stagedContext_other (by decide) _ _)] at tree
      have name : stripPrefix? "/build/context/" containerfileVmPath = some containerfileName := rfl
      refine ⟨text, generated, ?_⟩
      rw [engineRequest, guestRequest, name]
      simp [same, held, ← Option.some.inj tree, vmContext]

/-- A rejected reference reaches no runner. -/
theorem run_rejected (rejected : generate from_ copy = .error e) (host : BuildHost) (disk : Disk)
    (tag : Text) (backend : Backend) :
    ∃ error, run host disk tag from_ copy backend = .stopped error := by
  cases staged : stage host disk from_ copy with
  | error e => exact ⟨e, by rw [run, staged]⟩
  | ok result =>
    obtain ⟨_, generated, _⟩ := stage_ok staged
    rw [rejected] at generated
    cases generated

/-- Both backends are asked to build the same thing, or neither is asked. -/
theorem backends_build_the_same (host : BuildHost) (disk : Disk) (tag from_ : Text) (copy : Bool) :
    (∀ e, generate from_ copy = .error e → ∀ backend, ∃ error,
      run host disk tag from_ copy backend = .stopped error) ∧
    (∀ backend call new result,
      run host disk tag from_ copy backend = .invoked call new result →
      ∃ text request, generate from_ copy = .ok text ∧
        engineRequest host new call = some request ∧ request.containerfile = .utf8 text ∧
        request.tag = .utf8 tag ∧ Complete text copy request.context) ∧
    ∀ cli runner call new result config vmRunner output vmCall vmNew vmResult,
      run host disk tag from_ copy (.cli cli runner) = .invoked call new result →
      run host disk tag from_ copy (.vm config vmRunner output) =
        .invoked vmCall vmNew vmResult →
      ∃ request vmRequest, engineRequest host new call = some request ∧
        engineRequest host vmNew vmCall = some vmRequest ∧
        vmRequest.containerfile = request.containerfile ∧ vmRequest.tag = request.tag ∧
        request.context.lookup containerfileName = none ∧
        ∀ name, name ≠ containerfileName →
          vmRequest.context.lookup name = request.context.lookup name := by
  refine ⟨?_, ?_, ?_⟩
  · exact fun e rejected backend => run_rejected rejected host disk tag backend
  · intro backend call new result invoked
    cases backend with
    | cli cli runner =>
      obtain ⟨text, generated, asked⟩ := run_cli invoked
      exact ⟨text, _, generated, asked, rfl, rfl, complete_stagedContext generated⟩
    | vm config runner output =>
      obtain ⟨text, generated, asked⟩ := run_vm invoked
      exact ⟨text, _, generated, asked, rfl, rfl, complete_vmContext generated⟩
  · intro cli runner call new result config vmRunner output vmCall vmNew vmResult invoked vmInvoked
    obtain ⟨text, generated, asked⟩ := run_cli invoked
    obtain ⟨same, alike, vmAsked⟩ := run_vm vmInvoked
    rw [generated] at alike
    cases alike
    refine ⟨_, _, asked, vmAsked, rfl, rfl, stagedContext_other (by decide) _ _, ?_⟩
    exact fun name apart => Finmap.lookup_insert_of_ne _ apart

theorem write_allowed {host : BuildHost} (allowed : host.refuses place.1 place.2 = none)
    (wrote : writeFile (disk place.1) place.2 text = some tree) :
    host.write disk place text = .ok (Function.update disk place.1 tree) := by
  rw [BuildHost.write, allowed, wrote]

section Staging

variable {host : BuildHost} {disk : Disk} {from_ text : Text} {copy : Bool} {contextDir : PathBuf}

theorem stage_untemporary (failed : host.tempdir = .error e) :
    stage host disk from_ copy = .error (.io e) := by
  rw [stage, BuildHost.createTempdir, failed]

theorem stage_rejected (made : host.tempdir = .ok contextDir)
    (rejected : generate from_ copy = .error e) :
    stage host disk from_ copy = .error (.containerfile e) := by
  rw [stage, BuildHost.createTempdir, made]
  dsimp only
  rw [rejected]

theorem stage_allowed (made : host.tempdir = .ok contextDir)
    (generated : generate from_ copy = .ok text)
    (allowed : host.refuses (host.directory contextDir) buildContainerfile = none) :
    ∃ new, stage host disk from_ copy = .ok (contextDir, text, new) := by
  rw [stage, BuildHost.createTempdir, made]
  dsimp only
  rw [generated]
  cases copy with
  | false => exact ⟨_, rfl⟩
  | true =>
    have wrote : writeFile ∅ buildContainerfile text = _ := writeFile_new (Finmap.lookup_empty _) text
    simp only [↓reduceIte, BuildHost.write, allowed, Function.update_self, wrote]
    exact ⟨_, rfl⟩

end Staging

/-- Nothing stops a build of an accepted reference short of its runner on such a host. -/
theorem willing_invokes (generated : generate from_ copy = .ok text) (disk : Disk) (tag : Text)
    (cli : ContainerCli) (runner : Runner) (config : VmConfig) (vmRunner : VmRunner) :
    (∃ call new result, run .willing disk tag from_ copy (.cli cli runner) =
      .invoked call new result) ∧
    ∃ call new result, run .willing disk tag from_ copy (.vm config vmRunner (.utf8 "image.tar")) =
      .invoked call new result := by
  obtain ⟨staging, staged⟩ : ∃ new, stage .willing disk from_ copy =
      .ok (.utf8 "/tmp/context", text, new) := stage_allowed rfl generated rfl
  constructor
  · obtain ⟨new, built⟩ := @ContainerBuilder.build_allowed .willing staging text tag cli runner
      (.utf8 "/tmp/context") (.utf8 "/tmp/containerfile") rfl rfl
    simp only [run, staged, built]
    exact ⟨_, _, _, rfl⟩
  · have context := (stage_ok staged).2.2
    have wrote : BuildHost.willing.write staging
        (BuildHost.willing.directory (.utf8 "/tmp/context"), containerfileName) text = _ :=
      write_allowed rfl (by
        rw [context]
        exact writeFile_new (stagedContext_other (by decide) _ _) text)
    have resolved : ∃ build new, resolve .willing staging text tag config (.utf8 "/tmp/context")
        (.utf8 "image.tar") = .ok (build, new) := by
      rw [resolve_written (willing_checkRootfs config) wrote]
      exact ⟨_, _, rfl⟩
    obtain ⟨build, new, resolved⟩ := resolved
    simp only [run, staged, VmBuilder.build, resolved]
    exact ⟨_, _, _, rfl⟩

theorem backends_build_the_same_alpine : ∃ request vmRequest call new result vmCall vmNew vmResult,
    run .willing (fun _ => ∅) "image:latest" "alpine" true (.cli .podman fun _ _ => .ok (some 0)) =
      .invoked call new result ∧
    run .willing (fun _ => ∅) "image:latest" "alpine" true
      (.vm ⟨.utf8 "/rootfs", 2, 4096, []⟩ (fun _ _ => .ok ()) (.utf8 "image.tar")) =
      .invoked vmCall vmNew vmResult ∧
    engineRequest .willing new call = some request ∧
    engineRequest .willing vmNew vmCall = some vmRequest ∧
    vmRequest.containerfile = request.containerfile := by
  obtain ⟨text, generated⟩ : ∃ text, generate "alpine" true = .ok text :=
    ⟨_, generate_ok.mpr ⟨(parseImageReference_ok.mp rfl).1, rfl⟩⟩
  obtain ⟨⟨call, new, result, invoked⟩, vmCall, vmNew, vmResult, vmInvoked⟩ :=
    willing_invokes generated (fun _ => ∅) "image:latest" .podman (fun _ _ => .ok (some 0))
      ⟨.utf8 "/rootfs", 2, 4096, []⟩ (fun _ _ => .ok ())
  obtain ⟨request, vmRequest, asked, vmAsked, same, _⟩ :=
    (backends_build_the_same .willing (fun _ => ∅) "image:latest" "alpine" true).2.2 _ _ _ _ _ _ _ _
      _ _ _ invoked vmInvoked
  exact ⟨request, vmRequest, call, new, result, vmCall, vmNew, vmResult, invoked, vmInvoked, asked,
    vmAsked, same⟩

end ImageBuilder
