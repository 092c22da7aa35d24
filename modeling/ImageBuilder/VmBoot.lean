import ImageBuilder.VmGuestRun
import ImageBuilder.NameserverHandoff

/-! What a VM is started with, from the calls that configure it back to its build. -/
namespace ImageBuilder.VmGuest

open Inode Inode.FileSystem VmBuilder VmBuildFiles NameserverHandoff

variable {ip : IpText} {build : VmBuild} {args : Args}

theorem cstring_clean {s what r : Text} (made : cstring s what = .ok r) :
    r = s ∧ Char.ofNat 0 ∉ s := by
  unfold cstring at made
  split at made <;> cases made
  rename_i clean
  exact ⟨rfl, clean⟩

theorem cstringPath_ok {path : PathBuf} {what r : Text} (made : cstringPath path what = .ok r) :
    path = .utf8 r := by
  unfold cstringPath at made
  split at made
  · cases made
  · split at made <;> cases made
    rename_i s r same
    rw [cstring_ok same]

/-- The strings of a build as libkrun is handed them. -/
structure Spelled (build : VmBuild) (args : Args) : Prop where
  rootfs : build.rootfs = .utf8 args.rootfs
  context : build.context = .utf8 args.context
  outputDir : build.outputDir = .utf8 args.outputDir
  outputFilename : args.outputFilename = build.outputFilename
  clean : Char.ofNat 0 ∉ build.outputFilename
  containerfile : args.containerfile = containerfileVmPath
  tag : args.tag = build.tag
  tagRoot : args.tagRoot = VmBuilder.tagRoot
  tagContext : args.tagContext = VmBuilder.tagContext
  tagOutput : args.tagOutput = VmBuilder.tagOutput

theorem spelled (built : Args.new ip build = .ok args) : Spelled build args := by
  obtain ⟨rootfs, rootfsMade, built⟩ := Fallible.except_ok built
  obtain ⟨context, contextMade, built⟩ := Fallible.except_ok built
  obtain ⟨outputDir, outputDirMade, built⟩ := Fallible.except_ok built
  obtain ⟨outputFilename, outputFilenameMade, built⟩ := Fallible.except_ok built
  obtain ⟨containerfile, containerfileMade, built⟩ := Fallible.except_ok built
  obtain ⟨tag, tagMade, built⟩ := Fallible.except_ok built
  obtain ⟨tagRoot, tagRootMade, built⟩ := Fallible.except_ok built
  obtain ⟨tagContext, tagContextMade, built⟩ := Fallible.except_ok built
  obtain ⟨tagOutput, tagOutputMade, built⟩ := Fallible.except_ok built
  iterate 4 obtain ⟨_, _, built⟩ := Fallible.except_ok built
  cases built
  exact {
    rootfs := cstringPath_ok rootfsMade
    context := cstringPath_ok contextMade
    outputDir := cstringPath_ok outputDirMade
    outputFilename := (cstring_clean outputFilenameMade).1
    clean := (cstring_clean outputFilenameMade).2
    containerfile := cstring_ok containerfileMade
    tag := cstring_ok tagMade
    tagRoot := cstring_ok tagRootMade
    tagContext := cstring_ok tagContextMade
    tagOutput := cstring_ok tagOutputMade }

/-- Every share shows the directory it was configured with. -/
theorem sharedAs_configuration (spelled : Spelled build args) (h : Files) (cpus : UInt8)
    (memoryMib : UInt32) :
    sharedAs h (configuration args cpus memoryMib) VmBuilder.tagRoot = sharedDirectory h build.rootfs ∧
    sharedAs h (configuration args cpus memoryMib) VmBuilder.tagContext =
      sharedDirectory h build.context ∧
    sharedAs h (configuration args cpus memoryMib) VmBuilder.tagOutput =
      sharedDirectory h build.outputDir := by
  have first : VmBuilder.tagRoot ≠ VmBuilder.tagContext := by decide
  have second : VmBuilder.tagRoot ≠ VmBuilder.tagOutput := by decide
  have third : VmBuilder.tagContext ≠ VmBuilder.tagOutput := by decide
  simp only [sharedAs, configuration, List.findSome?_cons, List.findSome?_nil, spelled.tagRoot,
    spelled.tagContext, spelled.tagOutput, ← spelled.rootfs, ← spelled.context,
    ← spelled.outputDir, ↓reduceIte, if_neg first, if_neg second, if_neg third,
    if_neg first.symm, if_neg second.symm, if_neg third.symm]
  refine ⟨?_, ?_, ?_⟩
  · cases sharedDirectory h build.rootfs <;> rfl
  · cases sharedDirectory h build.context <;> rfl
  · cases sharedDirectory h build.outputDir <;> rfl

/-- The guest finds the directories, the names and the nameservers of its build. -/
theorem boot_wired (built : Args.new ip build = .ok args) {h : Files} {shares : Shares}
    (root : sharedDirectory h build.rootfs = some shares.root)
    (context : sharedDirectory h build.context = some shares.context)
    (output : sharedDirectory h build.outputDir = some shares.output)
    (named : Utf8.encode build.outputFilename = shares.name.val) :
    ∃ boot, Boot.of h (configuration args build.cpus build.memoryMib) = some boot ∧
      Wired boot shares ∧ boot.tag = build.tag ∧ boot.dns = build.dnsEnvValue ip := by
  have spelled := spelled built
  obtain ⟨first, second, third⟩ := sharedAs_configuration spelled h build.cpus build.memoryMib
  have arguments : workload (configuration args build.cpus build.memoryMib) =
      some ([args.containerfile, args.tag, args.outputFilename], nullTerminated args.envp) := rfl
  refine ⟨⟨shares.root, sharedAs h (configuration args build.cpus build.memoryMib),
    args.containerfile, args.tag, args.outputFilename, guestDns args⟩, ?_, ?_, spelled.tag,
    guestDns_eq built⟩
  · rw [Boot.of, first, root, arguments]
    rfl
  · exact {
      root := rfl
      context := second.trans context
      output := third.trans output
      cfile := spelled.containerfile
      outputFile := by rw [← named, ← spelled.outputFilename] }

end ImageBuilder.VmGuest
