import ImageBuilder.VmGuestImage

/-! The whole of `vm-build` in one guest beside others, command after command. -/
namespace ImageBuilder.VmGuest

open Inode VmBuilder VmBuildScript Interleaving

variable {shares : Shares} {containerfile shipped content : List UInt8} {buildah : Buildah}
  {boot : Boot} {machine : Machine buildah} {invariant : Files → Prop}

/-- What holds between the commands of a guest. -/
abbrev Outlines (machine : Machine buildah) (boot : Boot) (invariant : Files → Prop)
    (shares : Shares) (before : Guest buildah → Prop) (commands : List Command)
    (after : Guest buildah → Prop) : Prop :=
  Outline (machine.exec boot) invariant (Rely shares) (Changes shares) before commands after

/-- `/etc/resolv.conf` of a guest, over the one its rootfs ships. -/
def Machine.resolvConf (machine : Machine buildah) (boot : Boot) (shipped : List UInt8) :
    List UInt8 :=
  if hasNameservers boot.dns then
    Utf8.encode (VmBuildScript.resolvConf machine.shell boot.dns [])
  else shipped

/-- The commands before the test for nameservers. -/
def mounting : List Command :=
  [.makeShares, .mountContext, .mountOutput, .readMemTotal, .computeStorage, .makeStorage,
    .mountStorage, .mountRun, .makeRunContainers]

/-- The commands that write the resolver configuration. -/
def resolving (machine : Machine buildah) (boot : Boot) : List Command :=
  .openResolvConf :: (nameservers machine.shell boot.dns).mapIdx .echoNameserver ++ [.bindResolvConf]

/-- The commands after it. -/
def building : List Command :=
  [.makeVarTmp, .mountVarTmp, .raiseFileLimit, .buildahBud, .buildahFrom, .buildahMount, .tar,
    .buildahUmount, .buildahRm]

theorem commands_eq (machine : Machine buildah) (boot : Boot) : machine.commands boot =
    mounting ++ (if hasNameservers boot.dns then resolving machine boot else []) ++ building := by
  rw [Machine.commands, script, Shell.Script.observed_all, Shell.Script.observed,
    Shell.Script.observed_all, Shell.Script.observed_all, List.append_assoc]
  simp only [Shell.Script.observed, List.append_nil]
  rfl

/-- What is mounted when the resolver configuration is written. -/
def firstMounted : List (List FileName) := [runDir, storageDir, outputDir, contextDir]

theorem firstMounted_run : RunMounted firstMounted where
  chosen := by decide
  below := by decide
  full := by decide

theorem outline_mounting (wired : Wired boot shares) (closed : ∀ h, invariant h → h.Closed) :
    Outlines machine boot invariant shares (Early shares containerfile shipped []) mounting
      (Early shares containerfile shipped firstMounted) :=
  .cons (Keeps.makeShares wired closed) <|
  .cons (Keeps.mountContext wired (by decide)) <|
  .cons (Keeps.mountOutput wired (by decide)) <|
  .cons Keeps.readMemTotal <|
  .cons Keeps.computeStorage <|
  .cons (Keeps.makeStorage wired closed (by decide)) <|
  .cons (Keeps.mountStorage wired (by decide)) <|
  .cons (Keeps.mountRun wired (by decide)) <|
  .cons (Keeps.makeRunContainers wired firstMounted_run) <|
  .nil (Early.stable firstMounted)

/-- Each nameserver is one more line. -/
theorem outline_echo (names : List Text) (k : Nat) (content : List UInt8) :
    Outlines machine boot invariant shares
      (Writing boot shares containerfile shipped firstMounted content)
      (names.mapIdx fun i ns => .echoNameserver (i + k) ns)
      (Writing boot shares containerfile shipped firstMounted
        (content ++ names.flatMap (resolvLine machine))) := by
  induction names generalizing k content with
  | nil =>
    rw [List.flatMap_nil, List.append_nil]
    exact .nil (Writing.stable content)
  | cons ns names ih =>
    have rest := ih (k + 1) (content ++ resolvLine machine ns)
    rw [List.append_assoc, ← List.flatMap_cons] at rest
    rw [List.mapIdx_cons]
    refine .cons (Keeps.echoNameserver _ ns content) ?_
    simpa only [Nat.add_assoc, Nat.add_comm 1 k] using rest

theorem outline_resolving (wired : Wired boot shares) :
    Outlines machine boot invariant shares (Early shares containerfile shipped firstMounted)
      (resolving machine boot)
      (Configured shares containerfile shipped (etcResolv :: firstMounted) true
        ((nameservers machine.shell boot.dns).flatMap (resolvLine machine))) := by
  have echoes : Outlines machine boot invariant shares
      (Writing boot shares containerfile shipped firstMounted [])
      ((nameservers machine.shell boot.dns).mapIdx .echoNameserver)
      (Writing boot shares containerfile shipped firstMounted
        ((nameservers machine.shell boot.dns).flatMap (resolvLine machine))) :=
    outline_echo (nameservers machine.shell boot.dns) 0 []
  refine .cons (Keeps.openResolvConf wired firstMounted_run) ?_
  refine Outline.append echoes ?_
  exact .cons (Keeps.bindResolvConf wired firstMounted_run (by decide) _) (.nil (Configured.stable _ _))

theorem outline_building {own : Bool} (wired : Wired boot shares)
    (closed : ∀ h, invariant h → h.Closed)
    (spared : ∀ h, invariant h → ∀ ino mode contents, h.nodes.lookup ino = some (.file mode contents) →
      h.reach shares.output [shares.name] = some ino →
      ∀ input ∈ shares.inputs, h.reach input.1 input.2 ≠ some ino) :
    Outlines machine boot invariant shares
      (Configured shares containerfile shipped (allMounted own).tail own content) building
      (Holding shares containerfile shipped own
        (Handed shares containerfile content boot invariant)) := by
  have whole : tmpDir :: (allMounted own).tail = allMounted own := by cases own <;> rfl
  have free : Free (allMounted own).tail tmpDir := by cases own <;> decide
  refine .cons (Keeps.makeVarTmp wired closed free own content) ?_
  refine .cons (Keeps.mountVarTmp wired free own content) ?_
  rw [whole]
  exact .cons (Keeps.raiseFileLimit own content) <|
    .cons (Keeps.buildahBud wired) <|
    .cons Keeps.buildahFrom <|
    .cons Keeps.buildahMount <|
    .cons (Keeps.tar wired closed spared) <|
    .cons Keeps.buildahUmount <|
    .cons Keeps.buildahRm <|
    .nil (Holding.stable fun _ _ _ _ _ _ => Handed.stable)

theorem resolvConf_lines (named : hasNameservers boot.dns = true) :
    machine.resolvConf boot shipped =
      (nameservers machine.shell boot.dns).flatMap (resolvLine machine) := by
  rw [Machine.resolvConf, if_pos named, VmBuildScript.resolvConf, if_pos named, Utf8.encode,
    List.flatMap_assoc]
  rfl

/-- A guest without nameservers of its own keeps what its rootfs ships. -/
theorem configured_shipped (points : List (List FileName)) :
    (Configured shares containerfile shipped points false shipped : Guest buildah → Prop) =
      Early shares containerfile shipped points := by
  funext s
  refine propext ⟨fun configured => configured.toEarly, fun early => ?_⟩
  exact { toEarly := early, ships := fun _ => rfl, bound := fun impossible => by cases impossible }

/-- From an early guest to one whose tarball holds its image. -/
theorem outline_script (wired : Wired boot shares) (closed : ∀ h, invariant h → h.Closed)
    (spared : ∀ h, invariant h → ∀ ino mode contents, h.nodes.lookup ino = some (.file mode contents) →
      h.reach shares.output [shares.name] = some ino →
      ∀ input ∈ shares.inputs, h.reach input.1 input.2 ≠ some ino) :
    Outlines machine boot invariant shares (Early shares containerfile shipped [])
      (machine.commands boot)
      (Holding shares containerfile shipped (hasNameservers boot.dns)
        (Handed shares containerfile (machine.resolvConf boot shipped) boot invariant)) := by
  rw [commands_eq]
  refine Outline.append (Outline.append (outline_mounting wired closed) ?_)
    (outline_building wired closed spared)
  cases named : hasNameservers boot.dns with
  | true =>
    rw [resolvConf_lines named]
    exact outline_resolving wired
  | false =>
    have ships : machine.resolvConf boot shipped = shipped := by
      rw [Machine.resolvConf, named]
      rfl
    rw [ships, show (allMounted false).tail = firstMounted from rfl, configured_shipped]
    exact .nil (Early.stable firstMounted)

end ImageBuilder.VmGuest
