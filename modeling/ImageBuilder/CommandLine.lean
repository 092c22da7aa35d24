import ImageBuilder.NameserverHandoff
import ImageBuilder.ContainerBuild

/-! The command line, the backend it selects, and the configuration of a VM build that
it resolves to. -/
namespace ImageBuilder

open VmBuilder ContainerBuilder NameserverHandoff

inductive Runtime where
  | podman
  | docker
  | macOsContainer
  | vm
  deriving DecidableEq

def Runtime.containerCli : Runtime → Option ContainerCli
  | .podman => some .podman
  | .docker => some .docker
  | .macOsContainer => some .macOsContainer
  | .vm => none

structure Cli where
  tag : Text
  runtime : Runtime
  from_ : Text
  copyContainerfile : Bool
  vmRootfs : Option PathBuf
  vmOutput : Option PathBuf
  vmCpus : Option UInt8
  vmMemory : Option UInt32
  vmDns : List IpAddr

/-- What selecting a backend asks of the host. -/
structure Environment where
  host : BuildHost
  dns : Dns.Host
  which : Text → Bool
  krun : Except VmBuildError Unit
  ensureExtracted : Except Text PathBuf
  display : PathBuf → Text

inductive Selected where
  | cli (containerCli : ContainerCli)
  | vm (config : VmConfig) (output : PathBuf)

/-- The flags that only `--runtime vm` accepts, and whether they were given. -/
def Cli.vmFlags (cli : Cli) : List (Text × Bool) :=
  [("--vm-rootfs", cli.vmRootfs.isSome), ("--vm-output", cli.vmOutput.isSome),
    ("--vm-cpus", cli.vmCpus.isSome), ("--vm-memory", cli.vmMemory.isSome),
    ("--vm-dns", !cli.vmDns.isEmpty)]

def checkVmFlags (cli : Cli) : Except Text Unit :=
  if cli.runtime = .vm then .ok ()
  else match cli.vmFlags.find? fun flag => flag.2 with
    | some (flag, _) => .error (flag ++ " is only supported with --runtime vm".toList)
    | none => .ok ()

def unreachableMessage (ip : IpText) (addr : IpAddr) : Text :=
  "--vm-dns " ++ ip.display addr ++ " cannot be reached from inside the VM: a loopback or ".toList ++
    "link-local address means the VM itself, not the host".toList

def vmNameservers (ip : IpText) (host : Dns.Host) (dns : List IpAddr) :
    Except Text (List IpAddr) :=
  if dns.isEmpty then .ok (Dns.defaultNameservers ip host)
  else match dns.find? fun addr => !Dns.isReachableFromVm addr with
    | some addr => .error (unreachableMessage ip addr)
    | none => .ok dns

def vmConfig (ip : IpText) (env : Environment) (rootfs : Option PathBuf) (cpus : Option UInt8)
    (memory : Option UInt32) (dns : List IpAddr) : Except Text VmConfig := do
  let nameservers ← vmNameservers ip env.dns dns
  let rootfs ← (match rootfs with
    | some rootfs => .ok rootfs
    | none => env.ensureExtracted : Except Text PathBuf)
  return {
    rootfs
    cpus := cpus.getD defaultCpus
    memoryMib := memory.getD defaultMemoryMib
    nameservers }

/-- The default name of the tarball. -/
def vmOutputPath (tag : Text) : PathBuf :=
  .utf8 ((tag.map fun c => if c.isAlphanum || c == '.' || c == '-' || c == '_' then c else '-') ++
    ".tar".toList)

def selectVm (ip : IpText) (env : Environment) (cli : Cli) : Except Text Selected := do
  let config ← vmConfig ip env cli.vmRootfs cli.vmCpus cli.vmMemory cli.vmDns
  match config.checkRootfs env.host with
  | .error e => .error (e.message env.display)
  | .ok () => .ok (.vm config (cli.vmOutput.getD (vmOutputPath cli.tag)))

def selectRuntime (ip : IpText) (env : Environment) (cli : Cli) : Except Text Selected :=
  match cli.runtime.containerCli with
  | some containerCli =>
    match containerCli.checkInPath env.which with
    | .error e => .error e.message
    | .ok () => .ok (.cli containerCli)
  | none =>
    match env.krun with
    | .error e => .error (e.message env.display)
    | .ok () => selectVm ip env cli

def buildSummary (display : PathBuf → Text) : Selected → Option Text
  | .cli _ => none
  | .vm _ output => some ("Wrote " ++ display output)

theorem vmNameservers_ok : vmNameservers ip host dns = .ok ns ↔
    (dns = [] ∧ ns = Dns.defaultNameservers ip host) ∨
    (dns ≠ [] ∧ (∀ addr ∈ dns, Dns.isReachableFromVm addr = true) ∧ ns = dns) := by
  by_cases bare : dns = []
  · subst bare
    constructor
    · intro resolved
      exact .inl ⟨rfl, (Except.ok.inj resolved).symm⟩
    · rintro (⟨_, rfl⟩ | ⟨named, _⟩)
      · rfl
      · exact absurd rfl named
  · rw [vmNameservers, if_neg (by simpa using bare)]
    cases found : dns.find? fun addr => !Dns.isReachableFromVm addr with
    | none =>
      rw [List.find?_eq_none] at found
      have reachable : ∀ addr ∈ dns, Dns.isReachableFromVm addr = true := by simpa using found
      constructor
      · intro resolved
        exact .inr ⟨bare, reachable, (Except.ok.inj resolved).symm⟩
      · rintro (⟨empty, _⟩ | ⟨_, _, rfl⟩)
        · exact absurd empty bare
        · rfl
    | some addr =>
      have member := List.mem_of_find?_eq_some found
      have outside : Dns.isReachableFromVm addr = false := by simpa using List.find?_some found
      constructor
      · intro impossible
        cases impossible
      · rintro (⟨empty, _⟩ | ⟨_, reachable, _⟩)
        · exact absurd empty bare
        · rw [reachable addr member] at outside
          cases outside

/-- What a selected configuration holds. -/
theorem selectVm_ok (selected : selectVm ip env cli = .ok (.vm config output)) :
    vmNameservers ip env.dns cli.vmDns = .ok config.nameservers := by
  obtain ⟨made, configured, checked⟩ := Fallible.except_ok selected
  obtain ⟨nameservers, resolved, configured⟩ := Fallible.except_ok configured
  obtain ⟨rootfs, _, configured⟩ := Fallible.except_ok configured
  cases configured
  split at checked <;> cases checked
  exact resolved

theorem selectVm_output (selected : selectVm ip env cli = .ok (.vm config output)) :
    output = cli.vmOutput.getD (vmOutputPath cli.tag) := by
  obtain ⟨made, _, checked⟩ := Fallible.except_ok selected
  split at checked <;> cases checked
  rfl

/-- The addresses named on the command line are all read by the guest's resolver, and
the nameservers are what the guest can be given. -/
structure Honoured (ip : IpText) (shell : Shell.Host) (dns nameservers : List IpAddr) :
    Prop where
  read : ∀ build args shipped, build.nameservers = nameservers → Args.new ip build = .ok args →
    ∀ addr ∈ dns, addr ∈ (Dns.parseResolvConf ip
      (VmBuildScript.resolvConf shell (guestDns args) shipped)).take Dns.maxNameservers
  suitable : Dns.Suitable nameservers

theorem honoured_default (ip : IpText) (shell : Shell.Host) (host : Dns.Host) :
    Honoured ip shell [] (Dns.defaultNameservers ip host) where
  read := by simp
  suitable := Dns.defaultNameservers_suitable ip host

theorem honoured_named (ip : IpText) (shell : Shell.Host) (named : dns ≠ [])
    (reachable : ∀ addr ∈ dns, Dns.isReachableFromVm addr = true) :
    Honoured ip shell dns dns ↔ dns.length ≤ Dns.maxNameservers ∧ dns.Nodup := by
  constructor
  · exact fun honoured => ⟨honoured.suitable.few, honoured.suitable.distinct⟩
  · rintro ⟨few, distinct⟩
    refine ⟨?_, named, few, distinct, reachable⟩
    rintro build args shipped rfl built addr member
    rwa [parseResolvConf_guest shell built named, List.take_of_length_le few]

theorem honoured_iff (shell : Shell.Host) (resolved : vmNameservers ip host dns = .ok ns) :
    Honoured ip shell dns ns ↔ dns.length ≤ Dns.maxNameservers ∧ dns.Nodup := by
  rcases vmNameservers_ok.mp resolved with ⟨rfl, rfl⟩ | ⟨named, reachable, rfl⟩
  · simp [honoured_default]
  · exact honoured_named ip shell named reachable

/-- The `--vm-dns` addresses are honoured exactly when one of them is rejected, or there
are at most as many as a resolver reads and none is repeated. -/
theorem vm_dns_honoured_iff (ip : IpText) (shell : Shell.Host) :
    (∀ host dns, (∀ ns, vmNameservers ip host dns = .ok ns → Honoured ip shell dns ns) ↔
      (∃ addr ∈ dns, Dns.isReachableFromVm addr = false) ∨
        (dns.length ≤ Dns.maxNameservers ∧ dns.Nodup)) ∧
    ∀ env cli config output, selectVm ip env cli = .ok (.vm config output) →
      (Honoured ip shell cli.vmDns config.nameservers ↔
        cli.vmDns.length ≤ Dns.maxNameservers ∧ cli.vmDns.Nodup) := by
  refine ⟨fun host dns => ⟨fun honoured => ?_, ?_⟩, ?_⟩
  · by_cases outside : ∃ addr ∈ dns, Dns.isReachableFromVm addr = false
    · exact .inl outside
    · have reachable : ∀ addr ∈ dns, Dns.isReachableFromVm addr = true := by simpa using outside
      have resolved : ∃ ns, vmNameservers ip host dns = .ok ns := by
        by_cases bare : dns = []
        · exact ⟨_, vmNameservers_ok.mpr (.inl ⟨bare, rfl⟩)⟩
        · exact ⟨_, vmNameservers_ok.mpr (.inr ⟨bare, reachable, rfl⟩)⟩
      obtain ⟨ns, resolved⟩ := resolved
      exact .inr ((honoured_iff shell resolved).mp (honoured ns resolved))
  · rintro (⟨addr, member, outside⟩ | fits) ns resolved
    · rcases vmNameservers_ok.mp resolved with ⟨rfl, _⟩ | ⟨_, reachable, _⟩
      · cases member
      · rw [reachable addr member] at outside
        cases outside
    · exact (honoured_iff shell resolved).mpr fits
  · exact fun env cli config output selected => honoured_iff shell (selectVm_ok selected)

/-- An environment in which every backend can be selected. -/
def willingEnvironment : Environment where
  host := .willing
  dns := ⟨none, .error []⟩
  which _ := true
  krun := .ok ()
  ensureExtracted := .ok (.utf8 "/cache/0.1.0")
  display _ := []

def dnsCommandLine (vmDns : List IpAddr) : Cli where
  tag := "image:latest"
  runtime := .vm
  from_ := "alpine"
  copyContainerfile := false
  vmRootfs := none
  vmOutput := none
  vmCpus := none
  vmMemory := none
  vmDns := vmDns

theorem dnsCommandLine_selects (resolved : vmNameservers ip willingEnvironment.dns dns = .ok ns) :
    ∃ config output, selectVm ip willingEnvironment (dnsCommandLine dns) = .ok (.vm config output) ∧
      config.nameservers = ns := by
  refine ⟨⟨.utf8 "/cache/0.1.0", defaultCpus, defaultMemoryMib, ns⟩, vmOutputPath "image:latest", ?_, rfl⟩
  have checked (config : VmConfig) : config.checkRootfs willingEnvironment.host = .ok () :=
    willing_checkRootfs config
  have asked : (dnsCommandLine dns).vmDns = dns := rfl
  simp only [selectVm, vmConfig, asked, resolved, bind, Except.bind, pure, Except.pure, checked]
  rfl

theorem vm_dns_honoured_iff_single : ∃ config output,
    selectVm IpText.plain willingEnvironment (dnsCommandLine [.v4 192 168 1 254]) =
      .ok (.vm config output) ∧
    Honoured IpText.plain ⟨fun _ => [], id⟩ [.v4 192 168 1 254] config.nameservers := by
  have resolved : vmNameservers IpText.plain willingEnvironment.dns [.v4 192 168 1 254] =
      .ok [.v4 192 168 1 254] := rfl
  obtain ⟨config, output, selected, _⟩ := dnsCommandLine_selects resolved
  exact ⟨config, output, selected,
    ((vm_dns_honoured_iff IpText.plain ⟨fun _ => [], id⟩).2 _ _ _ _ selected).mpr (by decide)⟩

/-- Four reachable addresses, in the order they are given. -/
def fourAddresses : List IpAddr :=
  [.v4 1 1 1 1, .v4 8 8 8 8, .v4 9 9 9 9, .v4 192 168 1 254]

/-- The fourth address is accepted and then read by no resolver. -/
theorem fourth_vm_dns_ignored : ∃ config output args,
    selectVm IpText.plain willingEnvironment (dnsCommandLine fourAddresses) =
      .ok (.vm config output) ∧
    Args.new IpText.plain (buildFor config.nameservers) = .ok args ∧
    .v4 192 168 1 254 ∈ (dnsCommandLine fourAddresses).vmDns ∧
    .v4 192 168 1 254 ∉ (Dns.parseResolvConf IpText.plain
      (VmBuildScript.resolvConf ⟨fun _ => [], id⟩ (guestDns args) [])).take Dns.maxNameservers ∧
    ¬ Dns.Suitable config.nameservers := by
  have resolved : vmNameservers IpText.plain willingEnvironment.dns fourAddresses =
      .ok fourAddresses := rfl
  obtain ⟨config, output, selected, same⟩ := dnsCommandLine_selects resolved
  obtain ⟨args, built⟩ : ∃ args, Args.new IpText.plain (buildFor fourAddresses) = .ok args :=
    ⟨_, rfl⟩
  refine ⟨config, output, args, selected, same ▸ built, by decide, ?_, fun suitable => ?_⟩
  · rw [parseResolvConf_guest ⟨fun _ => [], id⟩ built (by decide)]
    decide
  · rw [same] at suitable
    exact absurd suitable.few (by decide)

end ImageBuilder
