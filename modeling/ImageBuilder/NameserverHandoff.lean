import ImageBuilder.VmBuildScript
import Mathlib.Data.List.TakeWhile

/-! Nameservers on their way from a build to its guest: the environment variable that
carries them, the script that takes it apart, and the `resolv.conf` read back. -/
namespace ImageBuilder.NameserverHandoff

open Text VmBuilder VmBuildScript

/-- The value of `OPENSHELL_VM_DNS` in the guest. -/
def guestDns (args : Args) : Option Text := getenv vmDnsEnv (nullTerminated args.envp)

/-- The line `echo` writes for an address. -/
def nameserverLine (ip : IpText) (addr : IpAddr) : Text := "nameserver " ++ ip.display addr

theorem join_clean (ip : IpText) (addrs : List IpAddr) {c : Char}
    (foreign : IpAddr.isAddressChar c = false) (other : c ≠ ' ') : c ∉ Dns.join ip addrs := by
  intro member
  rcases mem_intercalate member with rfl | ⟨word, found, inside⟩
  · exact other rfl
  · obtain ⟨addr, _, rfl⟩ := List.mem_map.mp found
    exact ip.notin_display foreign addr inside

/-- No NUL gets into the variable. -/
theorem newDnsEnv_eq (ip : IpText) (build : VmBuild) :
    Args.newDnsEnv ip build = .ok ((build.dnsEnvValue ip).map (vmDnsEnv ++ '=' :: ·)) := by
  unfold Args.newDnsEnv
  cases found : build.dnsEnvValue ip with
  | none => rfl
  | some value =>
    have clean : Char.ofNat 0 ∉ value := by
      unfold VmBuild.dnsEnvValue at found
      split at found
      · cases found
      · cases found
        exact join_clean ip _ rfl nofun
    have whole : Char.ofNat 0 ∉ vmDnsEnv ++ '=' :: value := by
      intro member
      rcases List.mem_append.mp member with name | rest
      · exact absurd name (by decide)
      · rcases List.mem_cons.mp rest with equals | inside
        · cases equals
        · exact clean inside
    simp [cstring, whole]

theorem guestDns_eq (built : Args.new ip build = .ok args) :
    guestDns args = build.dnsEnvValue ip := by
  obtain ⟨pathEnv, dnsEnv⟩ := Args.new_env built
  rw [newDnsEnv_eq] at dnsEnv
  have other : stripPrefix? (vmDnsEnv ++ ['=']) vmPath = none := rfl
  rw [guestDns, Args.envp, pathEnv, ← Except.ok.inj dnsEnv]
  cases build.dnsEnvValue ip with
  | none => simp [nullTerminated, getenv, other]
  | some value =>
    have own : stripPrefix? (vmDnsEnv ++ ['=']) (vmDnsEnv ++ '=' :: value) = some value := by
      apply stripPrefix?_eq_some.mpr
      simp
    simp [nullTerminated, getenv, other, own]

/-- The shell does not split an address. -/
theorem display_unsplit {ip : IpText} (member : c ∈ ip.display addr) : Shell.isIfs c = false := by
  by_contra separator
  simp only [Shell.isIfs, Bool.not_eq_false, Bool.or_eq_true, beq_iff_eq] at separator
  rcases separator with (rfl | rfl) | rfl
  all_goals exact ip.notin_display rfl addr member

/-- No address is a pattern. -/
theorem display_literal {ip : IpText} (member : c ∈ ip.display addr) :
    Shell.isPattern c = false := by
  by_contra pattern
  simp only [Shell.isPattern, Bool.not_eq_false, Bool.or_eq_true, beq_iff_eq] at pattern
  rcases pattern with (rfl | rfl) | rfl
  all_goals exact ip.notin_display rfl addr member

theorem nameservers_join (ip : IpText) (shell : Shell.Host) (addrs : List IpAddr) :
    nameservers shell (some (Dns.join ip addrs)) = addrs.map ip.display := by
  have split : Shell.fields (Dns.join ip addrs) = addrs.map ip.display := by
    apply Shell.fields_intercalate rfl
    · intro word found c inside
      obtain ⟨addr, _, rfl⟩ := List.mem_map.mp found
      exact display_unsplit inside
    · intro word found
      obtain ⟨addr, _, rfl⟩ := List.mem_map.mp found
      exact ip.display_ne_nil addr
  rw [nameservers, Shell.expand_of_plain, split]
  intro field found
  rw [split] at found
  obtain ⟨addr, _, rfl⟩ := List.mem_map.mp found
  apply List.any_eq_false.mpr
  intro c inside
  rw [display_literal inside]
  exact nofun

theorem trim_display (ip : IpText) (addr : IpAddr) :
    trim (' ' :: ip.display addr) = ip.display addr := by
  have visible : trimStart (' ' :: ip.display addr) = trimStart (ip.display addr) := rfl
  rw [trim, visible, ← trim, trim_of_solid (ip.display_solid addr)]

theorem notin_nameserverLine {ip : IpText} {c : Char} (foreign : IpAddr.isAddressChar c = false)
    (other : c ∉ "nameserver ".toList) : c ∉ nameserverLine ip addr := by
  intro member
  rcases List.mem_append.mp member with keyword | inside
  · exact other keyword
  · exact ip.notin_display foreign addr inside

theorem mem_of_getLast?_nameserverLine {ip : IpText} {addr : IpAddr} {c : Char}
    (last : (nameserverLine ip addr).getLast? = some c) : c ∈ ip.display addr := by
  change ("nameserver ".toList ++ ip.display addr).getLast? = some c at last
  rw [List.getLast?_append_of_ne_nil _ (ip.display_ne_nil addr)] at last
  exact List.mem_of_getLast? last

theorem resolvConfOperand_nameserverLine (ip : IpText) (addr : IpAddr) :
    Dns.resolvConfOperand (nameserverLine ip addr) = some (ip.display addr) := by
  have uncommented : (nameserverLine ip addr).takeWhile (fun c => !(c == '#' || c == ';')) =
      nameserverLine ip addr := by
    apply List.takeWhile_eq_self_iff.mpr
    intro c member
    by_contra comment
    simp only [Bool.not_eq_true', Bool.not_eq_false, Bool.or_eq_true, beq_iff_eq] at comment
    rcases comment with rfl | rfl
    all_goals exact notin_nameserverLine rfl (by decide) member
  have trimmed : trim (nameserverLine ip addr) = nameserverLine ip addr := by
    apply trim_of_ends
    · intro c first
      cases first
      rfl
    · intro c last
      exact ip.display_solid addr c (mem_of_getLast?_nameserverLine last)
  have keyword : stripPrefix? "nameserver" (nameserverLine ip addr) =
      some (' ' :: ip.display addr) := stripPrefix?_eq_some.mpr rfl
  unfold Dns.resolvConfOperand
  simp only [uncommented, trimmed, keyword]
  rw [trim_display]
  rfl

theorem echo_nameserver (ip : IpText) (shell : Shell.Host) (addr : IpAddr) :
    shell.echo ("nameserver " ++ ip.display addr) = nameserverLine ip addr ++ ['\n'] := by
  apply Shell.echo_of_plain
  exact notin_nameserverLine rfl (by decide)

theorem lines_nameserverLines (ip : IpText) (addrs : List IpAddr) :
    lines ((addrs.map (nameserverLine ip)).flatMap (· ++ ['\n'])) =
      addrs.map (nameserverLine ip) := by
  apply lines_unlines
  · intro line found
    obtain ⟨addr, _, rfl⟩ := List.mem_map.mp found
    exact notin_nameserverLine rfl (by decide)
  · intro line found last
    obtain ⟨addr, _, rfl⟩ := List.mem_map.mp found
    exact ip.notin_display rfl addr (mem_of_getLast?_nameserverLine last)

theorem resolvConf_join (ip : IpText) (shell : Shell.Host) {addrs : List IpAddr}
    (named : addrs ≠ []) (shipped : Text) : resolvConf shell (some (Dns.join ip addrs)) shipped =
      (addrs.map (nameserverLine ip)).flatMap (· ++ ['\n']) := by
  have set : hasNameservers (some (Dns.join ip addrs)) = true := by
    obtain ⟨addr, rest, rfl⟩ := List.exists_cons_of_ne_nil named
    obtain ⟨c, more, shown⟩ := List.exists_cons_of_ne_nil (ip.display_ne_nil addr)
    cases rest <;> simp [hasNameservers, Dns.join, shown, List.intercalate_cons_cons]
  rw [resolvConf, if_pos set, nameservers_join, List.flatMap_map, List.flatMap_map]
  exact List.flatMap_congr fun addr _ => echo_nameserver ip shell addr

theorem parseResolvConf_nameserverLines (ip : IpText) (addrs : List IpAddr) :
    Dns.parseResolvConf ip ((addrs.map (nameserverLine ip)).flatMap (· ++ ['\n'])) = addrs := by
  rw [Dns.parseResolvConf, lines_nameserverLines, List.filterMap_map]
  have read (addr : IpAddr) :
      (Dns.resolvConfOperand (nameserverLine ip addr)).bind ip.fromStr = some addr := by
    rw [resolvConfOperand_nameserverLine, Option.bind_some, ip.inverse]
  simp [read]

/-- A guest that is named nameservers is told all of them. -/
theorem guestDns_named (built : Args.new ip build = .ok args) (named : build.nameservers ≠ []) :
    guestDns args = some (Dns.join ip build.nameservers) := by
  simp [guestDns_eq built, VmBuild.dnsEnvValue, named]

theorem parseResolvConf_guest (shell : Shell.Host) (built : Args.new ip build = .ok args)
    (named : build.nameservers ≠ []) (shipped : Text) :
    Dns.parseResolvConf ip (resolvConf shell (guestDns args) shipped) = build.nameservers := by
  rw [guestDns_named built named, resolvConf_join ip shell named, parseResolvConf_nameserverLines]

/-- The hand-off loses nothing and cannot fail. -/
theorem nameservers_hand_off (ip : IpText) (shell : Shell.Host) (build : VmBuild) (shipped : Text) :
    (∃ dnsEnv, Args.newDnsEnv ip build = .ok dnsEnv) ∧
    ∀ args, Args.new ip build = .ok args →
      (build.nameservers = [] →
        guestDns args = none ∧ resolvConf shell (guestDns args) shipped = shipped) ∧
      (build.nameservers ≠ [] →
        guestDns args = some (Dns.join ip build.nameservers) ∧
        nameservers shell (guestDns args) = build.nameservers.map ip.display ∧
        Dns.parseResolvConf ip (resolvConf shell (guestDns args) shipped) =
          build.nameservers) := by
  refine ⟨⟨_, newDnsEnv_eq ip build⟩, fun args built => ⟨fun bare => ?_, fun named => ?_⟩⟩
  · have unset : guestDns args = none := by simp [guestDns_eq built, VmBuild.dnsEnvValue, bare]
    rw [unset]
    exact ⟨rfl, rfl⟩
  · refine ⟨guestDns_named built named, ?_, parseResolvConf_guest shell built named shipped⟩
    rw [guestDns_named built named, nameservers_join]

/-- A build that differs from others in its nameservers only. -/
def buildFor (nameservers : List IpAddr) : VmBuild where
  rootfs := .utf8 "/cache/rootfs"
  context := .utf8 "/tmp/context"
  outputDir := .utf8 "/tmp"
  outputFilename := "image.tar"
  tag := "image"
  cpus := 2
  memoryMib := 4096
  nameservers := nameservers

theorem nameservers_hand_off_two : ∃ args,
    Args.new IpText.plain (buildFor [.v4 192 168 1 254, .v6 0xfd0f 0xee 0xb0 1 2 3 4 5]) =
      .ok args ∧
    Dns.parseResolvConf IpText.plain (resolvConf ⟨fun _ => [], id⟩ (guestDns args) []) =
      [.v4 192 168 1 254, .v6 0xfd0f 0xee 0xb0 1 2 3 4 5] := by
  refine ⟨_, rfl, ?_⟩
  exact (((nameservers_hand_off IpText.plain ⟨fun _ => [], id⟩ (buildFor _) []).2 _ rfl).2
    (by decide)).2.2

end ImageBuilder.NameserverHandoff
