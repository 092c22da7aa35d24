import ImageBuilder.CommandLine

/-! Nameservers in IPv4-mapped notation: `::ffff:a.b.c.d` reaches what `a.b.c.d` does,
and the classification of addresses does not look at it that way. -/
namespace ImageBuilder.Dns

open FirstDistinct

/-- An address that means something else in the guest than on the host. -/
def GuestsOwn (addr : IpAddr) : Prop :=
  addr.isLoopback = true ∨ addr.isUnspecified = true ∨ addr.isLinkLocal = true ∨
    addr.isMulticast = true ∨ addr.isBroadcast = true

/-- The IPv4-mapped form of such an address. -/
def MapsGuestsOwn (addr : IpAddr) : Prop := ∃ v4, addr.toIpv4Mapped = some v4 ∧ GuestsOwn v4

theorem isReachableFromVm_iff : isReachableFromVm addr = true ↔ ¬ GuestsOwn addr := by
  cases addr <;>
    simp [isReachableFromVm, GuestsOwn, IpAddr.isLinkLocal, IpAddr.isBroadcast] <;> tauto

/-- The classification finds nothing wrong with any address in IPv4-mapped notation. -/
theorem mapped_reachable (mapped : addr.toIpv4Mapped = some v4) : isReachableFromVm addr = true := by
  cases addr with
  | v4 => cases mapped
  | v6 s₀ s₁ s₂ s₃ s₄ s₅ s₆ s₇ =>
    simp only [IpAddr.toIpv4Mapped] at mapped
    split at mapped
    · rename_i prefix_
      simp only [List.cons.injEq, and_true] at prefix_
      obtain ⟨rfl, rfl, rfl, rfl, rfl, rfl⟩ := prefix_
      simp [isReachableFromVm, IpAddr.isLoopback, IpAddr.isUnspecified, IpAddr.isMulticast]
    · cases mapped

theorem canonical_reachable_iff (addr : IpAddr) :
    (isReachableFromVm addr = true → isReachableFromVm addr.toCanonical = true) ↔
      ¬ MapsGuestsOwn addr := by
  cases mapped : addr.toIpv4Mapped with
  | none => simp [IpAddr.toCanonical, MapsGuestsOwn, mapped]
  | some v4 =>
    simp [IpAddr.toCanonical, MapsGuestsOwn, mapped, mapped_reachable mapped, isReachableFromVm_iff]

theorem mem_sanitize_iff : addr ∈ sanitize addrs ↔ isReachableFromVm addr = true ∧
    ∃ before after, addrs = before ++ addr :: after ∧ (usable before).length < maxNameservers := by
  rw [sanitize_eq, usable, ← firstDistinct, mem_firstDistinct_iff]
  constructor
  · rintro ⟨before, after, whole, few⟩
    obtain ⟨front, back, rfl, rfl, tail⟩ := List.filter_eq_append_iff.mp whole
    obtain ⟨skipped, rest, rfl, rejected, reachable, _⟩ := List.filter_eq_cons_iff.mp tail
    refine ⟨reachable, front ++ skipped, rest, by simp, ?_⟩
    have none_ : skipped.filter isReachableFromVm = [] :=
      List.filter_eq_nil_iff.mpr fun addr member => by simpa using rejected addr member
    simpa [usable, none_] using few
  · rintro ⟨reachable, before, after, rfl, few⟩
    exact ⟨before.filter isReachableFromVm, after.filter isReachableFromVm, by simp [reachable], few⟩

/-- No address of the list means something else in the guest, in either notation. -/
def Foreign (addrs : List IpAddr) : Prop := ∀ addr ∈ addrs, ¬ GuestsOwn addr ∧ ¬ MapsGuestsOwn addr

/-- The host names no mapped form of such an address among those that count: in the first
source with a usable address, before three others. -/
def NamesNoMapped (ip : IpText) (host : Host) : Prop :=
  ∀ source before addr after, (sources ip host).find? (fun addrs => usable addrs ≠ []) = some source →
    source = before ++ addr :: after → (usable before).length < maxNameservers →
    ¬ MapsGuestsOwn addr

theorem foreign_of_reachable (reachable : ∀ addr ∈ addrs, isReachableFromVm addr = true) :
    Foreign addrs ↔ ∀ addr ∈ addrs, ¬ MapsGuestsOwn addr :=
  forall₂_congr fun addr member =>
    and_iff_right (isReachableFromVm_iff.mp (reachable addr member))

theorem defaultNameservers_foreign_iff (ip : IpText) (host : Host) :
    Foreign (defaultNameservers ip host) ↔ NamesNoMapped ip host := by
  rw [foreign_of_reachable (defaultNameservers_suitable ip host).reachable, defaultNameservers_eq]
  cases found : (sources ip host).find? fun addrs => usable addrs ≠ [] with
  | none =>
    have fallback : ¬ MapsGuestsOwn fallbackNameserver := by
      rintro ⟨v4, impossible, _⟩
      cases impossible
    simp only [NamesNoMapped, found, List.mem_singleton, forall_eq, fallback, reduceCtorEq,
      false_imp_iff, implies_true, not_false_eq_true]
  | some source =>
    simp only [NamesNoMapped, found, Option.some.injEq, ← sanitize_eq, mem_sanitize_iff]
    constructor
    · rintro clear _ before addr after rfl split few ⟨v4, mapped, own⟩
      exact clear addr ⟨mapped_reachable mapped, before, after, split, few⟩ ⟨v4, mapped, own⟩
    · rintro clear addr ⟨_, before, after, split, few⟩
      exact clear source before addr after rfl split few

/-- Reachability survives canonicalization, and the nameservers given to the VM mean the
same there as on the host, exactly where no IPv4-mapped form of an address that does not
is asked about, given on the command line, or named by the host among those that count. -/
theorem nameservers_foreign_iff (ip : IpText) :
    (∀ addr, (isReachableFromVm addr = true → isReachableFromVm addr.toCanonical = true) ↔
      ¬ MapsGuestsOwn addr) ∧
    (∀ host dns ns, vmNameservers ip host dns = .ok ns →
      (Foreign ns ↔ if dns = [] then NamesNoMapped ip host else ∀ addr ∈ dns, ¬ MapsGuestsOwn addr)) ∧
    ∀ host, Foreign (defaultNameservers ip host) ↔ NamesNoMapped ip host := by
  refine ⟨canonical_reachable_iff, ?_, defaultNameservers_foreign_iff ip⟩
  intro host dns ns resolved
  rcases vmNameservers_ok.mp resolved with ⟨rfl, rfl⟩ | ⟨named, reachable, rfl⟩
  · rw [if_pos rfl]
    exact defaultNameservers_foreign_iff ip host
  · rw [if_neg named]
    exact foreign_of_reachable reachable

theorem nameservers_foreign_iff_single : Foreign [.v4 192 168 1 254] := by
  have resolved : vmNameservers IpText.plain ⟨none, .error []⟩ [.v4 192 168 1 254] =
      .ok [.v4 192 168 1 254] := rfl
  apply ((nameservers_foreign_iff IpText.plain).2.1 _ _ _ resolved).mpr
  rw [if_neg (by simp)]
  rintro addr member ⟨v4, mapped, _⟩
  rw [List.mem_singleton.mp member] at mapped
  cases mapped

/-- `::ffff:127.0.0.1`. -/
def loopbackMapped : IpAddr := .v6 0 0 0 0 0 0xffff 0x7f00 1

/-- The guest is given its own loopback address, from either source. -/
theorem mapped_loopback_accepted : isReachableFromVm loopbackMapped = true ∧
    isReachableFromVm loopbackMapped.toCanonical = false ∧
    (∀ host, vmNameservers IpText.plain host [loopbackMapped] = .ok [loopbackMapped]) ∧
    defaultNameservers IpText.plain ⟨none, .ok "nameserver 0:0:0:0:0:ffff:7f00:1\n"⟩ =
      [loopbackMapped] ∧
    ¬ Foreign [loopbackMapped] := by
  refine ⟨rfl, rfl, fun _ => rfl, by decide, fun foreign => ?_⟩
  exact (foreign loopbackMapped List.mem_cons_self).2 ⟨.v4 127 0 0 1, rfl, .inl rfl⟩

end ImageBuilder.Dns
