import ImageBuilder.NameserverHandoff

/-! What becomes of a VM build once its child has been forked: the calls that configure
the VM, the script it runs, and what the parent reports. Codes of the child's own share
the exit status with those of the script. -/
namespace ImageBuilder.VmOutcome

open VmBuilder VmBuildScript NameserverHandoff

/-- What happens inside the VM: how each command of the script ends. -/
structure Guest where
  shell : Shell.Host
  oom : Text
  status : Command → UInt8

/-- One run of the child. -/
inductive Child where
  | killed (signal : Signal) (core : Bool)
  | lived (krun : Libkrun) (guest : Guest)

/-- The commands of the script whose status is looked at. -/
def Guest.observed (guest : Guest) (args : Args) : List Command :=
  (script guest.shell (guestDns args)).observed

/-- The status of the first command that fails. -/
def Guest.firstFailure (guest : Guest) (args : Args) : Option UInt8 :=
  ((guest.observed args).map guest.status).find? (· ≠ 0)

/-- The status of the first command that fails in the `EXIT` trap. -/
def Guest.trapFailure (guest : Guest) (rc : UInt8) : Option UInt8 :=
  ((onExit guest.oom rc).observed.map guest.status).find? (· ≠ 0)

/-- libkrun exits the child with the status of the workload when it enters the VM. -/
def Child.ends (build : VmBuild) (child : Child) (args : Args) : ProcessEnd :=
  match child with
  | .killed signal core => .signaled signal core
  | .lived krun guest => .exited ((enterVm krun args build.cpus build.memoryMib).getD
      (VmBuildScript.exitStatus guest.shell (guestDns args) guest.oom guest.status))

/-- Every call of libkrun succeeds, the last by not returning. -/
def Entered (build : VmBuild) (args : Args) (krun : Libkrun) : Prop :=
  0 ≤ krun.createCtx ∧
  (∀ call ∈ configuration args build.cpus build.memoryMib,
    0 ≤ krun.configure krun.createCtx.toNat call) ∧
  krun.startEnter krun.createCtx.toNat = none

def CallFailed (build : VmBuild) (args : Args) (krun : Libkrun) : Prop :=
  krun.createCtx < 0 ∨
  (∃ call ∈ configuration args build.cpus build.memoryMib,
    krun.configure krun.createCtx.toNat call < 0) ∨
  ∃ code, krun.startEnter krun.createCtx.toNat = some code

/-- A report that says what happened. -/
structure Faithful (build : VmBuild) (args : Args) (child : Child)
    (result : Except VmBuildError Unit) : Prop where
  ok : result = .ok () ↔ ∃ krun guest, child = .lived krun guest ∧ Entered build args krun ∧
    ∀ command ∈ guest.observed args, guest.status command = 0
  krun : (∃ call code, result = .error (.krun call code)) ↔
    ∃ krun guest, child = .lived krun guest ∧ CallFailed build args krun
  command : ∀ code : Int, result = .error (.failed (some code)) ↔
    ∃ krun guest status, child = .lived krun guest ∧ Entered build args krun ∧
      guest.firstFailure args = some status ∧ code = status.toNat
  signal : result = .error (.failed none) ↔ ∃ signal core, child = .killed signal core

/-- The status of the first failing command survives: it is not one of the child's own
codes, and the trap does not replace it. -/
def Reportable (build : VmBuild) (args : Args) : Child → Prop
  | .killed _ _ => True
  | .lived krun guest => ∀ status, Entered build args krun →
      guest.firstFailure args = some status →
      status ≠ exitSetupFailed ∧ status ≠ exitEnterFailed ∧
        ∀ trap, guest.trapFailure status = some trap → trap = status

variable {build : VmBuild} {args : Args} {krun : Libkrun} {guest : Guest}

theorem not_callFailed : ¬ CallFailed build args krun ↔ Entered build args krun := by
  simp only [CallFailed, Entered, not_or, not_exists, not_and, not_lt,
    Option.eq_none_iff_forall_ne_some, ne_eq]

theorem enterVm_entered : enterVm krun args build.cpus build.memoryMib = none ↔
    Entered build args krun := enterVm_eq_none

theorem firstFailure_eq_none : guest.firstFailure args = none ↔
    ∀ command ∈ guest.observed args, guest.status command = 0 := by
  simp [Guest.firstFailure]

theorem firstFailure_ne_zero (failed : guest.firstFailure args = some status) :
    status ≠ 0 := by
  simpa using List.find?_some failed

/-- The exit status of the script, by its first failing commands. -/
theorem exitStatus_eq (guest : Guest) (args : Args) :
    VmBuildScript.exitStatus guest.shell (guestDns args) guest.oom guest.status =
      match guest.firstFailure args with
      | none => 0
      | some status => (guest.trapFailure status).getD status := by
  simp only [VmBuildScript.exitStatus, Shell.exitStatus, Shell.Script.exec_eq_find]
  cases found : guest.firstFailure args with
  | none =>
    rw [Guest.firstFailure, Guest.observed] at found
    rw [found]
    rfl
  | some status =>
    rw [Guest.firstFailure, Guest.observed] at found
    rw [found]
    rfl

theorem faithful_killed (build : VmBuild) (args : Args) (signal : Signal) (core : Bool) :
    Faithful build args (.killed signal core) (.error (.failed none)) where
  ok := by simp
  krun := by simp
  command := by simp
  signal := by simp

theorem faithful_callFailed (guest : Guest) (failed : CallFailed build args krun)
    (call : Text) (code : Int) :
    Faithful build args (.lived krun guest) (.error (.krun call code)) := by
  have out : ¬ Entered build args krun := mt not_callFailed.mpr (not_not.mpr failed)
  exact { ok := by simp [out], krun := by simp [failed], command := by simp [out], signal := by simp }

theorem faithful_succeeded (entered : Entered build args krun)
    (succeeded : ∀ command ∈ guest.observed args, guest.status command = 0) :
    Faithful build args (.lived krun guest) (.ok ()) := by
  have called : ¬ CallFailed build args krun := not_callFailed.mpr entered
  have clean : guest.firstFailure args = none := firstFailure_eq_none.mpr succeeded
  exact {
    ok := by simpa [entered] using succeeded
    krun := by simp [called]
    command := by simp [clean]
    signal := by simp }

theorem faithful_failed (entered : Entered build args krun)
    (failed : guest.firstFailure args = some status) :
    Faithful build args (.lived krun guest) (.error (.failed (some status.toNat))) := by
  have called : ¬ CallFailed build args krun := not_callFailed.mpr entered
  have failing : ¬ ∀ command ∈ guest.observed args, guest.status command = 0 := by
    rw [← firstFailure_eq_none, failed]
    exact nofun
  exact {
    ok := by simpa [entered] using failing
    krun := by simp [called]
    command := fun code => by simp [entered, failed, eq_comm]
    signal := by simp }

theorem reported_failed : reported (ProcessEnd.exited code).status =
      .error (.failed (some status.toNat)) ↔
    code ≠ 0 ∧ code ≠ exitSetupFailed ∧ code ≠ exitEnterFailed ∧ code = status := by
  rw [reported_exited]
  split
  · simp [*]
  · split
    · simp [*]
    · split
      · simp [*]
      · simp [*, UInt8.toNat_inj]

/-- What the parent reports of a child that has been reaped. -/
theorem reported_ends (build : VmBuild) (args : Args) (child : Child) :
    Faithful build args child (reported (child.ends build args).status) ↔
      Reportable build args child := by
  cases child with
  | killed signal core =>
    rw [Child.ends, reported_signaled]
    exact iff_of_true (faithful_killed build args signal core) trivial
  | lived krun guest =>
    rw [Child.ends, exitStatus_eq]
    cases left : enterVm krun args build.cpus build.memoryMib with
    | some code =>
      have out : ¬ Entered build args krun := by
        rw [← enterVm_entered, left]
        exact nofun
      have called : CallFailed build args krun := not_not.mp (mt not_callFailed.mp out)
      have reportable : Reportable build args (.lived krun guest) :=
        fun status entered => absurd entered out
      refine iff_of_true ?_ reportable
      rw [reported_exited]
      rcases enterVm_code left with rfl | rfl <;> exact faithful_callFailed guest called _ _
    | none =>
      have entered := enterVm_entered.mp left
      rw [Option.getD_none]
      cases failed : guest.firstFailure args with
      | none =>
        dsimp only
        rw [reported_exited, if_pos rfl]
        refine iff_of_true (faithful_succeeded entered (firstFailure_eq_none.mp failed)) ?_
        intro status _ first
        rw [failed] at first
        cases first
      | some status =>
        have survives : Faithful build args (.lived krun guest)
            (reported (ProcessEnd.exited ((guest.trapFailure status).getD status)).status) ↔
            reported (ProcessEnd.exited ((guest.trapFailure status).getD status)).status =
              .error (.failed (some status.toNat)) := by
          constructor
          · intro faithful
            exact (faithful.command status.toNat).mpr
              ⟨krun, guest, status, rfl, entered, failed, rfl⟩
          · intro same
            rw [same]
            exact faithful_failed entered failed
        rw [survives, reported_failed]
        constructor
        · rintro ⟨_, setup, enter, same⟩ other _ first
          rw [failed] at first
          cases first
          rw [same] at setup enter
          refine ⟨setup, enter, fun trap found => ?_⟩
          rw [found] at same
          exact same
        · intro reportable
          obtain ⟨setup, enter, kept⟩ := reportable status entered failed
          have same : (guest.trapFailure status).getD status = status := by
            cases found : guest.trapFailure status with
            | none => rfl
            | some trap => exact kept trap found
          rw [same]
          exact ⟨firstFailure_ne_zero failed, setup, enter, rfl⟩

theorem run_forked (built : Args.new ip build = .ok args)
    (single : checkSingleThreaded parent.threadCount = .ok ()) (forked : parent.forkError = none)
    (child : Args → ProcessEnd) :
    Krun.run ip parent build child = some (reported (child args).status) := by
  simp only [Krun.run, built, single, forked, waitFor_interrupted]
  rfl

/-- The outcome of a build whose child was forked is reported faithfully exactly when
the status of the first failing command, if one fails, is reportable. -/
theorem outcome_faithful_iff (ip : IpText) (parent : Parent) (build : VmBuild) (child : Child)
    (args : Args) (built : Args.new ip build = .ok args)
    (single : checkSingleThreaded parent.threadCount = .ok ())
    (forked : parent.forkError = none) :
    ∃ result, Krun.run ip parent build (child.ends build) = some result ∧
      (Faithful build args child result ↔ Reportable build args child) := by
  exact ⟨_, run_forked built single forked _, reported_ends build args child⟩

/-- A child that enters the VM, where `buildah bud` exits with `code` and everything
else succeeds. -/
def budExits (code : UInt8) : Child :=
  .lived ⟨0, fun _ _ => 0, fun _ => none⟩
    ⟨⟨fun _ => [], id⟩, [], fun command => if command = .buildahBud then code else 0⟩

theorem outcome_faithful_iff_bud : ∃ args result,
    Args.new IpText.plain (buildFor []) = .ok args ∧
    Krun.run IpText.plain ⟨.ok 1, none, 3⟩ (buildFor []) ((budExits 7).ends (buildFor [])) =
      some result ∧
    Faithful (buildFor []) args (budExits 7) result := by
  obtain ⟨args, built⟩ : ∃ args, Args.new IpText.plain (buildFor []) = .ok args := ⟨_, rfl⟩
  have dns : guestDns args = none := guestDns_eq built
  obtain ⟨result, ran, faithful⟩ := outcome_faithful_iff IpText.plain ⟨.ok 1, none, 3⟩
    (buildFor []) (budExits 7) args built rfl rfl
  refine ⟨args, result, built, ran, faithful.mpr ?_⟩
  intro status _ failed
  rw [Guest.firstFailure, Guest.observed, dns] at failed
  cases failed
  exact ⟨by decide, by decide, nofun⟩

/-- The script fails with a code of the child's own, and libkrun is blamed. -/
theorem bud_exit_reported_as_krun : ∃ args,
    Args.new IpText.plain (buildFor []) = .ok args ∧
    Krun.run IpText.plain ⟨.ok 1, none, 0⟩ (buildFor []) ((budExits 119).ends (buildFor [])) =
      some (.error (.krun "krun_* configuration" (-1))) ∧
    ¬ Faithful (buildFor []) args (budExits 119) (.error (.krun "krun_* configuration" (-1))) := by
  obtain ⟨args, built⟩ : ∃ args, Args.new IpText.plain (buildFor []) = .ok args := ⟨_, rfl⟩
  have dns : guestDns args = none := guestDns_eq built
  have ends : (budExits 119).ends (buildFor []) args = .exited 119 := by
    rw [budExits, Child.ends, dns]
    rfl
  refine ⟨args, built, ?_, fun faithful => ?_⟩
  · rw [run_forked built rfl rfl, ends, reported_exited]
    rfl
  · obtain ⟨krun, guest, same, failed⟩ := faithful.krun.mp ⟨_, _, rfl⟩
    cases same
    exact not_callFailed.mpr ⟨Int.le_refl 0, fun _ _ => Int.le_refl 0, rfl⟩ failed

end ImageBuilder.VmOutcome
