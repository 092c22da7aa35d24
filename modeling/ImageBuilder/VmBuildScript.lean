import ImageBuilder.Krun
import ImageBuilder.Library.Shell

/-! `vm-build`, the script the VM runs: the resolver configuration it writes from the
nameservers it is handed, and the commands whose failure ends it. -/
namespace ImageBuilder.VmBuildScript

open Text Shell

/-- The nameservers to write: none when the variable is unset or empty. -/
def nameservers (host : Shell.Host) (dns : Option Text) : List Text :=
  match dns with
  | none => []
  | some value => host.expand value

/-- `[ -n "$OPENSHELL_VM_DNS" ]`. -/
def hasNameservers (dns : Option Text) : Bool := !(dns.getD []).isEmpty

/-- `/etc/resolv.conf` as the build sees it, over what the rootfs shipped with. -/
def resolvConf (host : Shell.Host) (dns : Option Text) (shipped : Text) : Text :=
  if hasNameservers dns then
    (nameservers host dns).flatMap fun ns => host.echo ("nameserver " ++ ns)
  else shipped

/-- The commands of the script and of its `EXIT` trap. -/
inductive Command where
  | makeShares
  | mountContext
  | mountOutput
  | readMemTotal
  | computeStorage
  | makeStorage
  | mountStorage
  | mountRun
  | makeRunContainers
  | openResolvConf
  | echoNameserver (index : Nat) (ns : Text)
  | bindResolvConf
  | makeVarTmp
  | mountVarTmp
  | raiseFileLimit
  | buildahBud
  | buildahFrom
  | buildahMount
  | tar
  | buildahUmount
  | buildahRm
  -- `on_exit`
  | searchKernelLog
  | printOom
  | printHint
  deriving DecidableEq

/-- The script after its assignments of `$1` to `$3`, which cannot fail. -/
def script (host : Shell.Host) (dns : Option Text) : Script Command :=
  .all [.makeShares, .mountContext, .mountOutput, .readMemTotal, .computeStorage, .makeStorage,
    .mountStorage, .mountRun, .makeRunContainers] <|
  .test (hasNameservers dns)
    (.all (.openResolvConf :: (nameservers host dns).mapIdx .echoNameserver ++ [.bindResolvConf])
      .done) <|
  .all [.makeVarTmp, .mountVarTmp, .raiseFileLimit, .buildahBud, .buildahFrom, .buildahMount, .tar,
    .buildahUmount, .buildahRm] .done

/-- `on_exit`. `oom` is what it finds in the kernel log. -/
def onExit (oom : Text) (rc : UInt8) : Script Command :=
  .test (rc ≠ 0)
    (.run .searchKernelLog (.test (oom ≠ []) (.all [.printOom, .printHint] .done) .done)) .done

/-- The exit status of the VM's workload. -/
def exitStatus (host : Shell.Host) (dns : Option Text) (oom : Text) (status : Command → UInt8) :
    UInt8 :=
  Shell.exitStatus status (script host dns) (onExit oom)

end ImageBuilder.VmBuildScript
