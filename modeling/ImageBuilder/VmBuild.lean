import ImageBuilder.BuildContext
import ImageBuilder.Dns
import ImageBuilder.Library.Fallible

/-! The configuration of a VM build, the build it resolves to, and the errors of both. -/
namespace ImageBuilder.VmBuilder

def defaultCpus : UInt8 := 2

def defaultMemoryMib : UInt32 := 4096

def tagRoot : Text := "/dev/root"

def tagContext : Text := "openshell-context"

def tagOutput : Text := "openshell-output"

def vmDnsEnv : Text := "OPENSHELL_VM_DNS"

/-- `CONTAINERFILE_NAME`. -/
def containerfileName : Text := "Containerfile"

structure VmConfig where
  rootfs : PathBuf
  cpus : UInt8
  memoryMib : UInt32
  nameservers : List IpAddr

structure VmBuild where
  rootfs : PathBuf
  context : PathBuf
  outputDir : PathBuf
  outputFilename : Text
  tag : Text
  cpus : UInt8
  memoryMib : UInt32
  nameservers : List IpAddr

def VmBuild.dnsEnvValue (ip : IpText) (build : VmBuild) : Option Text :=
  if build.nameservers.isEmpty then none else some (Dns.join ip build.nameservers)

/-- `containerfile_vm_path`, the same for every build. -/
def containerfileVmPath : Text := "/build/context/" ++ containerfileName

inductive VmBuildError where
  | io (error : Text)
  | path (what : Text) (path : PathBuf) (source : Text)
  | rootfs (path : PathBuf) (reason : Rootfs.Problem)
  | unsupported (reason : Text)
  | multiThreaded (threads : Nat)
  | krun (call : Text) (code : Int)
  | failed (exitCode : Option Int)
  deriving DecidableEq

/-- `Display`, given the displayed form of a path. -/
def VmBuildError.message (display : PathBuf → Text) : VmBuildError → Text
  | .io e => "I/O error: " ++ e
  | .path what place source => what ++ " '" ++ display place ++ "': " ++ source
  | .rootfs place problem => "VM rootfs '" ++ display place ++ "': " ++ problem.reason
  | .unsupported reason => "VM builds are not available: " ++ reason
  | .multiThreaded threads => "cannot start a VM from a process with " ++
      Nat.toDigits 10 threads ++ " threads: libkrun is entered after fork() without ".toList ++
      "exec(), which is only safe while the process is single-threaded".toList
  | .krun call code => "libkrun call " ++ call ++ " failed with code " ++ (toString code).toList
  | .failed (some code) => "VM build failed with exit code " ++ (toString code).toList
  | .failed none => "VM build was terminated by a signal"

/-- `VmConfig::check_rootfs`. -/
def VmConfig.checkRootfs (config : VmConfig) (host : BuildHost) : Except VmBuildError Unit :=
  match Rootfs.checkRootfs (host.rootfs config.rootfs) with
  | .error problem => .error (.rootfs config.rootfs problem)
  | .ok () => .ok ()

theorem willing_checkRootfs (config : VmConfig) : config.checkRootfs .willing = .ok () := by
  have usable : Rootfs.Usable ((∅ : Tree).insert Rootfs.helper (.file 0o755 (.utf8 []))) :=
    Rootfs.usable_iff.mpr ⟨_, _, Finmap.lookup_insert _, by decide⟩
  have checked : Rootfs.checkRootfs (BuildHost.willing.rootfs config.rootfs) = .ok () := usable
  rw [VmConfig.checkRootfs, checked]

end ImageBuilder.VmBuilder
