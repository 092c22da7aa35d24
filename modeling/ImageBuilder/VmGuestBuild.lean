import ImageBuilder.VmGuestRun

/-! One guest beside others, from its resolver configuration to its tarball. -/
namespace ImageBuilder.VmGuest

open Inode Inode.FileSystem VmBuilder VmBuildScript VmBuildFiles

variable {shares : Shares} {containerfile shipped : List UInt8} {buildah : Buildah}
  {boot : Boot} {machine : Machine buildah} {invariant : Files → Prop} {s : Guest buildah}
  {points : List (List FileName)}

def runResolv : List FileName := runDir ++ [resolvName]

/-- The resolver configuration is being written. -/
structure Writing (boot : Boot) (shares : Shares) (containerfile shipped : List UInt8)
    (points : List (List FileName)) (content : List UInt8) (s : Guest buildah) : Prop
    extends Early shares containerfile shipped points s where
  written : ∃ r file mode, (s.view boot).place runResolv = (⟨.memory, r⟩, [resolvName]) ∧
    s.2.memory.reach r [resolvName] = some file ∧
    s.2.memory.nodes.lookup file = some (.file mode content) ∧
    s.2.redirect = some (.memory, file)

theorem Writing.stable (content : List UInt8) : Interleaving.Stable (Rely shares)
    (Writing boot shares containerfile shipped points content : Guest buildah → Prop) :=
  fun _ _ _ writing rely => { writing with ready := writing.ready.relied rely }

theorem Keeps.openResolvConf (wired : Wired boot shares) (run : RunMounted points) :
    Keeps machine boot invariant shares (Early shares containerfile shipped points) .openResolvConf
      (Writing boot shares containerfile shipped points []) := by
  refine .of_inside (.stable points) fun s early => ?_
  obtain ⟨r, _, inMemory⟩ := early.runInMemory wired run
  have parsed : steps runResolvConf = some (runResolv.map .name) := by decide
  rw [Machine.perform]
  dsimp only
  cases done : Machine.openRedirect boot s runResolvConf with
  | error e => exact ⟨rfl, fun succeeded => absurd succeeded (machine.failure _ s).property⟩
  | ok s' =>
    rw [Machine.openRedirect, parsed] at done
    dsimp only at done
    split at done
    · cases done
    · rename_i file view opened
      cases done
      rcases Mounted.openTruncate_names (inMemory.plain_path [resolvName]) opened with
        ⟨init, n, ino, entries, split, _, reached, found, rfl, rfl⟩ |
        ⟨ino, kept, old, reached, found, rfl, rfl⟩
      · obtain ⟨rfl, same⟩ := List.append_inj' split rfl
        cases same
        rw [Mounted.inode, inMemory.placed] at reached
        cases reached
        rw [inMemory.placed] at found ⊢
        dsimp only at found ⊢
        have apart : r ≠ s.2.memory.fresh := by
          rintro rfl
          exact inMemory.present (fresh_absent _)
        have entered : (s.2.memory.add [(resolvName, r)] entries resolvName
            (.file 0o644 [])).nodes.lookup r =
              some (.dir (entries.insert resolvName s.2.memory.fresh)) := by
          rw [lookup_add, if_neg apart]
          exact if_pos rfl
        refine ⟨rfl, fun _ => {
          ready := early.ready
          points := early.points
          context := early.context
          output := early.output
          memory := early.memory
          bare := bare_add early.bare (fun _ same => by cases same) _ _ _
          rooted := fun mount member there =>
            lookup_add_present (early.rooted mount member there) _ _ _ _
          written := ?_ }⟩
        refine ⟨r, s.2.memory.fresh, 0o644, inMemory.place [resolvName], ?_,
          lookup_added_fresh _ _ _ _, rfl⟩
        exact (reach_single entered resolvName).trans (Finmap.lookup_insert _)
      · rw [Mounted.inode, inMemory.place] at reached
        rw [inMemory.place] at found ⊢
        dsimp only at reached found ⊢
        obtain ⟨ino, reached, same⟩ := Option.map_eq_some_iff.mp reached
        cases same
        refine ⟨rfl, fun _ => {
          ready := early.ready
          points := early.points
          context := early.context
          output := early.output
          memory := early.memory
          bare := bare_put early.bare _ _ _
          rooted := fun mount member there =>
            lookup_put_present (early.rooted mount member there) _ _
          written := ?_ }⟩
        refine ⟨r, ino, kept, inMemory.place [resolvName], ?_, ?_, rfl⟩
        · exact (reach_put found kept [] r [resolvName]).trans reached
        · exact (lookup_put _ _ _).trans (if_pos rfl)

/-- What `nameserver` lines add to the file. -/
def resolvLine (machine : Machine buildah) (ns : Text) : List UInt8 :=
  Utf8.encode (machine.shell.echo ("nameserver " ++ ns))

theorem Keeps.echoNameserver (index : Nat) (ns : Text) (content : List UInt8) :
    Keeps machine boot invariant shares
      (Writing boot shares containerfile shipped points content) (.echoNameserver index ns)
      (Writing boot shares containerfile shipped points (content ++ resolvLine machine ns)) := by
  refine .of_inside (.stable content) fun s writing => ?_
  obtain ⟨r, file, mode, placed, reached, found, redirect⟩ := writing.written
  have there : ((s.view boot).stores .memory).nodes.lookup file = some (.file mode content) := found
  have performed : machine.perform boot (.echoNameserver index ns) s =
      (0, s.settle ((s.view boot).setContents (.memory, file)
        (content ++ resolvLine machine ns))) := by
    simp only [Machine.perform, Machine.echo, redirect, there]
    rfl
  rw [performed]
  have memory : (s.settle ((s.view boot).setContents (.memory, file)
      (content ++ resolvLine machine ns))).2.memory =
        s.2.memory.put file (.file mode (content ++ resolvLine machine ns)) := by
    have set : s.2.memory.setContents file (content ++ resolvLine machine ns) =
        s.2.memory.put file (.file mode (content ++ resolvLine machine ns)) := by
      rw [setContents, found]
    exact set
  refine ⟨rfl, fun _ => {
    ready := writing.ready
    points := writing.points
    context := writing.context
    output := writing.output
    memory := writing.memory
    bare := by rw [memory]; exact bare_put writing.bare _ _ _
    rooted := fun mount member inside => by
      rw [memory]
      exact lookup_put_present (writing.rooted mount member inside) _ _
    written := ?_ }⟩
  refine ⟨r, file, mode, placed, ?_, ?_, redirect⟩
  · rw [memory, reach_put found]
    exact reached
  · rw [memory, lookup_put, if_pos rfl]

/-- What the guest resolves names with: its own nameservers in memory, or the configuration that
its rootfs ships. -/
structure Configured (shares : Shares) (containerfile shipped : List UInt8)
    (points : List (List FileName)) (own : Bool) (content : List UInt8) (s : Guest buildah) : Prop
    extends Early shares containerfile shipped points s where
  ships : own = false → content = shipped
  bound : own = true → ∃ file mode,
    s.2.mounts.find? (fun mount => decide (mount.1 <+: etcResolv)) =
      some (etcResolv, ⟨.memory, file⟩) ∧
    s.2.memory.nodes.lookup file = some (.file mode content)

theorem Configured.stable (own : Bool) (content : List UInt8) :
    Interleaving.Stable (Rely shares)
      (Configured shares containerfile shipped points own content : Guest buildah → Prop) :=
  fun _ _ _ configured rely => { configured with ready := configured.ready.relied rely }

theorem Keeps.bindResolvConf (wired : Wired boot shares) (run : RunMounted points)
    (free : Free points etcResolv) (content : List UInt8) :
    Keeps machine boot invariant shares
      (Writing boot shares containerfile shipped points content) .bindResolvConf
      (Configured shares containerfile shipped (etcResolv :: points) true content) := by
  refine .of_inside (.stable content) fun s writing => ?_
  obtain ⟨r, file, mode, placed, reached, found, _⟩ := writing.written
  obtain ⟨_, _, inMemory⟩ := writing.toEarly.runInMemory wired run
  have source : steps runResolvConf = some (runResolv.map .name) := by decide
  have target : steps etcResolvConf = some (etcResolv.map .name) := by decide
  rw [Machine.perform]
  dsimp only
  cases done : Machine.mountBind boot s runResolvConf etcResolvConf with
  | error e => exact ⟨rfl, fun succeeded => absurd succeeded (machine.failure _ s).property⟩
  | ok s' =>
    rw [Machine.mountBind, source, target] at done
    dsimp only at done
    split at done
    · cases done
    · rename_i path resolved
      obtain ⟨rfl, _⟩ := Mounted.resolve_names (inMemory.plain_path [resolvName]) resolved
      have where_ : (s.view boot).inode (runDir ++ [resolvName]) = some (.memory, file) := by
        have there : ((s.view boot).stores .memory).reach r [resolvName] = some file := reached
        rw [Mounted.inode, show (s.view boot).place (runDir ++ [resolvName]) = _ from placed, there]
        rfl
      rw [where_] at done
      dsimp only at done
      split at done
      · cases done
      · rename_i view mounted
        cases done
        obtain rfl := Mounted.mount_names (plain_view writing.toStaged wired (by decide) free) mounted
        have staged := writing.toStaged.mountMemory (show etcResolv ≠ contextDir by decide)
          (show etcResolv ≠ outputDir by decide) file s.2.memory
        refine ⟨rfl, fun _ => {
          toStaged := staged
          bare := writing.bare
          rooted := ?_
          ships := fun impossible => by cases impossible
          bound := fun _ => ⟨file, mode, ?_, found⟩ }⟩
        · intro mount member inside
          rcases List.mem_cons.mp member with rfl | old
          · show s.2.memory.nodes.lookup file ≠ none
            rw [found]
            exact Option.some_ne_none _
          · exact writing.rooted mount old inside
        · exact List.find?_cons_of_pos (decide_eq_true (List.prefix_refl etcResolv))

theorem Keeps.makeVarTmp (wired : Wired boot shares) (closed : ∀ h, invariant h → h.Closed)
    (free : Free points tmpDir) (own : Bool) (content : List UInt8) :
    Keeps machine boot invariant shares
      (Configured shares containerfile shipped points own content) .makeVarTmp
      (Configured shares containerfile shipped points own content) :=
  .mkdir (.stable own content) wired closed (fun _ configured => configured.toStaged)
    (fun _ => rfl) (show steps tmpPoint = some (tmpDir.map .name) by decide) (by decide) (by decide)
    free

theorem Keeps.mountVarTmp (wired : Wired boot shares) (free : Free points tmpDir) (own : Bool)
    (content : List UInt8) :
    Keeps machine boot invariant shares
      (Configured shares containerfile shipped points own content) .mountVarTmp
      (Configured shares containerfile shipped (tmpDir :: points) own content) := by
  refine .of_inside (.stable own content) fun s configured => ?_
  rw [Machine.perform]
  dsimp only
  split
  · rename_i s' done
    obtain rfl := mountTmpfs_ok wired configured.toStaged
      (show steps tmpPoint = some (tmpDir.map .name) by decide) (by decide) free done
    refine ⟨rfl, fun _ => {
      toEarly := configured.toEarly.mountTmpfs (by decide) (by decide)
      ships := configured.ships
      bound := fun replaced => ?_ }⟩
    obtain ⟨file, mode, chosen, found⟩ := configured.bound replaced
    refine ⟨file, mode, ?_, ?_⟩
    · refine Eq.trans (List.find?_cons_of_neg ?_) chosen
      exact of_decide_eq_false (p := decide (tmpDir <+: etcResolv) = true) (by decide)
    · rw [lookup_put, if_neg]
      · exact found
      · rintro rfl
        rw [fresh_absent] at found
        cases found
  · exact ⟨rfl, fun succeeded => absurd succeeded (machine.failure _ s).property⟩

theorem Keeps.raiseFileLimit (own : Bool) (content : List UInt8) :
    Keeps machine boot invariant shares
      (Configured shares containerfile shipped points own content) .raiseFileLimit
      (Configured shares containerfile shipped points own content) :=
  .of_inside (.stable own content) fun _ configured => ⟨rfl, fun _ => configured⟩

end ImageBuilder.VmGuest
