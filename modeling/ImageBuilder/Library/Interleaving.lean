import ImageBuilder.Library.ShellRun
import ImageBuilder.Library.Transition
import Mathlib.Logic.Function.Basic

/-! Scripts that run beside each other, each with a state of its own, on a state that they
share. What one of them relies on is what the others guarantee. -/
namespace Interleaving

open Shell

variable {I C H L : Type}

/-- A script that runs, and what only it can see. -/
structure Process (C L : Type) where
  phase : Phase C
  own : L

structure System (I C H L : Type) where
  shared : H
  process : I → Process C L

/-- One process does its next thing. -/
def proceed [DecidableEq I] (run : I → C → H × L → UInt8 × (H × L)) (trap : I → UInt8 → List C)
    (s : System I C H L) (i : I) : System I C H L :=
  let next := advance (run i) (trap i) (s.process i).phase (s.shared, (s.process i).own)
  ⟨next.2.1, Function.update s.process i ⟨next.1, next.2.2⟩⟩

def step [DecidableEq I] (run : I → C → H × L → UInt8 × (H × L)) (trap : I → UInt8 → List C)
    (s : System I C H L) (i : I) : Option (System I C H L) := some (proceed run trap s i)

/-- Any process may go next. -/
abbrev Reachable [DecidableEq I] (run : I → C → H × L → UInt8 × (H × L))
    (trap : I → UInt8 → List C) (s final : System I C H L) : Prop :=
  ∃ schedule, Transition.Run (step run trap) (fun _ _ => True) s schedule final

/-- What a schedule leads to. -/
theorem reachable_foldl [DecidableEq I] (run : I → C → H × L → UInt8 × (H × L))
    (trap : I → UInt8 → List C) (s : System I C H L) (schedule : List I) :
    Reachable run trap s (schedule.foldl (proceed run trap) s) := by
  refine ⟨schedule, ?_⟩
  induction schedule generalizing s with
  | nil => exact .nil
  | cons i schedule ih => exact .cons trivial rfl (ih _)

/-- What holds of a process whatever the others do. -/
def Stable (rely : H → H → Prop) (holds : H × L → Prop) : Prop :=
  ∀ h h' l, holds (h, l) → rely h h' → holds (h', l)

/-- A command that is run where `before` holds: what it does to the shared state, and what
holds after it when it succeeds. -/
structure Contract (run : C → H × L → UInt8 × (H × L)) (invariant : H → Prop)
    (rely guarantee : H → H → Prop) (before : H × L → Prop) (command : C)
    (after : H × L → Prop) : Prop where
  stable : Stable rely before
  guarantees : ∀ h l, invariant h → before (h, l) → guarantee h (run command (h, l)).2.1
  establishes : ∀ h l, invariant h → before (h, l) → (run command (h, l)).1 = 0 →
    after (run command (h, l)).2

/-- What holds between the commands of a script. -/
inductive Outline (run : C → H × L → UInt8 × (H × L)) (invariant : H → Prop)
    (rely guarantee : H → H → Prop) : (H × L → Prop) → List C → (H × L → Prop) → Prop where
  | nil : Stable rely after → Outline run invariant rely guarantee after [] after
  | cons : Contract run invariant rely guarantee before command between →
      Outline run invariant rely guarantee between rest after →
      Outline run invariant rely guarantee before (command :: rest) after

section Rules

variable {run : C → H × L → UInt8 × (H × L)} {invariant : H → Prop} {rely guarantee : H → H → Prop}

theorem Outline.stable (outline : Outline run invariant rely guarantee before commands after) :
    Stable rely before := by
  cases outline with
  | nil stable => exact stable
  | cons contract _ => exact contract.stable

theorem Outline.append (first : Outline run invariant rely guarantee before a between)
    (second : Outline run invariant rely guarantee between b after) :
    Outline run invariant rely guarantee before (a ++ b) after := by
  induction first with
  | nil => exact second
  | cons contract _ ih => exact .cons contract (ih second)

end Rules

/-- A process that is where its outline says. -/
def OnTrack (run : C → H × L → UInt8 × (H × L)) (invariant : H → Prop)
    (rely guarantee : H → H → Prop) (trapped : List C) (after : H × L → Prop) (h : H)
    (p : Process C L) : Prop :=
  match p.phase with
  | .body rest => ∃ before, before (h, p.own) ∧
      Outline run invariant rely guarantee before rest after
  | .trap rc rest => rest ⊆ trapped ∧ (rc = 0 → rest = [] ∧ after (h, p.own))
  | .exited status => status = 0 → after (h, p.own)

/-- Scripts that fit together. A trap does nothing after success, and leaves the shared
state alone after a failure. -/
structure Compatible (run : I → C → H × L → UInt8 × (H × L)) (trap : I → UInt8 → List C)
    (invariant : H → Prop) (rely guarantee : I → H → H → Prop) (trapped : List C) : Prop where
  kept : ∀ i h h', invariant h → guarantee i h h' → invariant h'
  relied : ∀ i j h h', i ≠ j → invariant h → guarantee i h h' → rely j h h'
  same : ∀ i h, guarantee i h h
  traps : ∀ i rc, trap i rc ⊆ trapped
  success : ∀ i, trap i 0 = []
  quiet : ∀ i, ∀ command ∈ trapped, ∀ h l, (run i command (h, l)).2.1 = h

section Soundness

variable {run : I → C → H × L → UInt8 × (H × L)} {trap : I → UInt8 → List C}
  {invariant : H → Prop} {rely guarantee : I → H → H → Prop} {trapped : List C}

/-- A process that goes on stays on track. -/
theorem onTrack_advance (compatible : Compatible run trap invariant rely guarantee trapped)
    (kept : invariant h)
    (track : OnTrack (run i) invariant (rely i) (guarantee i) trapped after h p) :
    guarantee i h (advance (run i) (trap i) p.phase (h, p.own)).2.1 ∧
      OnTrack (run i) invariant (rely i) (guarantee i) trapped after
        (advance (run i) (trap i) p.phase (h, p.own)).2.1
        ⟨(advance (run i) (trap i) p.phase (h, p.own)).1,
          (advance (run i) (trap i) p.phase (h, p.own)).2.2⟩ := by
  obtain ⟨phase, own⟩ := p
  cases phase with
  | body rest =>
    obtain ⟨before, held, outline⟩ := track
    cases outline with
    | nil =>
      refine ⟨compatible.same i h, compatible.traps i 0, fun _ => ?_⟩
      exact ⟨compatible.success i, held⟩
    | cons contract outline =>
      rename_i command between rest
      refine ⟨contract.guarantees h own kept held, ?_⟩
      have established := contract.establishes h own kept held
      simp only [advance, OnTrack]
      by_cases succeeded : (run i command (h, own)).1 = 0
      · rw [if_pos succeeded]
        exact ⟨between, established succeeded, outline⟩
      · rw [if_neg succeeded]
        exact ⟨compatible.traps i _, fun zero => absurd zero succeeded⟩
  | trap rc rest =>
    obtain ⟨inside, ended⟩ := track
    cases rest with
    | nil =>
      refine ⟨compatible.same i h, fun zero => (ended zero).2⟩
    | cons command rest =>
      have unchanged := compatible.quiet i command (inside List.mem_cons_self) h own
      have failed : rc ≠ 0 := by
        intro zero
        cases (ended zero).1
      simp only [advance, OnTrack]
      rw [unchanged]
      refine ⟨compatible.same i h, ?_⟩
      by_cases succeeded : (run i command (h, own)).1 = 0
      · rw [if_pos succeeded]
        exact ⟨fun _ member => inside (List.mem_cons_of_mem _ member), fun zero => absurd zero failed⟩
      · rw [if_neg succeeded]
        exact fun zero => absurd zero succeeded
  | exited status => exact ⟨compatible.same i h, track⟩

/-- A process is not thrown off its track by what it relies on. -/
theorem onTrack_stable (stable : Stable (rely i) after) (relied : rely i h h')
    (track : OnTrack (run i) invariant (rely i) (guarantee i) trapped after h p) :
    OnTrack (run i) invariant (rely i) (guarantee i) trapped after h' p := by
  obtain ⟨phase, own⟩ := p
  cases phase with
  | body rest =>
    obtain ⟨before, held, outline⟩ := track
    exact ⟨before, outline.stable h h' own held relied, outline⟩
  | trap rc rest =>
    obtain ⟨inside, ended⟩ := track
    exact ⟨inside, fun zero => ⟨(ended zero).1, stable h h' own (ended zero).2 relied⟩⟩
  | exited status => exact fun zero => stable h h' own (track zero) relied

/-- Every process stays on its track, whatever the order in which they go on. -/
theorem sound [DecidableEq I] (compatible : Compatible run trap invariant rely guarantee trapped)
    {after : I → H × L → Prop} (stable : ∀ i, Stable (rely i) (after i))
    (kept : invariant s.shared)
    (tracks : ∀ i, OnTrack (run i) invariant (rely i) (guarantee i) trapped (after i) s.shared
      (s.process i))
    (reached : Reachable run trap s final) :
    invariant final.shared ∧ ∀ i, OnTrack (run i) invariant (rely i) (guarantee i) trapped (after i)
      final.shared (final.process i) := by
  obtain ⟨schedule, ran⟩ := reached
  refine ran.invariant (fun s => invariant s.shared ∧ ∀ i, OnTrack (run i) invariant (rely i)
    (guarantee i) trapped (after i) s.shared (s.process i)) ?_ ⟨kept, tracks⟩
  rintro s i next ⟨kept, tracks⟩ _ taken
  cases taken
  obtain ⟨guaranteed, onward⟩ := onTrack_advance compatible kept (tracks i)
  refine ⟨compatible.kept i _ _ kept guaranteed, fun j => ?_⟩
  dsimp only [proceed]
  by_cases same : j = i
  · subst same
    rw [Function.update_self]
    exact onward
  · rw [Function.update_of_ne same]
    exact onTrack_stable (stable j)
      (compatible.relied i j _ _ (Ne.symm same) kept guaranteed) (tracks j)

/-- A process that nothing else runs beside. -/
theorem alone (compatible : Compatible run trap invariant rely guarantee trapped)
    (kept : invariant h)
    (track : OnTrack (run i) invariant (rely i) (guarantee i) trapped after h ⟨phase, own⟩)
    (ran : Steps (run i) (trap i) (phase, (h, own)) (final, (h', own'))) :
    invariant h' ∧ OnTrack (run i) invariant (rely i) (guarantee i) trapped after h' ⟨final, own'⟩ := by
  generalize start : (phase, (h, own)) = p at ran
  generalize ended : (final, (h', own')) = q at ran
  induction ran generalizing phase h own with
  | refl =>
    subst start
    cases ended
    exact ⟨kept, track⟩
  | cons _ ih =>
    subst start
    obtain ⟨guaranteed, onward⟩ := onTrack_advance compatible kept track
    exact ih (compatible.kept i _ _ kept guaranteed) onward rfl ended

end Soundness

/-- What the commands of one process end with, in the order of a schedule. -/
def log [DecidableEq I] (run : I → C → H × L → UInt8 × (H × L)) (trap : I → UInt8 → List C) (i : I) :
    System I C H L → List I → List (C × UInt8)
  | _, [] => []
  | s, j :: schedule =>
    (if j = i then (ran (run i) (s.process i).phase (s.shared, (s.process i).own)).toList else []) ++
      log run trap i (proceed run trap s j) schedule

/-- How far each process has come is explained by what its own commands have ended with. -/
theorem explained [DecidableEq I] {run : I → C → H × L → UInt8 × (H × L)} (script : I → Script C)
    (trap : I → UInt8 → Script C) {schedule : List I} {i : I}
    (went : Transition.Run (step run fun i rc => (trap i rc).observed) (fun _ _ => True) s schedule
      final)
    (before : Explained (script i) (trap i) earlier (s.process i).phase) :
    Explained (script i) (trap i)
      (earlier ++ log run (fun i rc => (trap i rc).observed) i s schedule)
      (final.process i).phase := by
  induction went generalizing earlier with
  | nil =>
    rw [log, List.append_nil]
    exact before
  | @cons s j next schedule final _ taken _ ih =>
    cases taken
    rw [log, ← List.append_assoc]
    apply ih
    dsimp only [proceed]
    by_cases same : j = i
    · subst same
      rw [if_pos rfl, Function.update_self]
      exact explained_advance (run j) _ before
    · rw [if_neg same, Function.update_of_ne (Ne.symm same), List.append_nil]
      exact before

end Interleaving
