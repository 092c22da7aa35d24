import ImageBuilder.Library.Shell
import Mathlib.Logic.Function.Basic

/-! Scripts under `set -e` on a state that their commands change: command after command
until one fails, then the `EXIT` trap. -/
namespace Shell

variable {C S : Type}

/-- Runs commands in order, up to the first that fails. -/
def runAll (step : C → S → UInt8 × S) : List C → S → Option UInt8 × S
  | [], s => (none, s)
  | command :: rest, s =>
    match step command s with
    | (status, s) => if status = 0 then runAll step rest s else (some status, s)

/-- How far a script has come: in its commands, in its trap, or at its end. -/
inductive Phase (C : Type) where
  | body (rest : List C)
  | trap (rc : UInt8) (rest : List C)
  | exited (status : UInt8)

/-- The next thing a script does. -/
def advance (step : C → S → UInt8 × S) (trap : UInt8 → List C) : Phase C → S → Phase C × S
  | .body [], s => (.trap 0 (trap 0), s)
  | .body (command :: rest), s =>
    match step command s with
    | (status, s) => (if status = 0 then .body rest else .trap status (trap status), s)
  | .trap rc [], s => (.exited rc, s)
  | .trap rc (command :: rest), s =>
    match step command s with
    | (status, s) => (if status = 0 then .trap rc rest else .exited status, s)
  | .exited status, s => (.exited status, s)

/-- A script from its first command to its end, with nothing in between. -/
def outcome (step : C → S → UInt8 × S) (trap : UInt8 → List C) (commands : List C) (s : S) :
    UInt8 × S :=
  match runAll step commands s with
  | (failed, s) =>
    let rc := failed.getD 0
    match runAll step (trap rc) s with
    | (trapFailed, s) => (trapFailed.getD rc, s)

/-- A script after some steps. -/
def go (step : C → S → UInt8 × S) (trap : UInt8 → List C) : Nat → Phase C × S → Phase C × S
  | 0, p => p
  | n + 1, p => go step trap n (advance step trap p.1 p.2)

/-- What is done in one go is done step by step. -/
inductive Steps (step : C → S → UInt8 × S) (trap : UInt8 → List C) :
    Phase C × S → Phase C × S → Prop where
  | refl : Steps step trap p p
  | cons : Steps step trap (advance step trap p.1 p.2) q → Steps step trap p q

namespace Steps

variable {step : C → S → UInt8 × S} {trap : UInt8 → List C}

theorem trans (first : Steps step trap p q) (second : Steps step trap q r) :
    Steps step trap p r := by
  induction first with
  | refl => exact second
  | cons _ ih => exact .cons (ih second)

theorem body (commands : List C) (s : S) :
    Steps step trap (.body commands, s)
      (.trap ((runAll step commands s).1.getD 0) (trap ((runAll step commands s).1.getD 0)),
        (runAll step commands s).2) := by
  induction commands generalizing s with
  | nil => exact .cons .refl
  | cons command rest ih =>
    apply Steps.cons
    simp only [advance, runAll]
    split
    · exact ih _
    · exact .refl

theorem trapped (rc : UInt8) (commands : List C) (s : S) :
    Steps step trap (.trap rc commands, s)
      (.exited ((runAll step commands s).1.getD rc), (runAll step commands s).2) := by
  induction commands generalizing s with
  | nil => exact .cons .refl
  | cons command rest ih =>
    apply Steps.cons
    simp only [advance, runAll]
    split
    · exact ih _
    · exact .refl

theorem outcome (commands : List C) (s : S) :
    Steps step trap (.body commands, s)
      (.exited (outcome step trap commands s).1, (outcome step trap commands s).2) :=
  (body commands s).trans (trapped _ _ _)

theorem go (n : Nat) (p : Phase C × S) : Steps step trap p (go step trap n p) := by
  induction n generalizing p with
  | zero => exact .refl
  | succ n ih => exact .cons (ih _)

end Steps

theorem Script.observed_all (commands : List C) (rest : Script C) :
    (Script.all commands rest).observed = commands ++ rest.observed := by
  induction commands with
  | nil => rfl
  | cons command commands ih => exact congrArg (command :: ·) ih

/-- The command that a script runs next, and what it ends with. -/
def ran (step : C → S → UInt8 × S) : Phase C → S → Option (C × UInt8)
  | .body (command :: _), s | .trap _ (command :: _), s => some (command, (step command s).1)
  | .body [], _ | .trap _ [], _ | .exited _, _ => none

/-- The statuses that commands have ended with. -/
def Agrees (status : C → UInt8) (log : List (C × UInt8)) : Prop :=
  ∀ entry ∈ log, status entry.1 = entry.2

theorem Agrees.left (agrees : Agrees status (log ++ more)) : Agrees status log :=
  fun entry member => agrees entry (List.mem_append_left _ member)

theorem Agrees.right (agrees : Agrees status (log ++ more)) : Agrees status more :=
  fun entry member => agrees entry (List.mem_append_right _ member)

theorem Agrees.zero (agrees : Agrees status log) (succeeded : ∀ entry ∈ log, entry.2 = 0) :
    ∀ command ∈ log.map Prod.fst, status command = 0 := by
  intro command member
  obtain ⟨entry, inside, rfl⟩ := List.mem_map.mp member
  exact (agrees entry inside).trans (succeeded entry inside)

/-- Commands that have each run once. -/
theorem agrees_of_nodup [DecidableEq C] {log : List (C × UInt8)}
    (once : (log.map Prod.fst).Nodup) : ∃ status, Agrees status log := by
  induction log with
  | nil => exact ⟨fun _ => 0, by simp [Agrees]⟩
  | cons entry log ih =>
    rw [List.map_cons, List.nodup_cons] at once
    obtain ⟨status, agrees⟩ := ih once.2
    refine ⟨Function.update status entry.1 entry.2, fun other member => ?_⟩
    rcases List.mem_cons.mp member with rfl | member
    · rw [Function.update_self]
    · rw [Function.update_of_ne, agrees other member]
      exact fun same => once.1 (same ▸ List.mem_map_of_mem member)

section Explaining

variable {script : Script C} {trap : UInt8 → Script C} {log : List (C × UInt8)}

variable (script trap) in
/-- How far a script has come, by what its commands have ended with. -/
def Explained (log : List (C × UInt8)) : Phase C → Prop
  | .body rest => script.observed = log.map Prod.fst ++ rest ∧ ∀ entry ∈ log, entry.2 = 0
  | .trap rc rest => ∃ body late, log = body ++ late ∧ body.map Prod.fst <+: script.observed ∧
      (∀ status, Agrees status body → (script.exec status).getD 0 = rc) ∧
      (trap rc).observed = late.map Prod.fst ++ rest ∧ ∀ entry ∈ late, entry.2 = 0
  | .exited code => ∃ body late rc, log = body ++ late ∧ body.map Prod.fst <+: script.observed ∧
      late.map Prod.fst <+: (trap rc).observed ∧
      ∀ status, Agrees status log → exitStatus status script trap = code

theorem exec_none {status : C → UInt8} (succeeded : ∀ command ∈ script.observed, status command = 0) :
    script.exec status = none := by
  rw [Script.exec_eq_find, List.find?_eq_none]
  intro value member
  obtain ⟨command, inside, rfl⟩ := List.mem_map.mp member
  simp [succeeded command inside]

/-- The script ends with the first failure. -/
theorem exec_some {status : C → UInt8} (whole : script.observed = done ++ command :: rest)
    (failed : status command ≠ 0) (before : ∀ other ∈ done, status other = 0) :
    script.exec status = some (status command) := by
  have clean : (done.map status).find? (· ≠ 0) = none := by
    rw [List.find?_eq_none]
    intro value member
    obtain ⟨other, inside, rfl⟩ := List.mem_map.mp member
    simp [before other inside]
  rw [Script.exec_eq_find, whole, List.map_append, List.map_cons, List.find?_append, clean]
  simp [failed]

/-- The next thing that a script does is explained too, whatever its commands work on. -/
theorem explained_advance {S : Type} (step : C → S → UInt8 × S) (s : S)
    (explained : Explained script trap log phase) :
    Explained script trap (log ++ (ran step phase s).toList)
      (advance step (fun rc => (trap rc).observed) phase s).1 := by
  cases phase with
  | body rest =>
    obtain ⟨whole, succeeded⟩ := explained
    cases rest with
    | nil =>
      rw [List.append_nil] at whole
      refine ⟨log, [], rfl, whole ▸ List.prefix_refl _, fun status agrees => ?_, rfl, by simp⟩
      rw [exec_none (by rw [whole]; exact agrees.zero succeeded)]
      rfl
    | cons command rest =>
      rw [advance, ran, Option.toList_some]
      dsimp only
      split
      · rename_i zero
        refine ⟨by rw [whole, List.map_append, List.append_assoc]; rfl, fun entry member => ?_⟩
        rcases List.mem_append.mp member with member | member
        · exact succeeded entry member
        · rw [List.mem_singleton.mp member, zero]
      · rename_i failed
        refine ⟨log ++ [(command, (step command s).1)], [], by rw [List.append_nil], ?_,
          fun status agrees => ?_, rfl, by simp⟩
        · rw [whole, List.map_append]
          exact ⟨rest, by rw [List.append_assoc]; rfl⟩
        · have last := agrees.right _ List.mem_cons_self
          rw [exec_some whole (by rw [last]; exact failed) (agrees.left.zero succeeded), last]
          rfl
  | trap rc rest =>
    obtain ⟨body, late, rfl, covers, decided, whole, succeeded⟩ := explained
    cases rest with
    | nil =>
      rw [List.append_nil] at whole
      refine ⟨body, late, rc, List.append_nil _, covers, whole ▸ List.prefix_refl _, fun status agrees => ?_⟩
      rw [show (ran step (.trap rc []) s).toList = [] from rfl, List.append_nil] at agrees
      rw [exitStatus, decided status agrees.left,
        exec_none (by rw [whole]; exact agrees.right.zero succeeded), Option.getD_none]
    | cons command rest =>
      rw [advance, ran, Option.toList_some, List.append_assoc]
      dsimp only
      split
      · rename_i zero
        refine ⟨body, late ++ [(command, (step command s).1)], rfl, covers, decided, ?_,
          fun entry member => ?_⟩
        · rw [whole, List.map_append, List.append_assoc]
          rfl
        · rcases List.mem_append.mp member with member | member
          · exact succeeded entry member
          · rw [List.mem_singleton.mp member, zero]
      · rename_i failed
        refine ⟨body, late ++ [(command, (step command s).1)], rc, rfl, covers, ?_,
          fun status agrees => ?_⟩
        · rw [whole, List.map_append]
          exact ⟨rest, by rw [List.append_assoc]; rfl⟩
        · have last := agrees.right.right _ List.mem_cons_self
          rw [exitStatus, decided status agrees.left, exec_some whole (by rw [last]; exact failed)
            (agrees.right.left.zero succeeded), last, Option.getD_some]
  | exited code =>
    rw [show (ran step (.exited code) s).toList = [] from rfl, List.append_nil]
    exact explained

/-- A script whose commands are different ones has run each of them once at most. -/
theorem Explained.agreed [DecidableEq C]
    (once : ∀ rc, (script.observed ++ (trap rc).observed).Nodup)
    (explained : Explained script trap log phase) : ∃ status, Agrees status log := by
  apply agrees_of_nodup
  cases phase with
  | body rest =>
    obtain ⟨whole, _⟩ := explained
    have both := once 0
    rw [whole, List.append_assoc] at both
    exact (List.nodup_append.mp both).1
  | trap rc rest =>
    obtain ⟨body, late, rfl, covers, _, whole, _⟩ := explained
    rw [List.map_append]
    exact (once rc).sublist (covers.sublist.append (by rw [whole]; exact List.sublist_append_left _ _))
  | exited code =>
    obtain ⟨body, late, rc, rfl, covers, trapped, _⟩ := explained
    rw [List.map_append]
    exact (once rc).sublist (covers.sublist.append trapped.sublist)

end Explaining

end Shell
