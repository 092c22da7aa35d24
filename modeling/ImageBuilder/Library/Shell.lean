import ImageBuilder.Library.Text
import Mathlib.Data.List.Basic

/-! The parts of the POSIX shell that short scripts rest on: expansion of an unquoted
variable, `echo`, and which exit status a script under `set -e` ends with. -/
namespace Shell

open Text

/-- The default `IFS`, white space all of it. -/
def isIfs (c : Char) : Bool := c == ' ' || c == '\t' || c == '\n'

/-- Field splitting. -/
def fields (value : Text) : List Text := (value.splitOnP isIfs).filter (· ≠ [])

/-- The characters that make a field a pattern. -/
def isPattern (c : Char) : Bool := c == '*' || c == '?' || c == '['

/-- What differs from one shell and one file system to another: the path names a
pattern expands to, and what `echo` makes of backslashes. -/
structure Host where
  pathnames : Text → List Text
  escapes : Text → Text

/-- The fields an unquoted variable expands to. -/
def Host.expand (host : Host) (value : Text) : List Text :=
  (fields value).flatMap fun field =>
    if field.any isPattern then host.pathnames field else [field]

def Host.echo (host : Host) (argument : Text) : Text :=
  (if '\\' ∈ argument then host.escapes argument else argument) ++ ['\n']

theorem fields_cons (word : Text) (solid : ∀ c ∈ word, isIfs c = false) (full : word ≠ [])
    (space : isIfs c = true) (rest : Text) : fields (word ++ c :: rest) = word :: fields rest := by
  simp [fields, List.splitOnP_append_cons_of_forall_mem solid c space, full]

theorem fields_of_solid (solid : ∀ c ∈ word, isIfs c = false) (full : word ≠ []) :
    fields word = [word] := by
  simp [fields, List.splitOnP_eq_singleton solid, full]

/-- Words joined by a separator are the fields of the result. -/
theorem fields_intercalate (space : isIfs c = true) {words : List Text}
    (solid : ∀ word ∈ words, ∀ c ∈ word, isIfs c = false) (full : ∀ word ∈ words, word ≠ []) :
    fields ([c].intercalate words) = words := by
  induction words with
  | nil => rfl
  | cons word words ih =>
    have first := solid word List.mem_cons_self
    have nonempty := full word List.mem_cons_self
    cases words with
    | nil => simpa using fields_of_solid first nonempty
    | cons next words =>
      rw [List.intercalate_cons_cons, List.append_assoc, List.singleton_append,
        fields_cons word first nonempty space]
      rw [ih (fun other member => solid other (List.mem_cons_of_mem _ member))
        (fun other member => full other (List.mem_cons_of_mem _ member))]

/-- Fields without pattern characters expand to themselves. -/
theorem expand_of_plain (host : Host) {value : Text}
    (plain : ∀ field ∈ fields value, field.any isPattern = false) :
    host.expand value = fields value := by
  unfold Host.expand
  have single : ∀ field ∈ fields value,
      (if field.any isPattern then host.pathnames field else [field]) = [field] := by
    intro field member
    simp [plain field member]
  rw [List.flatMap_congr single]
  simp

theorem echo_of_plain (host : Host) {argument : Text} (plain : '\\' ∉ argument) :
    host.echo argument = argument ++ ['\n'] := by
  simp [Host.echo, plain]

/-- A script under `set -e`, its tests already decided: the status of a test is not
looked at, that of every other command is. -/
inductive Script (C : Type) where
  | done
  | run (command : C) (rest : Script C)
  | test (holds : Bool) (body rest : Script C)

namespace Script

/-- Runs commands in order. -/
def all (commands : List C) (rest : Script C) : Script C := commands.foldr run rest

/-- The status the script is left with by a command that fails, if one does. -/
def exec (status : C → UInt8) : Script C → Option UInt8
  | done => none
  | run command rest => if status command = 0 then rest.exec status else some (status command)
  | test holds body rest =>
    if holds then (body.exec status).or (rest.exec status) else rest.exec status

/-- The commands whose status `set -e` looks at, as far as none of them fails. -/
def observed : Script C → List C
  | done => []
  | run command rest => command :: rest.observed
  | test holds body rest => (if holds then body.observed else []) ++ rest.observed

/-- The first failing command decides. -/
theorem exec_eq_find (status : C → UInt8) (script : Script C) :
    script.exec status = (script.observed.map status).find? (· ≠ 0) := by
  induction script with
  | done => rfl
  | run command rest ih =>
    by_cases succeeds : status command = 0 <;> simp [exec, observed, succeeds, ih]
  | test holds body rest ihBody ihRest =>
    cases holds with
    | false => simpa [exec, observed] using ihRest
    | true =>
      simp only [exec, observed, ↓reduceIte, ihBody, ihRest, List.map_append, List.find?_append]

end Script

/-- The exit status of a script with an `EXIT` trap: the trap sees the status the
script ended with, and keeps it unless one of its own commands fails. -/
def exitStatus (status : C → UInt8) (script : Script C) (trap : UInt8 → Script C) : UInt8 :=
  let rc := (script.exec status).getD 0
  ((trap rc).exec status).getD rc

end Shell
