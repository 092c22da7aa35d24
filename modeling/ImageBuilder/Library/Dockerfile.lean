import ImageBuilder.Library.Text

/-! The line grammar of container build files: parser directives at the top, comments,
continuation lines, here-documents, and instructions split into words. A file is read
by feeding its lines to a machine one after the other. -/
namespace Dockerfile

open Text

structure Instruction where
  keyword : Text
  operands : List Text
  heredocs : List (List Text)
  deriving DecidableEq

/-- A here-document that an operand announces: the line it ends at, and whether
leading tabs are dropped from its lines. -/
structure Heredoc where
  ending : Text
  chomp : Bool
  deriving DecidableEq

def unquote (name : Text) : Text :=
  match name with
  | '"' :: rest => if rest.getLast? = some '"' then rest.dropLast else name
  | '\'' :: rest => if rest.getLast? = some '\'' then rest.dropLast else name
  | _ => name

/-- `<<EOF`, `<<-EOF` and their quoted forms, after an optional file descriptor. -/
def heredoc? (operand : Text) : Option Heredoc :=
  match operand.dropWhile Char.isDigit with
  | '<' :: '<' :: '-' :: name =>
    if name = [] ∨ '<' ∈ name then none else some ⟨unquote name, true⟩
  | '<' :: '<' :: name => if name = [] ∨ '<' ∈ name then none else some ⟨unquote name, false⟩
  | _ => none

/-- The instructions whose operands may announce here-documents. -/
def takesHeredocs (keyword : Text) : Bool :=
  keyword ∈ (["RUN".toList, "COPY".toList, "ADD".toList] : List Text)

inductive Mode where
  | between
  /-- The logical line so far, its last physical line having ended in the escape. -/
  | continued (line : Text)
  | heredoc (instruction : Instruction) (current : Heredoc) (body : List Text)
      (pending : List Heredoc)

structure State where
  mode : Mode
  /-- Parser directives are still recognised. -/
  top : Bool
  escape : Char
  done : List Instruction

def initial : State := ⟨.between, true, '\\', []⟩

def isBlank (line : Text) : Bool := (words line).isEmpty

def isComment (line : Text) : Bool := (trimStart line).head? == some '#'

/-- `# key=value`. -/
def directive? (line : Text) : Option (Text × Text) :=
  match trimStart line with
  | '#' :: rest =>
    let key := (trimStart rest).takeWhile Char.isAlphanum
    match trimStart ((trimStart rest).dropWhile Char.isAlphanum) with
    | '=' :: value =>
      if key = [] ∨ trim value = [] then none else some (key.map Char.toLower, trim value)
    | _ => none
  | _ => none

/-- The escape character that a directive selects. -/
def escapeOf (key value : Text) (current : Char) : Char :=
  match key == "escape".toList, value with
  | true, [c] => c
  | _, _ => current

/-- The end of a logical line. -/
def State.instruction (st : State) (line : Text) : State :=
  match words line with
  | [] => { st with mode := .between }
  | keyword :: operands =>
    let keyword := keyword.map Char.toUpper
    let announced := if takesHeredocs keyword then operands.filterMap heredoc? else []
    match announced with
    | [] => { st with mode := .between, done := st.done ++ [⟨keyword, operands, []⟩] }
    | first :: pending => { st with mode := .heredoc ⟨keyword, operands, []⟩ first [] pending }

/-- Adds a physical line to a logical one. -/
def State.extend (st : State) (line : Text) : State :=
  if (trimEnd line).getLast? = some st.escape then
    { st with mode := .continued (trimEnd line).dropLast }
  else st.instruction line

/-- The end of a here-document: the next one that was announced begins. -/
def State.closeHeredoc (st : State) (instruction : Instruction) (body : List Text)
    (pending : List Heredoc) : State :=
  let complete := { instruction with heredocs := instruction.heredocs ++ [body] }
  match pending with
  | [] => { st with mode := .between, done := st.done ++ [complete] }
  | next :: pending => { st with mode := .heredoc complete next [] pending }

def feed (st : State) (line : Text) : State :=
  match st.mode with
  | .heredoc instruction current body pending =>
    let line := if current.chomp then line.dropWhile (· == '\t') else line
    if line = current.ending then st.closeHeredoc instruction body pending
    else { st with mode := .heredoc instruction current (body ++ [line]) pending }
  | .continued start =>
    if isBlank line || isComment line then st else st.extend (start ++ line)
  | .between =>
    match st.top, directive? line with
    | true, some (key, value) => { st with escape := escapeOf key value st.escape }
    | _, _ =>
      if isBlank line || isComment line then { st with top := false }
      else State.extend { st with top := false } line

/-- An unterminated here-document is an error; a continuation at the end is not. -/
def State.finish (st : State) : Option (List Instruction) :=
  match st.mode with
  | .between => some st.done
  | .continued line => some (st.instruction line).done
  | .heredoc _ _ _ _ => none

/-- Lines end at a newline, and a carriage return before it is dropped. -/
def State.feedText (st : State) (text : Text) : State :=
  ((text.splitOn '\n').map stripReturn).foldl feed st

def parse (text : Text) : Option (List Instruction) := (initial.feedText text).finish

theorem feedText_cons (line : Text) (bare : '\n' ∉ line) (st : State) (rest : Text) :
    st.feedText (line ++ '\n' :: rest) = (feed st (stripReturn line)).feedText rest := by
  simp [State.feedText, List.splitOn_append_cons_self_of_not_mem bare]

/-- A state between instructions, past the directives. -/
def between (escape : Char) (done : List Instruction) : State := ⟨.between, false, escape, done⟩

/-- The instruction on a line that is complete in itself. -/
def instruction? (line : Text) : Option Instruction :=
  if isComment line then none else
  match words line with
  | [] => none
  | keyword :: operands => some ⟨keyword.map Char.toUpper, operands, []⟩

/-- An instruction on this line neither continues on the next one nor announces a
here-document. -/
def Plain (escape : Char) (line : Text) : Prop :=
  ∀ i ∈ instruction? line, (trimEnd line).getLast? ≠ some escape ∧
    (takesHeredocs i.keyword = true → i.operands.filterMap heredoc? = [])

instance (escape : Char) : DecidablePred (Plain escape) := fun line =>
  inferInstanceAs (Decidable (∀ i ∈ instruction? line, _))

theorem feed_plain (plain : Plain escape line) : feed (between escape done) line =
    between escape (done ++ (instruction? line).toList) := by
  by_cases comment : isComment line = true
  · simp [feed, between, instruction?, comment]
  · cases split : words line with
    | nil => simp [feed, between, instruction?, isBlank, split]
    | cons keyword operands =>
      have found : instruction? line = some ⟨keyword.map Char.toUpper, operands, []⟩ := by
        simp [instruction?, comment, split]
      obtain ⟨complete, silent⟩ := plain _ found
      have announced : (if takesHeredocs (keyword.map Char.toUpper) then
          operands.filterMap heredoc? else []) = [] := by
        split
        · exact silent ‹_›
        · rfl
      simp [feed, between, comment, isBlank, split, State.extend, complete, State.instruction,
        announced, found]

/-- Such lines are read one by one. -/
theorem feed_plain_lines {lines : List Text} (plain : ∀ line ∈ lines, Plain escape line) :
    lines.foldl feed (between escape done) =
      between escape (done ++ lines.filterMap instruction?) := by
  induction lines generalizing done with
  | nil => simp
  | cons line lines ih =>
    rw [List.foldl_cons, feed_plain (plain line List.mem_cons_self),
      ih fun other member => plain other (List.mem_cons_of_mem _ member), List.append_assoc]
    cases found : instruction? line <;> simp [found]

/-- A comment on the first line that is no directive ends the search for directives. -/
theorem feed_first_comment (comment : isComment line = true) (plain : directive? line = none) :
    feed initial line = between '\\' [] := by
  simp [feed, initial, between, plain, comment]

set_option maxRecDepth 4000 in
example : parse "# escape=`\nFROM a AS `\r\n# skipped\n  b\nRUN <<-EOF\n\tFROM c\n\tEOF\n" =
    some [⟨"FROM", ["a", "AS", "b"], []⟩, ⟨"RUN", ["<<-EOF"], [["FROM c"]]⟩] := by decide

end Dockerfile
