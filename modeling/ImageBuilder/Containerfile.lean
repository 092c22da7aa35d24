import ImageBuilder.Library.Dockerfile

/-! The generated Containerfile: the reference given to `--from` is spliced into one
line, and the text reads back as the same instructions whatever the reference is. -/
namespace ImageBuilder.Containerfile

open Text Dockerfile

inductive ContainerfileError where
  | invalidImageReference (image : Text)
  deriving DecidableEq

/-- `Display`; `debug` is the escaped and quoted form of a string. -/
def ContainerfileError.message (debug : Text → Text) : ContainerfileError → Text
  | .invalidImageReference image => "invalid image reference " ++ debug image ++
      ": expected a nonempty reference without whitespace or control characters"

def parseImageReference (image : Text) : Except ContainerfileError Text :=
  if image.isEmpty ∨ image.any (fun c => isWhitespace c || isControl c) then
    .error (.invalidImageReference image)
  else .ok image

def finalStage (copyContainerfile : Bool) : Text :=
  let containerfileSection : Text :=
    if copyContainerfile then
      "COPY build-containerfile /tmp/build-containerfile\n" ++
      "RUN cp /tmp/build-containerfile \"$HOME/Containerfile\" && rm /tmp/build-containerfile\n\n"
    else ""
  "# Final base image\nFROM system AS final\n\n" ++ containerfileSection ++ "\n"

def generate (from_ : Text) (copyContainerfile : Bool) : Except ContainerfileError Text :=
  match parseImageReference from_ with
  | .error e => .error e
  | .ok image => .ok ("# System base\nFROM " ++ image ++ " AS system\n\nUSER 0\n\n" ++
      finalStage copyContainerfile)

/-- What a reference must be like. -/
def Accepted (image : Text) : Prop :=
  image ≠ [] ∧ ∀ c ∈ image, isWhitespace c = false ∧ isControl c = false

theorem rejected_iff : (image.isEmpty = true ∨
    image.any (fun c => isWhitespace c || isControl c) = true) ↔ ¬ Accepted image := by
  simp only [Accepted, List.isEmpty_iff, List.any_eq_true, Bool.or_eq_true, not_and_or, not_forall,
    not_not, Bool.not_eq_false]
  simp

theorem parseImageReference_ok : parseImageReference image = .ok parsed ↔
    Accepted image ∧ parsed = image := by
  unfold parseImageReference
  by_cases accepted : Accepted image
  · rw [if_neg (mt rejected_iff.mp (not_not.mpr accepted))]
    simp [accepted, eq_comm]
  · rw [if_pos (rejected_iff.mpr accepted)]
    simp [accepted]

/-- The line with the reference in it. -/
def systemLine (image : Text) : Text := "FROM " ++ image ++ " AS system"

/-- The fixed text after the line with the reference. -/
def remainder (copyContainerfile : Bool) : Text :=
  "\nUSER 0\n\n" ++ finalStage copyContainerfile

theorem systemLine_eq (image : Text) :
    systemLine image = ("FROM" : Text) ++ ' ' :: (image ++ ' ' :: ("AS system" : Text)) := by
  have tail : (" AS system" : Text) = ' ' :: "AS system" := rfl
  have head : ("FROM " : Text) = "FROM" ++ [' '] := rfl
  change ("FROM " : Text) ++ image ++ (" AS system" : Text) = _
  rw [head, tail, List.append_assoc, List.append_assoc]
  rfl

theorem generate_eq (image : Text) (copy : Bool) : generate image copy =
    match parseImageReference image with
    | .error e => .error e
    | .ok image => .ok (("# System base\nFROM " : Text) ++ image ++
        (" AS system\n\nUSER 0\n\n" : Text) ++ finalStage copy) := rfl

/-- The reference is spliced into one line of its own. -/
theorem spliced (image : Text) (copy : Bool) :
    ("# System base\nFROM " : Text) ++ image ++ (" AS system\n\nUSER 0\n\n" : Text) ++
      finalStage copy = "# System base" ++ '\n' :: (systemLine image ++ '\n' :: remainder copy) := by
  have head : ("# System base\nFROM " : Text) = "# System base" ++ '\n' :: "FROM " := rfl
  have tail : (" AS system\n\nUSER 0\n\n" : Text) = " AS system" ++ '\n' :: "\nUSER 0\n\n" := rfl
  change _ = ("# System base" : Text) ++ '\n' :: (("FROM " : Text) ++ image ++
    (" AS system" : Text) ++ '\n' :: (("\nUSER 0\n\n" : Text) ++ finalStage copy))
  simp only [head, tail, List.append_assoc, List.cons_append]

theorem generate_ok : generate image copy = .ok text ↔ Accepted image ∧
    text = "# System base" ++ '\n' :: (systemLine image ++ '\n' :: remainder copy) := by
  rw [generate_eq, ← spliced]
  cases parsed : parseImageReference image with
  | error e =>
    have rejected : ¬ Accepted image := by
      intro accepted
      rw [parseImageReference_ok.mpr ⟨accepted, rfl⟩] at parsed
      cases parsed
    simp only [reduceCtorEq, rejected, false_and]
  | ok same =>
    obtain ⟨accepted, rfl⟩ := parseImageReference_ok.mp parsed
    constructor
    · intro generated
      cases generated
      exact ⟨accepted, rfl⟩
    · rintro ⟨_, rfl⟩
      rfl

/-- The instructions that no reference changes. -/
def laterInstructions (copyContainerfile : Bool) : List Instruction :=
  [⟨"USER", ["0"], []⟩, ⟨"FROM", ["system", "AS", "final"], []⟩] ++
  if copyContainerfile then
    [⟨"COPY", ["build-containerfile", "/tmp/build-containerfile"], []⟩,
      ⟨"RUN", ["cp", "/tmp/build-containerfile", "\"$HOME/Containerfile\"", "&&", "rm",
        "/tmp/build-containerfile"], []⟩]
  else []

def instructions (image : Text) (copyContainerfile : Bool) : List Instruction :=
  ⟨"FROM", [image, "AS".toList, "system".toList], []⟩ :: laterInstructions copyContainerfile

/-- However the reference ends, it is one word of a complete line. -/
theorem words_systemLine (accepted : Accepted image) :
    words (systemLine image) = ["FROM".toList, image, "AS".toList, "system".toList] := by
  have rest : words "AS system" = ["AS".toList, "system".toList] := rfl
  rw [systemLine_eq, words_cons _ (solid_of_all (by decide)) (by decide) (by decide),
    words_cons _ (fun c member => (accepted.2 c member).1) accepted.1 (by decide), rest]

theorem systemLine_last (image : Text) : (systemLine image).getLast? = some 'm' := by
  have tail : (" AS system" : Text) = " AS syste" ++ ['m'] := rfl
  change (("FROM " : Text) ++ image ++ (" AS system" : Text)).getLast? = _
  rw [tail, ← List.append_assoc, List.getLast?_concat]

theorem systemLine_instruction (accepted : Accepted image) : instruction? (systemLine image) =
    some ⟨"FROM", [image, "AS".toList, "system".toList], []⟩ := by
  have visible : isComment (systemLine image) = false := by
    rw [systemLine_eq]
    rfl
  rw [instruction?, visible, words_systemLine accepted]
  rfl

theorem systemLine_plain (accepted : Accepted image) : Plain '\\' (systemLine image) := by
  intro i found
  rw [systemLine_instruction accepted] at found
  cases found
  have ends : trimEnd (systemLine image) = systemLine image := by
    apply trimEnd_of_last
    intro c last
    rw [systemLine_last] at last
    cases last
    rfl
  rw [ends, systemLine_last]
  have silent : takesHeredocs "FROM" = false := rfl
  exact ⟨by decide, fun heredocs => absurd (silent.symm.trans heredocs) nofun⟩

theorem newline_notin_systemLine (accepted : Accepted image) : '\n' ∉ systemLine image := by
  rw [systemLine_eq]
  simp only [List.mem_append, List.mem_cons, not_or]
  refine ⟨by decide, by decide, fun member => ?_, by decide, by decide⟩
  exact absurd (accepted.2 _ member).1 (by decide)

/-- The lines after the reference, none of which depends on it. -/
def remainingLines (copyContainerfile : Bool) : List Text :=
  ((remainder copyContainerfile).splitOn '\n').map stripReturn

set_option maxRecDepth 4000 in
theorem remainingLines_plain (copy : Bool) : ∀ line ∈ remainingLines copy, Plain '\\' line := by
  cases copy <;> decide

set_option maxRecDepth 4000 in
theorem remainingLines_instructions (copy : Bool) :
    (remainingLines copy).filterMap instruction? = laterInstructions copy := by
  cases copy <;> decide

theorem parse_generated (accepted : Accepted image) :
    parse ("# System base" ++ '\n' :: (systemLine image ++ '\n' :: remainder copy)) =
      some (instructions image copy) := by
  have first : feed initial (stripReturn "# System base") = between '\\' [] :=
    feed_first_comment (by decide) (by decide)
  have last : stripReturn (systemLine image) = systemLine image :=
    stripReturn_of_last (by simp [systemLine_last])
  rw [parse, feedText_cons _ (by decide), first, feedText_cons _ (newline_notin_systemLine accepted),
    last, feed_plain (systemLine_plain accepted), systemLine_instruction accepted]
  change ((remainingLines copy).foldl feed _).finish = _
  rw [feed_plain_lines (remainingLines_plain copy), remainingLines_instructions]
  rfl

/-- The generated text is accepted for exactly the plain references, and always reads
as the same instructions, up to the operand the reference is. -/
theorem generate_parses (s : Text) (copy : Bool) :
    ((∃ text, generate s copy = .ok text) ↔
      s ≠ [] ∧ ∀ c ∈ s, isWhitespace c = false ∧ isControl c = false) ∧
    (∀ text, generate s copy = .ok text → parse text = some (instructions s copy)) ∧
    ∀ other text otherText, generate s copy = .ok text → generate other copy = .ok otherText →
      ∃ rest, parse text = some (⟨"FROM", [s, "AS".toList, "system".toList], []⟩ :: rest) ∧
        parse otherText = some (⟨"FROM", [other, "AS".toList, "system".toList], []⟩ :: rest) := by
  have parses (image text) (generated : generate image copy = .ok text) :
      parse text = some (instructions image copy) := by
    obtain ⟨accepted, rfl⟩ := generate_ok.mp generated
    exact parse_generated accepted
  refine ⟨⟨?_, ?_⟩, parses s, ?_⟩
  · rintro ⟨text, generated⟩
    exact (generate_ok.mp generated).1
  · exact fun accepted => ⟨_, generate_ok.mpr ⟨accepted, rfl⟩⟩
  · intro other text otherText generated otherGenerated
    exact ⟨_, parses s text generated, parses other otherText otherGenerated⟩

theorem generate_parses_alpine : ∃ text, generate "alpine" true = .ok text ∧
    parse text = some (instructions "alpine" true) := by
  obtain ⟨⟨_, accepts⟩, parses, _⟩ := generate_parses "alpine" true
  obtain ⟨text, generated⟩ := accepts (parseImageReference_ok.mp rfl).1
  exact ⟨text, generated, parses text generated⟩

end ImageBuilder.Containerfile
