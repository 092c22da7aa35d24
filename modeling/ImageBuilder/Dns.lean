import ImageBuilder.Library.IpAddr
import ImageBuilder.Library.FirstDistinct

/-! Nameservers for the build VM: what the host's resolver configuration names, as
`scutil --dns` or `resolv.conf` words it, cut down to what the guest can use. -/
namespace ImageBuilder.Dns

open Text FirstDistinct

/-- `FALLBACK_NAMESERVER`. -/
def fallbackNameserver : IpAddr := .v4 1 1 1 1

/-- `MAX_NAMESERVERS`. -/
def maxNameservers : Nat := 3

def isReachableFromVm (addr : IpAddr) : Bool :=
  if addr.isLoopback || addr.isUnspecified || addr.isMulticast then false
  else match addr with
    | .v4 a b c d => !(a == 169 && b == 254) && !([a, b, c, d] == [255, 255, 255, 255])
    | .v6 s₀ _ _ _ _ _ _ _ => s₀ &&& 0xffc0 != 0xfe80

def join (ip : IpText) (addrs : List IpAddr) : Text := [' '].intercalate (addrs.map ip.display)

/-- How running `scutil --dns` ended. -/
inductive Scutil where
  | unavailable (error : Text)
  | failed (status : Text)
  | printed (stdout : Bytes)

/-- What the host offers. Only macOS has `scutil`. -/
structure Host where
  scutil : Option Scutil
  resolvConf : Except Text Text

def scutilOutput : Scutil → Option Text
  | .printed (.utf8 output) => some output
  | .printed (.binary _) | .unavailable _ | .failed _ => none

/-- The part of a line that is read as an address. -/
def scutilOperand (line : Text) : Option Text := do
  let rest ← stripPrefix? "nameserver[" (trimStart line)
  let (_, addr) ← splitOnce? " : " rest
  return trim addr

def parseScutil (ip : IpText) (output : Text) : List IpAddr :=
  (lines output).filterMap fun line => (scutilOperand line).bind ip.fromStr

def resolvConfOperand (line : Text) : Option Text :=
  let line := trim (line.takeWhile fun c => !(c == '#' || c == ';'))
  match stripPrefix? "nameserver" line with
  | none => none
  | some rest => if rest.head?.any isWhitespace then some (trim rest) else none

def parseResolvConf (ip : IpText) (text : Text) : List IpAddr :=
  (lines text).filterMap fun line => (resolvConfOperand line).bind ip.fromStr

def sanitize (addrs : List IpAddr) : List IpAddr :=
  collect isReachableFromVm maxNameservers [] addrs

def hostNameservers (ip : IpText) (host : Host) : List IpAddr :=
  let fromScutil := match host.scutil.bind scutilOutput with
    | some output => sanitize (parseScutil ip output)
    | none => []
  if !fromScutil.isEmpty then fromScutil
  else match host.resolvConf with
    | .ok text => sanitize (parseResolvConf ip text)
    | .error _ => []

def defaultNameservers (ip : IpText) (host : Host) : List IpAddr :=
  let discovered := hostNameservers ip host
  if discovered.isEmpty then [fallbackNameserver] else discovered

/-- The usable addresses of a source, each once, in the order it names them. -/
def usable (addrs : List IpAddr) : List IpAddr := (addrs.filter isReachableFromVm).eraseDups

theorem sanitize_eq (addrs : List IpAddr) : sanitize addrs = (usable addrs).take maxNameservers :=
  collect_eq isReachableFromVm List.nodup_nil (by decide) addrs

/-- What the guest can be given. -/
structure Suitable (addrs : List IpAddr) : Prop where
  nonempty : addrs ≠ []
  few : addrs.length ≤ maxNameservers
  distinct : addrs.Nodup
  reachable : ∀ addr ∈ addrs, isReachableFromVm addr = true

theorem sanitize_suitable (found : usable addrs ≠ []) : Suitable (sanitize addrs) where
  nonempty := by
    rw [sanitize_eq]
    intro bare
    rcases List.take_eq_nil_iff.mp bare with zero | bare
    · cases zero
    · exact found bare
  few := by
    rw [sanitize_eq]
    exact firstDistinct_length_le _ _
  distinct := by
    rw [sanitize_eq]
    exact firstDistinct_nodup _ _
  reachable addr member := by
    rw [sanitize_eq] at member
    exact (List.mem_filter.mp (mem_of_mem_firstDistinct member)).2

theorem sanitize_eq_nil : sanitize addrs = [] ↔ usable addrs = [] := by
  rw [sanitize_eq, List.take_eq_nil_iff]
  simp [maxNameservers]

theorem fallback_suitable : Suitable [fallbackNameserver] where
  nonempty := by simp
  few := by decide
  distinct := by simp
  reachable := by decide

/-- The addresses each source names, best source first. -/
def sources (ip : IpText) (host : Host) : List (List IpAddr) :=
  (host.scutil.bind scutilOutput).toList.map (parseScutil ip) ++
    host.resolvConf.toOption.toList.map (parseResolvConf ip)

/-- The best source that names a usable address, if there is one. -/
def firstUsable (sources : List (List IpAddr)) : List IpAddr :=
  match sources.find? fun addrs => usable addrs ≠ [] with
  | some addrs => (usable addrs).take maxNameservers
  | none => []

theorem firstUsable_cons (addrs : List IpAddr) (rest : List (List IpAddr)) :
    firstUsable (addrs :: rest) =
      if sanitize addrs = [] then firstUsable rest else sanitize addrs := by
  by_cases found : usable addrs = []
  · simp [firstUsable, sanitize_eq_nil, found]
  · simp [firstUsable, sanitize_eq, found, maxNameservers]

theorem hostNameservers_eq (ip : IpText) (host : Host) :
    hostNameservers ip host = firstUsable (sources ip host) := by
  have resolv : firstUsable (host.resolvConf.toOption.toList.map (parseResolvConf ip)) =
      match host.resolvConf with
      | .ok text => sanitize (parseResolvConf ip text)
      | .error _ => [] := by
    cases host.resolvConf with
    | error e => rfl
    | ok text =>
      simp only [Except.toOption, Option.toList_some, List.map_cons, List.map_nil, firstUsable_cons]
      split
      · rename_i bare
        rw [bare]
        rfl
      · rfl
  unfold hostNameservers sources
  cases output : host.scutil.bind scutilOutput with
  | none => simpa using resolv.symm
  | some output =>
    rw [Option.toList_some, List.map_cons, List.map_nil, List.singleton_append, firstUsable_cons,
      resolv]
    rename_i text
    by_cases bare : sanitize (parseScutil ip text) = [] <;> simp [bare]

theorem firstUsable_suitable (found : firstUsable lists ≠ []) : Suitable (firstUsable lists) := by
  induction lists with
  | nil => exact absurd rfl found
  | cons addrs rest ih =>
    rw [firstUsable_cons] at found ⊢
    split at found
    · rename_i bare
      rw [if_pos bare]
      exact ih found
    · rename_i full
      rw [if_neg full]
      exact sanitize_suitable (mt sanitize_eq_nil.mpr full)

/-- The guest is never left without a nameserver. -/
theorem defaultNameservers_suitable (ip : IpText) (host : Host) :
    Suitable (defaultNameservers ip host) := by
  unfold defaultNameservers
  rw [hostNameservers_eq]
  by_cases bare : firstUsable (sources ip host) = []
  · simpa [bare] using fallback_suitable
  · simpa [bare] using firstUsable_suitable bare

/-- What one line adds to the addresses, given the form of the lines that name one. -/
inductive Adds (form : Text → Text → Prop) (ip : IpText) (line : Text) : List IpAddr → Prop where
  | address : form line operand → ip.fromStr operand = some addr → Adds form ip line [addr]
  | nothing : (∀ operand, form line operand → ip.fromStr operand = none) → Adds form ip line []

/-- The addresses that a text names, line by line. -/
inductive Lists (form : Text → Text → Prop) (ip : IpText) : Text → List IpAddr → Prop where
  | nil : Lists form ip [] []
  | last : '\n' ∉ line → line ≠ [] → Adds form ip line addrs → Lists form ip line addrs
  | line : '\n' ∉ line → Adds form ip (stripReturn line) first → Lists form ip rest later →
      Lists form ip (line ++ '\n' :: rest) (first ++ later)

/-- A `nameserver` line of `scutil --dns`: the keyword with its index, the first ` : ` behind
it and the operand, which may be empty, with white space around. -/
inductive ScutilLine : Text → Text → Prop where
  | named : (∀ c ∈ lead, isWhitespace c = true) →
      (∀ earlier later, index ++ " : ".toList ++ rest = earlier ++ " : ".toList ++ later →
        index.length ≤ earlier.length) →
      Text.Padded operand rest → Trimmed operand →
      ScutilLine (lead ++ ("nameserver[".toList ++ (index ++ " : ".toList ++ rest))) operand

/-- A `nameserver` line of `resolv.conf`: the keyword, white space and an operand, with white
space around and perhaps a comment behind. -/
inductive ResolvConfLine : Text → Text → Prop where
  | named : gap ≠ [] → (∀ c ∈ gap, isWhitespace c = true) →
      operand ≠ [] → Trimmed operand → (∀ c ∈ operand, c ≠ '#' ∧ c ≠ ';') →
      Text.Padded ("nameserver".toList ++ (gap ++ operand)) body →
      (∀ c, comment.head? = some c → c = '#' ∨ c = ';') →
      ResolvConfLine (body ++ comment) operand

theorem scutilOperand_iff : scutilOperand line = some operand ↔ ScutilLine line operand := by
  constructor
  · intro found
    obtain ⟨rest, stripped, found⟩ := Option.bind_eq_some_iff.mp found
    obtain ⟨⟨index, addr⟩, split, found⟩ := Option.bind_eq_some_iff.mp found
    obtain rfl : trim addr = operand := Option.some.inj found
    obtain ⟨lead, shown, blank⟩ := trimStart_shown line
    obtain ⟨rfl, first⟩ := splitOnce?_eq_some.mp split
    rw [shown, stripPrefix?_eq_some.mp stripped]
    exact .named blank first (trim_padded addr) (trimmed_trim addr)
  · rintro ⟨blank, first, padded, trimmed⟩
    rename_i lead index rest
    have visible : trimStart (lead ++ ("nameserver[".toList ++ (index ++ " : ".toList ++ rest))) =
        "nameserver[".toList ++ (index ++ " : ".toList ++ rest) := by
      rw [trimStart, List.dropWhile_append_of_pos blank]
      exact trimStart_of_head (by rintro _ ⟨⟩; rfl)
    have split := splitOnce?_eq_some.mpr ⟨rfl, first⟩
    change (stripPrefix? _ _).bind _ = some operand
    rw [visible, stripPrefix?_eq_some.mpr rfl, Option.bind_some]
    change (splitOnce? _ _).bind _ = some operand
    rw [split]
    exact congrArg some (trim_eq_iff.mpr ⟨padded, trimmed⟩)

/-- Behind white space a text without any at its end goes on with its trim. -/
theorem trim_behind_space {rest : Text} (spaced : rest.head?.any isWhitespace = true)
    (ended : ∀ c, rest.getLast? = some c → isWhitespace c = false) :
    ∃ gap, rest = gap ++ trim rest ∧ gap ≠ [] ∧ (∀ c ∈ gap, isWhitespace c = true) ∧
      trim rest ≠ [] := by
  obtain ⟨gap, shown, blank⟩ := trimStart_shown rest
  have trimmed : Trimmed (trimStart rest) := by
    refine ⟨fun c => head?_trimStart, fun c last => ended c ?_⟩
    rw [shown, List.getLast?_append, last, Option.some_or]
  have same : trim rest = trimStart rest :=
    trim_eq_iff.mpr ⟨⟨gap, [], by rw [List.append_nil]; exact shown, blank, by simp⟩, trimmed⟩
  rw [same]
  obtain ⟨space, more, rfl⟩ : ∃ space more, rest = space :: more := by
    cases rest with
    | nil => cases spaced
    | cons space more => exact ⟨space, more, rfl⟩
  refine ⟨gap, shown, ?_, blank, ?_⟩
  · rintro rfl
    have first : (trimStart (space :: more)).head? = some space := by
      rw [← List.nil_append (trimStart _), ← shown]
      rfl
    have visible := head?_trimStart first
    rw [show isWhitespace space = true from spaced] at visible
    cases visible
  · intro bare
    rw [bare, List.append_nil] at shown
    have visible := ended _ (List.getLast?_eq_some_getLast (List.cons_ne_nil space more))
    rw [blank _ (shown ▸ List.getLast_mem _)] at visible
    cases visible

theorem ResolvConfLine.of_read (found : resolvConfOperand line = some operand) :
    ResolvConfLine line operand := by
  simp only [resolvConfOperand] at found
  split at found
  · cases found
  · rename_i rest stripped
    split at found
    · rename_i spaced
      obtain rfl : trim rest = operand := Option.some.inj found
      have shown := stripPrefix?_eq_some.mp stripped
      have padded := trim_padded (line.takeWhile fun c => !(c == '#' || c == ';'))
      have trimmed := trimmed_trim (line.takeWhile fun c => !(c == '#' || c == ';'))
      have clean : ∀ c ∈ line.takeWhile fun c => !(c == '#' || c == ';'), c ≠ '#' ∧ c ≠ ';' :=
        fun c member => by simpa using List.mem_takeWhile_imp member
      have comment := List.head?_dropWhile_not (fun c => !(c == '#' || c == ';')) line
      rw [shown] at padded trimmed
      obtain ⟨gap, cut, wide, blank, full⟩ := trim_behind_space spaced
        fun c last => trimmed.last c (by rw [List.getLast?_append, last, Option.some_or])
      rw [cut] at padded
      rw [← List.takeWhile_append_dropWhile (p := fun c => !(c == '#' || c == ';')) (l := line)]
      refine .named wide blank full (trimmed_trim rest) (fun c member => clean c ?_) padded ?_
      · obtain ⟨lead, trail, body, _⟩ := padded
        rw [body]
        simp [member]
      · intro c first
        rw [first] at comment
        simpa [or_iff_not_imp_left] using comment
    · cases found

/-- No comment starts before the one that ends a `nameserver` line. -/
theorem body_unmarked (blank : ∀ c ∈ gap, isWhitespace c = true)
    (clean : ∀ c ∈ operand, c ≠ '#' ∧ c ≠ ';')
    (padded : Text.Padded ("nameserver".toList ++ (gap ++ operand)) body) :
    ∀ c ∈ body, c ≠ '#' ∧ c ≠ ';' := by
  have spaces {text : Text} (spaces : ∀ c ∈ text, isWhitespace c = true) :
      ∀ c ∈ text, c ≠ '#' ∧ c ≠ ';' := by
    intro c member
    have space := spaces c member
    constructor <;> rintro rfl <;> cases space
  obtain ⟨lead, trail, rfl, before, after⟩ := padded
  have keyword : ∀ c ∈ "nameserver".toList, c ≠ '#' ∧ c ≠ ';' := by simp
  intro c member
  simp only [List.mem_append] at member
  rcases member with (member | member | member | member) | member
  · exact spaces before c member
  · exact keyword c member
  · exact spaces blank c member
  · exact clean c member
  · exact spaces after c member

theorem ResolvConfLine.read (named : ResolvConfLine line operand) :
    resolvConfOperand line = some operand := by
  obtain ⟨wide, blank, full, trimmed, clean, padded, marked⟩ := named
  rename_i gap body comment
  have unmarked : ∀ c ∈ body, (!(c == '#' || c == ';')) = true :=
    fun c member => by simpa using body_unmarked blank clean padded c member
  have cut : (body ++ comment).takeWhile (fun c => !(c == '#' || c == ';')) = body := by
    rw [List.takeWhile_append_of_pos unmarked]
    cases comment with
    | nil => simp
    | cons c rest => simpa [or_iff_not_imp_left] using marked c rfl
  have visible : trim body = "nameserver".toList ++ (gap ++ operand) := by
    refine trim_eq_iff.mpr ⟨padded, ⟨by rintro _ ⟨⟩; rfl, fun c last => trimmed.last c ?_⟩⟩
    rwa [List.getLast?_append, List.getLast?_append, List.getLast?_eq_some_getLast full,
      Option.some_or, Option.some_or, ← List.getLast?_eq_some_getLast full] at last
  have ended : trim (gap ++ operand) = operand :=
    trim_eq_iff.mpr ⟨⟨gap, [], by simp, blank, by simp⟩, trimmed⟩
  have spaced : (gap ++ operand).head?.any isWhitespace = true := by
    cases gap with
    | nil => exact absurd rfl wide
    | cons c rest => exact blank c List.mem_cons_self
  simp only [resolvConfOperand]
  rw [cut, visible, stripPrefix?_eq_some.mpr rfl]
  dsimp only
  rw [if_pos spaced, ended]

theorem resolvConfOperand_iff :
    resolvConfOperand line = some operand ↔ ResolvConfLine line operand :=
  ⟨.of_read, fun named => named.read⟩

/-- A line whose first visible character starts a comment. -/
def isComment (line : Text) : Bool :=
  (trimStart line).head? == some '#' || (trimStart line).head? == some ';'

theorem ScutilLine.visible (named : ScutilLine line operand) :
    ∃ rest, trimStart line = "nameserver[".toList ++ rest := by
  cases named with
  | @named lead index rest _ blank =>
    refine ⟨index ++ " : ".toList ++ rest, ?_⟩
    rw [trimStart, List.dropWhile_append_of_pos blank]
    exact trimStart_of_head (by rintro _ ⟨⟩; rfl)

theorem ResolvConfLine.visible (named : ResolvConfLine line operand) :
    ∃ c rest, isWhitespace c = true ∧ trimStart line = "nameserver".toList ++ c :: rest := by
  cases named with
  | @named gap _ body comment wide blank _ _ _ padded =>
    obtain ⟨lead, trail, rfl, before, _⟩ := padded
    obtain ⟨c, more, rfl⟩ := List.exists_cons_of_ne_nil wide
    refine ⟨c, more ++ (operand ++ (trail ++ comment)), blank c List.mem_cons_self, ?_⟩
    simp only [List.append_assoc, List.cons_append]
    rw [trimStart, List.dropWhile_append_of_pos before]
    exact trimStart_of_head (by rintro _ ⟨⟩; rfl)

/-- A way of naming nameservers line by line: how a line is read, the form of the lines that
name an operand, and which lines are about nameservers at all. -/
structure Format where
  operand : Text → Option Text
  form : Text → Text → Prop
  names : Text → Bool
  operand_iff : operand line = some text ↔ form line text
  other : form line text → names line = true
  comment : form line text → isComment line = false

def Format.parse (format : Format) (ip : IpText) (text : Text) : List IpAddr :=
  (lines text).filterMap fun line => (format.operand line).bind ip.fromStr

/-- `scutil --dns` output. -/
def Format.scutil : Format where
  operand := scutilOperand
  form := ScutilLine
  names line := "nameserver[".toList.isPrefixOf (trimStart line)
  operand_iff := scutilOperand_iff
  other named := by
    obtain ⟨rest, visible⟩ := named.visible
    rw [visible]
    exact List.isPrefixOf_iff_prefix.mpr (List.prefix_append _ _)
  comment named := by
    obtain ⟨rest, visible⟩ := named.visible
    rw [isComment, visible]
    rfl

/-- `resolv.conf`. -/
def Format.resolvConf : Format where
  operand := resolvConfOperand
  form := ResolvConfLine
  names line := (words line).head? == some "nameserver".toList
  operand_iff := resolvConfOperand_iff
  other named := by
    obtain ⟨c, rest, space, visible⟩ := named.visible
    rw [← words_trimStart, visible, words_cons _ (solid_of_all (by decide)) (by decide) space]
    simp
  comment named := by
    obtain ⟨c, rest, space, visible⟩ := named.visible
    rw [isComment, visible]
    rfl

theorem Format.adds_iff (format : Format) :
    Adds format.form ip line addrs ↔ addrs = ((format.operand line).bind ip.fromStr).toList := by
  constructor
  · intro adds
    cases adds with
    | address named read => rw [format.operand_iff.mpr named, Option.bind_some, read]; rfl
    | nothing unread =>
      cases found : format.operand line with
      | none => rfl
      | some operand => rw [Option.bind_some, unread operand (format.operand_iff.mp found)]; rfl
  · rintro rfl
    cases found : format.operand line with
    | none =>
      refine .nothing fun operand named => ?_
      rw [format.operand_iff.mpr named] at found
      cases found
    | some operand =>
      have named := format.operand_iff.mp found
      rw [Option.bind_some]
      cases read : ip.fromStr operand with
      | some addr => exact .address named read
      | none =>
        refine .nothing fun other also => ?_
        rw [format.operand_iff.mpr also] at found
        cases found
        exact read

theorem Format.parse_cons (format : Format) (ip : IpText) (bare : '\n' ∉ line) (rest : Text) :
    format.parse ip (line ++ '\n' :: rest) =
      ((format.operand (stripReturn line)).bind ip.fromStr).toList ++ format.parse ip rest := by
  simp only [Format.parse, lines_cons line bare, List.filterMap_cons]
  cases (format.operand (stripReturn line)).bind ip.fromStr <;> rfl

theorem Format.parse_last (format : Format) (ip : IpText) (bare : '\n' ∉ line) (full : line ≠ []) :
    format.parse ip line = ((format.operand line).bind ip.fromStr).toList := by
  simp only [Format.parse, lines_last bare full, List.filterMap_cons, List.filterMap_nil]
  cases (format.operand line).bind ip.fromStr <;> rfl

theorem Format.lists_parse (format : Format) (ip : IpText) (text : Text) :
    Lists format.form ip text (format.parse ip text) := by
  induction h : text.length using Nat.strongRecOn generalizing text with
  | ind n ih =>
    by_cases member : '\n' ∈ text
    · obtain ⟨line, rest, rfl, bare⟩ := List.eq_append_cons_of_mem member
      rw [format.parse_cons ip bare]
      exact .line bare (format.adds_iff.mpr rfl) (ih rest.length (by simp [← h]; omega) rest rfl)
    · by_cases full : text = []
      · subst full
        exact .nil
      · rw [format.parse_last ip member full]
        exact .last member full (format.adds_iff.mpr rfl)

/-- The addresses that the lines name are those that are read. -/
theorem Format.lists_iff (format : Format) :
    Lists format.form ip text addrs ↔ addrs = format.parse ip text := by
  constructor
  · intro listed
    induction listed with
    | nil => rfl
    | last bare full adds => rw [format.adds_iff.mp adds, format.parse_last ip bare full]
    | line bare adds _ ih => rw [format.adds_iff.mp adds, ih, format.parse_cons ip bare]
  · rintro rfl
    exact format.lists_parse ip text

/-- A line that adds nothing to the addresses named before it. -/
inductive Harmless (format : Format) (ip : IpText) (earlier : List IpAddr) (line : Text) : Prop where
  | comment : isComment line = true → Harmless format ip earlier line
  | directive : format.names line = false → Harmless format ip earlier line
  | bare : (∀ operand, ¬ format.form line operand) → Harmless format ip earlier line
  | unparsable : format.form line operand → ip.fromStr operand = none →
      Harmless format ip earlier line
  | unreachable : format.form line operand → ip.fromStr operand = some addr →
      isReachableFromVm addr = false → Harmless format ip earlier line
  | repeated : format.form line operand → ip.fromStr operand = some addr →
      addr ∈ earlier → Harmless format ip earlier line

/-- Changes to a source's text that do not matter. -/
inductive Padded (format : Format) (ip : IpText) : Text → Text → Prop where
  | inserted : LineEnd before → Lists format.form ip before earlier → '\n' ∉ line →
      Harmless format ip earlier (stripReturn line) →
      Padded format ip (before ++ after) (before ++ line ++ '\n' :: after)
  | beyond : LineEnd before → Lists format.form ip before earlier →
      maxNameservers ≤ (usable earlier).length → Padded format ip (before ++ after) (before ++ other)
  | ended : LineEnd before → '\n' ∉ line → line ≠ [] → line.getLast? ≠ some '\r' →
      Padded format ip (before ++ line) (before ++ line ++ ['\n'])

theorem parse_append (format : Format) (ip : IpText) (ends : LineEnd before) (after : Text) :
    format.parse ip (before ++ after) = format.parse ip before ++ format.parse ip after := by
  simp [Format.parse, lines_append ends]

theorem sanitize_beyond (full : maxNameservers ≤ (usable earlier).length) (later : List IpAddr) :
    sanitize (earlier ++ later) = sanitize earlier := by
  simp only [sanitize_eq, usable, List.filter_append]
  exact firstDistinct_full full _

theorem sanitize_harmless (harmless : Harmless format ip earlier line) (later : List IpAddr) :
    sanitize (earlier ++ (((format.operand line).bind ip.fromStr).toList ++ later)) =
      sanitize (earlier ++ later) := by
  have unnamed (bare : ∀ operand, ¬ format.form line operand) : format.operand line = none :=
    Option.eq_none_iff_forall_ne_some.mpr fun operand found => bare operand (format.operand_iff.mp found)
  cases harmless with
  | comment comment => simp [unnamed fun operand named => by simp [format.comment named] at comment]
  | directive other => simp [unnamed fun operand named => by simp [format.other named] at other]
  | bare bare => simp [unnamed bare]
  | unparsable named unread => simp [format.operand_iff.mpr named, unread]
  | unreachable named read outside =>
    simp [format.operand_iff.mpr named, read, sanitize_eq, usable, outside]
  | @repeated operand addr named read seen =>
    have operand := format.operand_iff.mpr named
    by_cases reachable : isReachableFromVm addr = true
    · have seen : addr ∈ earlier.filter isReachableFromVm := List.mem_filter.mpr ⟨seen, reachable⟩
      have same := firstDistinct_repeat seen maxNameservers (later.filter isReachableFromVm)
      simpa [operand, read, sanitize_eq, usable, reachable, firstDistinct] using same
    · simp [operand, read, sanitize_eq, usable, reachable]

theorem sanitize_padded (padded : Padded format ip text longer) :
    sanitize (format.parse ip longer) = sanitize (format.parse ip text) := by
  cases padded with
  | @inserted before earlier line after ends listed bare harmless =>
    obtain rfl := format.lists_iff.mp listed
    rw [List.append_assoc, parse_append format ip ends, parse_append format ip ends,
      format.parse_cons ip bare]
    exact sanitize_harmless harmless _
  | beyond ends listed full =>
    obtain rfl := format.lists_iff.mp listed
    rw [parse_append format ip ends, parse_append format ip ends, sanitize_beyond full,
      sanitize_beyond full]
  | ended ends bare full plain =>
    rw [List.append_assoc, parse_append format ip ends, parse_append format ip ends,
      format.parse_cons ip bare, format.parse_last ip bare full, stripReturn_of_last plain]
    simp [Format.parse]

theorem defaultNameservers_congr (same : firstUsable (sources ip host) = firstUsable (sources ip other)) :
    defaultNameservers ip host = defaultNameservers ip other := by
  simp only [defaultNameservers, hostNameservers_eq, same]

theorem defaultNameservers_eq (ip : IpText) (host : Host) : defaultNameservers ip host =
    match (sources ip host).find? fun addrs => usable addrs ≠ [] with
    | some addrs => (usable addrs).take maxNameservers
    | none => [fallbackNameserver] := by
  simp only [defaultNameservers, hostNameservers_eq, firstUsable]
  cases found : (sources ip host).find? fun addrs => usable addrs ≠ [] with
  | none => simp
  | some addrs =>
    have full : usable addrs ≠ [] := by simpa using List.find?_some found
    simp [full, maxNameservers]

/-- The texts that a host offers, best first, each with the form of its lines. -/
def Host.texts (host : Host) : List ((Text → Text → Prop) × Text) :=
  (match host.scutil with
    | some (.printed (.utf8 output)) => [(ScutilLine, output)]
    | _ => []) ++
  match host.resolvConf with
  | .ok text => [(ResolvConfLine, text)]
  | .error _ => []

/-- What the lines of each text name. -/
def Offers (ip : IpText) (host : Host) (lists : List (List IpAddr)) : Prop :=
  List.Forall₂ (fun source addrs => Lists source.1 ip source.2 addrs) host.texts lists

theorem offers_iff : Offers ip host lists ↔ lists = sources ip host := by
  have scutil (output : Text) (addrs : List IpAddr) :
      Lists ScutilLine ip output addrs ↔ addrs = parseScutil ip output := Format.scutil.lists_iff
  have resolvConf (text : Text) (addrs : List IpAddr) :
      Lists ResolvConfLine ip text addrs ↔ addrs = parseResolvConf ip text :=
    Format.resolvConf.lists_iff
  obtain ⟨found, read⟩ := host
  rcases found with _ | error | status | output | bytes <;> cases read <;>
    simp [Offers, Host.texts, sources, scutilOutput, Except.toOption, List.forall₂_cons_left_iff,
      scutil, resolvConf]

/-- Discovery yields the first distinct usable addresses of the first source that has one, or
the fallback, where a source has what its lines name, and nothing else in either text changes
the result. -/
theorem default_nameservers_exact (ip : IpText) (host : Host) :
    Suitable (defaultNameservers ip host) ∧
    (∀ lists, Offers ip host lists ↔ lists = sources ip host) ∧
    (defaultNameservers ip host =
      match (sources ip host).find? fun addrs => usable addrs ≠ [] with
      | some addrs => (usable addrs).take maxNameservers
      | none => [fallbackNameserver]) ∧
    (∀ text longer, host.scutil = some (.printed (.utf8 text)) → Padded .scutil ip text longer →
      defaultNameservers ip { host with scutil := some (.printed (.utf8 longer)) } =
        defaultNameservers ip host) ∧
    ∀ text longer, host.resolvConf = .ok text → Padded .resolvConf ip text longer →
      defaultNameservers ip { host with resolvConf := .ok longer } = defaultNameservers ip host := by
  refine ⟨defaultNameservers_suitable ip host, fun _ => offers_iff, defaultNameservers_eq ip host,
    ?_, ?_⟩
  · intro text longer printed padded
    have same : sanitize (parseScutil ip longer) = sanitize (parseScutil ip text) :=
      sanitize_padded padded
    apply defaultNameservers_congr
    simp only [sources, printed, Option.bind_some, scutilOutput, Option.toList_some, List.map_cons,
      List.map_nil, List.singleton_append, firstUsable_cons, same]
  · intro text longer read padded
    have same : sanitize (parseResolvConf ip longer) = sanitize (parseResolvConf ip text) :=
      sanitize_padded padded
    have tail : firstUsable [parseResolvConf ip longer] = firstUsable [parseResolvConf ip text] := by
      rw [firstUsable_cons, firstUsable_cons, same]
    apply defaultNameservers_congr
    cases output : host.scutil.bind scutilOutput with
    | none => simpa [sources, read, output, Except.toOption] using tail
    | some printed =>
      simp [sources, read, output, Except.toOption, firstUsable_cons (parseScutil ip printed), tail]

theorem default_nameservers_exact_comment :
    defaultNameservers IpText.plain ⟨none, .ok "# local\nnameserver 192.168.1.254\n"⟩ =
      [.v4 192 168 1 254] := by
  have named : ResolvConfLine "nameserver 192.168.1.254" "192.168.1.254" :=
    resolvConfOperand_iff.mp (by decide)
  have listed : Lists ResolvConfLine IpText.plain
      ("nameserver 192.168.1.254".toList ++ '\n' :: []) ([.v4 192 168 1 254] ++ []) :=
    .line (by decide) (.address named (by decide)) .nil
  have padded : Padded .resolvConf IpText.plain (([] : Text) ++ "nameserver 192.168.1.254\n".toList)
      (([] : Text) ++ "# local".toList ++ '\n' :: "nameserver 192.168.1.254\n".toList) :=
    .inserted (.inl rfl) .nil (by decide) (.comment rfl)
  have text : "# local\nnameserver 192.168.1.254\n".toList =
      ([] : Text) ++ "# local".toList ++ '\n' :: "nameserver 192.168.1.254\n".toList := rfl
  have exact_ := default_nameservers_exact IpText.plain ⟨none, .ok "nameserver 192.168.1.254\n"⟩
  have offered := (exact_.2.1 [[.v4 192 168 1 254]]).mp (.cons listed .nil)
  rw [text, exact_.2.2.2.2 _ _ rfl padded, exact_.2.2.1, ← offered]
  decide

end ImageBuilder.Dns
