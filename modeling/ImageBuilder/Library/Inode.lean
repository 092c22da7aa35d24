import ImageBuilder.Library.FiniteMap
import Mathlib.Order.Lattice.Nat

/-! Names that lead to inodes, as a POSIX file system resolves them: directories,
regular files, and symbolic links that are followed a bounded number of times. -/
namespace Inode

inductive Step (N : Type) where
  | here
  | up
  | name (name : N)
  deriving DecidableEq

/-- A path, taken apart; the empty path has no steps. -/
structure Route (N : Type) where
  absolute : Bool
  steps : List (Step N)
  deriving DecidableEq

inductive Node (N : Type) where
  | file (mode : Nat) (contents : List UInt8)
  | dir (entries : FiniteMap N Nat)
  | link (target : Route N)
  deriving DecidableEq

inductive Errno where
  | noent
  | exist
  | notdir
  | isdir
  | loop
  | other (message : List Char)
  deriving DecidableEq

/-- The names from the root to a directory or a file, and what each leads to, the last
of them first. -/
abbrev Position (N : Type) := List (N × Nat)

structure FileSystem (N : Type) where
  nodes : FiniteMap Nat (Node N)
  root : Nat
  cwd : List N
  /-- How many links a walk may follow. -/
  hops : Nat

/-- How far steps lead without following a link. -/
inductive Leg (N : Type) where
  | arrived (pos : Position N)
  | linked (pos : Position N) (target : Route N) (rest : List (Step N))

def Leg.pos {N : Type} : Leg N → Position N
  | .arrived pos | .linked pos _ _ => pos

namespace FileSystem

variable {N : Type} [DecidableEq N] (fs : FileSystem N)

def inode : Position N → Nat
  | [] => fs.root
  | (_, ino) :: _ => ino

def scan : Position N → List (Step N) → Except Errno (Leg N)
  | pos, [] => .ok (.arrived pos)
  | pos, step :: rest =>
    match fs.nodes.lookup (fs.inode pos) with
    | some (.dir entries) =>
      match step with
      | .here => scan pos rest
      | .up => scan pos.tail rest
      | .name n =>
        match entries.lookup n with
        | none => .error .noent
        | some ino =>
          match fs.nodes.lookup ino with
          | none => .error .noent
          | some (.link target) => .ok (.linked pos target rest)
          | some _ => scan ((n, ino) :: pos) rest
    | some _ => .error .notdir
    | none => .error .noent

def walk : Nat → Position N → List (Step N) → Except Errno (Position N)
  | hops, pos, steps =>
    match fs.scan pos steps with
    | .error e => .error e
    | .ok (.arrived pos) => .ok pos
    | .ok (.linked pos target rest) =>
      match hops with
      | 0 => .error .loop
      | hops + 1 =>
        if target.steps = [] then .error .noent
        else walk hops (if target.absolute then [] else pos) (target.steps ++ rest)

/-- The current directory. -/
def home : Except Errno (Position N) := fs.walk 0 [] (fs.cwd.map .name)

/-- Where a walk begins. -/
def origin (route : Route N) : Except Errno (Position N) :=
  if route.absolute then .ok [] else fs.home

def follow (route : Route N) : Except Errno (Position N) :=
  match fs.origin route with
  | .error e => .error e
  | .ok start => fs.walk fs.hops start route.steps

def resolve (route : Route N) : Except Errno (Position N) :=
  if route.steps = [] then .error .noent else fs.follow route

/-- What a path leads to, links followed. -/
def stat (route : Route N) : Except Errno (Node N) :=
  match fs.resolve route with
  | .error e => .error e
  | .ok pos =>
    match fs.nodes.lookup (fs.inode pos) with
    | none => .error .noent
    | some node => .ok node

def directory (route : Route N) : Except Errno (Position N × FiniteMap N Nat) :=
  match fs.follow route with
  | .error e => .error e
  | .ok pos =>
    match fs.nodes.lookup (fs.inode pos) with
    | some (.dir entries) => .ok (pos, entries)
    | some _ => .error .notdir
    | none => .error .noent

/-- The directory entry a path names, which need not exist. A path that ends in `.` or
`..` names none. -/
def entry (route : Route N) : Except Errno (Option (Position N × FiniteMap N Nat × N)) :=
  match route.steps.getLast? with
  | some (.name n) =>
    match fs.directory { route with steps := route.steps.dropLast } with
    | .error e => .error e
    | .ok (pos, entries) => .ok (some (pos, entries, n))
  | _ =>
    match fs.resolve route with
    | .error e => .error e
    | .ok _ => .ok none

/-- The canonical form of a path: the names from the root. -/
def realpath (route : Route N) : Except Errno (List N) :=
  match fs.resolve route with
  | .error e => .error e
  | .ok pos => .ok (pos.map Prod.fst).reverse

/-- An inode nothing uses. -/
def fresh : Nat := fs.nodes.keys.sup id + 1

def put (ino : Nat) (node : Node N) : FileSystem N := { fs with nodes := fs.nodes.insert ino node }

/-- A new node, and its entry in a directory. -/
def add (pos : Position N) (entries : FiniteMap N Nat) (n : N) (node : Node N) : FileSystem N :=
  (fs.put (fs.inode pos) (.dir (entries.insert n fs.fresh))).put fs.fresh node

def mkdir (route : Route N) : Except Errno (FileSystem N) :=
  match fs.entry route with
  | .error e => .error e
  | .ok none => .error .exist
  | .ok (some (pos, entries, n)) =>
    match entries.lookup n with
    | some _ => .error .exist
    | none => .ok (fs.add pos entries n (.dir ∅))

/-- `open` for writing with `O_CREAT`, `O_TRUNC` and `O_NOFOLLOW`. -/
def openTruncate (mode : Nat) (route : Route N) : Except Errno (Nat × FileSystem N) :=
  match fs.entry route with
  | .error e => .error e
  | .ok none => .error .isdir
  | .ok (some (pos, entries, n)) =>
    match entries.lookup n with
    | none => .ok (fs.fresh, fs.add pos entries n (.file mode []))
    | some ino =>
      match fs.nodes.lookup ino with
      | none => .error .noent
      | some (.file mode _) => .ok (ino, fs.put ino (.file mode []))
      | some (.dir _) => .error .isdir
      | some (.link _) => .error .loop

/-- What an open file holds after a write. -/
def setContents (ino : Nat) (contents : List UInt8) : FileSystem N :=
  match fs.nodes.lookup ino with
  | some (.file mode _) => fs.put ino (.file mode contents)
  | _ => fs

omit [DecidableEq N] in
theorem fresh_absent : fs.nodes.lookup fs.fresh = none := by
  rw [Finmap.lookup_eq_none, ← Finmap.mem_keys]
  intro member
  have below : id fs.fresh ≤ fs.nodes.keys.sup id := Finset.le_sup member
  simp only [fresh, id_eq] at below
  omega

variable {fs}

/-- What one step of a scan that succeeds went through. -/
theorem scan_cons : fs.scan pos (step :: rest) = .ok leg ↔
    ∃ entries, fs.nodes.lookup (fs.inode pos) = some (.dir entries) ∧
      match step with
      | .here => fs.scan pos rest = .ok leg
      | .up => fs.scan pos.tail rest = .ok leg
      | .name n => ∃ ino node, entries.lookup n = some ino ∧ fs.nodes.lookup ino = some node ∧
          ((∃ target, node = .link target ∧ leg = .linked pos target rest) ∨
            (∀ target, node ≠ .link target) ∧ fs.scan ((n, ino) :: pos) rest = .ok leg) := by
  rw [scan]
  cases found : fs.nodes.lookup (fs.inode pos) with
  | none => simp
  | some node =>
    cases node with
    | file mode contents => simp
    | link target => simp
    | dir entries =>
      cases step with
      | here => simp
      | up => simp
      | name n =>
        cases named : entries.lookup n with
        | none => simp [named]
        | some ino =>
          cases present : fs.nodes.lookup ino with
          | none => simp [named, present]
          | some node => cases node <;> simp [named, present, eq_comm]

theorem scan_append (a b : List (Step N)) : fs.scan pos (a ++ b) =
    match fs.scan pos a with
    | .error e => .error e
    | .ok (.arrived q) => fs.scan q b
    | .ok (.linked q target rest) => .ok (.linked q target (rest ++ b)) := by
  induction a generalizing pos with
  | nil => rfl
  | cons step a ih =>
    rw [List.cons_append, scan, scan]
    split
    · cases step with
      | here => exact ih
      | up => exact ih
      | name n =>
        dsimp only
        split
        · rfl
        · split
          · rfl
          · rfl
          · exact ih
    · rfl
    · rfl

theorem walk_arrived {links : Nat} (arrived : fs.scan pos steps = .ok (.arrived q)) :
    fs.walk links pos steps = .ok q := by
  cases links <;> rw [walk, arrived]

theorem walk_turned {links : Nat} (linked : fs.scan pos steps = .ok (.linked start target rest))
    (full : target.steps ≠ []) : fs.walk (links + 1) pos steps =
      fs.walk links (if target.absolute then [] else start) (target.steps ++ rest) := by
  rw [walk, linked]
  exact if_neg full

/-- A walk that succeeds, from its end to its start: it arrives without following a link,
or follows one first. -/
theorem walk_induction {motive : Nat → Position N → List (Step N) → Prop} {links : Nat}
    (arrive : ∀ links pos steps, fs.scan pos steps = .ok (.arrived q) → motive links pos steps)
    (turn : ∀ links pos steps start target rest,
      fs.scan pos steps = .ok (.linked start target rest) → target.steps ≠ [] →
      motive links (if target.absolute then [] else start) (target.steps ++ rest) →
      motive (links + 1) pos steps)
    (walked : fs.walk links pos steps = .ok q) : motive links pos steps := by
  induction links generalizing pos steps with
  | zero =>
    rw [walk] at walked
    split at walked <;> cases walked
    rename_i arrived
    exact arrive _ _ _ arrived
  | succ links ih =>
    rw [walk] at walked
    split at walked
    · cases walked
    · cases walked
      rename_i arrived
      exact arrive _ _ _ arrived
    · rename_i start target rest linked
      dsimp only at walked
      split at walked
      · cases walked
      · rename_i full
        exact turn _ _ _ _ _ _ linked full (ih walked)

/-- Steps after a walk that follow no link. -/
theorem walk_append {links : Nat} (walked : fs.walk links pos a = .ok q)
    (onward : fs.scan q b = .ok (.arrived r)) : fs.walk links pos (a ++ b) = .ok r := by
  refine walk_induction (motive := fun links pos a => fs.walk links pos (a ++ b) = .ok r)
    (fun links pos a arrived => ?_) (fun links pos a start target rest linked full ih => ?_) walked
  · exact walk_arrived (by rw [scan_append, arrived]; exact onward)
  · rw [walk_turned (by rw [scan_append, linked]) full, ← List.append_assoc]
    exact ih

/-- Every step of a position is an entry, and none is a link. -/
inductive Linked (fs : FileSystem N) : Position N → Prop where
  | root : Linked fs []
  | entry : Linked fs pos → fs.nodes.lookup (fs.inode pos) = some (.dir entries) →
      entries.lookup n = some ino → fs.nodes.lookup ino = some node →
      (∀ target, node ≠ .link target) → Linked fs ((n, ino) :: pos)

theorem Linked.tail (linked : Linked fs pos) : Linked fs pos.tail := by
  cases linked with
  | root => exact .root
  | entry above => exact above

theorem scan_linked (linked : Linked fs pos) (scanned : fs.scan pos steps = .ok leg) :
    Linked fs leg.pos := by
  induction steps generalizing pos with
  | nil =>
    cases scanned
    exact linked
  | cons step rest ih =>
    obtain ⟨entries, found, onward⟩ := scan_cons.mp scanned
    cases step with
    | here => exact ih linked onward
    | up => exact ih linked.tail onward
    | name n =>
      obtain ⟨ino, node, named, present, ⟨target, _, rfl⟩ | ⟨plain, onward⟩⟩ := onward
      · exact linked
      · exact ih (.entry linked found named present plain) onward

theorem walk_linked {links : Nat} (linked : Linked fs pos)
    (walked : fs.walk links pos steps = .ok q) : Linked fs q := by
  refine walk_induction (motive := fun _ pos _ => Linked fs pos → Linked fs q)
    (fun _ pos steps arrived linked => ?_)
    (fun _ pos steps start target rest stopped _ ih linked => ?_) walked linked
  · exact scan_linked linked arrived
  · have above : Linked fs start := scan_linked linked stopped
    apply ih
    split
    · exact .root
    · exact above

theorem follow_linked (followed : fs.follow route = .ok pos) : Linked fs pos := by
  unfold follow at followed
  split at followed
  · cases followed
  · rename_i first begun
    refine walk_linked ?_ followed
    unfold origin at begun
    split at begun
    · cases begun
      exact .root
    · exact walk_linked .root begun

theorem resolve_follow (resolved : fs.resolve route = .ok pos) : fs.follow route = .ok pos := by
  unfold resolve at resolved
  split at resolved
  · cases resolved
  · exact resolved

/-- Steps by name alone are the names of where they lead. -/
theorem scan_names {names : List N} (scanned : fs.scan pos (names.map .name) = .ok (.arrived q)) :
    q.map Prod.fst = names.reverse ++ pos.map Prod.fst := by
  induction names generalizing pos with
  | nil =>
    cases scanned
    rfl
  | cons n names ih =>
    obtain ⟨_, _, ino, _, _, _, ⟨_, _, impossible⟩ | ⟨_, onward⟩⟩ := scan_cons.mp scanned
    · cases impossible
    · rw [ih onward, List.reverse_cons, List.append_assoc]
      rfl

/-- The current directory is where its names lead. -/
theorem home_names (reached : fs.home = .ok pos) : (pos.map Prod.fst).reverse = fs.cwd := by
  rw [home, walk] at reached
  split at reached <;> cases reached
  rename_i arrived
  rw [scan_names arrived]
  simp

/-- The names of a position lead to it from the root. -/
theorem Linked.scan (linked : Linked fs pos) :
    fs.scan [] ((pos.map Prod.fst).reverse.map .name) = .ok (.arrived pos) := by
  induction linked with
  | root => rfl
  | entry _ found named present plain ih =>
    rw [List.map_cons, List.reverse_cons, List.map_append, scan_append, ih]
    refine scan_cons.mpr ⟨_, found, _, _, named, present, .inr ⟨plain, rfl⟩⟩

theorem Linked.follow (linked : Linked fs pos) :
    fs.follow ⟨true, (pos.map Prod.fst).reverse.map .name⟩ = .ok pos := by
  exact walk_arrived linked.scan

theorem scan_idle {idle : List (Step N)} (here : ∀ step ∈ idle, step = .here)
    (found : fs.nodes.lookup (fs.inode pos) = some (.dir entries)) :
    fs.scan pos idle = .ok (.arrived pos) := by
  induction idle with
  | nil => rfl
  | cons step idle ih =>
    obtain rfl := here step List.mem_cons_self
    exact scan_cons.mpr ⟨entries, found, ih fun other member => here other (List.mem_cons_of_mem _ member)⟩

theorem scan_idle_arrived {idle : List (Step N)} (here : ∀ step ∈ idle, step = .here)
    (scanned : fs.scan pos idle = .ok leg) : leg = .arrived pos := by
  induction idle with
  | nil =>
    cases scanned
    rfl
  | cons step idle ih =>
    obtain rfl := here step List.mem_cons_self
    obtain ⟨_, _, onward⟩ := scan_cons.mp scanned
    exact ih (fun other member => here other (List.mem_cons_of_mem _ member)) onward

theorem scan_append_idle {idle : List (Step N)} (here : ∀ step ∈ idle, step = .here)
    (scanned : fs.scan pos (steps ++ idle) = .ok leg) :
    (∃ q, leg = .arrived q ∧ fs.scan pos steps = .ok (.arrived q)) ∨
    ∃ start target rest, leg = .linked start target (rest ++ idle) ∧
      fs.scan pos steps = .ok (.linked start target rest) := by
  rw [scan_append] at scanned
  split at scanned
  · cases scanned
  · rename_i q arrived
    exact .inl ⟨q, scan_idle_arrived here scanned, arrived⟩
  · rename_i start target rest linked
    cases scanned
    exact .inr ⟨start, target, rest, rfl, linked⟩

/-- Idle steps at the end lead no further. -/
theorem walk_idle {links : Nat} {idle : List (Step N)} (here : ∀ step ∈ idle, step = .here)
    (walked : fs.walk links pos (steps ++ idle) = .ok q) : fs.walk links pos steps = .ok q := by
  refine walk_induction (motive := fun links pos all => ∀ steps, all = steps ++ idle →
    fs.walk links pos steps = .ok q) ?_ ?_ walked steps rfl
  · rintro links pos _ arrived steps rfl
    rcases scan_append_idle here arrived with ⟨r, same, arrived⟩ | ⟨_, _, _, impossible, _⟩
    · cases same
      exact walk_arrived arrived
    · cases impossible
  · rintro links pos _ start target rest linked full ih steps rfl
    rcases scan_append_idle here linked with ⟨_, impossible, _⟩ | ⟨_, _, rest, same, alone⟩
    · cases impossible
    · cases same
      rw [walk_turned alone full]
      exact ih _ (List.append_assoc _ _ _).symm

theorem follow_idle (steps idle : List (Step N)) (here : ∀ step ∈ idle, step = .here)
    (followed : fs.follow ⟨absolute, steps ++ idle⟩ = .ok pos) :
    fs.follow ⟨absolute, steps⟩ = .ok pos := by
  unfold follow at followed ⊢
  split at followed
  · cases followed
  · rename_i begun
    rw [show fs.origin ⟨absolute, steps⟩ = _ from begun]
    exact walk_idle here followed

/-- Steps after a path that follow no link. -/
theorem follow_append (followed : fs.follow ⟨absolute, a⟩ = .ok q)
    (onward : fs.scan q b = .ok (.arrived r)) : fs.follow ⟨absolute, a ++ b⟩ = .ok r := by
  unfold follow at followed ⊢
  split at followed
  · cases followed
  · rename_i begun
    rw [show fs.origin ⟨absolute, a ++ b⟩ = _ from begun]
    exact walk_append followed onward

theorem directory_ok : fs.directory route = .ok (pos, entries) ↔
    fs.follow route = .ok pos ∧ fs.nodes.lookup (fs.inode pos) = some (.dir entries) := by
  constructor
  · intro found
    unfold directory at found
    split at found
    · cases found
    · rename_i reached followed
      split at found <;> cases found
      rename_i present
      exact ⟨followed, present⟩
  · rintro ⟨followed, present⟩
    rw [directory, followed]
    dsimp only
    rw [present]

/-- Idle steps at the end lead into the same directory. -/
theorem directory_idle {idle : List (Step N)} (here : ∀ step ∈ idle, step = .here)
    (followed : fs.follow ⟨absolute, steps⟩ = .ok pos) :
    fs.directory ⟨absolute, steps ++ idle⟩ = .ok (q, entries) ↔
      q = pos ∧ fs.nodes.lookup (fs.inode pos) = some (.dir entries) := by
  rw [directory_ok]
  constructor
  · rintro ⟨reached, found⟩
    have same := follow_idle steps idle here reached
    rw [followed, Except.ok.injEq] at same
    subst same
    exact ⟨rfl, found⟩
  · rintro ⟨rfl, found⟩
    exact ⟨follow_append followed (scan_idle here found), found⟩

/-- The entry that a path names by its last name. -/
theorem entry_ok : fs.entry route = .ok (some (pos, entries, n)) ↔
    route.steps.getLast? = some (.name n) ∧
      fs.directory ⟨route.absolute, route.steps.dropLast⟩ = .ok (pos, entries) := by
  constructor
  · intro found
    unfold entry at found
    split at found
    · rename_i last
      split at found <;> cases found
      rename_i there
      exact ⟨last, there⟩
    · split at found <;> cases found
  · rintro ⟨last, there⟩
    rw [entry, last]
    dsimp only
    rw [there]

/-- A path to an entry that is not a link leads where the entry does. -/
theorem resolve_entry (named : fs.entry route = .ok (some (pos, entries, n)))
    (entered : entries.lookup n = some ino) (present : fs.nodes.lookup ino = some node)
    (plain : ∀ target, node ≠ .link target) : fs.resolve route = .ok ((n, ino) :: pos) := by
  obtain ⟨last, there⟩ := entry_ok.mp named
  obtain ⟨followed, found⟩ := directory_ok.mp there
  obtain ⟨init, steps⟩ := List.getLast?_eq_some_iff.mp last
  rw [steps, List.dropLast_concat] at followed
  have full : route.steps ≠ [] := by
    rw [steps]
    exact List.append_ne_nil_of_right_ne_nil _ (List.cons_ne_nil _ _)
  have onward : fs.scan pos [.name n] = .ok (.arrived ((n, ino) :: pos)) :=
    scan_cons.mpr ⟨entries, found, ino, node, entered, present, .inr ⟨plain, rfl⟩⟩
  have arrived := follow_append followed onward
  rw [resolve, if_neg full]
  rw [← steps] at arrived
  exact arrived

theorem mkdir_ok : fs.mkdir route = .ok final ↔
    ∃ pos entries n, fs.entry route = .ok (some (pos, entries, n)) ∧ entries.lookup n = none ∧
      final = fs.add pos entries n (.dir ∅) := by
  constructor
  · intro made
    unfold mkdir at made
    split at made
    · cases made
    · cases made
    · rename_i pos entries n named
      split at made <;> cases made
      rename_i free
      exact ⟨pos, entries, n, named, free, rfl⟩
  · rintro ⟨pos, entries, n, named, free, rfl⟩
    rw [mkdir, named]
    dsimp only
    rw [free]

/-- A file that was opened for writing is new or was a file before. -/
theorem openTruncate_ok : fs.openTruncate mode route = .ok (ino, final) ↔
    ∃ pos entries n, fs.entry route = .ok (some (pos, entries, n)) ∧
      ((entries.lookup n = none ∧ ino = fs.fresh ∧ final = fs.add pos entries n (.file mode [])) ∨
        (entries.lookup n = some ino ∧ ∃ mode old, fs.nodes.lookup ino = some (.file mode old) ∧
          final = fs.put ino (.file mode []))) := by
  constructor
  · intro opened
    unfold openTruncate at opened
    split at opened
    · cases opened
    · cases opened
    · rename_i pos entries n named
      split at opened
      · rename_i free
        cases opened
        exact ⟨pos, entries, n, named, .inl ⟨free, rfl, rfl⟩⟩
      · rename_i entered
        split at opened <;> cases opened
        rename_i present
        exact ⟨pos, entries, n, named, .inr ⟨entered, _, _, present, rfl⟩⟩
  · rintro ⟨pos, entries, n, named, ⟨free, rfl, rfl⟩ | ⟨entered, mode, old, present, rfl⟩⟩
    · rw [openTruncate, named]
      dsimp only
      rw [free]
    · rw [openTruncate, named]
      dsimp only
      rw [entered]
      dsimp only
      rw [present]

end FileSystem
end Inode
