import Mathlib.Data.List.DropRight

/-! Paths as Unix and the Rust standard library's `Path` read them, over any units:
`/` separates, and empty and `.` components count only at the front. -/
namespace UnixPath

variable {A B : Type} [DecidableEq A] [DecidableEq B]

/-- Drops what normalization drops at the end, but never the first piece. -/
def trimPieces (dot : A) (pieces : List (List A)) : List (List A) :=
  match pieces with
  | [] => []
  | first :: rest => first :: rest.rdropWhile fun piece => piece = [] ∨ piece = [dot]

def pieces (slash dot : A) (path : List A) : List (List A) :=
  trimPieces dot (path.splitOn slash)

/-- `Path::file_name`. -/
def fileName (slash dot : A) (path : List A) : Option (List A) :=
  match (pieces slash dot path).getLast? with
  | none => none
  | some last => if last = [] ∨ last = [dot] ∨ last = [dot, dot] then none else some last

/-- `Path::parent`. -/
def parent (slash dot : A) (path : List A) : Option (List A) :=
  match pieces slash dot path with
  | [] | [[]] => none
  | [_] => some []
  | pieces =>
    match trimPieces dot pieces.dropLast with
    | [[]] => some [slash]
    | pieces => some ([slash].intercalate pieces)

/-- `Path::join` of a relative path. -/
def join (slash : A) (path name : List A) : List A :=
  if path = [] ∨ path.getLast? = some slash then path ++ name else path ++ slash :: name

/-- A path of pieces; the root has a single empty one. -/
def rejoin (slash : A) (pieces : List (List A)) : List A :=
  if pieces = [[]] then [slash] else [slash].intercalate pieces

/-- A path and what `parent` makes of it, at most `fuel` of them. -/
def ancestorsFrom (slash dot : A) : Nat → List A → List (List A)
  | 0, _ => []
  | fuel + 1, path => path :: ((parent slash dot path).map (ancestorsFrom slash dot fuel)).getD []

/-- `Path::ancestors`. Every parent is shorter than its path. -/
def ancestors (slash dot : A) (path : List A) : List (List A) :=
  ancestorsFrom slash dot (path.length + 1) path

theorem parent_of_pieces {slash dot : A} {path : List A}
    (long : pieces slash dot path = first :: second :: rest) :
    parent slash dot path =
      some (rejoin slash (trimPieces dot (first :: second :: rest).dropLast)) := by
  simp only [parent, long, rejoin]
  split <;> simp_all

omit [DecidableEq A] in
theorem intercalate_append {slash : A} {first rest : List (List A)} (full : first ≠ [])
    (more : rest ≠ []) :
    [slash].intercalate (first ++ rest) =
      [slash].intercalate first ++ slash :: [slash].intercalate rest := by
  induction first with
  | nil => exact absurd rfl full
  | cons piece first ih =>
    cases first with
    | nil =>
      obtain ⟨next, rest, rfl⟩ := List.exists_cons_of_ne_nil more
      simp
    | cons second first =>
      rw [List.cons_append, List.cons_append, List.intercalate_cons_cons,
        List.intercalate_cons_cons, ← List.cons_append, ih (List.cons_ne_nil _ _)]
      simp

/-- A path ends in a separator when its last piece is empty. -/
theorem splitOn_getLast? {slash : A} {path : List A} :
    (path.splitOn slash).getLast? = some [] ↔ path = [] ∨ path.getLast? = some slash := by
  constructor
  · intro last
    obtain ⟨init, split⟩ := List.getLast?_eq_some_iff.mp last
    have whole : [slash].intercalate (path.splitOn slash) = path := List.intercalate_splitOn slash
    rw [split] at whole
    by_cases bare : init = []
    · rw [bare] at whole
      exact .inl whole.symm
    · rw [intercalate_append bare (List.cons_ne_nil _ _)] at whole
      exact .inr (by rw [← whole]; simp)
  · rintro (rfl | last)
    · rfl
    · obtain ⟨init, rfl⟩ := List.getLast?_eq_some_iff.mp last
      rw [List.splitOn_append_cons_self]
      simp

theorem not_mem_splitOn {slash : A} {path : List A} : ∀ piece ∈ path.splitOn slash, slash ∉ piece := by
  induction path with
  | nil => simp
  | cons a path ih =>
    rw [List.splitOn_cons_eq_if_modifyHead]
    obtain ⟨first, rest, split⟩ := List.exists_cons_of_ne_nil (List.splitOn_ne_nil slash path)
    rw [split] at ih ⊢
    by_cases same : a = slash
    · simp only [same, BEq.rfl, ↓reduceIte, List.mem_cons]
      rintro piece (rfl | member)
      · exact List.not_mem_nil
      · exact ih piece (List.mem_cons.mpr member)
    · simp only [beq_iff_eq, same, ↓reduceIte, List.modifyHead_cons, List.mem_cons]
      rintro piece (rfl | member)
      · simp [Ne.symm same, ih first List.mem_cons_self]
      · exact ih piece (List.mem_cons_of_mem _ member)

/-- A piece that leads nowhere. -/
def Idle (dot : A) (piece : List A) : Prop := piece = [] ∨ piece = [dot]

instance (dot : A) (piece : List A) : Decidable (Idle dot piece) :=
  inferInstanceAs (Decidable (_ ∨ _))

theorem trimPieces_append (dot : A) (pieces : List (List A)) :
    ∃ tail, (∀ piece ∈ tail, Idle dot piece) ∧ trimPieces dot pieces ++ tail = pieces := by
  cases pieces with
  | nil => exact ⟨[], by simp, rfl⟩
  | cons first rest =>
    refine ⟨rest.rtakeWhile fun piece => piece = [] ∨ piece = [dot], fun piece member => ?_, ?_⟩
    · simpa [Idle] using List.mem_rtakeWhile_imp member
    · rw [trimPieces, List.cons_append, List.rdropWhile_append_rtakeWhile]

/-- A path with a file name: what leads to the file, its name, and idle pieces. -/
theorem fileName_split {slash dot : A} {path : List A} (named : fileName slash dot path = some name) :
    ∃ init tail, path.splitOn slash = init ++ name :: tail ∧ (∀ piece ∈ tail, Idle dot piece) ∧
      ¬ Idle dot name ∧ name ≠ [dot, dot] ∧
      parent slash dot path = some (if init = [] then [] else rejoin slash (trimPieces dot init)) := by
  unfold fileName at named
  split at named
  · cases named
  · rename_i last found
    split at named
    · cases named
    · rename_i busy
      cases named
      simp only [not_or] at busy
      obtain ⟨init, split⟩ := List.getLast?_eq_some_iff.mp found
      obtain ⟨tail, idle, whole⟩ := trimPieces_append dot (path.splitOn slash)
      rw [← pieces, split, List.append_assoc, List.singleton_append] at whole
      refine ⟨init, tail, whole.symm, idle, by simpa [Idle] using ⟨busy.1, busy.2.1⟩, busy.2.2, ?_⟩
      cases init with
      | nil => simp [parent, split, busy.1]
      | cons first rest =>
        obtain ⟨second, more, tail⟩ := List.exists_cons_of_ne_nil
          (List.append_ne_nil_of_right_ne_nil rest (List.cons_ne_nil name []))
        rw [List.cons_append, tail] at split
        rw [parent_of_pieces split, ← tail, ← List.cons_append, List.dropLast_concat,
          if_neg (List.cons_ne_nil _ _)]

theorem splitOn_rejoin {slash : A} {pieces : List (List A)} (full : pieces ≠ [])
    (clean : ∀ piece ∈ pieces, slash ∉ piece) :
    (rejoin slash pieces).splitOn slash = if pieces = [[]] then [[], []] else pieces := by
  rw [rejoin]
  split
  · exact List.splitOn_append_cons_self [] []
  · exact List.splitOn_intercalate slash clean full

theorem rejoin_ne_nil {slash : A} {pieces : List (List A)} (full : pieces ≠ [])
    (clean : ∀ piece ∈ pieces, slash ∉ piece) : rejoin slash pieces ≠ [] := by
  intro empty
  have whole := splitOn_rejoin full clean
  rw [empty, List.splitOn_nil] at whole
  split at whole
  · cases whole
  · rename_i other
    exact other whole.symm

theorem join_injective {slash : A} {path : List A} (same : join slash path a = join slash path b) :
    a = b := by
  rw [join, join] at same
  split at same
  · exact List.append_cancel_left same
  · simpa using same

/-- Pieces from the root, and a name joined onto them. -/
theorem splitOn_join {slash : A} {names : List (List A)} (full : ∀ n ∈ names, n ≠ [])
    (clean : ∀ n ∈ names, slash ∉ n) (bare : slash ∉ name) :
    (join slash (rejoin slash ([] :: names)) name).splitOn slash = [] :: names ++ [name] := by
  have single : name.splitOn slash = [name] := List.splitOn_eq_singleton bare
  by_cases root : names = []
  · subst root
    rw [rejoin, if_pos rfl, join, if_pos (by simp)]
    rw [← single]
    exact List.splitOn_append_cons_self [] _
  · have split : ([slash].intercalate ([] :: names)).splitOn slash = [] :: names := by
      refine List.splitOn_intercalate slash ?_ (List.cons_ne_nil _ _)
      simpa using clean
    have last : ¬ ([slash].intercalate ([] :: names) = [] ∨
        ([slash].intercalate ([] :: names)).getLast? = some slash) := by
      rw [← splitOn_getLast?, split, List.getLast?_cons_of_ne_nil root]
      exact fun ends => full [] (List.mem_of_getLast? ends) rfl
    rw [rejoin, if_neg (by simpa using root), join, if_neg last, List.splitOn_append_cons_self,
      split, single]

/-- An encoding of paths in other units that keeps their separators apart. -/
structure Encoding (slash dot : A) (slash' dot' : B) (encode : List A → List B) : Prop where
  nil : encode [] = []
  append : ∀ x y, encode (x ++ y) = encode x ++ encode y
  atSlash : encode [slash] = [slash']
  atDot : encode [dot] = [dot']
  injective : Function.Injective encode
  split : ∀ path, (encode path).splitOn slash' = (path.splitOn slash).map encode

namespace Encoding

variable {slash dot : A} {slash' dot' : B} {encode : List A → List B}
  (encoding : Encoding slash dot slash' dot' encode)
include encoding

theorem eq_nil {x : List A} : encode x = [] ↔ x = [] := by
  rw [← encoding.nil, encoding.injective.eq_iff]

theorem eq_dot {x : List A} : encode x = [dot'] ↔ x = [dot] := by
  rw [← encoding.atDot, encoding.injective.eq_iff]

theorem eq_dots {x : List A} : encode x = [dot', dot'] ↔ x = [dot, dot] := by
  have dots : encode [dot, dot] = [dot', dot'] := by
    rw [← List.singleton_append, encoding.append, encoding.atDot]
    rfl
  rw [← dots, encoding.injective.eq_iff]

theorem trimPieces (pieces : List (List A)) :
    UnixPath.trimPieces dot' (pieces.map encode) = (UnixPath.trimPieces dot pieces).map encode := by
  cases pieces with
  | nil => rfl
  | cons first rest =>
    simp only [UnixPath.trimPieces, List.map_cons]
    congr 1
    induction rest using List.reverseRecOn with
    | nil => rfl
    | append_singleton rest last ih =>
      rw [List.map_append, List.map_singleton]
      by_cases drops : last = [] ∨ last = [dot]
      · rw [List.rdropWhile_concat_pos _ _ _ (by simpa [encoding.eq_nil, encoding.eq_dot] using drops),
          List.rdropWhile_concat_pos _ _ _ (by simpa using drops), ih]
      · rw [List.rdropWhile_concat_neg _ _ _ (by simpa [encoding.eq_nil, encoding.eq_dot] using drops),
          List.rdropWhile_concat_neg _ _ _ (by simpa using drops), List.map_append,
          List.map_singleton]

theorem pieces (path : List A) :
    UnixPath.pieces slash' dot' (encode path) = (UnixPath.pieces slash dot path).map encode := by
  rw [UnixPath.pieces, encoding.split, encoding.trimPieces, UnixPath.pieces]

theorem fileName (path : List A) :
    UnixPath.fileName slash' dot' (encode path) =
      (UnixPath.fileName slash dot path).map encode := by
  rw [UnixPath.fileName, encoding.pieces, List.getLast?_map, UnixPath.fileName]
  cases (UnixPath.pieces slash dot path).getLast? with
  | none => rfl
  | some last =>
    simp only [Option.map_some, encoding.eq_nil, encoding.eq_dot, encoding.eq_dots]
    split <;> rfl

theorem intercalate (pieces : List (List A)) :
    [slash'].intercalate (pieces.map encode) = encode ([slash].intercalate pieces) := by
  induction pieces with
  | nil => exact encoding.nil.symm
  | cons first rest ih =>
    cases rest with
    | nil => simp [List.intercalate]
    | cons second rest =>
      rw [List.map_cons, List.map_cons, List.intercalate_cons_cons, List.intercalate_cons_cons,
        ← List.map_cons, ih, encoding.append, encoding.append, encoding.atSlash]

theorem rejoin (pieces : List (List A)) :
    UnixPath.rejoin slash' (pieces.map encode) = encode (UnixPath.rejoin slash pieces) := by
  have root : pieces.map encode = [[]] ↔ pieces = [[]] := by
    rw [← encoding.nil, ← List.map_singleton, (List.map_injective_iff.mpr encoding.injective).eq_iff]
  by_cases bare : pieces = [[]]
  · rw [UnixPath.rejoin, UnixPath.rejoin, if_pos (root.mpr bare), if_pos bare, encoding.atSlash]
  · rw [UnixPath.rejoin, UnixPath.rejoin, if_neg (mt root.mp bare), if_neg bare,
      encoding.intercalate]

theorem parent (path : List A) :
    UnixPath.parent slash' dot' (encode path) = (UnixPath.parent slash dot path).map encode := by
  have there := encoding.pieces path
  cases here : UnixPath.pieces slash dot path with
  | nil =>
    rw [here] at there
    simp [UnixPath.parent, here, there]
  | cons first rest =>
    rw [here] at there
    cases rest with
    | nil =>
      cases first with
      | nil => simp [UnixPath.parent, here, there, encoding.nil]
      | cons a piece =>
        obtain ⟨b, rest, same⟩ : ∃ b rest, encode (a :: piece) = b :: rest :=
          List.exists_cons_of_ne_nil (by simp [encoding.eq_nil])
        simp [UnixPath.parent, here, there, same, encoding.nil]
    | cons second rest =>
      rw [parent_of_pieces here, parent_of_pieces there, ← List.map_cons, ← List.map_cons,
        ← List.map_dropLast, encoding.trimPieces, encoding.rejoin, Option.map_some]

theorem join (path name : List A) :
    UnixPath.join slash' (encode path) (encode name) = encode (UnixPath.join slash path name) := by
  have ends : (encode path = [] ∨ (encode path).getLast? = some slash') ↔
      (path = [] ∨ path.getLast? = some slash) := by
    rw [← splitOn_getLast?, encoding.split, List.getLast?_map, ← splitOn_getLast?]
    simp [encoding.eq_nil]
  by_cases closed : path = [] ∨ path.getLast? = some slash
  · rw [UnixPath.join, UnixPath.join, if_pos (ends.mpr closed), if_pos closed, encoding.append]
  · rw [UnixPath.join, UnixPath.join, if_neg (mt ends.mp closed), if_neg closed, encoding.append,
      ← List.singleton_append (l := name), encoding.append, encoding.atSlash, List.singleton_append]

end Encoding

example : parent '/' '.' "a/./b/".toList = some "a".toList ∧
    parent '/' '.' "/a".toList = some "/".toList ∧ parent '/' '.' "a".toList = some [] ∧
    fileName '/' '.' "./out.tar".toList = some "out.tar".toList ∧
    fileName '/' '.' "out/..".toList = none := by decide

end UnixPath
