import Mathlib.Data.List.DropRight

/-! UTF-8 over lists of bytes. A separator below 128 splits the encoded text where it
splits the text. -/
namespace Utf8

def encode (text : List Char) : List UInt8 := text.flatMap String.utf8EncodeChar

/-- The first character and the bytes after it. -/
def front? (bytes : List UInt8) : Option (Char × List UInt8) :=
  (bytes.toByteArray.utf8DecodeChar? 0).map fun c => (c, bytes.drop (String.utf8EncodeChar c).length)

/-- At most `fuel` characters; a character takes at least one byte. -/
def decodeFrom : Nat → List UInt8 → Option (List Char)
  | _, [] => some []
  | 0, _ :: _ => none
  | fuel + 1, bytes => do
    let (c, rest) ← front? bytes
    let text ← decodeFrom fuel rest
    return c :: text

def decode? (bytes : List UInt8) : Option (List Char) := decodeFrom bytes.length bytes

/-- The bytes that may follow the first one of a character. -/
def followers (first : UInt8) : List (UInt8 × UInt8) :=
  if 0xC2 ≤ first ∧ first ≤ 0xDF then [(0x80, 0xBF)]
  else if first = 0xE0 then [(0xA0, 0xBF), (0x80, 0xBF)]
  else if first = 0xED then [(0x80, 0x9F), (0x80, 0xBF)]
  else if 0xE1 ≤ first ∧ first ≤ 0xEF then [(0x80, 0xBF), (0x80, 0xBF)]
  else if first = 0xF0 then [(0x90, 0xBF), (0x80, 0xBF), (0x80, 0xBF)]
  else if 0xF1 ≤ first ∧ first ≤ 0xF3 then [(0x80, 0xBF), (0x80, 0xBF), (0x80, 0xBF)]
  else if first = 0xF4 then [(0x80, 0x8F), (0x80, 0xBF), (0x80, 0xBF)]
  else []

def following : List (UInt8 × UInt8) → List UInt8 → Nat
  | (low, high) :: ranges, b :: rest => if low ≤ b ∧ b ≤ high then following ranges rest + 1 else 0
  | _, _ => 0

/-- Where no character starts, the bytes that one replacement character stands for: as
much of a character as there is, or a single byte. -/
def truncated : List UInt8 → Nat
  | [] => 0
  | first :: rest => following (followers first) rest + 1

def lossyFrom : Nat → List UInt8 → List Char
  | _, [] => []
  | 0, _ :: _ => []
  | fuel + 1, bytes =>
    match front? bytes with
    | some (c, rest) => c :: lossyFrom fuel rest
    | none => Char.ofNat 0xFFFD :: lossyFrom fuel (bytes.drop (truncated bytes))

/-- `String::from_utf8_lossy`. -/
def lossy (bytes : List UInt8) : List Char := lossyFrom bytes.length bytes

theorem encode_cons (c : Char) (text : List Char) :
    encode (c :: text) = String.utf8EncodeChar c ++ encode text := rfl

theorem encode_append (a b : List Char) : encode (a ++ b) = encode a ++ encode b := by
  simp [encode]

theorem front?_encode (c : Char) (rest : List UInt8) :
    front? (String.utf8EncodeChar c ++ rest) = some (c, rest) := by
  have read := List.utf8DecodeChar?_utf8Encode_singleton_append (b := rest.toByteArray) (c := c)
  rw [List.utf8Encode_singleton, ← List.toByteArray_append] at read
  rw [front?, read, Option.map_some, List.drop_left]

theorem front?_some (read : front? bytes = some (c, rest)) :
    bytes = String.utf8EncodeChar c ++ rest := by
  obtain ⟨d, found, same⟩ := Option.map_eq_some_iff.mp read
  cases same
  obtain ⟨tail, whole⟩ := ByteArray.exists_of_utf8DecodeChar?_eq_some found
  have bytes_ : bytes = String.utf8EncodeChar c ++ tail.data.toList := by
    have lists := congrArg (·.data.toList) whole
    simpa using lists
  rw [bytes_, List.drop_left]

theorem decodeFrom_encode (text : List Char) (enough : (encode text).length ≤ fuel) :
    decodeFrom fuel (encode text) = some text := by
  induction text generalizing fuel with
  | nil => cases fuel <;> rfl
  | cons c text ih =>
    obtain ⟨b, tail, first⟩ := List.exists_cons_of_ne_nil (String.utf8EncodeChar_ne_nil (c := c))
    rw [encode_cons, List.length_append, first, List.length_cons] at enough
    cases fuel with
    | zero => omega
    | succ fuel =>
      rw [encode_cons, first, List.cons_append, decodeFrom, ← List.cons_append, ← first,
        front?_encode]
      · have rest : decodeFrom fuel (encode text) = some text := ih (by omega)
        simp [rest]
      · exact fun impossible => by cases impossible

theorem decode?_encode (text : List Char) : decode? (encode text) = some text :=
  decodeFrom_encode text (Nat.le_refl _)

/-- Where no character is broken, none is replaced. -/
theorem lossyFrom_of_decodeFrom (read : decodeFrom fuel bytes = some text) :
    lossyFrom fuel bytes = text := by
  induction fuel generalizing bytes text with
  | zero =>
    cases bytes with
    | nil => cases read; rfl
    | cons => cases read
  | succ fuel ih =>
    cases bytes with
    | nil => cases read; rfl
    | cons b rest =>
      simp only [decodeFrom] at read
      obtain ⟨⟨c, after⟩, first, read⟩ := Option.bind_eq_some_iff.mp read
      obtain ⟨tail, decoded, whole⟩ := Option.bind_eq_some_iff.mp read
      cases whole
      simp only [lossyFrom, first, ih decoded]

theorem lossy_encode (text : List Char) : lossy (encode text) = text :=
  lossyFrom_of_decodeFrom (decode?_encode text)

theorem encode_decodeFrom (read : decodeFrom fuel bytes = some text) : encode text = bytes := by
  induction fuel generalizing bytes text with
  | zero =>
    cases bytes with
    | nil => cases read; rfl
    | cons => cases read
  | succ fuel ih =>
    cases bytes with
    | nil => cases read; rfl
    | cons b rest =>
      simp only [decodeFrom] at read
      obtain ⟨⟨c, after⟩, first, read⟩ := Option.bind_eq_some_iff.mp read
      obtain ⟨tail, decoded, whole⟩ := Option.bind_eq_some_iff.mp read
      cases whole
      rw [encode_cons, ih decoded, ← front?_some first]

theorem encode_decode? (read : decode? bytes = some text) : encode text = bytes :=
  encode_decodeFrom read

theorem encode_injective : Function.Injective encode := by
  intro a b same
  have decoded := congrArg decode? same
  rw [decode?_encode, decode?_encode] at decoded
  exact Option.some.inj decoded

/-- The bytes of a character beyond ASCII are beyond it too. -/
theorem ascii_of_mem (member : b ∈ String.utf8EncodeChar c) (ascii : b.toNat < 128) :
    String.utf8EncodeChar c = [b] ∧ c.toNat = b.toNat := by
  by_cases small : c.val.toNat ≤ 0x7f
  · have single : String.utf8EncodeChar c = [UInt8.ofNat c.val.toNat] := by
      simp only [String.utf8EncodeChar, small, ↓reduceIte]
    rw [single, List.mem_singleton] at member
    subst member
    refine ⟨single, ?_⟩
    rw [UInt8.toNat_ofNat', Nat.mod_eq_of_lt (by omega)]
    rfl
  · exfalso
    simp only [String.utf8EncodeChar, small, ↓reduceIte] at member
    split at member <;> try split at member
    all_goals
      simp only [List.mem_cons, List.not_mem_nil, or_false] at member
      rcases member with rfl | rfl | rfl | rfl
      all_goals
        rw [UInt8.toNat_ofNat'] at ascii
        omega

theorem mem_encode_ascii (member : b ∈ encode text) (ascii : b.toNat < 128) :
    ∃ c ∈ text, c.toNat = b.toNat := by
  obtain ⟨c, there, inside⟩ := List.mem_flatMap.mp member
  exact ⟨c, there, (ascii_of_mem inside ascii).2⟩

theorem splitOn_append [DecidableEq A] {b : A} {first : List A} (foreign : b ∉ first)
    (rest : List A) : (first ++ rest).splitOn b = (rest.splitOn b).modifyHead (first ++ ·) := by
  induction first with
  | nil =>
    rw [List.nil_append]
    cases rest.splitOn b <;> rfl
  | cons x first ih =>
    rw [List.mem_cons, not_or] at foreign
    have apart : (x == b) = false := by simpa using Ne.symm foreign.1
    rw [List.cons_append, List.splitOn_cons_eq_if_modifyHead, apart, ih foreign.2]
    cases rest.splitOn b <;> rfl

theorem encode_splitOn {c : Char} {b : UInt8} (single : String.utf8EncodeChar c = [b])
    (ascii : b.toNat < 128) (text : List Char) :
    (encode text).splitOn b = (text.splitOn c).map encode := by
  have code : c.toNat = b.toNat := (ascii_of_mem (by rw [single]; exact List.mem_cons_self) ascii).2
  induction text with
  | nil => rfl
  | cons d text ih =>
    rw [encode_cons, List.splitOn_cons_eq_if_modifyHead]
    by_cases same : d = c
    · subst same
      rw [single, List.singleton_append, List.splitOn_cons_eq_if_modifyHead, ih]
      simp [encode]
    · have foreign : b ∉ String.utf8EncodeChar d := by
        intro member
        have other := (ascii_of_mem member ascii).2
        exact same (Char.ext (UInt32.toNat_inj.mp (other.trans code.symm)))
      have apart : (d == c) = false := by simpa using same
      rw [splitOn_append foreign, ih, apart]
      cases text.splitOn c <;> rfl

example : lossy [0x61, 0xFF, 0xE2, 0x82, 0x62, 0xC3, 0xA9] =
    ['a', Char.ofNat 0xFFFD, Char.ofNat 0xFFFD, 'b', 'é'] := by decide

end Utf8
