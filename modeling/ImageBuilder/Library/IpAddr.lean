import ImageBuilder.Library.Text
import Mathlib.Data.Nat.Digits.Defs

/-! IP addresses as the Rust standard library has them, their classification, and
what a program may rely on of their textual form. -/

inductive IpAddr where
  | v4 (a b c d : UInt8)
  | v6 (s₀ s₁ s₂ s₃ s₄ s₅ s₆ s₇ : UInt16)
  deriving DecidableEq

namespace IpAddr

/-- `127.0.0.0/8` and `::1`. -/
def isLoopback : IpAddr → Bool
  | v4 a _ _ _ => a == 127
  | v6 s₀ s₁ s₂ s₃ s₄ s₅ s₆ s₇ => [s₀, s₁, s₂, s₃, s₄, s₅, s₆, s₇] == [0, 0, 0, 0, 0, 0, 0, 1]

/-- `0.0.0.0` and `::`. -/
def isUnspecified : IpAddr → Bool
  | v4 a b c d => [a, b, c, d] == [0, 0, 0, 0]
  | v6 s₀ s₁ s₂ s₃ s₄ s₅ s₆ s₇ => [s₀, s₁, s₂, s₃, s₄, s₅, s₆, s₇] == [0, 0, 0, 0, 0, 0, 0, 0]

/-- `224.0.0.0/4` and `ff00::/8`. -/
def isMulticast : IpAddr → Bool
  | v4 a _ _ _ => 224 ≤ a && a ≤ 239
  | v6 s₀ _ _ _ _ _ _ _ => s₀ &&& 0xff00 == 0xff00

/-- `169.254.0.0/16` and `fe80::/10`. -/
def isLinkLocal : IpAddr → Bool
  | v4 a b _ _ => a == 169 && b == 254
  | v6 s₀ _ _ _ _ _ _ _ => s₀ &&& 0xffc0 == 0xfe80

/-- `255.255.255.255`. -/
def isBroadcast : IpAddr → Bool
  | v4 a b c d => [a, b, c, d] == [255, 255, 255, 255]
  | v6 .. => false

/-- The IPv4 address that `::ffff:a.b.c.d` stands for. -/
def toIpv4Mapped : IpAddr → Option IpAddr
  | v4 .. => none
  | v6 s₀ s₁ s₂ s₃ s₄ s₅ s₆ s₇ =>
    if [s₀, s₁, s₂, s₃, s₄, s₅] = [0, 0, 0, 0, 0, 0xffff] then
      some (v4 (s₆ >>> 8).toUInt8 s₆.toUInt8 (s₇ >>> 8).toUInt8 s₇.toUInt8)
    else none

def toCanonical (addr : IpAddr) : IpAddr := addr.toIpv4Mapped.getD addr

/-- The characters an address is written with. -/
def isAddressChar (c : Char) : Bool :=
  c.isDigit || ('a' ≤ c && c ≤ 'f') || c == '.' || c == ':'

end IpAddr

/-- `Display` and `FromStr` of an address. -/
structure IpText where
  display : IpAddr → Text
  fromStr : Text → Option IpAddr
  written : ∀ addr, ∀ c ∈ display addr, IpAddr.isAddressChar c = true
  inverse : ∀ addr, fromStr (display addr) = some addr
  empty : fromStr [] = none

namespace IpText

variable (ip : IpText)

theorem display_ne_nil (addr : IpAddr) : ip.display addr ≠ [] := by
  intro bare
  have read := ip.inverse addr
  rw [bare, ip.empty] at read
  cases read

theorem graphic {c : Char} (plain : IpAddr.isAddressChar c = true) :
    32 < c.toNat ∧ c.toNat < 127 := by
  simp only [IpAddr.isAddressChar, Char.isDigit, Bool.or_eq_true, Bool.and_eq_true,
    decide_eq_true_eq, beq_iff_eq, ge_iff_le, UInt32.le_iff_toNat_le, Char.le_def,
    Char.toNat_val, Char.reduceToNat] at plain
  rcases plain with (⟨low, high⟩ | ⟨low, high⟩) | rfl | rfl
  · omega
  · omega
  all_goals decide

theorem display_solid (addr : IpAddr) : ∀ c ∈ ip.display addr, Text.isWhitespace c = false :=
  fun c member =>
    Text.isWhitespace_of_graphic (graphic (ip.written addr c member)).1
      (graphic (ip.written addr c member)).2

/-- A character no address is written with occurs in none. -/
theorem notin_display {x : Char} (foreign : IpAddr.isAddressChar x = false) (addr : IpAddr) :
    x ∉ ip.display addr := by
  intro member
  rw [ip.written addr x member] at foreign
  cases foreign

end IpText

namespace IpAddr

/-- The value of a hexadecimal digit. -/
def hexValue (c : Char) : Nat := if c.isDigit then c.toNat - 48 else c.toNat - 87

def ofHex (digits : Text) : Nat := digits.foldl (fun n c => 16 * n + hexValue c) 0

theorem hexValue_digitChar : ∀ n < 16, hexValue (Nat.digitChar n) = n := by decide

theorem ofHex_toDigits (n : Nat) : ofHex (Nat.toDigits 16 n) = n := by
  induction n using Nat.strongRecOn with
  | ind n ih =>
    by_cases small : n < 16
    · rw [Nat.toDigits_of_lt_base small]
      simpa [ofHex] using hexValue_digitChar n small
    · have rest := ih (n / 16) (Nat.div_lt_self (by omega) (by omega))
      have last := hexValue_digitChar (n % 16) (Nat.mod_lt _ (by omega))
      rw [Nat.toDigits_of_base_le (by omega) (by omega)]
      rw [ofHex] at rest ⊢
      rw [List.foldl_append, rest, List.foldl_cons, List.foldl_nil, last]
      omega

/-- The group of `text`, when it is written as a group is. -/
def group? (text : Text) : Option UInt16 :=
  if Nat.toDigits 16 (ofHex text) = text ∧ ofHex text < 65536 then some (.ofNat (ofHex text))
  else none

def octet? (text : Text) : Option UInt8 :=
  if Nat.toDigits 10 (Nat.ofDigitChars 10 text 0) = text ∧ Nat.ofDigitChars 10 text 0 < 256 then
    some (.ofNat (Nat.ofDigitChars 10 text 0))
  else none

def group (n : UInt16) : Text := Nat.toDigits 16 n.toNat

def octet (n : UInt8) : Text := Nat.toDigits 10 n.toNat

theorem group?_group (n : UInt16) : group? (group n) = some n := by
  have small := n.toNat_lt
  simp [group?, group, ofHex_toDigits, small]

theorem octet?_octet (n : UInt8) : octet? (octet n) = some n := by
  have small := n.toNat_lt
  simp [octet?, octet, Nat.ofDigitChars_ten_toDigits, small]

/-- Dotted decimals, and eight groups with no `::`, which is how addresses without two
zero groups in a row and without an embedded IPv4 address are displayed. -/
def displayPlain : IpAddr → Text
  | v4 a b c d => ['.'].intercalate [octet a, octet b, octet c, octet d]
  | v6 s₀ s₁ s₂ s₃ s₄ s₅ s₆ s₇ => [':'].intercalate
      [group s₀, group s₁, group s₂, group s₃, group s₄, group s₅, group s₆, group s₇]

def fromStrPlain (text : Text) : Option IpAddr :=
  match text.splitOn '.' with
  | [a, b, c, d] => do return v4 (← octet? a) (← octet? b) (← octet? c) (← octet? d)
  | _ =>
    match text.splitOn ':' with
    | [s₀, s₁, s₂, s₃, s₄, s₅, s₆, s₇] => do
      return v6 (← group? s₀) (← group? s₁) (← group? s₂) (← group? s₃) (← group? s₄) (← group? s₅)
        (← group? s₆) (← group? s₇)
    | _ => none

theorem digitChar_hex : ∀ n < 16, (Nat.digitChar n).isDigit = true ∨
    ('a' ≤ Nat.digitChar n ∧ Nat.digitChar n ≤ 'f') := by decide

/-- Groups and octets are written in digits alone. -/
theorem toDigits_hex (base n : Nat) (low : 1 < base) (high : base ≤ 16) :
    ∀ c ∈ Nat.toDigits base n, c.isDigit = true ∨ ('a' ≤ c ∧ c ≤ 'f') := by
  induction n using Nat.strongRecOn with
  | ind n ih =>
    intro c member
    by_cases small : n < base
    · rw [Nat.toDigits_of_lt_base small, List.mem_singleton] at member
      exact member ▸ digitChar_hex n (by omega)
    · rw [Nat.toDigits_of_base_le low (by omega), List.mem_append, List.mem_singleton] at member
      rcases member with member | rfl
      · exact ih (n / base) (Nat.div_lt_self (by omega) low) c member
      · exact digitChar_hex _ (by have := Nat.mod_lt n (show 0 < base by omega); omega)

theorem separator_notin_digits {sep : Char} (foreign : sep = '.' ∨ sep = ':') (base n : Nat)
    (low : 1 < base) (high : base ≤ 16) : sep ∉ Nat.toDigits base n := by
  intro member
  have plain := toDigits_hex base n low high sep member
  rcases foreign with rfl | rfl <;> exact absurd plain (by decide)

theorem displayPlain_written (addr : IpAddr) :
    ∀ c ∈ displayPlain addr, isAddressChar c = true := by
  have digits (base n : Nat) (low : 1 < base) (high : base ≤ 16) :
      ∀ c ∈ Nat.toDigits base n, isAddressChar c = true := by
    intro c member
    rcases toDigits_hex base n low high c member with digit | ⟨low, high⟩ <;>
      simp_all [isAddressChar]
  intro c member
  cases addr with
  | v4 a b c d =>
    rcases Text.mem_intercalate member with rfl | ⟨part, found, inside⟩
    · rfl
    · simp only [List.mem_cons, List.not_mem_nil, or_false] at found
      rcases found with rfl | rfl | rfl | rfl <;>
        exact digits 10 _ (by omega) (by omega) _ inside
  | v6 =>
    rcases Text.mem_intercalate member with rfl | ⟨part, found, inside⟩
    · rfl
    · simp only [List.mem_cons, List.not_mem_nil, or_false] at found
      rcases found with rfl | rfl | rfl | rfl | rfl | rfl | rfl | rfl <;>
        exact digits 16 _ (by omega) (by omega) _ inside

theorem fromStrPlain_displayPlain (addr : IpAddr) : fromStrPlain (displayPlain addr) = some addr := by
  have octets (n : UInt8) : '.' ∉ octet n :=
    separator_notin_digits (.inl rfl) _ _ (by omega) (by omega)
  have groups (n : UInt16) (sep : Char) (foreign : sep = '.' ∨ sep = ':') : sep ∉ group n :=
    separator_notin_digits foreign _ _ (by omega) (by omega)
  cases addr with
  | v4 a b c d =>
    have split : (displayPlain (v4 a b c d)).splitOn '.' = [octet a, octet b, octet c, octet d] :=
      List.splitOn_intercalate '.' (by simp [octets]) (by simp)
    simp [fromStrPlain, split, octet?_octet]
  | v6 s₀ s₁ s₂ s₃ s₄ s₅ s₆ s₇ =>
    have split : (displayPlain (v6 s₀ s₁ s₂ s₃ s₄ s₅ s₆ s₇)).splitOn ':' =
        [group s₀, group s₁, group s₂, group s₃, group s₄, group s₅, group s₆, group s₇] :=
      List.splitOn_intercalate ':' (by simp [groups]) (by simp)
    have bare : '.' ∉ displayPlain (v6 s₀ s₁ s₂ s₃ s₄ s₅ s₆ s₇) := by
      intro member
      rcases Text.mem_intercalate member with impossible | ⟨part, found, inside⟩
      · exact absurd impossible (by decide)
      · simp only [List.mem_cons, List.not_mem_nil, or_false] at found
        rcases found with rfl | rfl | rfl | rfl | rfl | rfl | rfl | rfl <;>
          exact groups _ _ (.inl rfl) inside
    simp [fromStrPlain, List.splitOn_eq_singleton bare, split, group?_group]

end IpAddr

namespace IpText

/-- A lawful textual form. -/
def plain : IpText where
  display := IpAddr.displayPlain
  fromStr := IpAddr.fromStrPlain
  written := IpAddr.displayPlain_written
  inverse := IpAddr.fromStrPlain_displayPlain
  empty := rfl

example : plain.display (.v6 0xfd0f 0xee 0xb0 1 0 2 3 4) = "fd0f:ee:b0:1:0:2:3:4".toList ∧
    plain.fromStr "192.168.1.254" = some (.v4 192 168 1 254) ∧
    plain.fromStr "192.168.1" = none := by decide

end IpText
