import ImageBuilder.RootfsCache

/-! Separation of the names under the cache root, and what each directory
operation does to the entry of a given name. -/
namespace ImageBuilder.RootfsCache

theorem digits_injective (same : Nat.toDigits 10 m = Nat.toDigits 10 n) : m = n := by
  have decoded := congrArg (Nat.ofDigitChars 10 · 0) same
  simpa only [Nat.ofDigitChars_ten_toDigits] using decoded

theorem dash_notin_digits : '-' ∉ Nat.toDigits 10 n := by
  intro member
  have := Nat.isDigit_of_mem_toDigits (by omega) (by omega) member
  simp at this

/-- Text splits in one way at its last separator. -/
theorem split_at_last {sep : Char} (left : sep ∉ b) (right : sep ∉ d)
    (same : a ++ sep :: b = c ++ sep :: d) : a = c ∧ b = d := by
  rcases List.append_eq_append_iff.mp same with ⟨e, eq, tail⟩ | ⟨e, eq, tail⟩
  all_goals
    cases e with
    | nil =>
      simp only [List.append_nil, List.nil_append, List.cons.injEq, true_and] at eq tail
      exact ⟨by simp [eq], by simp [tail]⟩
    | cons x e => simp_all

/-- The last dash ends the version, although versions contain dashes themselves. -/
theorem stagingName_injective (same : stagingName v pid = stagingName w q) :
    v.text = w.text ∧ pid = q := by
  simp only [stagingName, List.append_assoc, List.append_cancel_left_eq] at same
  obtain ⟨text, digits⟩ := split_at_last dash_notin_digits dash_notin_digits same
  exact ⟨text, digits_injective digits⟩

theorem stagingPrefix_isPrefixOf (v : Version) (pid : Nat) :
    stagingPrefix.isPrefixOf (stagingName v pid) = true := by
  rw [stagingName, List.append_assoc]
  exact List.isPrefixOf_iff_prefix.mpr (List.prefix_append _ _)

/-- A semantic version starts with a digit, a staging directory with a dot. -/
theorem version_not_staging (v : Version) : stagingPrefix.isPrefixOf v.text = false := by
  obtain ⟨c, rest, text, digit⟩ := v.numeric
  have dot : c ≠ '.' := by rintro rfl; simp at digit
  have dotted : stagingPrefix = '.' :: "staging-".toList := rfl
  rw [text, dotted, List.isPrefixOf_cons_cons]
  simp [Ne.symm dot]

theorem staging_ne_of_not_staging (apart : stagingPrefix.isPrefixOf name = false)
    (v : Version) (pid : Nat) : name ≠ stagingName v pid := by
  rintro rfl
  simp [stagingPrefix_isPrefixOf] at apart

theorem staging_ne_dir (v w : Version) (pid : Nat) : w.text ≠ stagingName v pid :=
  staging_ne_of_not_staging (version_not_staging w) v pid

theorem digitChar_alphanum : ∀ n < 16, (Nat.digitChar n).isAlphanum = true := by decide

theorem digitChar_injective : ∀ m < 16, ∀ n < 16, Nat.digitChar m = Nat.digitChar n → m = n := by
  decide

theorem hex_alphanum (bytes : List UInt8) : ∀ c ∈ hex bytes, c.isAlphanum = true := by
  intro c member
  obtain ⟨byte, _, member⟩ := List.mem_flatMap.mp member
  have small := byte.toNat_lt
  rcases List.mem_cons.mp member with rfl | member
  · apply digitChar_alphanum
    omega
  · rw [List.mem_singleton.mp member]
    apply digitChar_alphanum
    omega

/-- Two digits a byte, so no digest reads as another. -/
theorem hex_injective : Function.Injective hex := by
  intro xs
  induction xs with
  | nil =>
    intro ys same
    cases ys with
    | nil => rfl
    | cons y ys => simp [hex] at same
  | cons x xs ih =>
    intro ys same
    cases ys with
    | nil => simp [hex] at same
    | cons y ys =>
      simp only [hex, List.flatMap_cons, List.cons_append, List.nil_append, List.cons.injEq] at same
      obtain ⟨high, low, rest⟩ := same
      have hx := x.toNat_lt
      have hy := y.toNat_lt
      have high := digitChar_injective _ (by omega) _ (by omega) high
      have low := digitChar_injective _ (by omega) _ (by omega) low
      have byte : x = y := UInt8.toNat_inj.mp (by omega)
      rw [byte, ih rest]

theorem hex_solid (bytes : List UInt8) : ∀ c ∈ hex bytes, Text.isWhitespace c = false :=
  fun c member => Text.isWhitespace_of_alphanum (hex_alphanum bytes c member)

theorem trim_hex (bytes : List UInt8) : Text.trim (hex bytes) = hex bytes :=
  Text.trim_of_solid (hex_solid bytes)

theorem hex_length (bytes : List UInt8) : (hex bytes).length = 2 * bytes.length := by
  induction bytes with
  | nil => rfl
  | cons byte bytes ih =>
    have tail : (bytes.flatMap fun byte => [Nat.digitChar (byte.toNat / 16),
      Nat.digitChar (byte.toNat % 16)]).length = 2 * bytes.length := ih
    simp only [hex, List.flatMap_cons, List.length_append, List.length_cons, List.length_nil, tail]
    omega

theorem dash_notin_hex (bytes : List UInt8) : '-' ∉ hex bytes := by
  intro member
  have plain := hex_alphanum bytes _ member
  simp at plain

/-- White space around a digest does not reach the key. -/
theorem cacheKey_padded (padded : Text.Padded (hex digest) text) :
    cacheKey version text = version ++ '-' :: hex digest := by
  rw [cacheKey, padded.trim (hex_solid digest)]

/-- The last dash of a key ends the version, although versions contain dashes themselves. -/
theorem cacheKey_injective (same : version ++ '-' :: hex digest = other ++ '-' :: hex wanted) :
    version = other ∧ digest = wanted := by
  obtain ⟨versions, digests⟩ := split_at_last (dash_notin_hex _) (dash_notin_hex _) same
  exact ⟨versions, hex_injective digests⟩

theorem cacheKey_solid (solid : ∀ c ∈ version, Text.isWhitespace c = false) :
    ∀ c ∈ version ++ '-' :: hex digest, Text.isWhitespace c = false := by
  intro c member
  rcases List.mem_append.mp member with inside | inside
  · exact solid c inside
  · rcases List.mem_cons.mp inside with rfl | inside
    · decide
    · exact hex_solid digest c inside

/-- The marker of the second tree is that of the first with white space around it. -/
def MarkerPadded (before after : Tree) : Prop :=
  ∃ mode written found, before.lookup Rootfs.marker = some (.file mode (.utf8 written)) ∧
    Text.Padded written found ∧
    ∃ kept, after.lookup Rootfs.marker = some (.file kept (.utf8 found))

/-- A marker matches the key of exactly the archives with its version and its digest. Neither
white space around a digest nor white space around the marker makes a difference. -/
theorem marker_separates {tree staged edited : Tree} {version other text otherText : Text}
    {digest wanted : List UInt8} (solid : ∀ c ∈ version, Text.isWhitespace c = false)
    (padded : Text.Padded (hex digest) text) (otherPadded : Text.Padded (hex wanted) otherText)
    (wrote : writeFile tree Rootfs.marker (cacheKey version text) = some staged)
    (marked : MarkerPadded staged edited) :
    (Rootfs.MarkerMatches edited (cacheKey other otherText) ↔ version = other ∧ digest = wanted) ∧
      Function.Injective hex ∧ ∀ bytes, (hex bytes).length = 2 * bytes.length := by
  refine ⟨?_, hex_injective, hex_length⟩
  obtain ⟨mode, written, found, there, around, kept, present⟩ := marked
  obtain ⟨_, stored⟩ := writeFile_lookup wrote
  rw [stored] at there
  cases there
  rw [cacheKey_padded padded] at around
  have trimmed : Text.trim found = version ++ '-' :: hex digest := around.trim (cacheKey_solid solid)
  have key : cacheKey other otherText = other ++ '-' :: hex wanted := cacheKey_padded otherPadded
  constructor
  · rintro ⟨_, read, held, matched⟩
    rw [present] at held
    cases held
    exact cacheKey_injective (trimmed.symm.trans (matched.trans key))
  · rintro ⟨rfl, rfl⟩
    exact ⟨kept, found, present, trimmed.trans key.symm⟩

/-- A tree with nothing but its marker. -/
def onlyMarker (text : Text) : Tree :=
  (∅ : Tree).insert Rootfs.marker (.file 0o644 (.utf8 text))

/-- A digest with a zero digit, read from a file that ends in a newline; the marker has
been given a newline too. -/
theorem marker_separates_newline : Rootfs.MarkerMatches
    (onlyMarker (cacheKey "0.1.0-rc.1" "0aff\n" ++ ['\n'])) (cacheKey "0.1.0-rc.1" "0aff") := by
  have blank : ∀ c ∈ ['\n'], Text.isWhitespace c = true := List.forall_mem_singleton.mpr rfl
  have padded : Text.Padded (hex [0x0a, 0xff]) "0aff\n".toList :=
    ⟨[], ['\n'], rfl, List.forall_mem_nil _, blank⟩
  have bare : Text.Padded (hex [0x0a, 0xff]) "0aff".toList :=
    ⟨[], [], rfl, List.forall_mem_nil _, List.forall_mem_nil _⟩
  have wrote : writeFile ∅ Rootfs.marker (cacheKey "0.1.0-rc.1" "0aff\n") =
      some (onlyMarker (cacheKey "0.1.0-rc.1" "0aff\n")) := rfl
  have marked : MarkerPadded (onlyMarker (cacheKey "0.1.0-rc.1" "0aff\n"))
      (onlyMarker (cacheKey "0.1.0-rc.1" "0aff\n" ++ ['\n'])) :=
    ⟨_, _, _, Finmap.lookup_insert _, ⟨[], ['\n'], rfl, List.forall_mem_nil _, blank⟩, _,
      Finmap.lookup_insert _⟩
  have solid : ∀ c ∈ "0.1.0-rc.1".toList, Text.isWhitespace c = false :=
    Text.solid_of_all (by decide)
  exact (marker_separates solid padded bare wrote marked).1.mpr ⟨rfl, rfl⟩

/-- The key is read back from the marker as it was written. -/
theorem trim_key (crates : Crates) (b : Binary) : Text.trim (crates.key b) = crates.key b := by
  apply Text.trim_of_solid
  intro c member
  simp only [Crates.key, cacheKey, trim_hex, List.mem_append, List.mem_cons] at member
  rcases member with version | rfl | digest
  · rcases b.version.plain c version with plain | rfl | rfl | rfl
    · exact Text.isWhitespace_of_alphanum plain
    all_goals decide
  · decide
  · exact Text.isWhitespace_of_alphanum (hex_alphanum _ c digest)

/-- Under one version, the key names the digest. -/
theorem key_digest {crates : Crates} {a b : Binary} (version : a.dir = b.dir)
    (same : crates.key a = crates.key b) : crates.sha256 a.archive = crates.sha256 b.archive := by
  simp only [Crates.key, cacheKey, trim_hex] at same
  rw [show a.version.text = b.version.text from version, List.append_cancel_left_eq,
    List.cons.injEq] at same
  exact hex_injective same.2

namespace Cache

variable (c : Cache) {name other : Text}

theorem modify_of_dir (present : c.root.lookup name = some (.dir i tree)) :
    (c.modify name change).root = c.root.insert name (.dir i (change tree)) := by
  unfold modify
  split
  · rename_i found
    rw [present] at found
    cases found
    rfl
  all_goals rename_i found; rw [present] at found; cases found

@[simp] theorem modify_next : (c.modify name change).next = c.next := by
  unfold modify
  split <;> rfl

theorem modify_lookup_same (present : c.root.lookup name = some (.dir i tree)) :
    (c.modify name change).root.lookup name = some (.dir i (change tree)) := by
  rw [modify_of_dir c present, Finmap.lookup_insert]

@[simp] theorem modify_lookup_other (apart : other ≠ name) :
    (c.modify name change).root.lookup other = c.root.lookup other := by
  unfold modify
  split
  · exact Finmap.lookup_insert_of_ne _ apart
  all_goals rfl

/-- A file operation changes no entry but the files of one directory. -/
theorem modify_node_origin (found : (c.modify name change).root.lookup other = some node) :
    ∃ old, c.root.lookup other = some old ∧
      (node = old ∨ ∃ i before after, old = .dir i before ∧ node = .dir i after) := by
  cases present : c.root.lookup name with
  | none =>
    simp only [modify] at found
    split at found <;> simp_all
  | some held =>
    cases held with
    | dir i tree =>
      rw [modify_of_dir c present] at found
      rcases FiniteMap.lookup_insert_some.mp found with ⟨rfl, rfl⟩ | ⟨_, found⟩
      · exact ⟨_, present, .inr ⟨i, tree, _, rfl, rfl⟩⟩
      · exact ⟨_, found, .inl rfl⟩
    | file contents =>
      simp only [modify] at found
      split at found <;> simp_all

/-- A file operation below one entry gives no entry a new identity. -/
theorem modify_dir_origin (found : (c.modify name change).root.lookup other = some (.dir i tree)) :
    ∃ old, c.root.lookup other = some (.dir i old) := by
  obtain ⟨old, held, same | ⟨j, before, after, rfl, same⟩⟩ := modify_node_origin c found
  · exact ⟨tree, same ▸ held⟩
  · cases same
    exact ⟨before, held⟩

@[simp] theorem unlink_next : (c.unlink name).next = c.next := rfl

@[simp] theorem unlink_lookup_same : (c.unlink name).root.lookup name = none :=
  Finmap.lookup_erase _ _

@[simp] theorem unlink_lookup_other (apart : other ≠ name) :
    (c.unlink name).root.lookup other = c.root.lookup other :=
  Finmap.lookup_erase_ne apart

@[simp] theorem mkdir_next : (c.mkdir name).next = c.next + 1 := rfl

@[simp] theorem mkdir_lookup_same : (c.mkdir name).root.lookup name = some (.dir c.next ∅) :=
  Finmap.lookup_insert _

@[simp] theorem mkdir_lookup_other (apart : other ≠ name) :
    (c.mkdir name).root.lookup other = c.root.lookup other :=
  Finmap.lookup_insert_of_ne _ apart

/-- A rename that succeeds found its target absent or an empty directory. -/
theorem rename_cases {c : Cache} (renamed : c.rename source target = .ok d) :
    ∃ node, c.root.lookup source = some node ∧
      (c.root.lookup target = none ∨ ∃ i, c.root.lookup target = some (.dir i ∅)) ∧
      d.next = c.next ∧ d.root = (c.root.erase source).insert target node := by
  unfold rename at renamed
  split at renamed
  · cases renamed
  · rename_i node present
    refine ⟨node, present, ?_⟩
    split at renamed
    · rename_i absent
      cases renamed
      exact ⟨.inl absent, rfl, rfl⟩
    · rename_i i tree found
      by_cases bare : tree = ∅
      · subst bare
        simp only [↓reduceIte] at renamed
        cases renamed
        exact ⟨.inr ⟨i, found⟩, rfl, rfl⟩
      · simp [bare] at renamed
    · cases renamed

/-- Conversely, nothing else makes a rename fail. -/
theorem rename_ok (c : Cache) (present : c.root.lookup source = some node)
    (clear : c.root.lookup target = none ∨ ∃ i, c.root.lookup target = some (.dir i ∅)) :
    ∃ d, c.rename source target = .ok d := by
  unfold rename
  split
  · rename_i absent
    rw [present] at absent
    cases absent
  · rcases clear with absent | ⟨i, bare⟩
    · simp [absent]
    · simp [bare]

end Cache
end ImageBuilder.RootfsCache
