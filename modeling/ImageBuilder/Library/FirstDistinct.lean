import Mathlib.Data.List.Nodup

/-! The first few distinct entries of a list, in order of first appearance. -/
namespace FirstDistinct

variable {α : Type} [DecidableEq α]

def firstDistinct (n : Nat) (xs : List α) : List α := xs.eraseDups.take n

theorem nodup_eraseDups (xs : List α) : xs.eraseDups.Nodup := by
  induction h : xs.length using Nat.strongRecOn generalizing xs with
  | ind n ih =>
    cases xs with
    | nil => simp
    | cons x xs =>
      have shorter : (xs.filter (fun y => !y == x)).length < n := by
        have := List.length_filter_le (fun y => !y == x) xs
        simp only [List.length_cons] at h
        omega
      rw [List.eraseDups_cons, List.nodup_cons]
      refine ⟨?_, ih _ shorter _ rfl⟩
      simp [List.mem_eraseDups]

theorem eraseDups_of_nodup {xs : List α} (distinct : xs.Nodup) : xs.eraseDups = xs := by
  induction xs with
  | nil => simp
  | cons x xs ih =>
    obtain ⟨fresh, distinct⟩ := List.nodup_cons.mp distinct
    have kept : xs.filter (fun y => !y == x) = xs := by
      rw [List.filter_eq_self]
      intro y member
      simp only [Bool.not_eq_true', beq_eq_false_iff_ne]
      rintro rfl
      exact fresh member
    rw [List.eraseDups_cons, kept, ih distinct]

/-- An entry seen before adds nothing. -/
theorem eraseDups_repeat {x : α} {xs : List α} (seen : x ∈ xs) (ys : List α) :
    (xs ++ x :: ys).eraseDups = (xs ++ ys).eraseDups := by
  have dropped : (x :: ys).removeAll xs = ys.removeAll xs := by
    simp [List.removeAll, seen]
  rw [List.eraseDups_append, dropped, ← List.eraseDups_append]

theorem firstDistinct_repeat {x : α} {xs : List α} (seen : x ∈ xs) (n : Nat) (ys : List α) :
    firstDistinct n (xs ++ x :: ys) = firstDistinct n (xs ++ ys) := by
  rw [firstDistinct, eraseDups_repeat seen, firstDistinct]

/-- Entries after the last one that counts are not looked at. -/
theorem firstDistinct_full {n : Nat} {xs : List α} (full : n ≤ xs.eraseDups.length) (ys : List α) :
    firstDistinct n (xs ++ ys) = firstDistinct n xs := by
  rw [firstDistinct, List.eraseDups_append, List.take_append_of_le_length full, firstDistinct]

theorem firstDistinct_nodup (n : Nat) (xs : List α) : (firstDistinct n xs).Nodup :=
  (nodup_eraseDups xs).sublist (List.take_sublist _ _)

theorem firstDistinct_length_le (n : Nat) (xs : List α) : (firstDistinct n xs).length ≤ n :=
  List.length_take_le _ _

theorem mem_of_mem_firstDistinct {n : Nat} {x : α} {xs : List α} (member : x ∈ firstDistinct n xs) :
    x ∈ xs :=
  List.mem_eraseDups.mp (List.mem_of_mem_take member)

/-- An entry is among the first distinct ones when fewer come before it. -/
theorem mem_firstDistinct_iff {n : Nat} {x : α} {xs : List α} : x ∈ firstDistinct n xs ↔
    ∃ before after, xs = before ++ x :: after ∧ before.eraseDups.length < n := by
  constructor
  · intro member
    obtain ⟨before, after, rfl, fresh⟩ := List.eq_append_cons_of_mem (mem_of_mem_firstDistinct member)
    refine ⟨before, after, rfl, Nat.lt_of_not_le fun full => ?_⟩
    rw [firstDistinct_full full] at member
    exact fresh (mem_of_mem_firstDistinct member)
  · rintro ⟨before, after, rfl, few⟩
    rw [firstDistinct, List.eraseDups_append, List.take_append, List.take_of_length_le (Nat.le_of_lt few)]
    by_cases seen : x ∈ before
    · exact List.mem_append_left _ (List.mem_eraseDups.mpr seen)
    · have kept : (x :: after).removeAll before = x :: after.removeAll before := by
        simp [List.removeAll, seen]
      obtain ⟨room, eq⟩ : ∃ room, n - before.eraseDups.length = room + 1 :=
        ⟨n - before.eraseDups.length - 1, by omega⟩
      rw [kept, List.eraseDups_cons, eq, List.take_succ_cons]
      exact List.mem_append_right _ List.mem_cons_self

/-- A short list without repetitions is kept as it is. -/
theorem firstDistinct_of_nodup {n : Nat} {xs : List α} (distinct : xs.Nodup)
    (short : xs.length ≤ n) : firstDistinct n xs = xs := by
  rw [firstDistinct, eraseDups_of_nodup distinct, List.take_of_length_le short]

/-- One pass that collects what `wanted` admits and stops at `n` entries. -/
def collect (wanted : α → Bool) (n : Nat) (kept : List α) : List α → List α
  | [] => kept
  | x :: xs =>
    if wanted x then
      let kept := if x ∈ kept then kept else kept ++ [x]
      if kept.length = n then kept else collect wanted n kept xs
    else collect wanted n kept xs

/-- The pass finds the first distinct entries that are wanted. -/
theorem collect_eq (wanted : α → Bool) {n : Nat} {kept : List α} (distinct : kept.Nodup)
    (short : kept.length < n) (xs : List α) :
    collect wanted n kept xs = firstDistinct n (kept ++ xs.filter wanted) := by
  induction xs generalizing kept with
  | nil =>
    rw [collect, List.filter_nil, List.append_nil]
    exact (firstDistinct_of_nodup distinct (Nat.le_of_lt short)).symm
  | cons x xs ih =>
    by_cases admitted : wanted x
    · rw [List.filter_cons_of_pos admitted]
      simp only [collect, admitted, ↓reduceIte]
      by_cases seen : x ∈ kept
      · have room : kept.length ≠ n := by omega
        simp only [seen, ↓reduceIte, room]
        rw [ih distinct short, firstDistinct_repeat seen]
      · have longer : (kept ++ [x]).Nodup := by simpa using distinct.concat seen
        have grouped : kept ++ x :: xs.filter wanted = (kept ++ [x]) ++ xs.filter wanted := by simp
        simp only [seen, ↓reduceIte]
        rw [grouped]
        by_cases reached : (kept ++ [x]).length = n
        · have full : n ≤ (kept ++ [x]).eraseDups.length := by
            rw [eraseDups_of_nodup longer]
            exact Nat.le_of_eq reached.symm
          rw [if_pos reached, firstDistinct_full full,
            firstDistinct_of_nodup longer (Nat.le_of_eq reached)]
        · have room : (kept ++ [x]).length < n := by
            simp only [List.length_append, List.length_singleton] at reached ⊢
            omega
          rw [if_neg reached, ih longer room]
    · rw [List.filter_cons_of_neg admitted]
      simp only [collect, admitted, Bool.false_eq_true, ↓reduceIte]
      exact ih distinct short

end FirstDistinct
