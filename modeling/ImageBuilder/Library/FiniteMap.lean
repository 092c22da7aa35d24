import Mathlib.Data.Finmap

/-! Finite maps with a constant value type, ordered by inclusion of their graphs. -/

abbrev FiniteMap (K V : Type) := Finmap (fun _ : K => V)

namespace FiniteMap

variable {K V : Type} [DecidableEq K]

/-- Every binding of `s` is a binding of `t`. -/
def Sub (s t : FiniteMap K V) : Prop := ∀ k v, s.lookup k = some v → t.lookup k = some v

theorem Sub.refl (s : FiniteMap K V) : Sub s s := fun _ _ h => h

theorem Sub.trans {s t u : FiniteMap K V} (first : Sub s t) (second : Sub t u) : Sub s u :=
  fun k v h => second k v (first k v h)

theorem lookup_erase_some {s : FiniteMap K V} {k j : K} {v : V} :
    (s.erase j).lookup k = some v ↔ k ≠ j ∧ s.lookup k = some v := by
  by_cases same : k = j
  · subst same; simp
  · simp [Finmap.lookup_erase_ne same, same]

theorem lookup_insert_some {s : FiniteMap K V} {k j : K} {v w : V} :
    (s.insert j w).lookup k = some v ↔ (k = j ∧ v = w) ∨ (k ≠ j ∧ s.lookup k = some v) := by
  by_cases same : k = j
  · subst same; simp [eq_comm]
  · simp [Finmap.lookup_insert_of_ne _ same, same]

theorem Sub.erase (s : FiniteMap K V) (k : K) : Sub (s.erase k) s :=
  fun _ _ h => (lookup_erase_some.mp h).2

theorem Sub.insert {s : FiniteMap K V} (absent : s.lookup k = none) (v : V) :
    Sub s (s.insert k v) := by
  refine fun j w present => lookup_insert_some.mpr (.inr ⟨?_, present⟩)
  rintro rfl
  rw [absent] at present
  cases present

theorem erase_insert (s : FiniteMap K V) (k : K) (v : V) : (s.insert k v).erase k = s.erase k := by
  apply Finmap.ext_lookup
  intro j
  by_cases same : j = k
  · subst same; simp
  · simp [Finmap.lookup_erase_ne same, Finmap.lookup_insert_of_ne _ same]

theorem insert_erase (s : FiniteMap K V) (k : K) (v : V) : (s.erase k).insert k v = s.insert k v := by
  apply Finmap.ext_lookup
  intro j
  by_cases same : j = k
  · subst same; simp
  · simp [Finmap.lookup_erase_ne same, Finmap.lookup_insert_of_ne _ same]

theorem erase_absent {s : FiniteMap K V} (absent : s.lookup k = none) : s.erase k = s := by
  apply Finmap.ext_lookup
  intro j
  by_cases same : j = k
  · subst same; simp [absent]
  · exact Finmap.lookup_erase_ne same

theorem insert_present {s : FiniteMap K V} (present : s.lookup k = some v) : s.insert k v = s := by
  apply Finmap.ext_lookup
  intro j
  by_cases same : j = k
  · subst same; simp [present]
  · exact Finmap.lookup_insert_of_ne _ same

theorem eq_empty_iff {s : FiniteMap K V} : s = ∅ ↔ ∀ k, s.lookup k = none := by
  constructor
  · rintro rfl k; simp
  · intro h
    apply Finmap.ext_lookup
    intro k
    rw [h k, Finmap.lookup_empty]

/-- A map with a binding is not empty. -/
theorem ne_empty_of_lookup {s : FiniteMap K V} (h : s.lookup k = some v) : s ≠ ∅ := by
  rintro rfl
  simp at h

end FiniteMap
