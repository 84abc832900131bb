import Disasm.OffsetIndex
import Disasm.Proofs.ListFacts
import Mathlib.Tactic.SplitIfs
/-!
# What an index of offsets holds

A pair is free if neither its offset nor its place is in use. A free pair is
taken in, and it changes the answers for its own offset and place only. An
index lists offsets if it pairs each with its place in the list and holds no
other pair, in either direction; an offset that is not in the list can then
be added at its end (`Lists.insert`).
-/

namespace Disasm

namespace OffsetIndex

variable {index : OffsetIndex} {offset : UInt32} {place : Nat} {offsets : List UInt32}

/-! ## Taking a pair in -/

/-- Neither the offset nor the place is in use. -/
def Free (index : OffsetIndex) (offset : UInt32) (place : Nat) : Prop :=
  index.indexOf? offset = none ∧ index.offsetOf? place = none

/-- An offset is in use if it has a place. -/
theorem contains_places_eq_false (h : index.indexOf? offset = none) :
    index.places.contains offset = false := by
  rw [Std.TreeMap.contains_eq_isSome_getElem?, show index.places[offset]? = none from h]
  rfl

/-- And a place if it has an offset. -/
theorem contains_offsets_eq_false (h : index.offsetOf? place = none) :
    index.offsets.contains place = false := by
  rw [Std.TreeMap.contains_eq_isSome_getElem?, show index.offsets[place]? = none from h]
  rfl

/-- A free pair is taken in, in both directions. -/
theorem insert_of_free (h : index.Free offset place) :
    index.insert offset place =
      (true, ⟨index.places.insert offset place, index.offsets.insert place offset⟩) := by
  rw [insert, contains_places_eq_false h.1, contains_offsets_eq_false h.2]
  rfl

theorem indexOf?_insert_of_free (h : index.Free offset place) (other : UInt32) :
    (index.insert offset place).2.indexOf? other =
      if offset = other then some place else index.indexOf? other := by
  rw [insert_of_free h]
  simp [indexOf?, Std.TreeMap.getElem?_insert]

theorem offsetOf?_insert_of_free (h : index.Free offset place) (other : Nat) :
    (index.insert offset place).2.offsetOf? other =
      if place = other then some offset else index.offsetOf? other := by
  rw [insert_of_free h]
  simp [offsetOf?, Std.TreeMap.getElem?_insert]

theorem size_insert_of_free (h : index.Free offset place) :
    (index.insert offset place).2.size = index.size + 1 := by
  rw [insert_of_free h]
  simp [size, Std.TreeMap.size_insert, contains_places_eq_false h.1]

/-! ## Listing offsets -/

/-- **The index lists the offsets**: it pairs each with its place in the list,
and holds no other pair. -/
structure Lists (index : OffsetIndex) (offsets : List UInt32) : Prop where
  indexOf?_eq_some_iff : ∀ offset place,
    index.indexOf? offset = some place ↔ offsets[place]? = some offset
  offsetOf?_eq : ∀ place, index.offsetOf? place = offsets[place]?
  size_eq : index.size = offsets.length

theorem lists_empty : Lists ∅ [] where
  indexOf?_eq_some_iff offset place := by
    show (∅ : Std.TreeMap UInt32 Nat)[offset]? = some place ↔ _
    simp
  offsetOf?_eq place := by
    show (∅ : Std.TreeMap Nat UInt32)[place]? = _
    simp
  size_eq := rfl

/-- An offset that is not listed is free, at the place after the list. -/
theorem Lists.free (h : index.Lists offsets) (hnew : offset ∉ offsets) :
    index.Free offset offsets.length := by
  constructor
  · rw [Option.eq_none_iff_forall_ne_some]
    intro place hplace
    exact hnew (List.mem_of_getElem? ((h.indexOf?_eq_some_iff offset place).1 hplace))
  · rw [h.offsetOf?_eq, List.getElem?_eq_none (Nat.le_refl _)]

/-- **And is taken in there**, at the end of the list. -/
theorem Lists.insert (h : index.Lists offsets) (hnew : offset ∉ offsets) :
    (index.insert offset offsets.length).1 = true ∧
      (index.insert offset offsets.length).2.Lists (offsets ++ [offset]) := by
  have hfree := h.free hnew
  refine ⟨by rw [insert_of_free hfree], ?_, ?_, ?_⟩
  · intro other place
    rw [indexOf?_insert_of_free hfree, List.getElem?_concat]
    by_cases hother : offset = other
    · subst hother
      rw [if_pos rfl, Option.some.injEq]
      split_ifs with hplace
      · exact iff_of_true hplace rfl
      · exact iff_of_false hplace fun hget => hnew (List.mem_of_getElem? hget)
    · rw [if_neg hother, h.indexOf?_eq_some_iff]
      split_ifs with hplace
      · rw [← hplace, List.getElem?_eq_none (Nat.le_refl _), Option.some.injEq]
        exact iff_of_false (by simp) hother
      · exact Iff.rfl
  · intro place
    rw [offsetOf?_insert_of_free hfree, h.offsetOf?_eq, List.getElem?_concat]
  · rw [size_insert_of_free hfree, h.size_eq, List.length_append, List.length_singleton]

end OffsetIndex

end Disasm
