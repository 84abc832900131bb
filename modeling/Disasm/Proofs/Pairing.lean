import Disasm.Proofs.OffsetIndex
/-!
# An index of offsets, whatever it is offered

An index may be offered any pairs, in any order and any number of times. It
takes in the free ones and answers which they were. `Holds` says which pairs an
index holds, the same in both directions; an offer that is taken adds its own
pair (`Holds.insert`) and any other leaves the index as it was
(`insert_of_not_free`). So after any offers the index holds the pairs that were
taken (`holds_offered`), and its two directions are inverse to each other
(`insertions_pair_up`).
-/

namespace Disasm

namespace OffsetIndex

variable {index : OffsetIndex} {offset : UInt32} {place : Nat}

/-! ## One offer -/

/-- A pair that is not free is refused, and the index stays as it was. -/
theorem insert_of_not_free (h : ¬ index.Free offset place) :
    index.insert offset place = (false, index) := by
  cases hoffset : index.indexOf? offset with
  | some other =>
    have hused : index.places.contains offset = true := by
      rw [Std.TreeMap.contains_eq_isSome_getElem?, show index.places[offset]? = _ from hoffset]
      rfl
    rw [insert, hused, Bool.true_or, if_pos rfl]
  | none =>
    cases hplace : index.offsetOf? place with
    | some other =>
      have hused : index.offsets.contains place = true := by
        rw [Std.TreeMap.contains_eq_isSome_getElem?, show index.offsets[place]? = _ from hplace]
        rfl
      rw [insert, hused, Bool.or_true, if_pos rfl]
    | none => exact absurd ⟨hoffset, hplace⟩ h

/-- **The free pairs are the ones that are taken in.** -/
theorem insert_fst_eq_true_iff :
    (index.insert offset place).1 = true ↔ index.Free offset place := by
  by_cases h : index.Free offset place
  · rw [insert_of_free h]
    exact iff_of_true rfl h
  · rw [insert_of_not_free h]
    exact iff_of_false Bool.false_ne_true h

/-! ## The pairs of an index -/

/-- **The index holds the pairs**: each can be looked up from either side, and
there are no others. -/
structure Holds (index : OffsetIndex) (held : List (UInt32 × Nat)) : Prop where
  indexOf?_eq_some_iff : ∀ offset place,
    index.indexOf? offset = some place ↔ (offset, place) ∈ held
  offsetOf?_eq_some_iff : ∀ offset place,
    index.offsetOf? place = some offset ↔ (offset, place) ∈ held
  size_eq : index.size = held.length

variable {held : List (UInt32 × Nat)}

theorem holds_nil : Holds ∅ [] where
  indexOf?_eq_some_iff offset place := by simp [lists_empty.indexOf?_eq_some_iff]
  offsetOf?_eq_some_iff offset place := by simp [lists_empty.offsetOf?_eq]
  size_eq := rfl

/-- A free pair is added, and the pairs that were there stay. -/
theorem Holds.insert (h : index.Holds held) (hfree : index.Free offset place) :
    (index.insert offset place).2.Holds (held ++ [(offset, place)]) where
  indexOf?_eq_some_iff other otherPlace := by
    rw [indexOf?_insert_of_free hfree, List.mem_append, List.mem_singleton,
      ← h.indexOf?_eq_some_iff, Prod.mk.injEq]
    by_cases hoffset : offset = other
    · -- the offset was free, so it can only be found in the new pair
      subst hoffset
      simp [hfree.1, eq_comm]
    · simp [hoffset, Ne.symm hoffset]
  offsetOf?_eq_some_iff other otherPlace := by
    rw [offsetOf?_insert_of_free hfree, List.mem_append, List.mem_singleton,
      ← h.offsetOf?_eq_some_iff, Prod.mk.injEq]
    by_cases hplace : place = otherPlace
    · subst hplace
      simp [hfree.2, eq_comm]
    · simp [hplace, Ne.symm hplace]
  size_eq := by
    rw [size_insert_of_free hfree, h.size_eq, List.length_append, List.length_singleton]

/-- What an index holds, it holds in both directions. -/
theorem Holds.indexOf?_eq_some_iff_offsetOf? (h : index.Holds held) (offset : UInt32)
    (place : Nat) : index.indexOf? offset = some place ↔ index.offsetOf? place = some offset := by
  rw [h.indexOf?_eq_some_iff, h.offsetOf?_eq_some_iff]

/-! ## Any offers -/

/-- Offers pairs to an index, one after the other: its answers, and the index
then. -/
def offer (index : OffsetIndex) : List (UInt32 × Nat) → List Bool × OffsetIndex
  | [] => ([], index)
  | (offset, place) :: pairs =>
    let (taken, index) := index.insert offset place
    let (answers, index) := index.offer pairs
    (taken :: answers, index)

/-- The pairs for which the answer was yes. -/
def taken : List (UInt32 × Nat) → (answers : List Bool) → List (UInt32 × Nat)
  | pair :: pairs, true :: answers => pair :: taken pairs answers
  | _ :: pairs, false :: answers => taken pairs answers
  | _, _ => []

theorem offer_cons (index : OffsetIndex) (offset : UInt32) (place : Nat)
    (pairs : List (UInt32 × Nat)) :
    index.offer ((offset, place) :: pairs) =
      ((index.insert offset place).1 :: ((index.insert offset place).2.offer pairs).1,
        ((index.insert offset place).2.offer pairs).2) := rfl

/-- As many pairs are taken as there are answers of yes. -/
theorem length_taken_offer (index : OffsetIndex) (pairs : List (UInt32 × Nat)) :
    (taken pairs (index.offer pairs).1).length = (index.offer pairs).1.count true := by
  induction pairs generalizing index with
  | nil => rfl
  | cons pair pairs ih =>
    obtain ⟨offset, place⟩ := pair
    rw [offer_cons]
    cases (index.insert offset place).1 with
    | true => rw [taken, List.length_cons, ih, List.count_cons_self]
    | false => rw [taken, ih, List.count_cons_of_ne Bool.false_ne_true]

/-- **After any offers an index holds the pairs that were taken**, with those it
held before. -/
theorem Holds.offer (h : index.Holds held) (pairs : List (UInt32 × Nat)) :
    (index.offer pairs).2.Holds (held ++ taken pairs (index.offer pairs).1) := by
  -- the index that the rest is offered to holds one pair more or the same ones
  induction pairs generalizing index held with
  | nil => simpa [OffsetIndex.offer, taken] using h
  | cons pair pairs ih =>
    obtain ⟨offset, place⟩ := pair
    rw [offer_cons]
    by_cases hfree : index.Free offset place
    · have hrest := ih (h.insert hfree)
      rw [List.append_assoc] at hrest
      rwa [insert_fst_eq_true_iff.2 hfree]
    · rw [insert_of_not_free hfree]
      exact ih h

theorem holds_offered (pairs : List (UInt32 × Nat)) :
    ((∅ : OffsetIndex).offer pairs).2.Holds (taken pairs ((∅ : OffsetIndex).offer pairs).1) := by
  simpa using holds_nil.offer pairs

/-- **An index pairs offsets and places up, whatever it is offered.** After any
offers to an empty index an offset has a place if and only if the place has the
offset. The next offer is taken if and only if neither its offset nor its place
is in use. If it is not, the index stays as it was; if it is, its pair is added,
in both directions, and none is changed. And the size counts the offers that
were taken. -/
theorem insertions_pair_up (pairs : List (UInt32 × Nat)) {answers : List Bool}
    (h : (∅ : OffsetIndex).offer pairs = (answers, index)) :
    (∀ offset place, index.indexOf? offset = some place ↔ index.offsetOf? place = some offset) ∧
    (∀ offset place, (index.insert offset place).1 = true ↔
      index.indexOf? offset = none ∧ index.offsetOf? place = none) ∧
    (∀ offset place, (index.insert offset place).1 = false →
      (index.insert offset place).2 = index) ∧
    (∀ offset place, (index.insert offset place).1 = true →
      (∀ other otherPlace, (index.insert offset place).2.indexOf? other = some otherPlace ↔
        index.indexOf? other = some otherPlace ∨ (other, otherPlace) = (offset, place)) ∧
      (∀ other otherPlace, (index.insert offset place).2.offsetOf? otherPlace = some other ↔
        index.offsetOf? otherPlace = some other ∨ (other, otherPlace) = (offset, place)) ∧
      (index.insert offset place).2.size = index.size + 1) ∧
    index.size = answers.count true := by
  have hholds : index.Holds (taken pairs answers) := by
    simpa [h] using holds_offered pairs
  refine ⟨hholds.indexOf?_eq_some_iff_offsetOf?, fun _ _ => insert_fst_eq_true_iff, ?_, ?_, ?_⟩
  · intro offset place hrefused
    have hused : ¬ index.Free offset place := by
      rw [← insert_fst_eq_true_iff, hrefused]
      exact Bool.false_ne_true
    rw [insert_of_not_free hused]
  · intro offset place htaken
    have hfree := insert_fst_eq_true_iff.1 htaken
    have hadded := hholds.insert hfree
    refine ⟨?_, ?_, size_insert_of_free hfree⟩
    · intro other otherPlace
      rw [hadded.indexOf?_eq_some_iff, List.mem_append, List.mem_singleton,
        hholds.indexOf?_eq_some_iff]
    · intro other otherPlace
      rw [hadded.offsetOf?_eq_some_iff, List.mem_append, List.mem_singleton,
        hholds.offsetOf?_eq_some_iff]
  · rw [hholds.size_eq]
    simpa [h] using length_taken_offer ∅ pairs

/-- Four offers, of which two are taken: the third has an offset in use, the
fourth a place. What they would have paired stays free. -/
theorem insertions_pair_up_after_collisions :
    ∃ index : OffsetIndex,
      (∅ : OffsetIndex).offer [(0, 0), (3, 1), (3, 2), (5, 1)] =
        ([true, true, false, false], index) ∧
      index.size = 2 ∧ index.offsetOf? 1 = some 3 ∧
      (index.insert 5 2).2.offsetOf? 2 = some 5 := by
  have hoffered : (∅ : OffsetIndex).offer [(0, 0), (3, 1), (3, 2), (5, 1)] =
      ([true, true, false, false], ((∅ : OffsetIndex).offer [(0, 0), (3, 1), (3, 2), (5, 1)]).2) :=
    Prod.ext (by decide) rfl
  obtain ⟨hinverse, htaken, -, hadded, hsize⟩ := insertions_pair_up _ hoffered
  obtain ⟨-, hoffset, -⟩ := hadded 5 2 ((htaken 5 2).2 (by decide))
  exact ⟨_, hoffered, hsize, (hinverse 3 1).1 (by decide), (hoffset 5 2).2 (.inr rfl)⟩

end OffsetIndex

end Disasm
