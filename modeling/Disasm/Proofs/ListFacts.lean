import Mathlib.Data.List.Forall2
/-!
# Facts about lists

What the proofs use of lists that the library does not have: lists with one
more item at the end, lists that are cut at a mark or padded, and lists that
are compared item by item.
-/

namespace List

variable {α β : Type*}

/-! ## One more item -/

/-- What a list with one more item has at a place. -/
theorem getElem?_concat (items : List α) (item : α) (place : Nat) :
    (items ++ [item])[place]? = if items.length = place then some item else items[place]? := by
  split_ifs with hplace
  · rw [← hplace, getElem?_concat_length]
  · grind

section EraseDups

variable [BEq α] [LawfulBEq α] {items : List α} {item : α}

/-- An item that was there adds none. -/
theorem eraseDups_concat_of_mem (h : item ∈ items) :
    (items ++ [item]).eraseDups = items.eraseDups := by
  have hnone : [item].removeAll items = [] := by simp [removeAll, h]
  rw [eraseDups_append, hnone, eraseDups_nil, append_nil]

/-- A new one goes to the end. -/
theorem eraseDups_concat_of_notMem (h : item ∉ items) :
    (items ++ [item]).eraseDups = items.eraseDups ++ [item] := by
  have hone : [item].removeAll items = [item] := by simp [removeAll, h]
  rw [eraseDups_append, hone]
  rfl

end EraseDups

/-- What is found first stays so when there is one more item. -/
theorem find?_concat_of_some {p : α → Bool} {items : List α} {first : α}
    (h : items.find? p = some first) (item : α) : (items ++ [item]).find? p = some first := by
  rw [find?_append, h, Option.some_or]

/-! ## Marks and padding -/

/-- Lists that are the same are the same up to their first mark, and after it. -/
theorem eq_and_eq_of_append_cons {mark : α} {front front' back back' : List α}
    (hfront : mark ∉ front) (hfront' : mark ∉ front')
    (h : front ++ mark :: back = front' ++ mark :: back') : front = front' ∧ back = back' := by
  induction front generalizing front' with
  | nil =>
    cases front' with
    | nil => exact ⟨rfl, (cons.inj h).2⟩
    | cons a front' => exact absurd (by rw [(cons.inj h).1]; exact mem_cons_self) hfront'
  | cons a front ih =>
    cases front' with
    | nil => exact absurd (by rw [← (cons.inj h).1]; exact mem_cons_self) hfront
    | cons a' front' =>
      obtain ⟨rfl, hrest⟩ := cons.inj h
      obtain ⟨rfl, hback⟩ :=
        ih (not_mem_of_not_mem_cons hfront) (not_mem_of_not_mem_cons hfront') hrest
      exact ⟨rfl, hback⟩

/-- What is padded has no other items than before and the padding. -/
theorem eq_or_mem_of_mem_leftpad {a pad : α} {width : Nat} {items : List α}
    (h : a ∈ items.leftpad width pad) : a = pad ∨ a ∈ items := by
  rcases mem_append.1 h with h | h
  · exact .inl (eq_of_mem_replicate h)
  · exact .inr h

theorem map_leftpad (f : α → β) (width : Nat) (pad : α) (items : List α) :
    (items.leftpad width pad).map f = (items.map f).leftpad width (f pad) := by
  rw [leftpad, leftpad, map_append, map_replicate, length_map]

/-- Lists with a mark between each two of them are the first, and the others
with a mark before each. -/
theorem intercalate_singleton_cons (mark : α) (first : List α) (others : List (List α)) :
    [mark].intercalate (first :: others) = first ++ others.flatMap (mark :: ·) := by
  induction others generalizing first with
  | nil => rw [intercalate_singleton, flatMap_nil, append_nil]
  | cons second others ih =>
    rw [intercalate_cons_cons, ih, flatMap_cons, append_assoc, singleton_append, cons_append]

/-! ## Item by item -/

/-- Counting items is counting their places. -/
theorem countP_eq_countP_range {p : α → Bool} {q : Nat → Bool} {items : List α}
    (h : ∀ (i : Nat) (item : α), items[i]? = some item → p item = q i) :
    items.countP p = (range items.length).countP q := by
  induction items generalizing q with
  | nil => rfl
  | cons item items ih =>
    have hrest := ih fun i other hother => h (i + 1) other hother
    rw [length_cons, range_succ_eq_map, countP_cons, countP_cons, countP_map, hrest, h 0 item rfl]
    rfl

/-- What looks at no more than `erase` leaves is the same for items that are the
same after it. -/
theorem map_eq_of_map_eq {erase : α → α} {items others : List α}
    (h : items.map erase = others.map erase) {f : α → β}
    (hf : ∀ item, f (erase item) = f item) : items.map f = others.map f := by
  have herase : ∀ items : List α, (items.map erase).map f = items.map f := by
    intro items
    rw [map_map]
    exact map_congr_left fun item _ => hf item
  rw [← herase, h, herase]

/-- Lists are mapped alike exactly if their items are, one by one. -/
theorem map_eq_map_iff_forall₂ {f : α → β} {items others : List α} :
    items.map f = others.map f ↔ Forall₂ (fun a b => f a = f b) items others := by
  rw [← forall₂_eq_eq_eq, forall₂_map_left_iff, forall₂_map_right_iff]

end List
