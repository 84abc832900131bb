import Disasm.Proofs.OpCodeTable
import Mathlib.Data.Finset.Card
/-!
# What a table holds

Opcodes can be entered into a table at any time, many at once, and an entry
takes the place of an earlier one for its byte. What counts in the end is all
that was entered, in order: an opcode survives if no other was entered for its
byte after it. The table answers with the survivors, lists them in the order
of their bytes, counts one for each byte that was ever entered, and finds by
name the survivor with the least byte.
-/

namespace Disasm

/-- **An opcode survives** if it was entered, and none for its byte after it. -/
def OpCode.Survives (opcode : OpCode) (entered : List OpCode) : Prop :=
  ∃ before after, entered = before ++ opcode :: after ∧ ∀ later ∈ after, later.byte ≠ opcode.byte

namespace OpCodeTable

variable {table : OpCodeTable} {entered : List OpCode} {opcode : OpCode} {byte : UInt8}

/-! ## Answers -/

/-- The last opcode entered for a byte is the survivor. -/
theorem get?_extend_empty_eq_some_iff :
    (empty.extend entered).get? byte = some opcode ↔
      opcode.Survives entered ∧ opcode.byte = byte := by
  rw [get?_extend, get?_empty, Option.or_none, List.find?_eq_some_iff_append]
  constructor
  · rintro ⟨hbyte, after, before, hreverse, hafter⟩
    obtain rfl : opcode.byte = byte := eq_of_beq hbyte
    refine ⟨⟨before.reverse, after.reverse, ?_, ?_⟩, rfl⟩
    · rw [← List.reverse_reverse entered, hreverse]
      simp
    · intro later hlater
      simpa using hafter later (List.mem_reverse.1 hlater)
  · rintro ⟨⟨before, after, rfl, hafter⟩, rfl⟩
    refine ⟨beq_self_eq_true _, after.reverse, before.reverse, by simp, ?_⟩
    intro later hlater
    simpa using hafter later (List.mem_reverse.1 hlater)

/-- A byte for which none was entered has no answer, and no other byte. -/
theorem get?_extend_empty_eq_none_iff :
    (empty.extend entered).get? byte = none ↔ ∀ opcode ∈ entered, opcode.byte ≠ byte := by
  rw [get?_extend, get?_empty, Option.or_none, List.find?_eq_none]
  simp

/-! ## Listing -/

/-- The slots in their order are the answers for the bytes in theirs. -/
theorem getElem_slots_eq_some (h : table.Coherent) {i : Nat} (hi : i < table.slots.toList.length)
    (hslot : table.slots.toList[i] = some opcode) : opcode.byte.toNat = i := by
  have hlt : i < 256 := by simpa using hi
  have hbyte : (UInt8.ofNat i).toNat = i := UInt8.toNat_ofNat_of_lt' hlt
  have hget : table.get? (UInt8.ofNat i) = some opcode := by
    rw [get?_eq_getElem _ _ (UInt8.toNat_lt _)]
    simpa [hbyte] using hslot
  rw [h _ _ hget, hbyte]

/-- A table lists the opcodes that it answers with. -/
theorem mem_toList_iff (h : table.Coherent) :
    opcode ∈ table.toList ↔ table.get? opcode.byte = some opcode := by
  rw [toList, List.mem_filterMap]
  constructor
  · rintro ⟨slot, hmem, rfl : slot = some opcode⟩
    obtain ⟨i, hi, hslot⟩ := List.getElem_of_mem hmem
    have hbyte := getElem_slots_eq_some h hi hslot
    rw [get?_eq_getElem _ _ opcode.byte.toNat_lt]
    simpa [hbyte] using hslot
  · intro hget
    rw [get?_eq_getElem _ _ opcode.byte.toNat_lt] at hget
    exact ⟨some opcode, Vector.mem_toList_iff.2 (hget ▸ Vector.getElem_mem _), rfl⟩

/-- It lists them in the order of their bytes. -/
theorem pairwise_toList (h : table.Coherent) :
    table.toList.Pairwise fun left right => left.byte < right.byte := by
  rw [toList, List.pairwise_filterMap, List.pairwise_iff_getElem]
  intro i j hi hj hij left hleft right hright
  have hi := getElem_slots_eq_some h hi hleft
  have hj := getElem_slots_eq_some h hj hright
  rw [UInt8.lt_iff_toNat_lt]
  omega

/-- **A table that was built up lists the survivors.** -/
theorem mem_toList_extend_empty_iff :
    opcode ∈ (empty.extend entered).toList ↔ opcode.Survives entered := by
  rw [mem_toList_iff (coherent_empty.extend entered), get?_extend_empty_eq_some_iff,
    and_iff_left rfl]

/-! ## Counting -/

/-- As many opcodes are listed as there are bytes with an answer. -/
theorem size_eq_card (h : table.Coherent) {bytes : Finset UInt8}
    (hbytes : ∀ byte, byte ∈ bytes ↔ table.get? byte ≠ none) : table.size = bytes.card := by
  have hnodup : (table.toList.map OpCode.byte).Nodup := by
    refine (pairwise_toList h).map _ ?_
    intro left right hlt
    exact UInt8.ne_of_lt hlt
  have hsame : (table.toList.map OpCode.byte).toFinset = bytes := by
    ext byte
    rw [List.mem_toFinset, List.mem_map, hbytes, Option.ne_none_iff_exists']
    constructor
    · rintro ⟨opcode, hmem, rfl⟩
      exact ⟨opcode, (mem_toList_iff h).1 hmem⟩
    · rintro ⟨opcode, hget⟩
      obtain rfl := h _ _ hget
      exact ⟨opcode, (mem_toList_iff h).2 hget, rfl⟩
  rw [← hsame, List.toFinset_card_of_nodup hnodup, List.length_map, size]

/-! ## Finding by name -/

theorem name_of_find?_eq_some {name : String} (hfound : table.find? name = some opcode) :
    opcode.name = name := by
  have hname := List.find?_some hfound
  exact eq_of_beq hname

/-- No opcode of the name has a lesser byte than the one that is found, since
the list is in order. -/
theorem le_of_find?_eq_some (h : table.Coherent) {name : String} {other : OpCode}
    (hfound : table.find? name = some opcode) (hmem : other ∈ table.toList)
    (hname : other.name = name) : opcode.byte ≤ other.byte := by
  obtain ⟨-, before, after, hlist, hbefore⟩ := List.find?_eq_some_iff_append.1 hfound
  have hsorted := pairwise_toList h
  rw [hlist] at hmem hsorted
  rcases List.mem_append.1 hmem with hmem | hmem
  · have hother := hbefore other hmem
    simp [hname] at hother
  · rcases List.mem_cons.1 hmem with rfl | hmem
    · exact UInt8.le_refl _
    · have hafter := (List.pairwise_cons.1 (List.pairwise_append.1 hsorted).2.1).1
      exact UInt8.le_of_lt (hafter other hmem)

/-- **The opcode found by name is the one with the least byte.** -/
theorem find?_eq_some_iff (h : table.Coherent) {name : String} :
    table.find? name = some opcode ↔
      opcode ∈ table.toList ∧ opcode.name = name ∧
        ∀ other ∈ table.toList, other.name = name → opcode.byte ≤ other.byte := by
  constructor
  · intro hfound
    exact ⟨List.mem_of_find?_eq_some hfound, name_of_find?_eq_some hfound,
      fun _ => le_of_find?_eq_some h hfound⟩
  · rintro ⟨hmem, hname, hleast⟩
    have hsome : (table.find? name).isSome := by
      rw [find?, List.find?_isSome]
      exact ⟨opcode, hmem, beq_iff_eq.2 hname⟩
    obtain ⟨found, hfound⟩ := Option.isSome_iff_exists.1 hsome
    have hlisted := List.mem_of_find?_eq_some hfound
    -- two opcodes of the table with one byte are the same
    have hbyte : found.byte = opcode.byte :=
      UInt8.le_antisymm (le_of_find?_eq_some h hfound hmem hname)
        (hleast found hlisted (name_of_find?_eq_some hfound))
    have hget := (mem_toList_iff h).1 hlisted
    rw [hbyte, (mem_toList_iff h).1 hmem] at hget
    rw [hfound, hget]

theorem find?_eq_none_iff {name : String} :
    table.find? name = none ↔ ∀ opcode ∈ table.toList, opcode.name ≠ name := by
  rw [find?, List.find?_eq_none]
  simp

/-! ## Many lists -/

/-- Entering lists one after the other is entering all of them. -/
theorem foldl_extend (table : OpCodeTable) (lists : List (List OpCode)) :
    lists.foldl extend table = table.extend lists.flatten := by
  rw [extend, List.foldl_flatten]
  rfl

/-- **The last entry for a byte wins, and all views tell so.** Let lists of
opcodes be entered into the free table, one after the other. A byte has the
last opcode entered for it as its answer, and none if none was entered. The
opcodes listed are those that survive, with increasing bytes. There are as
many as bytes that were ever entered. A name is found at the survivor with the
least byte of those that have it, and is not found exactly if every entry of
the name was replaced by a later one. -/
theorem last_entry_wins (lists : List (List OpCode)) :
    let table := lists.foldl extend empty
    let entered := lists.flatten
    (∀ byte opcode, table.get? byte = some opcode ↔
      opcode.Survives entered ∧ opcode.byte = byte) ∧
    (∀ byte, table.get? byte = none ↔ ∀ opcode ∈ entered, opcode.byte ≠ byte) ∧
    (∀ opcode, opcode ∈ table.toList ↔ opcode.Survives entered) ∧
    (table.toList.Pairwise fun left right => left.byte < right.byte) ∧
    table.size = (entered.map OpCode.byte).toFinset.card ∧
    (∀ name opcode, table.find? name = some opcode ↔
      opcode.Survives entered ∧ opcode.name = name ∧
        ∀ other : OpCode, other.Survives entered → other.name = name →
          opcode.byte ≤ other.byte) ∧
    (∀ name, table.find? name = none ↔
      ∀ before opcode after, entered = before ++ opcode :: after → opcode.name = name →
        ∃ later ∈ after, later.byte = opcode.byte) := by
  intro table entered
  have htable : table = empty.extend entered := foldl_extend empty lists
  have hcoherent : table.Coherent := htable ▸ coherent_empty.extend entered
  have hmem : ∀ opcode, opcode ∈ table.toList ↔ opcode.Survives entered := by
    intro opcode
    rw [htable, mem_toList_extend_empty_iff]
  have hnone : ∀ byte, table.get? byte = none ↔ ∀ opcode ∈ entered, opcode.byte ≠ byte := by
    intro byte
    rw [htable, get?_extend_empty_eq_none_iff]
  refine ⟨?_, hnone, hmem, pairwise_toList hcoherent, ?_, ?_, ?_⟩
  · intro byte opcode
    rw [htable, get?_extend_empty_eq_some_iff]
  · refine size_eq_card hcoherent fun byte => ?_
    simp [hnone]
  · intro name opcode
    simp only [find?_eq_some_iff hcoherent, hmem]
  · intro name
    rw [find?_eq_none_iff]
    constructor
    · intro hgone before opcode after hentered hname
      by_contra hlast
      have hsurvives : opcode.Survives entered :=
        ⟨before, after, hentered, fun later hlater hbyte => hlast ⟨later, hlater, hbyte⟩⟩
      exact hgone opcode ((hmem opcode).2 hsurvives) hname
    · intro hreplaced opcode hlisted hname
      obtain ⟨before, after, hentered, hlast⟩ := (hmem opcode).1 hlisted
      obtain ⟨later, hlater, hbyte⟩ := hreplaced before opcode after hentered hname
      exact hlast later hlater hbyte

-- of three entries for one name, two are replaced, one of them by the other
example :
    let table := [[⟨7, "PUSH", "", .nullary⟩, ⟨7, "PUSH", "again", .nullary⟩],
      [⟨9, "PUSH", "", .nullary⟩, ⟨7, "POP", "", .nullary⟩]].foldl extend empty
    (table.find? "PUSH").map OpCode.byte = some 9 ∧ table.size = 2 := by
  decide +kernel

end OpCodeTable

end Disasm
