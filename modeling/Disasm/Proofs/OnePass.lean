import Disasm.Proofs.ErrorLocation
import Disasm.Proofs.Linking
/-!
# Decoding in one pass

The two passes of decoding can be made one: each instruction is linked as soon
as it is cut off, before the next one is looked at. `decodeInOnePass` does so
and keeps a record of what the dialect was shown, also where decoding fails
later on. Its outcome is that of `decode`, and its record the visits of the
instructions up to the end or to the place of the error: an error of cutting
comes before the visit it prevents, and linking never fails.
-/

namespace Disasm

open Operand (written)
open Instruction (bare)

section

variable (dialect : Dialect) (settings : Settings)

/-- The instructions from `pos` on, each linked as soon as it is cut off, in at
most `steps` steps; with the visits. -/
def passFrom (code : Code) : (steps pos : Nat) → Linked → List Visit × Except DecodeError Linked
  | steps, pos, linked =>
    if pos < code.size then
      match steps with
      | 0 => ([], .error (.trap .stalled))
      | steps + 1 =>
        match cutOne dialect settings code pos linked.instructions.size with
        | .error e => ([], .error e)
        | .ok (instruction, next) =>
          let visit := linked.index.visit instruction
          let (visits, outcome) := passFrom code steps next
            ⟨linked.instructions.push (visit.linked dialect settings), visit.index⟩
          (visit :: visits, outcome)
    else ([], .ok linked)

/-- **The instructions of the code, in one pass**, with what the dialect was
shown on the way. -/
def decodeInOnePass (code : Code) : List Visit × Except DecodeError Disassembly :=
  if UInt32.size ≤ code.size then ([], .error (.streamTooLarge code.size))
  else
    let (visits, outcome) := passFrom dialect settings code code.size 0 {}
    (visits, outcome.map fun linked =>
      let d : Disassembly :=
        { instructions := linked.instructions.toList, index := linked.index }
      if settings.resolveForwardJumps then d.resolvePendingJumps.2 else d)

end

variable {dialect : Dialect} {settings : Settings} {code : Code}
variable {pos number : Nat} {front rest : List UInt8} {instructions : List Instruction}

/-! ## The pass goes through what is cut -/

/-- At the end of the code the pass is done. -/
theorem passFrom_of_size_le (h : code.size ≤ pos) (steps : Nat) (linked : Linked) :
    passFrom dialect settings code steps pos linked = ([], .ok linked) := by
  cases steps <;> rw [passFrom.eq_def] <;> exact if_neg (by omega)

/-- Where the bytes are stuck it stops, with no visit more. -/
theorem passFrom_of_stuck {e : DecodeError} (hcode : code.size < UInt32.size) (steps : Nat)
    {linked : Linked} (hlinked : linked.instructions.size = number)
    (hbytes : code.toList.drop pos = rest) (h : Stuck dialect settings pos number rest e) :
    passFrom dialect settings code (steps + 1) pos linked = ([], .error e) := by
  have hlen := code.length_drop pos
  have hpos := h.length_pos
  rw [hbytes] at hlen
  have hone := cutOne_of_stuck hcode hbytes h
  rw [passFrom, if_pos (by omega), hlinked, hone]

/-- **The pass goes through bytes that are cut**, one visit for each
instruction, and goes on from there with the instructions linked. -/
theorem passFrom_of_cuts (hcode : code.size < UInt32.size)
    (h : Cuts dialect settings pos number front instructions) {steps : Nat} {linked : Linked}
    (hlinked : linked.instructions.size = number)
    (hbytes : code.toList.drop pos = front ++ rest)
    {more : List Visit} {outcome : Except DecodeError Linked}
    (hrest : passFrom dialect settings code steps (pos + front.length)
      (instructions.foldl (linkOne dialect settings) linked) = (more, outcome)) :
    passFrom dialect settings code (steps + instructions.length) pos linked =
      (visits linked.index instructions ++ more, outcome) := by
  -- what is linked grows with each instruction, so it is general; its size is the next number
  induction h generalizing linked with
  | nil => exact hrest
  | @cons pos number byte opcode operand bytes instructions hlimit hop hfits _ ih =>
    obtain ⟨hpos, hone, hnext⟩ := cutOne_of_drop hcode hbytes hlimit hop hfits
    have hsize : (linkOne dialect settings linked
        { number, offset := UInt32.ofNat pos, opcode, operand }).instructions.size =
        number + 1 := by
      rw [linkOne_eq, Array.size_push, hlinked]
    have hend : pos + 1 + (written operand).length + bytes.length =
        pos + (byte :: (written operand ++ bytes)).length := by
      simp only [List.length_cons, List.length_append]
      omega
    rw [← hend] at hrest
    have htail := ih hsize hnext hrest
    rw [linkOne_eq] at htail
    rw [List.length_cons, ← Nat.add_assoc, passFrom, if_pos hpos, hlinked, hone]
    simp only [htail]
    rfl

/-! ## One pass is as good as two -/

/-- Where the bytes are cut to their end there is a visit for every
instruction, and the pass succeeds. -/
theorem decodeInOnePass_of_cuts (hcode : code.size < UInt32.size)
    (h : Cuts dialect settings 0 0 code.toList instructions) :
    decodeInOnePass dialect settings code =
      (visits ∅ instructions, .ok (finish dialect settings instructions)) := by
  have hle : instructions.length ≤ code.size := h.length_le
  have hpass := passFrom_of_cuts hcode h (show ({} : Linked).instructions.size = 0 from rfl)
    (show code.toList.drop 0 = code.toList ++ [] by simp)
    (passFrom_of_size_le (by simp) (code.size - instructions.length) _)
  rw [Nat.sub_add_cancel hle, List.append_nil] at hpass
  rw [decodeInOnePass, if_neg (by omega), hpass]
  rfl

/-- Where they are stuck there is a visit for every instruction before, and the
pass fails. -/
theorem decodeInOnePass_of_stuck {e : DecodeError} (hcode : code.size < UInt32.size)
    (hbytes : code.toList = front ++ rest)
    (h : Cuts dialect settings 0 0 front instructions)
    (hstuck : Stuck dialect settings front.length instructions.length rest e) :
    decodeInOnePass dialect settings code = (visits ∅ instructions, .error e) := by
  have hle := h.length_le
  have hpos := hstuck.length_pos
  have hlen := Code.size_of_append hbytes
  -- the bytes left over pay for the step that fails
  obtain ⟨steps, hsteps⟩ : ∃ steps, code.size = steps + 1 + instructions.length :=
    ⟨code.size - instructions.length - 1, by omega⟩
  have hstop := passFrom_of_stuck hcode steps (size_foldl_linkOne dialect settings instructions)
    (show code.toList.drop front.length = rest by rw [hbytes, List.drop_left]) hstuck
  rw [← Nat.zero_add front.length] at hstop
  have hpass := passFrom_of_cuts hcode h (show ({} : Linked).instructions.size = 0 from rfl)
    (show code.toList.drop 0 = front ++ rest by simpa using hbytes) hstop
  rw [← hsteps, List.append_nil] at hpass
  rw [decodeInOnePass, if_neg (by omega), hpass]
  rfl

/-! ## How far decoding gets -/

/-- **Decoding gets as far as `stop`**, and `before` is what is decoded up to
there. -/
structure GetsTo (dialect : Dialect) (settings : Settings) (code : Code) (stop : Nat)
    (before : Disassembly) : Prop where
  /-- The code up to there can be decoded. -/
  decode_extract : decode dialect settings (code.extract 0 stop) = .ok before
  /-- It is all of the code, if all of it can be decoded. -/
  eq_of_decode : ∀ d, decode dialect settings code = .ok d → d = before
  /-- An error that names an offset names the place. -/
  offset_eq : ∀ e offset, decode dialect settings code = .error e → e.offset? = some offset →
    offset.toNat = stop
  /-- And the limit on instructions is met where there are as many. -/
  size_eq : ∀ limit, decode dialect settings code = .error (.instructionLimit limit) →
    before.size = limit.toNat

theorem getsTo_of_cuts (hcode : code.size < UInt32.size)
    (h : Cuts dialect settings 0 0 code.toList instructions) :
    GetsTo dialect settings code code.size (finish dialect settings instructions) where
  decode_extract := by rw [Array.extract_size, decode_of_cuts hcode h]
  eq_of_decode d hd := Except.ok.inj (hd.symm.trans (decode_of_cuts hcode h))
  offset_eq e offset he _ := by cases he.symm.trans (decode_of_cuts hcode h)
  size_eq limit he := by cases he.symm.trans (decode_of_cuts hcode h)

theorem getsTo_of_stuck {e : DecodeError} (hcode : code.size < UInt32.size)
    (hbytes : code.toList = front ++ rest) (h : Cuts dialect settings 0 0 front instructions)
    (hstuck : Stuck dialect settings front.length instructions.length rest e) :
    GetsTo dialect settings code front.length (finish dialect settings instructions) where
  decode_extract := by
    have hlen := Code.size_of_append hbytes
    exact decode_extract_of_cuts (by omega) hbytes h
  eq_of_decode d hd := by cases hd.symm.trans (decode_of_stuck hcode hbytes h hstuck)
  offset_eq e' offset he hoffset := by
    obtain rfl : e' = e :=
      Except.error.inj (he.symm.trans (decode_of_stuck hcode hbytes h hstuck))
    exact (faultAt_of_stuck hcode hbytes hstuck hoffset).1
  size_eq limit he := by
    obtain rfl : .instructionLimit limit = e :=
      Except.error.inj (he.symm.trans (decode_of_stuck hcode hbytes h hstuck))
    obtain ⟨hmax, hle⟩ := atLimit?_eq_some_iff.1 (hstuck.atLimit?_eq rfl)
    have hge := h.add_length_le hmax (Nat.zero_le _)
    rw [size_finish]
    omega

/-- Code that is too large is not looked at. -/
theorem getsTo_of_size_le (h : UInt32.size ≤ code.size) :
    GetsTo dialect settings code 0 (finish dialect settings []) where
  decode_extract := decode_extract_of_cuts (by decide) (List.nil_append _).symm (.nil 0 0)
  eq_of_decode d hd := by cases hd.symm.trans (decode_of_size_le h)
  offset_eq e offset he hoffset := by
    obtain rfl := Except.error.inj (he.symm.trans (decode_of_size_le h))
    cases hoffset
  size_eq limit he := by cases he.symm.trans (decode_of_size_le h)

/-- **One pass comes to the same outcome as two**, and its visits are those of
the instructions that decoding gets through. -/
theorem exists_visits (dialect : Dialect) (settings : Settings) (code : Code) :
    ∃ front stop instructions, front.length < UInt32.size ∧
      Cuts dialect settings 0 0 front instructions ∧
      decodeInOnePass dialect settings code =
        (visits ∅ instructions, decode dialect settings code) ∧
      GetsTo dialect settings code stop (finish dialect settings instructions) := by
  rcases Nat.lt_or_ge code.size UInt32.size with hcode | hcode
  · obtain ⟨instructions, hcuts⟩ | ⟨front, rest, instructions, e, hbytes, hcuts, hstuck⟩ :=
      cuts_or_stuck_code dialect settings code
    · refine ⟨code.toList, _, instructions, hcode, hcuts, ?_, getsTo_of_cuts hcode hcuts⟩
      rw [decodeInOnePass_of_cuts hcode hcuts, decode_of_cuts hcode hcuts]
    · have hlen := Code.size_of_append hbytes
      refine ⟨front, _, instructions, by omega, hcuts, ?_,
        getsTo_of_stuck hcode hbytes hcuts hstuck⟩
      rw [decodeInOnePass_of_stuck hcode hbytes hcuts hstuck,
        decode_of_stuck hcode hbytes hcuts hstuck]
  · refine ⟨[], _, [], by decide, .nil 0 0, ?_, getsTo_of_size_le hcode⟩
    rw [decodeInOnePass, if_pos hcode, decode_of_size_le hcode]
    rfl

/-! ## The index, during and after decoding -/

/-- **The index is exact while code is decoded, and after.** There is one visit
for each instruction that decoding gets through, in order. It shows the
instruction with neither comment nor jump, just entered, and the index then
lists the offsets of the instructions visited so far. In the end the index
finds every instruction by its offset and every offset by its place, and
nothing else. -/
theorem index_exact_throughout (dialect : Dialect) (settings : Settings) (code : Code) :
    (decodeInOnePass dialect settings code).2 = decode dialect settings code ∧
    (∃ stop before, GetsTo dialect settings code stop before ∧
      (decodeInOnePass dialect settings code).1.map (·.instruction) =
        before.instructions.map bare) ∧
    (∀ (k : Nat) (visit : Visit), (decodeInOnePass dialect settings code).1[k]? = some visit →
      visit.instruction.number = k ∧ visit.instruction.comment = none ∧
      visit.instruction.jump = none ∧ visit.entered = true ∧
      visit.index.Lists (((decodeInOnePass dialect settings code).1.take (k + 1)).map
        (·.instruction.offset))) ∧
    ∀ d, decode dialect settings code = .ok d →
      (∀ offset place, d.index.indexOf? offset = some place ↔ d.startOf? place = some offset) ∧
      (∀ place, d.index.offsetOf? place = d.startOf? place) ∧
      d.index.size = d.size ∧
      ∀ offset instruction, d.at? offset = some instruction ↔
        instruction ∈ d.instructions ∧ instruction.offset = offset := by
  obtain ⟨front, stop, instructions, hfront, hcuts, hpass, hstop⟩ :=
    exists_visits dialect settings code
  rw [hpass]
  refine ⟨rfl, ⟨stop, _, hstop, ?_⟩, ?_, ?_⟩
  · rw [map_instruction_visits, map_bare_finish, hcuts.map_bare]
  · intro k visit hvisit
    obtain ⟨hget, hentered, hlists⟩ := hcuts.visit_of_getElem? hfront.le hvisit
    obtain ⟨hnumber, hcomment, hjump⟩ := hcuts.place_of_getElem? hget
    refine ⟨hnumber, hcomment, hjump, hentered, ?_⟩
    rw [← map_instruction_visits ∅ instructions, ← List.map_take, List.map_map] at hlists
    exact hlists
  · intro d hd
    have hlists := lists_of_decode hd
    refine ⟨?_, ?_, ?_, fun _ _ => Disassembly.at?_eq_some_iff hlists⟩
    · intro offset place
      rw [hlists.indexOf?_eq_some_iff, d.startOf?_eq]
    · intro place
      rw [hlists.offsetOf?_eq, d.startOf?_eq]
    · rw [hlists.size_eq, List.length_map, Disassembly.size]

/-- Two instructions are visited before the unknown byte is come to; at the
second visit the index lists two offsets. -/
theorem index_exact_throughout_varDialect :
    decode varDialect {} #[1, 0, 1, 1, 7, 9] = .error (.unknownOpCode 5 9) ∧
      ∃ visit, (decodeInOnePass varDialect {} #[1, 0, 1, 1, 7, 9]).1[1]? = some visit ∧
        visit.instruction.number = 1 ∧ visit.entered = true ∧ visit.index.Lists [0, 2] := by
  have hcode : (#[1, 0, 1, 1, 7, 9] : Code).size < UInt32.size := by decide
  have hlast : Cuts varDialect {} 2 1 [1, 1, 7] _ :=
    @Cuts.single _ _ 2 1 1 _ (some ⟨.varCounted, [1], [7]⟩) rfl rfl (by decide)
  have hcuts : Cuts varDialect {} 0 0 [1, 0, 1, 1, 7] _ :=
    @Cuts.cons _ _ 0 0 1 _ (some ⟨.varCounted, [0], []⟩) [1, 1, 7] _ rfl rfl (by decide) hlast
  have hpass := decodeInOnePass_of_stuck hcode
    (show _ = [1, 0, 1, 1, 7] ++ [9] from rfl) hcuts (.unknown rfl rfl)
  obtain ⟨houtcome, -, hvisits, -⟩ :=
    index_exact_throughout varDialect {} #[1, 0, 1, 1, 7, 9]
  rw [hpass] at houtcome hvisits ⊢
  obtain ⟨hnumber, -, -, hentered, hlists⟩ := hvisits 1 _ rfl
  exact ⟨houtcome.symm, _, rfl, hnumber, hentered, hlists⟩

end Disasm
