import Disasm.Proofs.ErrorLocation
import Disasm.Proofs.OpCodeTable
/-!
# Dialects with more opcodes

A dialect extends another one if it has the same jumps and reads every byte
that the other one knows as the other one does. The two then cut the same
instructions off, and show them to the jumps with the same index, up to the
first byte that only the larger one knows. Such a byte is an unknown opcode to
the smaller one, so decoding comes to the same outcome, an error like a
result, unless it fails for that reason (`decode_eq_iff_of_extends`). Entering
opcodes into the free slots of a table is such an extension.
-/

namespace Disasm

/-- **The dialect extends the other one**: it has the same jumps, and a byte
that stands for an opcode in the other one stands for the same opcode. -/
structure Dialect.Extends (larger smaller : Dialect) : Prop where
  note?_eq : larger.note? = smaller.note?
  opcode?_eq : ∀ byte, (smaller.opcode? byte).isSome →
    larger.opcode? byte = smaller.opcode? byte

/-- The error blames a byte that the dialect knows. -/
def DecodeError.MendedBy (e : DecodeError) (dialect : Dialect) : Prop :=
  ∃ offset byte, e = .unknownOpCode offset byte ∧ (dialect.opcode? byte).isSome

variable {larger smaller : Dialect} {settings : Settings} {code : Code}
variable {pos number : Nat} {bytes : List UInt8} {instructions : List Instruction}
variable {e : DecodeError}

/-! ## Two runs side by side -/

theorem Dialect.Extends.opcode?_of_some (h : larger.Extends smaller) {byte : UInt8}
    {opcode : OpCode} (hop : smaller.opcode? byte = some opcode) :
    larger.opcode? byte = some opcode := by
  have hsome : (smaller.opcode? byte).isSome := by rw [hop]; rfl
  rw [h.opcode?_eq byte hsome, hop]

/-- What the smaller dialect cuts, the larger one cuts in the same way. -/
theorem Cuts.extend (hextends : larger.Extends smaller)
    (h : Cuts smaller settings pos number bytes instructions) :
    Cuts larger settings pos number bytes instructions := by
  induction h with
  | nil pos number => exact .nil pos number
  | cons hlimit hop hfits _ ih =>
    exact .cons hlimit (hextends.opcode?_of_some hop) hfits ih

/-- Where the smaller one is stuck the larger one is stuck, for the same reason,
unless it knows the byte that is to blame. -/
theorem Stuck.extend (hextends : larger.Extends smaller)
    (h : Stuck smaller settings pos number bytes e) (hmended : ¬ e.MendedBy larger) :
    Stuck larger settings pos number bytes e := by
  cases h with
  | limit hlimit => exact .limit hlimit
  | @unknown byte rest hlimit hop =>
    refine .unknown hlimit ?_
    rw [← Option.not_isSome_iff_eq_none]
    intro hsome
    exact hmended ⟨_, byte, rfl, hsome⟩
  | operand hlimit hop hparse =>
    exact .operand hlimit (hextends.opcode?_of_some hop) hparse

/-- A dialect is stuck at no opcode that it knows. -/
theorem Stuck.not_mendedBy (h : Stuck larger settings pos number bytes e) :
    ¬ e.MendedBy larger := by
  rintro ⟨offset, byte, he, hsome⟩
  cases h with
  | limit hlimit => cases he
  | unknown hlimit hop =>
    cases he
    rw [hop] at hsome
    cases hsome
  | @operand _ _ _ cause _ _ _ => cases cause <;> cases he

/-- Linking asks a dialect for its jumps and for nothing else. -/
theorem finish_congr (h : larger.note? = smaller.note?) (settings : Settings)
    (instructions : List Instruction) :
    finish larger settings instructions = finish smaller settings instructions := by
  have hlink : link larger settings instructions = link smaller settings instructions := by
    have hone : linkOne larger settings = linkOne smaller settings := by
      funext linked instruction
      rw [linkOne, linkOne, h]
    rw [link, link, hone]
  rw [finish, finish, hlink]

/-! ## The same outcome -/

/-- Decoding with the larger dialect is decoding with the smaller one, if this
does not fail at a byte that only the larger one knows. -/
theorem decode_of_extends (hextends : larger.Extends smaller)
    (h : ∀ e, decode smaller settings code = .error e → ¬ e.MendedBy larger) :
    decode larger settings code = decode smaller settings code := by
  rcases Nat.lt_or_ge code.size UInt32.size with hcode | hcode
  · obtain ⟨instructions, hcuts⟩ | ⟨front, rest, instructions, e, hbytes, hcuts, hstuck⟩ :=
      cuts_or_stuck_code smaller settings code
    · rw [decode_of_cuts hcode hcuts, decode_of_cuts hcode (hcuts.extend hextends),
        finish_congr hextends.note?_eq]
    · have herror := decode_of_stuck hcode hbytes hcuts hstuck
      have hlarger := hstuck.extend hextends (h e herror)
      rw [herror, decode_of_stuck hcode hbytes (hcuts.extend hextends) hlarger]
  · rw [decode_of_size_le hcode, decode_of_size_le hcode]

/-- A dialect fails at no opcode that it knows. -/
theorem not_mendedBy_of_decode (h : decode larger settings code = .error e) :
    ¬ e.MendedBy larger := by
  rcases Nat.lt_or_ge code.size UInt32.size with hcode | hcode
  · obtain ⟨front, rest, instructions, -, -, hstuck⟩ := (decode_eq_error_iff hcode).1 h
    exact hstuck.not_mendedBy
  · rw [decode_of_size_le hcode] at h
    obtain rfl := Except.error.inj h
    rintro ⟨offset, byte, he, -⟩
    cases he

/-- **A dialect and one that extends it decode alike**, unless the smaller one
fails at a byte that only the larger one knows; and then they do not. -/
theorem decode_eq_iff_of_extends (hextends : larger.Extends smaller) (settings : Settings)
    (code : Code) :
    decode larger settings code = decode smaller settings code ↔
      ¬ ∃ offset byte, decode smaller settings code = .error (.unknownOpCode offset byte) ∧
        (larger.opcode? byte).isSome := by
  constructor
  · rintro hsame ⟨offset, byte, herror, hsome⟩
    rw [herror] at hsame
    exact not_mendedBy_of_decode hsame ⟨offset, byte, rfl, hsome⟩
  · intro hmended
    refine decode_of_extends hextends ?_
    rintro _ herror ⟨offset, byte, rfl, hsome⟩
    exact hmended ⟨offset, byte, herror, hsome⟩

/-! ## Free slots -/

variable {table : OpCodeTable} {opcodes : List OpCode}

/-- Opcodes entered into free slots change no answer of the table. -/
theorem OpCodeTable.get?_extend_of_free
    (hfree : ∀ opcode ∈ opcodes, table.get? opcode.byte = none) {byte : UInt8}
    (hsome : (table.get? byte).isSome) : (table.extend opcodes).get? byte = table.get? byte := by
  refine get?_extend_of_forall_ne fun opcode hmem hbyte => ?_
  rw [← hbyte, hfree opcode hmem] at hsome
  cases hsome

/-- **Opcodes in free slots extend a dialect.** -/
theorem Dialect.extends_ofTable (hfree : ∀ opcode ∈ opcodes, table.get? opcode.byte = none)
    (name : String) (note? : Instruction → OffsetIndex → Option JumpNote)
    (categories : List Category) :
    (ofTable name (table.extend opcodes) note? categories).Extends
      (ofTable name table note? categories) where
  note?_eq := rfl
  opcode?_eq _ hsome := OpCodeTable.get?_extend_of_free hfree hsome

/-- **More opcodes are a conservative extension.** Let a dialect have the jumps
of another one and read every byte that the other one knows in the same way.
Then the two decode alike, to the same disassembly or the same error, except
exactly where the smaller one fails at a byte that the larger one knows. In
particular it is so when opcodes are entered into free slots of a table: then
exactly a failure at the byte of one of these opcodes is excepted. -/
theorem more_opcodes_conservative :
    (∀ larger smaller : Dialect, larger.Extends smaller → ∀ settings code,
      (decode larger settings code = decode smaller settings code ↔
        ¬ ∃ offset byte, decode smaller settings code = .error (.unknownOpCode offset byte) ∧
          (larger.opcode? byte).isSome)) ∧
    ∀ (name : String) (table : OpCodeTable) (opcodes : List OpCode)
      (note? : Instruction → OffsetIndex → Option JumpNote) (categories : List Category),
      (∀ opcode ∈ opcodes, table.get? opcode.byte = none) → ∀ settings code,
      (decode (.ofTable name (table.extend opcodes) note? categories) settings code =
          decode (.ofTable name table note? categories) settings code ↔
        ¬ ∃ offset, ∃ opcode ∈ opcodes,
          decode (.ofTable name table note? categories) settings code =
            .error (.unknownOpCode offset opcode.byte)) := by
  refine ⟨fun _ _ => decode_eq_iff_of_extends, ?_⟩
  intro name table opcodes note? categories hfree settings code
  rw [decode_eq_iff_of_extends (Dialect.extends_ofTable hfree name note? categories)]
  refine not_congr ⟨?_, ?_⟩
  · rintro ⟨offset, byte, herror, hsome⟩
    -- the smaller dialect does not know the byte, so it was entered
    have hunknown : table.get? byte = none := by
      by_contra hknown
      exact not_mendedBy_of_decode herror
        ⟨offset, byte, rfl, Option.isSome_iff_ne_none.2 hknown⟩
    by_contra hnone
    have hsame : (table.extend opcodes).get? byte = table.get? byte := by
      refine OpCodeTable.get?_extend_of_forall_ne fun opcode hmem hbyte => ?_
      exact hnone ⟨offset, opcode, hmem, by rw [hbyte]; exact herror⟩
    change ((table.extend opcodes).get? byte).isSome at hsome
    rw [hsame, hunknown] at hsome
    cases hsome
  · rintro ⟨offset, opcode, hmem, herror⟩
    obtain ⟨found, hfound⟩ := OpCodeTable.exists_get?_extend_of_mem table hmem
    exact ⟨offset, opcode.byte, herror, Option.isSome_iff_exists.2 ⟨found, hfound⟩⟩

/-- The dialect of `varDialect` with an opcode more, which has no operand. -/
def varDialectMore : Dialect :=
  Dialect.ofTable "var"
    ((OpCodeTable.empty.extend [⟨1, "VAR", "", .varCounted⟩]).extend [⟨2, "NOP", "", .nullary⟩])
    (fun _ _ => none) []

/-- With one opcode more, a byte that neither dialect knows is refused as
before, and the byte of the new opcode is not. -/
theorem more_opcodes_conservative_varDialect :
    decode varDialect {} #[1, 0, 9] = .error (.unknownOpCode 2 9) ∧
      decode varDialectMore {} #[1, 0, 9] = .error (.unknownOpCode 2 9) ∧
      decode varDialect {} #[1, 0, 2] = .error (.unknownOpCode 2 2) ∧
      decode varDialectMore {} #[1, 0, 2] ≠ .error (.unknownOpCode 2 2) := by
  have hcuts : Cuts varDialect {} 0 0 [1, 0] _ :=
    @Cuts.single _ _ 0 0 1 _ (some ⟨.varCounted, [0], []⟩) rfl rfl (by decide)
  have herror : ∀ byte, varDialect.opcode? byte = none →
      decode varDialect {} #[1, 0, byte] = .error (.unknownOpCode 2 byte) := by
    intro byte hop
    exact decode_of_stuck (show 3 < UInt32.size by decide) (show _ = [1, 0] ++ [byte] from rfl)
      hcuts (.unknown rfl hop)
  have hfree : ∀ opcode ∈ [(⟨2, "NOP", "", .nullary⟩ : OpCode)],
      (OpCodeTable.empty.extend [⟨1, "VAR", "", .varCounted⟩]).get? opcode.byte = none := by
    intro opcode hmem
    rw [List.mem_singleton.1 hmem]
    rfl
  have hiff := more_opcodes_conservative.2 "var" _ _ (fun _ _ => none) [] hfree {}
  refine ⟨herror 9 rfl, ?_, herror 2 rfl, ?_⟩
  · rw [← herror 9 rfl]
    refine (hiff #[1, 0, 9]).2 ?_
    rintro ⟨offset, opcode, hmem, hother⟩
    obtain rfl := List.mem_singleton.1 hmem
    cases (herror 9 rfl).symm.trans hother
  · intro hsame
    exact (hiff #[1, 0, 2]).1 (hsame.trans (herror 2 rfl).symm)
      ⟨2, _, List.mem_singleton.2 rfl, herror 2 rfl⟩

end Disasm
