import Disasm.Proofs.Decoding
import Disasm.Proofs.OperandReading
/-!
# Every access is inside the code

Code that decoding accepts never makes it ask for bytes that are not there, nor
for a sum or a difference of positions that is none. One step, taken inside the
code, gives its instruction and the position after it, which is further on and
still no further than the end, or fails for a reason other than a trap
(`cutOne_safe`). `Loops` is the loop with no bound on its steps, and counts
them: from any position it comes to an end (`exists_loops`), it does so within
as many steps as there are bytes left (`Loops.iterations_le`), and so the bound
that `cut` gives it is never felt (`Loops.cutFrom_eq`).

A reader that is asked for an operand at any position at all is refused bytes in
one case only: where it is to read none, beyond the end of the code
(`decoding_never_traps`).
-/

namespace Disasm

variable {dialect : Dialect} {settings : Settings} {code : Code} {pos number iterations : Nat}
variable {done : Array Instruction} {outcome : Except DecodeError (Array Instruction)}

/-! ## One step -/

/-- Where bytes are stuck it is not for a trap. -/
theorem Stuck.ne_trap {bytes : List UInt8} {e : DecodeError}
    (h : Stuck dialect settings pos number bytes e) (cause : Trap) : e ≠ .trap cause := by
  cases h with
  | limit _ => exact DecodeError.noConfusion
  | unknown _ _ => exact DecodeError.noConfusion
  | operand _ _ hparse =>
    obtain ⟨needed, rfl⟩ | ⟨declared, rfl⟩ := Operand.available_of_parse hparse
    · exact DecodeError.noConfusion
    · exact DecodeError.noConfusion

/-- **A step inside the code fails for a reason, or goes on inside the code.** -/
theorem cutOne_safe (dialect : Dialect) (settings : Settings) (number : Nat)
    (hcode : code.size < UInt32.size) (hpos : pos < code.size) :
    (∃ e, cutOne dialect settings code pos number = .error e ∧ ∀ cause, e ≠ .trap cause) ∨
    ∃ instruction next, cutOne dialect settings code pos number = .ok (instruction, next) ∧
      pos < next ∧ next ≤ code.size := by
  have hlen := code.length_drop pos
  obtain ⟨byte, rest, hbytes⟩ : ∃ byte rest, code.toList.drop pos = byte :: rest := by
    refine List.exists_cons_of_ne_nil fun hnil => ?_
    rw [hnil, List.length_nil] at hlen
    omega
  obtain ⟨hlimit, opcode, operand, tail, hop, hfits, rfl⟩ | ⟨e, hstuck⟩ :=
    fits_or_stuck dialect settings pos number byte rest
  · rw [hbytes, List.length_cons, List.length_append] at hlen
    exact .inr ⟨_, _, cutOne_of_fits hcode hbytes hlimit hop hfits, by omega, by omega⟩
  · exact .inl ⟨e, cutOne_of_stuck hcode hbytes hstuck, hstuck.ne_trap⟩

/-! ## The loop -/

/-- **The loop comes to an end**, from `pos` on and after the instructions in
`done`: in so many iterations, and with the outcome. -/
inductive Loops (dialect : Dialect) (settings : Settings) (code : Code) :
    (iterations pos : Nat) → (done : Array Instruction) →
    Except DecodeError (Array Instruction) → Prop
  /-- At the end of the code all instructions are done. -/
  | stop {pos : Nat} {done : Array Instruction} :
      code.size ≤ pos → Loops dialect settings code 0 pos done (.ok done)
  /-- A step that fails is the last. -/
  | fail {pos : Nat} {done : Array Instruction} {e : DecodeError} :
      pos < code.size → cutOne dialect settings code pos done.size = .error e →
      Loops dialect settings code 1 pos done (.error e)
  /-- After any other the loop goes on. -/
  | step {iterations pos next : Nat} {done : Array Instruction} {instruction : Instruction}
      {outcome : Except DecodeError (Array Instruction)} :
      pos < code.size → cutOne dialect settings code pos done.size = .ok (instruction, next) →
      Loops dialect settings code iterations next (done.push instruction) outcome →
      Loops dialect settings code (iterations + 1) pos done outcome

/-- The loop comes to an end from any position. -/
theorem exists_loops (dialect : Dialect) (settings : Settings) (hcode : code.size < UInt32.size)
    (pos : Nat) (done : Array Instruction) :
    ∃ iterations outcome, Loops dialect settings code iterations pos done outcome := by
  -- every step leaves fewer bytes
  induction hn : code.size - pos using Nat.strongRecOn generalizing pos done with
  | ind n ih =>
    rcases Nat.lt_or_ge pos code.size with hpos | hpos
    · obtain ⟨e, hone, -⟩ | ⟨instruction, next, hone, hnext, -⟩ :=
        cutOne_safe dialect settings done.size hcode hpos
      · exact ⟨_, _, .fail hpos hone⟩
      · obtain ⟨iterations, outcome, hrest⟩ :=
          ih (code.size - next) (by omega) next (done.push instruction) rfl
        exact ⟨_, outcome, .step hpos hone hrest⟩
    · exact ⟨_, _, .stop hpos⟩

/-- **It makes no more iterations than there are bytes left.** -/
theorem Loops.iterations_le (hcode : code.size < UInt32.size)
    (h : Loops dialect settings code iterations pos done outcome) :
    iterations ≤ code.size - pos := by
  induction h with
  | stop _ => exact Nat.zero_le _
  | fail hpos _ => omega
  | step hpos hone _ ih =>
    obtain ⟨e, hfail, -⟩ | ⟨instruction, next, hgo, hnext, -⟩ :=
      cutOne_safe dialect settings _ hcode hpos
    · cases hfail.symm.trans hone
    · cases hgo.symm.trans hone
      omega

/-- And does not end in a trap. -/
theorem Loops.ne_trap (hcode : code.size < UInt32.size)
    (h : Loops dialect settings code iterations pos done outcome) (cause : Trap) :
    outcome ≠ .error (.trap cause) := by
  induction h with
  | stop _ =>
    intro htrap
    cases htrap
  | fail hpos hone =>
    obtain ⟨e, hfail, hcause⟩ | ⟨instruction, next, hgo, -, -⟩ :=
      cutOne_safe dialect settings _ hcode hpos
    · cases hfail.symm.trans hone
      exact fun htrap => hcause cause (Except.error.inj htrap)
    · cases hgo.symm.trans hone
  | step _ _ _ ih => exact ih

/-- With as many steps allowed as it makes, the loop is that of `cutFrom`. -/
theorem Loops.cutFrom_eq (h : Loops dialect settings code iterations pos done outcome)
    {steps : Nat} (hsteps : iterations ≤ steps) :
    cutFrom dialect settings code steps pos done = outcome := by
  induction h generalizing steps with
  | stop hpos => exact cutFrom_of_size_le hpos steps _
  | fail hpos hone =>
    obtain ⟨steps, rfl⟩ := Nat.exists_eq_add_of_le' hsteps
    rw [cutFrom, if_pos hpos, hone]
  | step hpos hone _ ih =>
    obtain ⟨steps, rfl⟩ : ∃ left, steps = left + 1 := ⟨steps - 1, by omega⟩
    rw [cutFrom, if_pos hpos, hone]
    exact ih (by omega)

/-! ## Decoding -/

/-- The loop of `cut` begins at the first byte, with no instruction done. -/
theorem Loops.cut_eq (hcode : code.size < UInt32.size)
    (h : Loops dialect settings code iterations 0 #[] outcome) :
    cut dialect settings code = Array.toList <$> outcome := by
  have hsteps : iterations ≤ code.size := h.iterations_le hcode
  rw [cut, h.cutFrom_eq hsteps]

/-- Decoding fails as its loop does. -/
theorem decode_ne_trap (dialect : Dialect) (settings : Settings) (hcode : code.size < UInt32.size)
    (cause : Trap) : decode dialect settings code ≠ .error (.trap cause) := by
  obtain ⟨iterations, outcome, hloops⟩ := exists_loops dialect settings hcode 0 #[]
  have htrap := hloops.ne_trap hcode cause
  rw [decode, if_neg (by omega), hloops.cut_eq hcode]
  intro h
  cases outcome with
  | ok done => cases h
  | error e => exact htrap (congrArg Except.error (Except.error.inj h))

/-- **Decoding never traps, and ends.** Whatever the dialect and the settings,
code that offsets can address is decoded without a trap. The loop comes to an
end, in no more iterations than the code has bytes, and the outcome is what the
code is cut into. Reading an operand, at any position that there is, traps if
and only if the operand has no bytes and the position is beyond the end of the
code. -/
theorem decoding_never_traps :
    (∀ (dialect : Dialect) (settings : Settings) (code : Code), code.size < UInt32.size →
      (∀ cause, decode dialect settings code ≠ .error (.trap cause)) ∧
      (∃ iterations outcome, Loops dialect settings code iterations 0 #[] outcome) ∧
      ∀ iterations outcome, Loops dialect settings code iterations 0 #[] outcome →
        iterations ≤ code.size ∧ cut dialect settings code = Array.toList <$> outcome) ∧
    ∀ (shape : Shape) (code : Code) (pos : Nat), code.size < UInt64.size → pos < UInt64.size →
      ((∃ cause, Operand.read shape code pos = .error (.trap cause)) ↔
        shape = .fixed 0 ∧ code.size < pos) := by
  constructor
  · intro dialect settings code hcode
    refine ⟨decode_ne_trap dialect settings hcode, exists_loops dialect settings hcode 0 #[], ?_⟩
    intro iterations outcome hloops
    exact ⟨hloops.iterations_le hcode, hloops.cut_eq hcode⟩
  · intro shape code pos hcode hpos
    constructor
    · rintro ⟨cause, htrap⟩
      -- wherever reading is parsing it does not trap, and that is everywhere else
      rcases Nat.lt_or_ge code.size pos with hbeyond | hinside
      · refine ⟨?_, hbeyond⟩
        by_contra hshape
        rw [Operand.read_of_size_lt hbeyond hcode hshape] at htrap
        exact Operand.parse_ne_trap shape _ cause htrap
      · rw [Operand.read_eq_parse hinside hcode] at htrap
        exact absurd htrap (Operand.parse_ne_trap shape _ cause)
    · rintro ⟨rfl, hbeyond⟩
      exact ⟨_, Operand.read_fixed_zero_of_size_lt hbeyond hpos⟩

/-- A dialect with an opcode whose operand has no bytes, and one whose operand
is larger than any code. -/
def extremeDialect : Dialect :=
  Dialect.ofTable "extreme"
    (OpCodeTable.empty.extend [⟨1, "GAP", "", .fixed 0⟩, ⟨2, "ALL", "", .fixed 0xffffffffffffffff⟩])
    (fun _ _ => none) []

/-- An operand of no bytes is read twice, the second time at the position of the
last opcode, and one larger than any code is refused. -/
theorem decoding_never_traps_extremeDialect :
    (∀ cause, decode extremeDialect {} #[1, 1, 2] ≠ .error (.trap cause)) ∧
    (∃ iterations outcome, iterations ≤ 3 ∧
      Loops extremeDialect {} #[1, 1, 2] iterations 0 #[] outcome) ∧
    (∃ cause, Operand.read (.fixed 0) #[7] 2 = .error (.trap cause)) ∧
    ¬ ∃ cause, Operand.read (.fixed 0) #[7] 1 = .error (.trap cause) := by
  obtain ⟨hdecode, ⟨iterations, outcome, hloops⟩, hcount⟩ :=
    decoding_never_traps.1 extremeDialect {} #[1, 1, 2] (by decide)
  refine ⟨hdecode, ⟨iterations, outcome, (hcount _ _ hloops).1, hloops⟩, ?_, ?_⟩
  · exact (decoding_never_traps.2 (.fixed 0) #[7] 2 (by decide) (by decide)).2 ⟨rfl, by decide⟩
  · rw [decoding_never_traps.2 (.fixed 0) #[7] 1 (by decide) (by decide)]
    decide

end Disasm
