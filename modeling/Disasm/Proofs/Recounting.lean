import Disasm.Proofs.Decoding
import Disasm.Proofs.Listing
import Disasm.Proofs.OpCodeTable
/-!
# What the lines of a listing tell about the code

A line does not show the length field of an operand, but the offset of the
next line tells how long the field is, and there is no more than one length
field of a given length for a given payload (`eq_of_payload`). So the code can
be told from its lines up to the last one, whose length field may be a
variable count written in another way (`Cuts.eq_or_recounted`).
-/

namespace Disasm

open LittleEndian (value)
open Operand (carried written VarCount markerSize varCount_cons)
open Instruction (bare shown)

/-! ## Length fields -/

/-- Fields of one length that stand for one number are the same. -/
theorem LittleEndian.value_inj {field field' : List UInt8} (hlen : field.length = field'.length)
    (h : value field = value field') : field = field' := by
  rw [← bytes_value field, ← bytes_value field', hlen, h]

/-- Only one marker asks for a given number of bytes, if for any. -/
theorem Operand.markerSize_inj {marker marker' : UInt8} (hsome : markerSize marker ≠ 0)
    (h : markerSize marker = markerSize marker') : marker = marker' := by
  unfold markerSize at h hsome
  split_ifs at h hsome <;> simp_all

/-- Variable counts of one length that stand for one number are the same. -/
theorem Operand.VarCount.eq_of_length {field field' : List UInt8} {n : Nat}
    (h : VarCount field n) (h' : VarCount field' n) (hlen : field.length = field'.length) :
    field = field' := by
  cases field with
  | nil => exact absurd h id
  | cons marker field =>
    cases field' with
    | nil => cases hlen
    | cons marker' field' =>
      obtain ⟨hsize, hvalue⟩ := varCount_cons.1 h
      obtain ⟨hsize', hvalue'⟩ := varCount_cons.1 h'
      have hlen : field.length = field'.length := Nat.succ.inj hlen
      have hmarkers : markerSize marker = markerSize marker' := by omega
      by_cases hzero : markerSize marker = 0
      · rw [if_pos hzero] at hvalue
        rw [if_pos (hmarkers.symm.trans hzero)] at hvalue'
        rw [UInt8.toNat_inj.1 (hvalue.trans hvalue'.symm),
          List.length_eq_zero_iff.1 (hsize.trans hzero),
          List.length_eq_zero_iff.1 (hlen.symm.trans (hsize.trans hzero))]
      · rw [if_neg hzero] at hvalue
        rw [if_neg (fun h => hzero (hmarkers.trans h))] at hvalue'
        rw [Operand.markerSize_inj hzero hmarkers,
          LittleEndian.value_inj hlen (hvalue.trans hvalue'.symm)]

/-- **Operands of one shape with one payload** are the same, or are variable
counts of the payload before it. -/
theorem Shape.Fits.eq_or_varCount {shape : Shape} {operand operand' : Option Operand}
    (h : shape.Fits operand) (h' : shape.Fits operand')
    (hpayload : carried operand = carried operand') :
    operand = operand' ∨ ∃ field field' payload, shape = .varCounted ∧
      operand = some ⟨.varCounted, field, payload⟩ ∧
      operand' = some ⟨.varCounted, field', payload⟩ ∧
      VarCount field payload.length ∧ VarCount field' payload.length := by
  cases operand with
  | none =>
    obtain rfl : shape = .nullary := h
    cases operand' with
    | none => exact .inl rfl
    | some operand' =>
      obtain ⟨hshape, hformed⟩ : operand'.shape = .nullary ∧ operand'.WellFormed := h'
      rw [Operand.WellFormed, hshape] at hformed
      exact absurd hformed id
  | some operand =>
    obtain ⟨shape', field, payload⟩ := operand
    obtain ⟨rfl, hformed⟩ : shape' = shape ∧ Operand.WellFormed _ := h
    cases operand' with
    | none =>
      obtain rfl : shape' = .nullary := h'
      exact absurd hformed id
    | some operand' =>
      obtain ⟨shape, field', payload'⟩ := operand'
      obtain ⟨rfl, hformed'⟩ : shape = shape' ∧ Operand.WellFormed _ := h'
      obtain rfl : payload = payload' := hpayload
      cases shape with
      | nullary => exact absurd hformed id
      | fixed size =>
        obtain ⟨rfl, -⟩ : field = [] ∧ _ := hformed
        obtain ⟨rfl, -⟩ : field' = [] ∧ _ := hformed'
        exact .inl rfl
      | counted width =>
        obtain ⟨hlen, hvalue⟩ : field.length = width.size ∧ value field = payload.length := hformed
        obtain ⟨hlen', hvalue'⟩ : field'.length = width.size ∧ value field' = payload.length :=
          hformed'
        rw [LittleEndian.value_inj (hlen.trans hlen'.symm) (hvalue.trans hvalue'.symm)]
        exact .inl rfl
      | varCounted => exact .inr ⟨field, field', payload, rfl, rfl, rfl, hformed, hformed'⟩

/-- And of one length they are the same. -/
theorem Shape.Fits.eq_of_payload {shape : Shape} {operand operand' : Option Operand}
    (h : shape.Fits operand) (h' : shape.Fits operand')
    (hpayload : carried operand = carried operand')
    (hlen : (written operand).length = (written operand').length) : operand = operand' := by
  obtain hsame | ⟨field, field', payload, rfl, rfl, rfl, hcount, hcount'⟩ :=
    h.eq_or_varCount h' hpayload
  · exact hsame
  · simp only [Operand.written_some, List.length_append, Nat.add_right_cancel_iff] at hlen
    rw [hcount.eq_of_length hcount' hlen]

/-! ## Code -/

/-- The dialect has no two opcodes of one name. -/
def Dialect.NamesOnce (dialect : Dialect) : Prop :=
  ∀ byte byte' opcode opcode', dialect.opcode? byte = some opcode →
    dialect.opcode? byte' = some opcode' → opcode.name = opcode'.name → opcode = opcode'

/-- **The bytes are the same but for the count of the last operand**, a variable
count that is written in two ways. What is before the last instruction is cut
to its end. -/
def Recounted (dialect : Dialect) (settings : Settings) (pos number : Nat)
    (bytes bytes' : List UInt8) : Prop :=
  ∃ front instructions byte opcode field field' payload,
    Cuts dialect settings pos number front instructions ∧
    dialect.opcode? byte = some opcode ∧ opcode.shape = .varCounted ∧
    VarCount field payload.length ∧ VarCount field' payload.length ∧
    bytes = front ++ byte :: (field ++ payload) ∧ bytes' = front ++ byte :: (field' ++ payload)

variable {dialect : Dialect} {settings : Settings} {pos number : Nat}
variable {bytes bytes' : List UInt8} {instructions others : List Instruction}

/-- An instruction more in front of both. -/
theorem Recounted.cons {byte : UInt8} {opcode : OpCode} {operand : Option Operand}
    (hlimit : settings.atLimit? number = none) (hop : dialect.opcode? byte = some opcode)
    (hfits : opcode.shape.Fits operand)
    (h : Recounted dialect settings (pos + 1 + (written operand).length) (number + 1) bytes
      bytes') :
    Recounted dialect settings pos number (byte :: (written operand ++ bytes))
      (byte :: (written operand ++ bytes')) := by
  obtain ⟨front, instructions, last, opcode', field, field', payload, hcuts, hop', hshape, hcount,
    hcount', rfl, rfl⟩ := h
  exact ⟨byte :: (written operand ++ front), _, last, opcode', field, field', payload,
    .cons hlimit hop hfits hcuts, hop', hshape, hcount, hcount', by simp, by simp⟩

/-- Bytes of one length whose last count is written in two ways are the same
after all. -/
theorem Recounted.eq_of_length (h : Recounted dialect settings pos number bytes bytes')
    (hlen : bytes.length = bytes'.length) : bytes = bytes' := by
  obtain ⟨front, -, byte, -, field, field', payload, -, -, -, hcount, hcount', rfl, rfl⟩ := h
  simp only [List.length_append, List.length_cons] at hlen
  rw [hcount.eq_of_length hcount' (by omega)]

/-- Where lines that show the same begin, the code does, unless there are no
lines. -/
theorem Cuts.eq_nil_or_pos_eq {pos' number' : Nat}
    (h : Cuts dialect settings pos number bytes instructions)
    (h' : Cuts dialect settings pos' number' bytes' others)
    (hpos : pos < UInt32.size) (hpos' : pos' < UInt32.size)
    (hshown : instructions.map shown = others.map shown) :
    (bytes = [] ∧ bytes' = []) ∨ pos = pos' := by
  cases h with
  | nil =>
    cases h' with
    | nil => exact .inl ⟨rfl, rfl⟩
    | cons => cases hshown
  | cons =>
    cases h' with
    | nil => cases hshown
    | cons =>
      have hoffset : UInt32.ofNat pos = UInt32.ofNat pos' :=
        congrArg Shown.offset (List.cons.inj hshown).1
      rw [← UInt32.toNat_inj, UInt32.toNat_ofNat_of_lt' hpos, UInt32.toNat_ofNat_of_lt' hpos']
        at hoffset
      exact .inr hoffset

/-- **The code can be told from its lines**, but for the count of the last
operand. -/
theorem Cuts.eq_or_recounted (hdialect : dialect.Coherent) (hnames : dialect.NamesOnce)
    (h : Cuts dialect settings pos number bytes instructions)
    (h' : Cuts dialect settings pos number bytes' others)
    (hend : pos + bytes.length < UInt32.size) (hend' : pos + bytes'.length < UInt32.size)
    (hshown : instructions.map shown = others.map shown) :
    bytes = bytes' ∨ Recounted dialect settings pos number bytes bytes' := by
  induction h generalizing bytes' others with
  | nil =>
    cases h' with
    | nil => exact .inl rfl
    | cons => cases hshown
  | @cons pos number byte opcode operand bytes instructions hlimit hop hfits hrest ih =>
    cases h' with
    | nil => cases hshown
    | @cons _ _ byte' opcode' operand' bytes' others _ hop' hfits' hrest' =>
      obtain ⟨hfirst, htail⟩ := List.cons.inj hshown
      obtain ⟨-, hname, hpayload⟩ := Shown.mk.inj hfirst
      obtain rfl := hnames byte byte' opcode opcode' hop hop' hname
      obtain rfl : byte = byte' := (hdialect _ _ hop).symm.trans (hdialect _ _ hop')
      simp only [List.length_cons, List.length_append] at hend hend'
      obtain ⟨rfl, rfl⟩ | hnext := hrest.eq_nil_or_pos_eq hrest' (by omega) (by omega) htail
      · -- this is the last instruction, so nothing tells how long its operand is
        obtain rfl | ⟨field, field', payload, hshape, rfl, rfl, hcount, hcount'⟩ :=
          hfits.eq_or_varCount hfits' hpayload
        · exact .inl rfl
        · exact .inr ⟨[], [], byte, opcode, field, field', payload, .nil _ _, hop, hshape, hcount,
            hcount', by simp, by simp⟩
      · obtain rfl := hfits.eq_of_payload hfits' hpayload (by omega)
        obtain rfl | hrecounted := ih hrest' (by omega) (by omega) htail
        · exact .inl rfl
        · exact .inr (hrecounted.cons hlimit hop hfits)

/-- Code that is one more instruction after code that is cut is decoded as such:
decoding it leaves room for the instruction. -/
theorem map_bare_of_decode_concat {code : Code} {d : Disassembly} {front : List UInt8}
    {byte : UInt8} {opcode : OpCode} {operand : Option Operand}
    (h : decode dialect settings code = .ok d)
    (hbytes : code.toList = front ++ byte :: written operand)
    (hcuts : Cuts dialect settings 0 0 front instructions)
    (hop : dialect.opcode? byte = some opcode) (hfits : opcode.shape.Fits operand) :
    d.instructions.map bare = instructions ++
      [⟨instructions.length, UInt32.ofNat front.length, opcode, operand, none, none⟩] := by
  obtain ⟨hcode, -⟩ := decode_eq_ok_iff.1 h
  have hlimit : settings.atLimit? instructions.length = none := by
    by_contra hsome
    obtain ⟨limit, hlimit⟩ := Option.ne_none_iff_exists'.1 hsome
    have herror := decode_of_stuck hcode hbytes hcuts (.limit hlimit)
    rw [h] at herror
    cases herror
  have hall := hcuts.append
    (by simpa only [Nat.zero_add] using Cuts.single hlimit hop hfits)
  rw [← hbytes] at hall
  have hd := decode_of_cuts hcode hall
  rw [h] at hd
  rw [Except.ok.inj hd, map_bare_finish, hall.map_bare]

end Disasm
