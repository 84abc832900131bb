import Disasm.Dialect.Basic
/-!
# Dialects given by rules

A dialect can be written down as plain data: a list of opcodes, rules that
give every instruction of an opcode the same jump, and rules that tell which
instructions belong to a category. A rule names an opcode by a number; one
that is no byte, being above 255, names none.
-/

namespace Disasm

/-- Where a jump rule leads. -/
inductive RuleTarget
  | static (offset : UInt32)
  | dynamic (branch : Branch)
deriving DecidableEq, Repr

/-- A jump, and perhaps a comment, for every instruction of an opcode. -/
structure JumpRule where
  /-- The number of the opcode. -/
  opcode : Nat
  target : RuleTarget
  comment : Option String := none
deriving DecidableEq, Repr

/-- Where the label of an instruction comes from. -/
inductive LabelSource
  /-- The characters of its operand. -/
  | ascii
  /-- The digits of its operand. -/
  | hex
  /-- The name of its opcode. -/
  | name
  /-- A text that is always the same. -/
  | const (text : String)
  /-- Nowhere: it has none. -/
  | nowhere
deriving DecidableEq, Repr

/-- The instructions of a category: those of an opcode, if one is given, with
a payload of a size, if one is given. -/
structure CategoryRule where
  name : String
  opcode : Option Nat := none
  payloadSize : Option Nat := none
  label : LabelSource
deriving DecidableEq, Repr

namespace JumpRule

/-- The note that a rule makes at a jump of the given dialect. A static target
has the place that the index knows for it. -/
def note (rule : JumpRule) (dialect : String) (index : OffsetIndex) : JumpNote where
  jump :=
    match rule.target with
    | .static offset => .static offset (index.indexOf? offset)
    | .dynamic branch => .dynamic { dialect, branch }
  comment := rule.comment

/-- The note of the first rule for the instruction's opcode. -/
def firstNote? (rules : List JumpRule) (dialect : String) (instruction : Instruction)
    (index : OffsetIndex) : Option JumpNote :=
  (rules.find? fun rule => rule.opcode == instruction.opcode.byte.toNat).map (·.note dialect index)

end JumpRule

namespace CategoryRule

/-- Whether the instruction has the opcode and the payload size asked for. -/
def selects (rule : CategoryRule) (instruction : Instruction) : Bool :=
  rule.opcode.all (· == instruction.opcode.byte.toNat)
    && rule.payloadSize.all fun size =>
      instruction.operand.any fun operand => operand.payload.length == size

/-- The label that a source gives an instruction. -/
def labelFrom (instruction : Instruction) : LabelSource → Option String
  | .ascii => instruction.operand.map Operand.ascii
  | .hex => instruction.operand.map Operand.hex
  | .name => some instruction.opcode.name
  | .const text => some text
  | .nowhere => none

/-- The category that a rule describes. -/
def category (rule : CategoryRule) : Category where
  name := rule.name
  label instruction :=
    if rule.selects instruction then labelFrom instruction rule.label else none

end CategoryRule

/-- The dialect given by opcodes and rules. -/
def Dialect.ofRules (name : String) (opcodes : List OpCode) (jumps : List JumpRule)
    (categories : List CategoryRule) : Dialect :=
  Dialect.ofTable name (OpCodeTable.empty.extend opcodes) (JumpRule.firstNote? jumps name)
    (categories.map CategoryRule.category)

end Disasm
