import Disasm.Disassembly
import Disasm.Json.Basic
import Disasm.Settings.Basic
/-!
# JSON form

The JSON value that stands for each thing the disassembler deals in. A choice
without further data is a string; one with data is an object with a single
member, named after the choice.
-/

namespace Disasm

open Json (ofOption)

/-- The name of a width of counts. -/
def CountWidth.toJson : CountWidth → Json
  | .one => .str "U8"
  | .two => .str "U16"
  | .four => .str "U32"

/-- The JSON form of a shape. -/
def Shape.toJson : Shape → Json
  | .nullary => .str "None"
  | .fixed size => .obj [("Fixed", .num size.toNat)]
  | .counted width => .obj [("Prefixed", width.toJson)]
  | .varCounted => .str "VarInt"

/-- The JSON form of an opcode. -/
def OpCode.toJson (opcode : OpCode) : Json :=
  .obj [("raw_value", .num opcode.byte.toNat), ("name", .str opcode.name),
    ("description", .str opcode.description), ("shape", opcode.shape.toJson)]

/-- The JSON form of an operand, which shows the payload only. -/
def Operand.toJson (operand : Operand) : Json :=
  .obj [("shape", operand.shape.toJson), ("raw_value", .str ("0x" ++ operand.hex))]

/-- The name of an emphasis. -/
def Emphasis.name : Emphasis → String
  | .taken => "Taken"
  | .notTaken => "NotTaken"
  | .inactive => "Inactive"

/-- The JSON form of a branch. -/
def Branch.toJson : Branch → Json
  | .conditional target takenWhen =>
    .obj [("Conditional", .obj [("target", .num target.toNat), ("taken_when", .bool takenWhen)])]
  | .toCaller => .str "Return"

/-- The JSON form of a jump. -/
def Jump.toJson : Jump → Json
  | .static offset index =>
    .obj [("Static", .obj [("offset", .num offset.toNat), ("index", ofOption .num index)])]
  | .dynamic jump =>
    .obj [("Dynamic", .obj [("dialect", .str jump.dialect), ("kind", jump.branch.toJson),
      ("emphasis", .str jump.emphasis.name)])]

/-- The JSON form of an instruction. -/
def Instruction.toJson (instruction : Instruction) : Json :=
  .obj [("instruction_number", .num instruction.number),
    ("offset", .num instruction.offset.toNat), ("opcode", instruction.opcode.toJson),
    ("argument", ofOption Operand.toJson instruction.operand),
    ("comment", ofOption .str instruction.comment), ("jump", ofOption Jump.toJson instruction.jump)]

/-- The JSON form of an occurrence. -/
def Occurrence.toJson (occurrence : Occurrence) : Json :=
  .obj [("label", .str occurrence.label), ("instruction_index", .num occurrence.instruction)]

/-- The JSON form of what was found for a category. -/
def Collection.toJson (collection : Collection) : Json :=
  .obj [("matches", .arr (collection.found.toList.map Occurrence.toJson))]

/-- The JSON form of a survey: a member for each category. -/
def Survey.toJson (survey : Survey) : Json :=
  .obj (survey.collections.map fun collection => (collection.name, collection.toJson))

/-- The JSON form of a disassembly. -/
def Disassembly.toJson (d : Disassembly) : Json :=
  .obj [("instructions", .arr (d.instructions.map Instruction.toJson)),
    ("occurrences", d.survey.toJson)]

/-- The JSON form of settings. -/
def Settings.toJson (settings : Settings) : Json :=
  .obj [("annotate_jumps", .bool settings.annotateJumps),
    ("resolve_forward_jumps", .bool settings.resolveForwardJumps),
    ("scan_occurrences", .bool settings.scanOccurrences),
    ("max_instructions", ofOption (fun limit => .num limit.toNat) settings.maxInstructions)]

end Disasm
