import Disasm.Dialect.Basic
import Disasm.Neo.InstructionSet
import Disasm.Neo.Landmark
import Disasm.Neo.Transfer
/-!
# The NEO dialect

The instruction set, the transfers of control and the landmarks of NEO code,
put together.
-/

namespace Disasm

namespace Neo

/-- The dialect of the NEO virtual machine. -/
def dialect : Dialect :=
  Dialect.ofTable dialectName table note? categories

end Neo

end Disasm
