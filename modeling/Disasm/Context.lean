/-!
# Execution contexts

What a running machine lets a reader of its code know: which instruction it
stands at, what is on top of its stack, and where the running call returns
to. Each answer can be missing for a reason of its own.
-/

namespace Disasm

/-- Why a context has no answer. -/
inductive ContextError
  | unavailable
  | dialectMismatch (expected found : String)
  | emptyStack
  | emptyFrame
  | other (text : String)
deriving DecidableEq, Repr

/-- The wording of a context error. -/
def ContextError.message : ContextError → String
  | .unavailable => "Contexto de execução indisponível"
  | .dialectMismatch expected found =>
    "Dialeto do contexto " ++ found ++ " difere de " ++ expected
  | .emptyStack => "Pilha de avaliação vazia"
  | .emptyFrame => "Nenhum frame de chamada disponível"
  | .other text => text

/-- The state of a machine, as far as jumps depend on it. -/
structure Context where
  /-- The dialect of the code that the machine runs. -/
  dialect : String
  /-- The number of the instruction it stands at. -/
  current : Option Nat := none
  /-- The truth value on top of the evaluation stack. -/
  stackTop : Except ContextError Bool := .error .emptyStack
  /-- The offset that the running call returns to. -/
  returnOffset : Except ContextError UInt32 := .error .emptyFrame

end Disasm
