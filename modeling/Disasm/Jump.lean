import Disasm.Context
import Disasm.OffsetIndex
/-!
# Jumps

A jump is an edge of the control flow. A static one has its target in the
code. A dynamic one depends on the machine: a branch is taken or not by the
value on top of the stack, and a return goes where the running call came
from.

Asking a dynamic jump for its target also sets its emphasis, which is how a
display marks the edge. It is lit only while the machine stands at the
instruction that owns the jump. A return is never lit: asking it leaves the
emphasis alone unless the context fails.
-/

namespace Disasm

/-- How a display marks an edge. -/
inductive Emphasis
  | taken
  | notTaken
  | inactive
deriving DecidableEq, Repr

/-- What a dynamic jump depends on. -/
inductive Branch
  /-- It goes to `target` if the top of the stack is `takenWhen`. -/
  | conditional (target : UInt32) (takenWhen : Bool)
  /-- It goes back to the caller. -/
  | toCaller
deriving DecidableEq, Repr

/-- A jump that depends on the machine. -/
structure DynamicJump where
  /-- The dialect whose machines can answer for it. -/
  dialect : String
  branch : Branch
  emphasis : Emphasis := .inactive
deriving DecidableEq, Repr

/-- An edge of the control flow. -/
inductive Jump
  /-- A jump to an offset, with the place of the instruction there once it is
  known. -/
  | static (offset : UInt32) (index : Option Nat)
  | dynamic (jump : DynamicJump)
deriving DecidableEq, Repr

namespace DynamicJump

/-- The jump with the given emphasis. -/
def mark (jump : DynamicJump) (emphasis : Emphasis) : DynamicJump :=
  { jump with emphasis }

/-- What the context answers for the jump of the instruction numbered `owner`:
the target, if there is one now, and the emphasis of the edge. -/
def answer (jump : DynamicJump) (context : Option Context) (owner : Nat) :
    Except ContextError (Option UInt32 × Emphasis) :=
  match context with
  | none => .error .unavailable
  | some context =>
    if context.dialect ≠ jump.dialect then
      .error (.dialectMismatch jump.dialect context.dialect)
    else
      match jump.branch with
      | .conditional target takenWhen =>
        if context.current = some owner then
          context.stackTop.map fun top =>
            (some target, if top = takenWhen then .taken else .notTaken)
        else .ok (some target, .inactive)
      | .toCaller =>
        if context.current = some owner then
          context.returnOffset.map fun offset => (some offset, jump.emphasis)
        else .ok (none, jump.emphasis)

/-- **The target of the jump of the instruction numbered `owner`**, and the
jump with the emphasis it then has. A context that fails gives no target and
puts the light out. -/
def resolve (jump : DynamicJump) (context : Option Context) (owner : Nat) :
    Option UInt32 × DynamicJump :=
  match jump.answer context owner with
  | .ok (target, emphasis) => (target, jump.mark emphasis)
  | .error _ => (none, jump.mark .inactive)

end DynamicJump

namespace Jump

/-- The emphasis of an edge; a static one always counts as taken. -/
def emphasis : Jump → Emphasis
  | .static _ _ => .taken
  | .dynamic jump => jump.emphasis

/-- Whether the target is in the code. -/
def isStatic : Jump → Bool
  | .static _ _ => true
  | .dynamic _ => false

/-- The target of a static jump. -/
def staticOffset? : Jump → Option UInt32
  | .static offset _ => some offset
  | .dynamic _ => none

/-- The place of a static jump's target. -/
def staticIndex? : Jump → Option Nat
  | .static _ index => index
  | .dynamic _ => none

/-- The target of the jump, and the jump after the question. -/
def resolve (jump : Jump) (context : Option Context) (owner : Nat) : Option UInt32 × Jump :=
  match jump with
  | .static offset index => (some offset, .static offset index)
  | .dynamic jump =>
    let (target, jump) := jump.resolve context owner
    (target, .dynamic jump)

/-- The jump with the place of its target looked up, if it is static and the
place is not known yet; and whether the place was found. -/
def settle (index : OffsetIndex) : Jump → Jump × Bool
  | .static offset none => (.static offset (index.indexOf? offset), (index.indexOf? offset).isSome)
  | jump => (jump, false)

end Jump

end Disasm
