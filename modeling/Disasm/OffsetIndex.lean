import Std.Data.TreeMap
/-!
# The index of offsets

An offset index pairs offsets in the code with places in the list of
instructions, and answers in both directions. A pair is taken in only if
neither its offset nor its place is in use, so that the two directions stay
inverse to each other.
-/

namespace Disasm

/-- A pairing of offsets and places. -/
structure OffsetIndex where
  /-- The place of each offset. -/
  places : Std.TreeMap UInt32 Nat := {}
  /-- The offset of each place. -/
  offsets : Std.TreeMap Nat UInt32 := {}

namespace OffsetIndex

instance : EmptyCollection OffsetIndex := ⟨{}⟩

/-- The place of the instruction that starts at an offset. -/
def indexOf? (index : OffsetIndex) (offset : UInt32) : Option Nat :=
  index.places[offset]?

/-- The offset at which the instruction of a given place starts. -/
def offsetOf? (index : OffsetIndex) (place : Nat) : Option UInt32 :=
  index.offsets[place]?

/-- Whether an instruction starts at an offset. -/
def contains (index : OffsetIndex) (offset : UInt32) : Bool :=
  index.places.contains offset

/-- How many pairs the index holds. -/
def size (index : OffsetIndex) : Nat :=
  index.places.size

/-- Whether the index holds no pair. -/
def isEmpty (index : OffsetIndex) : Bool :=
  index.places.isEmpty

/-- Takes a pair in, unless its offset or its place is in use; tells whether
it did. -/
def insert (index : OffsetIndex) (offset : UInt32) (place : Nat) : Bool × OffsetIndex :=
  if index.places.contains offset || index.offsets.contains place then (false, index)
  else (true, ⟨index.places.insert offset place, index.offsets.insert place offset⟩)

end OffsetIndex

end Disasm
