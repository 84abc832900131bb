import Disasm.Instruction
import Disasm.Text.Quoted
/-!
# Surveys

A survey looks through the instructions for those that matter to its
categories. A category is a name and a rule that gives an instruction a label
or passes it over; an empty label counts as passing over. Categories keep the
order in which they were registered, and a name is registered once.

A scan forgets what was found before and goes through the instructions once,
showing each to every category.
-/

namespace Disasm

/-- Something a survey looks for. -/
structure Category where
  name : String
  /-- The label of an instruction that belongs to the category. -/
  label : Instruction → Option String

/-- An instruction that was found, by its number, and its label. -/
structure Occurrence where
  label : String
  instruction : Nat
deriving DecidableEq, Repr

/-- A category and what was found for it, in the order of the
instructions. -/
structure Collection where
  category : Category
  found : Array Occurrence := #[]

/-- The categories of a survey with what was found for them, in the order of
registration. -/
structure Survey where
  collections : List Collection := []

/-- The occurrence that an instruction is for a category. -/
def Category.occurrence? (category : Category) (instruction : Instruction) :
    Option Occurrence :=
  match category.label instruction with
  | none | some "" => none
  | some label => some ⟨label, instruction.number⟩

namespace Collection

/-- The name of the category. -/
def name (collection : Collection) : String :=
  collection.category.name

/-- The collection after it was shown an instruction. -/
def visit (collection : Collection) (instruction : Instruction) : Collection :=
  match collection.category.occurrence? instruction with
  | none => collection
  | some occurrence => { collection with found := collection.found.push occurrence }

/-- The collection with nothing found. -/
def clear (collection : Collection) : Collection :=
  { collection with found := #[] }

/-- The collection as a developer sees it. -/
def dump (collection : Collection) : String :=
  let items := collection.found.toList.map fun occurrence =>
    "Occurrence \x7b label: " ++ Text.quoted occurrence.label ++ ", instruction_index: "
      ++ toString occurrence.instruction ++ " \x7d"
  "OccurrenceCollection \x7b matches: [" ++ ", ".intercalate items ++ "], .. \x7d"

end Collection

namespace Survey

instance : EmptyCollection Survey := ⟨{}⟩

/-- The names of the categories. -/
def names (survey : Survey) : List String :=
  survey.collections.map Collection.name

/-- The collection of a category. -/
def find? (survey : Survey) (name : String) : Option Collection :=
  survey.collections.find? fun collection => collection.name == name

/-- Takes a category in, unless its name is in use; tells whether it did. -/
def register (survey : Survey) (category : Category) : Bool × Survey :=
  if survey.names.contains category.name then (false, survey)
  else (true, ⟨survey.collections ++ [⟨category, #[]⟩]⟩)

/-- The survey with the categories of a list registered in order. -/
def registerAll (survey : Survey) (categories : List Category) : Survey :=
  categories.foldl (fun survey category => (survey.register category).2) survey

/-- The survey with nothing found. -/
def clear (survey : Survey) : Survey :=
  ⟨survey.collections.map Collection.clear⟩

/-- The survey after one instruction was shown to every category, and how many
of them found something in it. -/
def visit (survey : Survey) (instruction : Instruction) : Nat × Survey :=
  (survey.collections.countP fun collection =>
      (collection.category.occurrence? instruction).isSome,
    ⟨survey.collections.map (·.visit instruction)⟩)

/-- **What the categories find in the instructions**, and how much that is. -/
def scan (survey : Survey) (instructions : List Instruction) : Nat × Survey :=
  instructions.foldl
    (fun (found, survey) instruction =>
      let (more, survey) := survey.visit instruction
      (found + more, survey))
    (0, survey.clear)

end Survey

end Disasm
