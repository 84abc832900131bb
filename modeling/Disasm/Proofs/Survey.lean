import Disasm.Dialect.Rules
import Disasm.Neo.Dialect
import Disasm.Proofs.Decoding
/-!
# What a scan finds

A scan shows the instructions one by one to all categories, each of which has
its own collection, and counts what is found on the way. The collections do
not look at each other. So it comes to the same as taking each category by
itself and picking its occurrences out of the instructions (`scan_eq`), and
the count is how much the survey then holds. A category that reads the opcode
and the operand only finds the same in instructions that differ in their jumps
and comments (`scan_congr`).
-/

namespace Disasm

open Instruction (bare)

variable {category : Category} {instruction : Instruction} {instructions others : List Instruction}
variable {survey : Survey}

/-! ## One category -/

namespace Category

/-- **What a category finds among instructions**, in their order. -/
def occurrences (category : Category) (instructions : List Instruction) : List Occurrence :=
  instructions.filterMap category.occurrence?

/-- An instruction is an occurrence if it gets a label that says something. -/
theorem occurrence?_eq_some_iff {occurrence : Occurrence} :
    category.occurrence? instruction = some occurrence ↔
      category.label instruction = some occurrence.label ∧ occurrence.label ≠ "" ∧
        instruction.number = occurrence.instruction := by
  obtain ⟨label, place⟩ := occurrence
  unfold occurrence?
  split
  · simp_all
  · simp_all
  · next found hempty hfound =>
    rw [hfound, Option.some.injEq, Occurrence.mk.injEq, Option.some.injEq]
    constructor
    · rintro ⟨rfl, rfl⟩
      exact ⟨rfl, hempty, rfl⟩
    · rintro ⟨rfl, -, rfl⟩
      exact ⟨rfl, rfl⟩

/-- **The category reads the code only**: its label depends on the opcode and
the operand. -/
def ReadsCode (category : Category) : Prop :=
  ∀ left right : Instruction, left.opcode = right.opcode → left.operand = right.operand →
    category.label left = category.label right

/-- Such a category is blind to jumps and comments. -/
theorem ReadsCode.occurrence?_bare (h : category.ReadsCode) (instruction : Instruction) :
    category.occurrence? instruction.bare = category.occurrence? instruction := by
  have hlabel : category.label instruction.bare = category.label instruction := h _ _ rfl rfl
  rw [occurrence?, occurrence?, hlabel]
  rfl

theorem ReadsCode.occurrences_congr (h : category.ReadsCode)
    (hbare : instructions.map bare = others.map bare) :
    category.occurrences instructions = category.occurrences others := by
  have hsame := List.map_eq_of_map_eq hbare h.occurrence?_bare
  have hfilter := congrArg (List.filterMap id) hsame
  rwa [List.filterMap_map, List.filterMap_map] at hfilter

end Category

/-! ## One collection -/

namespace Collection

/-- The collection after it was shown instructions. -/
def shown (collection : Collection) (instructions : List Instruction) : Collection :=
  { collection with
    found := collection.found ++ (collection.category.occurrences instructions).toArray }

theorem shown_nil (collection : Collection) : collection.shown [] = collection := by
  simp [shown, Category.occurrences]

/-- One instruction first, and then the others. -/
theorem shown_cons (collection : Collection) (instruction : Instruction)
    (instructions : List Instruction) :
    collection.shown (instruction :: instructions) =
      (collection.visit instruction).shown instructions := by
  unfold visit
  cases h : collection.category.occurrence? instruction with
  | none => simp [shown, Category.occurrences, h]
  | some occurrence => simp [shown, Category.occurrences, h]

theorem size_found_visit (collection : Collection) (instruction : Instruction) :
    (collection.visit instruction).found.size = collection.found.size +
      if (collection.category.occurrence? instruction).isSome then 1 else 0 := by
  unfold visit
  cases collection.category.occurrence? instruction with
  | none => rfl
  | some occurrence => exact Array.size_push _

end Collection

/-! ## All of them at once -/

namespace Survey

/-- How many occurrences a survey holds. -/
def total (survey : Survey) : Nat :=
  survey.collections.foldr (fun collection total => collection.found.size + total) 0

/-- The survey with what each category finds by itself. -/
def filled (survey : Survey) (instructions : List Instruction) : Survey :=
  ⟨survey.collections.map fun collection =>
    ⟨collection.category, (collection.category.occurrences instructions).toArray⟩⟩

/-- Every category reads the code only. -/
def ReadsCode (survey : Survey) : Prop :=
  ∀ collection ∈ survey.collections, collection.category.ReadsCode

theorem readsCode_empty : (∅ : Survey).ReadsCode := by
  intro collection hmem
  cases hmem

theorem total_clear (survey : Survey) : survey.clear.total = 0 := by
  obtain ⟨collections⟩ := survey
  induction collections with
  | nil => rfl
  | cons collection collections ih => exact (Nat.zero_add _).trans ih

/-- Showing an instruction counts what is added. -/
theorem total_visit (survey : Survey) (instruction : Instruction) :
    (survey.visit instruction).2.total = survey.total + (survey.visit instruction).1 := by
  obtain ⟨collections⟩ := survey
  induction collections with
  | nil => rfl
  | cons collection collections ih =>
    simp only [visit, total, List.map_cons, List.foldr_cons, List.countP_cons] at ih ⊢
    rw [ih, collection.size_found_visit]
    omega

/-- **The loop over the instructions shows all of them to each collection**, and
keeps count. -/
theorem foldl_visit (instructions : List Instruction) (survey : Survey) :
    instructions.foldl
      (fun (found, survey) instruction =>
        let (more, survey) := survey.visit instruction
        (found + more, survey))
      (survey.total, survey) =
      (Survey.total ⟨survey.collections.map (·.shown instructions)⟩,
        ⟨survey.collections.map (·.shown instructions)⟩) := by
  -- the count that the loop carries is how much the survey it carries holds
  induction instructions generalizing survey with
  | nil => simp [Collection.shown_nil]
  | cons instruction instructions ih =>
    rw [List.foldl_cons]
    simp only [← total_visit, ih]
    simp [visit, Collection.shown_cons, Function.comp_def]

/-- **A scan is a filter for each category**, and tells how much there is in
all. -/
theorem scan_eq (survey : Survey) (instructions : List Instruction) :
    survey.scan instructions = ((survey.filled instructions).total, survey.filled instructions) := by
  have hcleared : (⟨survey.clear.collections.map (·.shown instructions)⟩ : Survey) =
      survey.filled instructions := by
    simp [clear, filled, Collection.clear, Collection.shown, Function.comp_def]
  have hloop := foldl_visit instructions survey.clear
  rw [total_clear, hcleared] at hloop
  exact hloop

/-- What was found before a scan does not matter, nor do jumps and comments to
categories that read the code only. -/
theorem scan_congr (h : survey.ReadsCode) (hbare : instructions.map bare = others.map bare) :
    survey.scan instructions = survey.scan others := by
  have hfilled : survey.filled instructions = survey.filled others := by
    rw [filled, filled]
    congr 1
    apply List.map_congr_left
    intro collection hmem
    rw [(h collection hmem).occurrences_congr hbare]
  rw [scan_eq, scan_eq, hfilled]

theorem names_filled (survey : Survey) (instructions : List Instruction) :
    (survey.filled instructions).names = survey.names := by
  simp only [names, filled, List.map_map]
  rfl

/-! ## Registering -/

/-- A name that is in use is not registered again. -/
theorem register_of_mem (h : category.name ∈ survey.names) :
    survey.register category = (false, survey) := by
  rw [register, if_pos (List.contains_iff_mem.2 h)]

/-- A new name goes to the end, with nothing found. -/
theorem register_of_notMem (h : category.name ∉ survey.names) :
    survey.register category = (true, ⟨survey.collections ++ [⟨category, #[]⟩]⟩) := by
  rw [register, if_neg fun hcontains => h (List.contains_iff_mem.1 hcontains)]

/-- Registering leaves no name standing twice. -/
theorem nodup_names_register (h : survey.names.Nodup) (category : Category) :
    (survey.register category).2.names.Nodup := by
  by_cases hname : category.name ∈ survey.names
  · rw [register_of_mem hname]
    exact h
  · have hnames : (⟨survey.collections ++ [⟨category, #[]⟩]⟩ : Survey).names =
        survey.names ++ [category.name] := List.map_append
    rw [register_of_notMem hname, hnames, List.nodup_append]
    refine ⟨h, List.pairwise_singleton _ _, ?_⟩
    rintro name hmem _ hother rfl
    exact hname (List.mem_singleton.1 hother ▸ hmem)

theorem nodup_names_registerAll (h : survey.names.Nodup) (categories : List Category) :
    (survey.registerAll categories).names.Nodup := by
  induction categories generalizing survey with
  | nil => exact h
  | cons category categories ih => exact ih (nodup_names_register h category)

/-- Registering a category that reads the code only leaves the survey one of
such categories. -/
theorem ReadsCode.register (h : survey.ReadsCode) (hcategory : category.ReadsCode) :
    (survey.register category).2.ReadsCode := by
  by_cases hname : category.name ∈ survey.names
  · rw [register_of_mem hname]
    exact h
  · rw [register_of_notMem hname]
    intro collection hmem
    rcases List.mem_append.1 hmem with hmem | hmem
    · exact h collection hmem
    · rw [List.mem_singleton.1 hmem]
      exact hcategory

theorem ReadsCode.registerAll (h : survey.ReadsCode) {categories : List Category}
    (hcategories : ∀ category ∈ categories, category.ReadsCode) :
    (survey.registerAll categories).ReadsCode := by
  induction categories generalizing survey with
  | nil => exact h
  | cons category categories ih =>
    rw [List.forall_mem_cons] at hcategories
    exact ih (h.register hcategories.1) hcategories.2

/-- Categories with names of their own go to the end one after the other. -/
theorem registerAll_of_nodup {categories : List Category}
    (h : (survey.names ++ categories.map Category.name).Nodup) :
    survey.registerAll categories =
      ⟨survey.collections ++ categories.map fun category => ⟨category, #[]⟩⟩ := by
  induction categories generalizing survey with
  | nil => simp [registerAll]
  | cons category categories ih =>
    have hnew : category.name ∉ survey.names := by
      intro hmem
      exact (List.nodup_append.1 h).2.2 _ hmem _ List.mem_cons_self rfl
    have hrest := @ih ⟨survey.collections ++ [⟨category, #[]⟩]⟩
      (by simpa [names, Collection.name] using h)
    rw [registerAll, List.foldl_cons, register_of_notMem hnew]
    simpa [registerAll] using hrest

end Survey

/-! ## Dialects whose categories read the code only -/

/-- **The categories of the dialect read the code only.** -/
def Dialect.ReadsCode (dialect : Dialect) : Prop :=
  ∀ category ∈ dialect.categories, category.ReadsCode

/-- A category given by a rule reads the code only. -/
theorem CategoryRule.readsCode_category (rule : CategoryRule) : rule.category.ReadsCode := by
  intro one other hopcode hoperand
  have hselects : rule.selects one = rule.selects other := by
    rw [selects, selects, hopcode, hoperand]
  have hlabel : labelFrom one rule.label = labelFrom other rule.label := by
    cases rule.label with
    | ascii => rw [labelFrom, labelFrom, hoperand]
    | hex => rw [labelFrom, labelFrom, hoperand]
    | name => rw [labelFrom, labelFrom, hopcode]
    | const text => rfl
    | nowhere => rfl
  show (if rule.selects one then labelFrom one rule.label else none) = _
  rw [hselects, hlabel]
  rfl

/-- So do the categories of dialects given by rules. -/
theorem Dialect.readsCode_ofRules (name : String) (opcodes : List OpCode) (jumps : List JumpRule)
    (categories : List CategoryRule) : (ofRules name opcodes jumps categories).ReadsCode := by
  intro category hmem
  obtain ⟨rule, -, rfl⟩ := List.mem_map.1 hmem
  exact rule.readsCode_category

/-- And those of the NEO dialect. -/
theorem Neo.readsCode_dialect : Neo.dialect.ReadsCode := by
  intro category hmem one other hopcode hoperand
  change category ∈ Neo.categories at hmem
  simp only [Neo.categories, List.mem_cons, List.not_mem_nil, or_false] at hmem
  rcases hmem with rfl | rfl | rfl
  · show Neo.syscallLabel? one = Neo.syscallLabel? other
    rw [Neo.syscallLabel?, Neo.syscallLabel?, hopcode, hoperand]
  · simp only [hoperand]
  · simp only [hoperand]

end Disasm
