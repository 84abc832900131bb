import Disasm.Dialect.Basic
import Disasm.Proofs.JumpResolution
import Disasm.Proofs.ListFacts
import Disasm.Proofs.Survey
import Disasm.Proofs.Tiling
import Mathlib.Data.List.Induction
/-!
# Surveys over whole runs

Categories can be registered at any time, one by one or all those of a
dialect, and scans can come at any time in between. `Holds` says what the
survey then is: the names that were offered, each once and in the order of
their first offer; the category that came first for each name; and for the
names that were there at the last scan what the category finds, for later
ones nothing. Offering a category and scanning keep this up
(`Holds.register`, `Holds.scan`), so it is so after every run of such steps
(`holds_surveyed`).
-/

namespace Disasm

open Instruction (bare)

/-- A step of work on the survey of a disassembly. -/
inductive SurveyStep
  /-- A category is registered. -/
  | register (category : Category)
  /-- The categories of a dialect are registered. -/
  | prepare (dialect : Dialect)
  /-- The instructions are surveyed. -/
  | scan

namespace SurveyStep

/-- The disassembly after the step. -/
def apply (step : SurveyStep) (d : Disassembly) : Disassembly :=
  match step with
  | .register category => (d.register category).2
  | .prepare dialect => d.registerAll dialect.categories
  | .scan => d.scan.2

/-- The survey after the step. -/
def resurvey (step : SurveyStep) (survey : Survey) (instructions : List Instruction) : Survey :=
  match step with
  | .register category => (survey.register category).2
  | .prepare dialect => survey.registerAll dialect.categories
  | .scan => (survey.scan instructions).2

/-- The categories that the step offers to the survey. -/
def offers : SurveyStep → List Category
  | .register category => [category]
  | .prepare dialect => dialect.categories
  | .scan => []

/-- The categories that steps offer, in order. -/
def offered (steps : List SurveyStep) : List Category :=
  steps.flatMap offers

/-- **A scan came after the first offer of the name.** -/
def Scanned (steps : List SurveyStep) (name : String) : Prop :=
  ∃ before after, steps = before ++ .scan :: after ∧ name ∈ (offered before).map Category.name

end SurveyStep

/-- The disassembly after steps of work on its survey, in order. -/
def Disassembly.surveyed (d : Disassembly) (steps : List SurveyStep) : Disassembly :=
  steps.foldl (fun d step => step.apply d) d

/-- **What a category has found in a disassembly**: exactly the instructions that
it gives a label that says something, in order and each once. -/
structure Category.FoundIn (category : Category) (d : Disassembly) (found : List Occurrence) :
    Prop where
  mem_iff : ∀ label place, ⟨label, place⟩ ∈ found ↔
    ∃ instruction, d.get? place = some instruction ∧ instruction.number = place ∧
      category.label instruction = some label ∧ label ≠ ""
  increasing : found.Pairwise fun left right => left.instruction < right.instruction
  lt_size : ∀ occurrence ∈ found, occurrence.instruction < d.size

/-- **What a survey holds** after categories were offered to it, `scanned` being
the names that it had at the last scan. -/
structure Survey.Holds (survey : Survey) (instructions : List Instruction)
    (offers : List Category) (scanned : String → Prop) : Prop where
  /-- No name stands twice. -/
  nodup_names : survey.names.Nodup
  /-- The names stand in the order of their first offers. -/
  names_eq : survey.names = (offers.map Category.name).eraseDups
  /-- For each name the category that was offered first is used. -/
  first_of_mem : ∀ collection ∈ survey.collections,
    offers.find? (·.name == collection.name) = some collection.category
  /-- For a name that was scanned for, all that its category finds is there. -/
  found_of_scanned : ∀ collection ∈ survey.collections, scanned collection.name →
    collection.found = (collection.category.occurrences instructions).toArray
  /-- For another one nothing is. -/
  found_of_not_scanned : ∀ collection ∈ survey.collections, ¬ scanned collection.name →
    collection.found = #[]

namespace Survey

variable {survey : Survey} {instructions : List Instruction} {offers : List Category}
variable {scanned : String → Prop}

theorem holds_empty (instructions : List Instruction) :
    Holds ∅ instructions [] (fun _ => False) where
  nodup_names := List.nodup_nil
  names_eq := rfl
  first_of_mem _ hmem := by cases hmem
  found_of_scanned _ hmem := by cases hmem
  found_of_not_scanned _ hmem := by cases hmem

/-- The survey has the names that were offered. -/
theorem Holds.mem_names_iff (h : survey.Holds instructions offers scanned) {name : String} :
    name ∈ survey.names ↔ name ∈ offers.map Category.name := by
  rw [h.names_eq, List.mem_eraseDups]

/-! ## What a step keeps -/

/-- **Offering a category**: an old name changes nothing, a new one is held with
nothing found. -/
theorem Holds.register (h : survey.Holds instructions offers scanned)
    (hscanned : ∀ name, scanned name → name ∈ offers.map Category.name) (category : Category) :
    (survey.register category).2.Holds instructions (offers ++ [category]) scanned := by
  by_cases hname : category.name ∈ survey.names
  · rw [register_of_mem hname]
    refine ⟨h.nodup_names, ?_, ?_, h.found_of_scanned, h.found_of_not_scanned⟩
    · rw [List.map_append, List.map_singleton,
        List.eraseDups_concat_of_mem (h.mem_names_iff.1 hname), h.names_eq]
    · intro collection hmem
      exact List.find?_concat_of_some (h.first_of_mem collection hmem) category
  · have hnew : category.name ∉ offers.map Category.name := fun hmem =>
      hname (h.mem_names_iff.2 hmem)
    have hnames : (⟨survey.collections ++ [⟨category, #[]⟩]⟩ : Survey).names =
        survey.names ++ [category.name] := List.map_append
    have hnodup := nodup_names_register h.nodup_names category
    rw [register_of_notMem hname] at hnodup ⊢
    refine ⟨hnodup, ?_, ?_, ?_, ?_⟩
    · rw [hnames, List.map_append, List.map_singleton, List.eraseDups_concat_of_notMem hnew,
        h.names_eq]
    · intro collection hmem
      rcases List.mem_append.1 hmem with hmem | hmem
      · exact List.find?_concat_of_some (h.first_of_mem collection hmem) category
      · obtain rfl := List.mem_singleton.1 hmem
        -- nobody offered the name before
        have hnone : offers.find? (·.name == category.name) = none := by
          rw [List.find?_eq_none]
          intro other hother hsame
          exact hnew (List.mem_map.2 ⟨other, hother, eq_of_beq hsame⟩)
        show (offers ++ [category]).find? (·.name == category.name) = some category
        rw [List.find?_append, hnone, Option.none_or]
        simp
    · intro collection hmem hwas
      rcases List.mem_append.1 hmem with hmem | hmem
      · exact h.found_of_scanned collection hmem hwas
      · obtain rfl := List.mem_singleton.1 hmem
        exact absurd (hscanned _ hwas) hnew
    · intro collection hmem hnot
      rcases List.mem_append.1 hmem with hmem | hmem
      · exact h.found_of_not_scanned collection hmem hnot
      · rw [List.mem_singleton.1 hmem]

/-- Offering many, one after the other. -/
theorem Holds.registerAll (h : survey.Holds instructions offers scanned)
    (hscanned : ∀ name, scanned name → name ∈ offers.map Category.name)
    (categories : List Category) :
    (survey.registerAll categories).Holds instructions (offers ++ categories) scanned := by
  induction categories generalizing survey offers with
  | nil => rwa [List.append_nil]
  | cons category categories ih =>
    have hone := h.register hscanned category
    have hrest := ih hone fun name hname => by
      rw [List.map_append]
      exact List.mem_append_left _ (hscanned name hname)
    rwa [List.append_assoc] at hrest

/-- **Scanning** brings what is found up to date for all names. -/
theorem Holds.scan (h : survey.Holds instructions offers scanned) :
    (survey.scan instructions).2.Holds instructions offers (· ∈ offers.map Category.name) := by
  rw [scan_eq]
  refine ⟨?_, ?_, ?_, ?_, ?_⟩
  · rw [names_filled]
    exact h.nodup_names
  · rw [names_filled]
    exact h.names_eq
  · intro collection hmem
    obtain ⟨before, hbefore, rfl⟩ := List.mem_map.1 hmem
    exact h.first_of_mem before hbefore
  · intro collection hmem _
    obtain ⟨before, hbefore, rfl⟩ := List.mem_map.1 hmem
    rfl
  · intro collection hmem hnot
    obtain ⟨before, hbefore, rfl⟩ := List.mem_map.1 hmem
    exact absurd (h.mem_names_iff.1 (List.mem_map_of_mem hbefore)) hnot

/-- Only which names were scanned for matters, not how that is said. -/
theorem Holds.congr {scanned' : String → Prop} (h : survey.Holds instructions offers scanned)
    (hiff : ∀ name, scanned' name ↔ scanned name) :
    survey.Holds instructions offers scanned' := by
  have hsame : scanned' = scanned := funext fun name => propext (hiff name)
  rwa [hsame]

end Survey

/-! ## Runs -/

namespace SurveyStep

variable {steps : List SurveyStep} {step : SurveyStep} {name : String}

theorem offered_concat (steps : List SurveyStep) (step : SurveyStep) :
    offered (steps ++ [step]) = offered steps ++ step.offers := by
  simp [offered]

/-- A name that was scanned for was offered. -/
theorem Scanned.mem_offered (h : Scanned steps name) :
    name ∈ (offered steps).map Category.name := by
  obtain ⟨before, after, rfl, hmem⟩ := h
  rw [offered, List.flatMap_append, List.map_append]
  exact List.mem_append_left _ hmem

/-- A scan at the end is for all names that were offered. -/
theorem scanned_concat_scan :
    Scanned (steps ++ [.scan]) name ↔ name ∈ (offered steps).map Category.name := by
  constructor
  · intro h
    have hmem := h.mem_offered
    rwa [offered_concat, show offers .scan = [] from rfl, List.append_nil] at hmem
  · intro hmem
    exact ⟨steps, [], rfl, hmem⟩

/-- Another step at the end is no scan. -/
theorem scanned_concat_of_ne (h : step ≠ .scan) :
    Scanned (steps ++ [step]) name ↔ Scanned steps name := by
  constructor
  · rintro ⟨before, after, hsteps, hmem⟩
    rcases List.eq_nil_or_concat after with rfl | ⟨after, last, rfl⟩
    · exact absurd (List.append_inj' hsteps rfl).2 (by simpa using h)
    · refine ⟨before, after, ?_, hmem⟩
      rw [List.concat_eq_append, ← List.cons_append, ← List.append_assoc] at hsteps
      exact (List.append_inj' hsteps rfl).1
  · rintro ⟨before, after, rfl, hmem⟩
    exact ⟨before, after ++ [step], by simp, hmem⟩

/-- Before any step there was no scan. -/
theorem not_scanned_nil : ¬ Scanned [] name := by
  rintro ⟨before, after, hnil, -⟩
  simp at hnil

/-- A step of work on the survey changes nothing else. -/
theorem apply_eq (step : SurveyStep) (d : Disassembly) :
    step.apply d = { d with survey := step.resurvey d.survey d.instructions } := by
  cases step <;> rfl

variable {survey : Survey} {instructions others : List Instruction}

/-- Categories that read the code only do not see jumps and comments. -/
theorem resurvey_congr (step : SurveyStep) (h : survey.ReadsCode)
    (hbare : instructions.map bare = others.map bare) :
    step.resurvey survey instructions = step.resurvey survey others := by
  cases step with
  | register category => rfl
  | prepare dialect => rfl
  | scan => rw [resurvey, resurvey, Survey.scan_congr h hbare]

/-- And no others join them, if none are offered. -/
theorem readsCode_resurvey (step : SurveyStep) (h : survey.ReadsCode)
    (hoffers : ∀ category ∈ step.offers, category.ReadsCode) :
    (step.resurvey survey instructions).ReadsCode := by
  cases step with
  | register category => exact h.register (hoffers category List.mem_cons_self)
  | prepare dialect => exact h.registerAll hoffers
  | scan =>
    rw [resurvey, Survey.scan_eq]
    intro collection hmem
    obtain ⟨before, hbefore, rfl⟩ := List.mem_map.1 hmem
    exact h before hbefore

end SurveyStep

namespace Disassembly

open SurveyStep (offered Scanned)

variable {d : Disassembly}

theorem surveyed_concat (d : Disassembly) (steps : List SurveyStep) (step : SurveyStep) :
    d.surveyed (steps ++ [step]) = step.apply (d.surveyed steps) := by
  simp [surveyed]

/-- So a run of them changes nothing else either. -/
theorem surveyed_eq (d : Disassembly) (steps : List SurveyStep) :
    d.surveyed steps = { d with survey := (d.surveyed steps).survey } := by
  induction steps generalizing d with
  | nil => rfl
  | cons step steps ih =>
    have hrest := ih (step.apply d)
    rw [step.apply_eq] at hrest
    show (step.apply d).surveyed steps = { d with survey := ((step.apply d).surveyed steps).survey }
    rw [step.apply_eq]
    exact hrest

theorem instructions_surveyed (d : Disassembly) (steps : List SurveyStep) :
    (d.surveyed steps).instructions = d.instructions := by
  rw [surveyed_eq]

/-- **A run finds the same in instructions that differ in jumps and comments**,
if all categories read the code only. -/
theorem survey_surveyed_congr {d' : Disassembly} {steps : List SurveyStep}
    (hsurvey : d.survey = d'.survey) (hreads : d.survey.ReadsCode)
    (hbare : d.instructions.map bare = d'.instructions.map bare)
    (hoffers : ∀ step ∈ steps, ∀ category ∈ step.offers, category.ReadsCode) :
    (d.surveyed steps).survey = (d'.surveyed steps).survey := by
  induction steps generalizing d d' with
  | nil => exact hsurvey
  | cons step steps ih =>
    rw [List.forall_mem_cons] at hoffers
    show ((step.apply d).surveyed steps).survey = ((step.apply d').surveyed steps).survey
    rw [step.apply_eq, step.apply_eq, ← hsurvey]
    exact ih (step.resurvey_congr hreads hbare) (step.readsCode_resurvey hreads hoffers.1) hbare
      hoffers.2

/-- **What a survey holds after a run**, if it was empty before. -/
theorem holds_surveyed (h : d.survey = ∅) (steps : List SurveyStep) :
    (d.surveyed steps).survey.Holds d.instructions (offered steps) (Scanned steps) := by
  induction steps using List.reverseRecOn with
  | nil =>
    have hempty : d.survey.Holds d.instructions [] (fun _ => False) := by
      rw [h]
      exact Survey.holds_empty d.instructions
    exact hempty.congr fun _ => iff_false_intro SurveyStep.not_scanned_nil
  | append_singleton steps step ih =>
    have hoffered : ∀ name, Scanned steps name → name ∈ (offered steps).map Category.name :=
      fun _ hname => hname.mem_offered
    rw [surveyed_concat, SurveyStep.offered_concat]
    cases step with
    | register category =>
      exact (ih.register hoffered category).congr fun _ =>
        SurveyStep.scanned_concat_of_ne (by simp)
    | prepare dialect =>
      exact (ih.registerAll hoffered dialect.categories).congr fun _ =>
        SurveyStep.scanned_concat_of_ne (by simp)
    | scan =>
      have hscan := ih.scan
      rw [← d.instructions_surveyed steps] at hscan
      rw [← d.instructions_surveyed steps, show SurveyStep.offers .scan = [] from rfl,
        List.append_nil]
      exact hscan.congr fun _ => SurveyStep.scanned_concat_scan

end Disassembly

/-! ## Decoded code -/

variable {dialect : Dialect} {settings : Settings} {code : Code} {d : Disassembly}

/-- Decoding registers no category. -/
theorem survey_of_decode (h : decode dialect settings code = .ok d) : d.survey = ∅ := by
  obtain ⟨-, instructions, -, rfl⟩ := decode_eq_ok_iff.1 h
  unfold finish
  split <;> rfl

/-- What a category finds in decoded code is in order, because instructions are
numbered by their places. -/
theorem foundIn_of_decode (h : decode dialect settings code = .ok d) (category : Category) :
    category.FoundIn d (category.occurrences d.instructions) where
  mem_iff label place := by
    rw [Category.occurrences, List.mem_filterMap]
    constructor
    · rintro ⟨instruction, hmem, hfound⟩
      obtain ⟨hlabel, hne, hnumber⟩ := Category.occurrence?_eq_some_iff.1 hfound
      obtain ⟨i, hi⟩ := List.getElem?_of_mem hmem
      obtain ⟨-, -, -, -, -, hplace, -⟩ := place_of_decode h hi
      obtain rfl : i = place := hplace.symm.trans hnumber
      exact ⟨instruction, hi, hnumber, hlabel, hne⟩
    · rintro ⟨instruction, hget, hnumber, hlabel, hne⟩
      exact ⟨instruction, List.mem_of_getElem? hget,
        Category.occurrence?_eq_some_iff.2 ⟨hlabel, hne, hnumber⟩⟩
  increasing := by
    have hnumbers : d.instructions.Pairwise fun left right => left.number < right.number := by
      rw [List.pairwise_iff_getElem]
      intro i j hi hj hij
      obtain ⟨-, -, -, -, -, hleft, -⟩ := place_of_decode h (List.getElem?_eq_getElem hi)
      obtain ⟨-, -, -, -, -, hright, -⟩ := place_of_decode h (List.getElem?_eq_getElem hj)
      omega
    refine hnumbers.filterMap _ ?_
    intro left right hlt found hfound found' hfound'
    obtain ⟨-, -, hleft⟩ := Category.occurrence?_eq_some_iff.1 hfound
    obtain ⟨-, -, hright⟩ := Category.occurrence?_eq_some_iff.1 hfound'
    omega
  lt_size occurrence hmem := by
    obtain ⟨instruction, hinstruction, hfound⟩ := List.mem_filterMap.1 hmem
    obtain ⟨-, -, hnumber⟩ := Category.occurrence?_eq_some_iff.1 hfound
    obtain ⟨i, hi⟩ := List.getElem?_of_mem hinstruction
    obtain ⟨-, -, -, -, -, hplace, -⟩ := place_of_decode h hi
    have hlt : i < d.instructions.length := (List.getElem?_eq_some_iff.1 hi).1
    rw [Disassembly.size]
    omega

/-- **What a survey is worth after any run.** Let categories be registered in
decoded code, one by one or those of dialects, and let it be scanned, in any
order. The names are then distinct and stand in the order in which they were
first offered, each with the category that was offered first. A category has
found nothing if no scan came after that offer, and otherwise exactly the
instructions that it labels, in order. A further registration is accepted
exactly if its name is new, and changes nothing if it is not; and a further
scan tells how much all categories have then found. -/
theorem survey_exact_after_run (h : decode dialect settings code = .ok d)
    (steps : List SurveyStep) :
    let now := d.surveyed steps
    let offers := SurveyStep.offered steps
    now.survey.names.Nodup ∧
    now.survey.names = (offers.map Category.name).eraseDups ∧
    (∀ collection ∈ now.survey.collections,
      offers.find? (·.name == collection.name) = some collection.category ∧
      (¬ SurveyStep.Scanned steps collection.name → collection.found = #[]) ∧
      (SurveyStep.Scanned steps collection.name →
        collection.category.FoundIn d collection.found.toList)) ∧
    (∀ category, ((now.register category).1 = true ↔ category.name ∉ now.survey.names) ∧
      ((now.register category).1 = false → (now.register category).2 = now)) ∧
    now.scan.1 = now.scan.2.survey.total := by
  intro now offers
  have hholds := Disassembly.holds_surveyed (survey_of_decode h) steps
  refine ⟨hholds.nodup_names, hholds.names_eq, ?_, ?_, ?_⟩
  · intro collection hmem
    refine ⟨hholds.first_of_mem collection hmem, hholds.found_of_not_scanned collection hmem, ?_⟩
    intro hscanned
    rw [hholds.found_of_scanned collection hmem hscanned]
    exact foundIn_of_decode h collection.category
  · intro category
    rw [Disassembly.register]
    by_cases hname : category.name ∈ now.survey.names
    · rw [Survey.register_of_mem hname]
      exact ⟨by simpa using hname, fun _ => rfl⟩
    · rw [Survey.register_of_notMem hname]
      exact ⟨by simpa using hname, by simp⟩
  · rw [Disassembly.scan, Survey.scan_eq]

/-- A category that gives every instruction the same label. -/
def Category.always (name label : String) : Category where
  name := name
  label _ := some label

/-- A name is registered, scanned for, and registered again with another rule;
a second name comes after the scan. The first has the occurrences of its first
rule, the second none yet, and neither can be registered once more. -/
theorem survey_exact_after_run_hopDialect :
    ∃ d steps, decode hopDialect {} #[1, 1] = .ok d ∧
      steps = [.register (.always "early" "found"), .scan, .register (.always "early" "other"),
        .register (.always "late" "found")] ∧
      (d.surveyed steps).survey.names = ["early", "late"] ∧
      (∀ collection ∈ (d.surveyed steps).survey.collections,
        (collection.name = "early" → collection.category = .always "early" "found" ∧
          collection.category.FoundIn d collection.found.toList) ∧
        (collection.name = "late" → collection.found = #[])) ∧
      ((d.surveyed steps).register (.always "late" "again")).1 = false := by
  have hlast : Cuts hopDialect {} 1 1 [1] _ :=
    @Cuts.single _ _ 1 1 1 _ none rfl rfl (by decide)
  have hcuts : Cuts hopDialect {} 0 0 [1, 1] _ :=
    @Cuts.cons _ _ 0 0 1 _ none [1] _ rfl rfl (by decide) hlast
  have hd : decode hopDialect {} #[1, 1] = .ok _ := decode_of_cuts (by decide) hcuts
  obtain ⟨-, hnames, hcollections, hregister, -⟩ := survey_exact_after_run hd
    [.register (.always "early" "found"), .scan, .register (.always "early" "other"),
      .register (.always "late" "found")]
  refine ⟨_, _, hd, rfl, hnames, ?_, ?_⟩
  · intro collection hmem
    obtain ⟨hfirst, hnothing, hfound⟩ := hcollections collection hmem
    refine ⟨fun hname => ⟨?_, hfound ?_⟩, fun hname => hnothing ?_⟩
    · rw [hname] at hfirst
      exact (Option.some.inj hfirst).symm
    · rw [hname]
      exact ⟨[.register (.always "early" "found")], _, rfl, by decide⟩
    · rw [hname]
      intro hscanned
      have hearly : SurveyStep.Scanned ([.register (.always "early" "found")] ++ [.scan]) "late" :=
        (SurveyStep.scanned_concat_of_ne (by simp)).1
          ((SurveyStep.scanned_concat_of_ne (by simp)).1 hscanned)
      exact absurd (SurveyStep.scanned_concat_scan.1 hearly) (by decide)
  · rw [← Bool.not_eq_true, (hregister _).1, hnames]
    decide

end Disasm
