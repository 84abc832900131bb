import Disasm.Export
import Disasm.Proofs.Footprints
import Disasm.Proofs.HexText
import Disasm.Proofs.JsonText
import Disasm.Proofs.ListFacts
import Disasm.Proofs.Toggles
/-!
# The exported text is unambiguous

A JSON text stands for one value only, so what is left to see is that the
value tells what it was made from. It does, but for what it does not show: the
length field of an operand and the rule of a category. And no name of a
category stands twice in it, since none is registered twice, at whatever
stage of the work.
-/

namespace Disasm

open Json (ofOption)

/-! ## What the values tell -/

/-- What may be missing is told from its value, as far as what is there is. -/
theorem Json.map_eq_of_ofOption {α β : Type} {f : α → Json} {g : α → β} {a b : Option α}
    (hnull : ∀ a, f a ≠ .null) (hf : ∀ a b, f a = f b → g a = g b)
    (h : ofOption f a = ofOption f b) : a.map g = b.map g := by
  cases a with
  | none =>
    cases b with
    | none => rfl
    | some b => exact absurd h.symm (hnull b)
  | some a =>
    cases b with
    | none => exact absurd h (hnull a)
    | some b => exact congrArg some (hf a b h)

/-- And all of it, if the value tells all. -/
theorem Json.eq_of_ofOption {α : Type} {f : α → Json} {a b : Option α} (hnull : ∀ a, f a ≠ .null)
    (hf : Function.Injective f) (h : ofOption f a = ofOption f b) : a = b := by
  have hmap := map_eq_of_ofOption (g := id) hnull (fun _ _ => @hf _ _) h
  rwa [Option.map_id, id, id] at hmap

theorem CountWidth.toJson_injective : Function.Injective CountWidth.toJson := by
  intro left right h
  cases left <;> cases right <;> first | rfl | simp [toJson] at h

theorem Shape.toJson_injective : Function.Injective Shape.toJson := by
  intro left right h
  cases left <;> cases right <;> simp [toJson] at h
  · rfl
  · rw [UInt64.toNat_inj.1 h]
  · rw [CountWidth.toJson_injective h]
  · rfl

theorem OpCode.toJson_injective : Function.Injective OpCode.toJson := by
  rintro ⟨byte, name, description, shape⟩ ⟨byte', name', description', shape'⟩ h
  simp only [toJson, Json.obj.injEq, List.cons.injEq, Prod.mk.injEq, Json.num.injEq,
    Json.str.injEq, true_and, and_true] at h
  obtain ⟨hbyte, rfl, rfl, hshape⟩ := h
  rw [UInt8.toNat_inj.1 hbyte, Shape.toJson_injective hshape]

/-- What the export shows of an operand: its shape and its payload. -/
def Operand.exported (operand : Operand) : Shape × List UInt8 :=
  (operand.shape, operand.payload)

theorem Operand.exported_eq_of_toJson {left right : Operand} (h : left.toJson = right.toJson) :
    left.exported = right.exported := by
  simp only [toJson, Json.obj.injEq, List.cons.injEq, Prod.mk.injEq, Json.str.injEq, true_and,
    and_true] at h
  obtain ⟨hshape, hhex⟩ := h
  have hpayload : left.hex = right.hex := (String.append_right_inj _).1 hhex
  rw [exported, exported, Shape.toJson_injective hshape, Hex.ofBytes_injective hpayload]

theorem Emphasis.name_injective : Function.Injective Emphasis.name := by
  intro left right h
  cases left <;> cases right <;> first | rfl | simp [name] at h

theorem Branch.toJson_injective : Function.Injective Branch.toJson := by
  intro left right h
  cases left <;> cases right <;> simp [toJson] at h
  · rw [UInt32.toNat_inj.1 h.1, h.2]
  · rfl

theorem Jump.toJson_injective : Function.Injective Jump.toJson := by
  intro left right h
  cases left with
  | static offset index =>
    cases right with
    | static offset' index' =>
      simp only [toJson, Json.obj.injEq, List.cons.injEq, Prod.mk.injEq, Json.num.injEq, true_and,
        and_true] at h
      rw [UInt32.toNat_inj.1 h.1, Json.eq_of_ofOption (by simp) (fun _ _ => Json.num.inj) h.2]
    | dynamic jump => simp [toJson] at h
  | dynamic jump =>
    cases right with
    | static offset index => simp [toJson] at h
    | dynamic jump' =>
      obtain ⟨dialect, branch, emphasis⟩ := jump
      obtain ⟨dialect', branch', emphasis'⟩ := jump'
      simp only [toJson, Json.obj.injEq, List.cons.injEq, Prod.mk.injEq, Json.str.injEq, true_and,
        and_true] at h
      obtain ⟨rfl, hbranch, hemphasis⟩ := h
      rw [Branch.toJson_injective hbranch, Emphasis.name_injective hemphasis]

/-! ## Instructions -/

/-- **The export shows two instructions alike**: they are the same, but for the
length fields of their operands. -/
structure Instruction.ShownAlike (left right : Instruction) : Prop where
  number_eq : left.number = right.number
  offset_eq : left.offset = right.offset
  opcode_eq : left.opcode = right.opcode
  operand_eq : left.operand.map Operand.exported = right.operand.map Operand.exported
  comment_eq : left.comment = right.comment
  jump_eq : left.jump = right.jump

theorem Instruction.shownAlike_of_toJson {left right : Instruction}
    (h : left.toJson = right.toJson) : left.ShownAlike right := by
  simp only [toJson, Json.obj.injEq, List.cons.injEq, Prod.mk.injEq, Json.num.injEq, true_and,
    and_true] at h
  obtain ⟨hnumber, hoffset, hopcode, hoperand, hcomment, hjump⟩ := h
  exact {
    number_eq := hnumber
    offset_eq := UInt32.toNat_inj.1 hoffset
    opcode_eq := OpCode.toJson_injective hopcode
    operand_eq := Json.map_eq_of_ofOption (fun _ hnull => by cases hnull)
      (fun _ _ => Operand.exported_eq_of_toJson) hoperand
    comment_eq := Json.eq_of_ofOption (fun _ hnull => by cases hnull) (fun _ _ => Json.str.inj)
      hcomment
    jump_eq := Json.eq_of_ofOption (fun jump hnull => by cases jump <;> cases hnull)
      Jump.toJson_injective hjump }

/-! ## Surveys -/

/-- What the export shows of a survey: the names, each with what was found. -/
def Survey.findings (survey : Survey) : List (String × Array Occurrence) :=
  survey.collections.map fun collection => (collection.name, collection.found)

theorem Survey.names_eq_map_findings (survey : Survey) :
    survey.names = survey.findings.map Prod.fst := by
  rw [findings, List.map_map]
  rfl

theorem Occurrence.toJson_injective : Function.Injective Occurrence.toJson := by
  rintro ⟨label, instruction⟩ ⟨label', instruction'⟩ h
  simpa [toJson] using h

theorem Collection.found_eq_of_toJson {left right : Collection} (h : left.toJson = right.toJson) :
    left.found = right.found := by
  simp only [toJson, Json.obj.injEq, List.cons.injEq, Prod.mk.injEq, Json.arr.injEq, true_and,
    and_true] at h
  exact Array.toList_inj.1 (Occurrence.toJson_injective.list_map h)

theorem Survey.findings_eq_of_toJson {survey other : Survey} (h : survey.toJson = other.toJson) :
    survey.findings = other.findings := by
  have hmembers := List.map_eq_map_iff_forall₂.1 (Json.obj.inj h)
  rw [findings, findings, List.map_eq_map_iff_forall₂]
  refine hmembers.imp ?_
  intro left right hsame
  obtain ⟨hname, hjson⟩ := Prod.mk.inj hsame
  rw [hname, Collection.found_eq_of_toJson hjson]

/-! ## Names stand once -/

/-- **No step makes a name stand twice.** -/
theorem Step.nodup_names_apply {d : Disassembly} (h : d.survey.names.Nodup) (step : Step) :
    (step.apply d).survey.names.Nodup := by
  cases step with
  | edge step =>
    show (step.apply d).survey.names.Nodup
    rwa [step.survey_apply]
  | survey step =>
    cases step with
    | register category => exact Survey.nodup_names_register h category
    | prepare dialect => exact Survey.nodup_names_registerAll h dialect.categories
    | scan =>
      show (d.survey.scan d.instructions).2.names.Nodup
      rwa [Survey.scan_eq, Survey.names_filled]

/-- And so no run of steps does. -/
theorem Disassembly.nodup_names_after {d : Disassembly} (h : d.survey.names.Nodup)
    (steps : List Step) : (d.after steps).survey.names.Nodup := by
  induction steps generalizing d with
  | nil => exact h
  | cons step steps ih => exact ih (step.nodup_names_apply h)

variable {dialect : Dialect} {settings : Settings} {code : Code} {d : Disassembly}

/-- A full run is decoding and some work on the survey. -/
theorem exists_after_of_disassemble (h : disassemble dialect settings code = .ok d) :
    ∃ start steps, decode dialect settings code = .ok start ∧ d = start.after steps := by
  rw [disassemble_eq] at h
  cases hstart : decode dialect settings code with
  | error e =>
    rw [hstart] at h
    cases h
  | ok start =>
    rw [hstart] at h
    obtain rfl : start.concluded dialect settings = d := Except.ok.inj h
    refine ⟨start, (settings.surveySteps dialect).map .survey, rfl, ?_⟩
    rw [Disassembly.concluded_eq, Disassembly.surveyed, Disassembly.after, List.foldl_map]
    rfl

theorem nodup_names_of_decode (h : decode dialect settings code = .ok d) :
    d.survey.names.Nodup := by
  rw [survey_of_decode h]
  exact List.nodup_nil

/-- **The exported text is unambiguous.** Let code be decoded or run through in
full, by any dialect, and let any steps follow. No name stands twice among the
occurrences that are exported. And if another disassembly, however it came
about, has the same text, then it has as many instructions, which the export
shows alike one by one, and the same categories in the same order with the
same occurrences. -/
theorem export_unambiguous
    (h : decode dialect settings code = .ok d ∨ disassemble dialect settings code = .ok d)
    (steps : List Step) :
    let now := d.after steps
    (∃ members, now.survey.toJson = .obj members ∧ (members.map Prod.fst).Nodup) ∧
    ∀ other : Disassembly, now.toJson.text = other.toJson.text →
      now.size = other.size ∧
      List.Forall₂ Instruction.ShownAlike now.instructions other.instructions ∧
      now.survey.names = other.survey.names ∧
      now.survey.findings = other.survey.findings := by
  intro now
  have hnodup : now.survey.names.Nodup := by
    apply Disassembly.nodup_names_after
    rcases h with h | h
    · exact nodup_names_of_decode h
    · obtain ⟨start, surveySteps, hstart, rfl⟩ := exists_after_of_disassemble h
      exact Disassembly.nodup_names_after (nodup_names_of_decode hstart) surveySteps
  refine ⟨⟨_, rfl, ?_⟩, ?_⟩
  · rw [List.map_map]
    exact hnodup
  · intro other htext
    have hjson := Json.text_injective htext
    simp only [Disassembly.toJson, Json.obj.injEq, List.cons.injEq, Prod.mk.injEq,
      Json.arr.injEq, true_and, and_true] at hjson
    obtain ⟨hinstructions, hsurvey⟩ := hjson
    have halike : List.Forall₂ Instruction.ShownAlike now.instructions other.instructions :=
      (List.map_eq_map_iff_forall₂.1 hinstructions).imp fun _ _ => Instruction.shownAlike_of_toJson
    have hfindings := Survey.findings_eq_of_toJson hsurvey
    refine ⟨halike.length_eq, halike, ?_, hfindings⟩
    rw [Survey.names_eq_map_findings, hfindings, ← Survey.names_eq_map_findings]

/-- A dialect with one opcode. -/
def soleDialect (name description : String) : Dialect :=
  Dialect.ofRules "sole" [⟨1, name, description, .nullary⟩] [] []

/-- A name that ends like a name and goes on like a description would give the
same text as the name and the description it imitates, if quotation marks were
not escaped. -/
theorem export_unambiguous_soleDialect :
    ∃ d other, decode (soleDialect "A\",\"description\":\"B" "C") {} #[1] = .ok d ∧
      decode (soleDialect "A" "B\",\"description\":\"C") {} #[1] = .ok other ∧
      d.toJson.text ≠ other.toJson.text := by
  have hcuts : Cuts (soleDialect "A\",\"description\":\"B" "C") {} 0 0 [1] _ :=
    @Cuts.single _ _ 0 0 1 _ none rfl rfl (by decide)
  have hcuts' : Cuts (soleDialect "A" "B\",\"description\":\"C") {} 0 0 [1] _ :=
    @Cuts.single _ _ 0 0 1 _ none rfl rfl (by decide)
  have hd : decode (soleDialect "A\",\"description\":\"B" "C") {} #[1] = .ok _ :=
    decode_of_cuts (by decide) hcuts
  refine ⟨_, _, hd, decode_of_cuts (by decide) hcuts', ?_⟩
  intro htext
  obtain ⟨-, halike, -, -⟩ := (export_unambiguous (.inl hd) []).2 _ htext
  have hopcodes := List.map_eq_map_iff_forall₂.2 (halike.imp fun _ _ hone => hone.opcode_eq)
  exact absurd hopcodes (by decide +kernel)

end Disasm
