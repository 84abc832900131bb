import Disasm.Proofs.Notes
import Disasm.Proofs.OnePass
import Disasm.Proofs.Registry
/-!
# What the settings choose

Apart from the limit on instructions, the settings are three toggles: whether
jumps are commented, whether the places of forward targets are filled in, and
whether the code is surveyed. None of them has a say in how the code is cut or
in what the dialect is shown. So two decodings of the same code fail alike or
agree up to comments and places, and each of these depends on its own toggle
only (`agreeUpTo_finish`). A survey by categories that read the code only does
not see the difference.
-/

namespace Disasm

open Instruction (bare)

/-- **Two attempts come out alike**: both fail for the same reason, or both
succeed with results that are related. -/
inductive Alike {ε α : Type} (related : α → α → Prop) : Except ε α → Except ε α → Prop
  | failed (e : ε) : Alike related (.error e) (.error e)
  | succeeded {left right : α} : related left right → Alike related (.ok left) (.ok right)

/-- What is then done to the results keeps them alike, if it keeps them
related. -/
theorem Alike.map {ε α β : Type} {related : α → α → Prop} {related' : β → β → Prop}
    {x y : Except ε α} (h : Alike related x y) {f g : α → β}
    (hkeep : ∀ a b, x = .ok a → y = .ok b → related a b → related' (f a) (g b)) :
    Alike related' (x.map f) (y.map g) := by
  cases h with
  | failed e => exact .failed e
  | succeeded hrelated => exact .succeeded (hkeep _ _ rfl rfl hrelated)

/-- The instruction without its comment and without the place of its jump's
target. -/
def Instruction.outline (instruction : Instruction) : Instruction :=
  { instruction.bare with jump := instruction.jump.map Jump.edge }

/-- **Two disassemblies of the same code agree**, up to what the settings they
were made under choose. -/
structure AgreeUpTo (left right : Settings) (d d' : Disassembly) : Prop where
  index_eq : d.index = d'.index
  /-- The same instructions are there, with the same edges. -/
  outlines_eq : d.instructions.map Instruction.outline = d'.instructions.map Instruction.outline
  /-- The jumps are the same all through, if places are filled in on both sides
  or on neither. -/
  jumps_eq : left.resolveForwardJumps = right.resolveForwardJumps →
    d.instructions.map (·.jump) = d'.instructions.map (·.jump)
  /-- The comments are the same, if jumps are commented on both sides or on
  neither. -/
  comments_eq : left.annotateJumps = right.annotateJumps →
    d.instructions.map (·.comment) = d'.instructions.map (·.comment)

/-- **Two surveys agree**, up to whether the code was surveyed. -/
structure SurveysAgree (left right : Settings) (survey survey' : Survey) : Prop where
  names_eq : survey.names = survey'.names
  eq_of_scan_eq : left.scanOccurrences = right.scanOccurrences → survey = survey'

/-- No instruction is commented. -/
def Disassembly.Uncommented (d : Disassembly) : Prop :=
  ∀ instruction ∈ d.instructions, instruction.comment = none

/-- No category has found anything. -/
def Survey.Unfilled (survey : Survey) : Prop :=
  ∀ collection ∈ survey.collections, collection.found = #[]

variable {dialect : Dialect} {left right : Settings} {code : Code} {d : Disassembly}
variable {pos number : Nat} {bytes : List UInt8}

/-! ## Cutting depends on the limit only -/

/-- Whether there is room for an instruction is a matter of the limit. -/
theorem atLimit?_congr (h : left.maxInstructions = right.maxInstructions) (place : Nat) :
    left.atLimit? place = right.atLimit? place := by
  rw [Settings.atLimit?, h, Settings.atLimit?]

/-- So is where bytes are stuck. -/
theorem Stuck.congr_settings {e : DecodeError}
    (hlimit : left.maxInstructions = right.maxInstructions)
    (h : Stuck dialect left pos number bytes e) : Stuck dialect right pos number bytes e := by
  have hroom := atLimit?_congr hlimit number
  cases h with
  | limit hat => exact .limit (hroom ▸ hat)
  | unknown hfree hop => exact .unknown (hroom ▸ hfree) hop
  | operand hfree hop hparse => exact .operand (hroom ▸ hfree) hop hparse

/-! ## What a note leaves on an instruction -/

section Linking

variable (dialect) (left right : Settings) (instructions : List Instruction)

/-- The outline of an instruction is fixed by the note on it. -/
theorem outline_applyNote (instruction : Instruction) (note : Option JumpNote) :
    (applyNote left instruction note).outline = (applyNote right instruction note).outline := by
  simp only [Instruction.outline, Instruction.bare_applyNote, jump_applyNote]

/-- Filling in leaves it alone. -/
theorem outline_settleJump (index : OffsetIndex) (instruction : Instruction) :
    (Disassembly.settleJump index instruction).1.outline = instruction.outline := by
  simp only [Instruction.outline, Instruction.bare_settleJump, Disassembly.jump_settleJump,
    Option.map_map, Function.comp_def, Jump.edge_settle]

/-- Linking gives the same outlines under all settings. -/
theorem map_outline_link :
    (link dialect left instructions).instructions.map Instruction.outline =
      (link dialect right instructions).instructions.map Instruction.outline := by
  rw [instructions_link, instructions_link, List.map_map, List.map_map]
  exact List.map_congr_left fun _ _ => outline_applyNote left right _ _

/-- And the same jumps. -/
theorem map_jump_link :
    (link dialect left instructions).instructions.map (·.jump) =
      (link dialect right instructions).instructions.map (·.jump) := by
  rw [instructions_link, instructions_link, List.map_map, List.map_map]
  refine List.map_congr_left fun visit _ => ?_
  show (applyNote left _ _).jump = (applyNote right _ _).jump
  rw [jump_applyNote, jump_applyNote]

/-- Of the settings linking looks at whether jumps are commented. -/
theorem link_congr (h : left.annotateJumps = right.annotateJumps) :
    link dialect left instructions = link dialect right instructions := by
  have hnote : applyNote left = applyNote right := by
    funext instruction note
    cases note with
    | none => rfl
    | some note => rw [applyNote, applyNote, h]
  have hone : linkOne dialect left = linkOne dialect right := by
    funext linked instruction
    rw [linkOne, linkOne, hnote]
  rw [link, link, hone]

/-- Whether places are then filled in shows in the jumps alone. -/
theorem map_outline_finish (settings : Settings) :
    (finish dialect settings instructions).instructions.map Instruction.outline =
      (link dialect settings instructions).instructions.map Instruction.outline := by
  unfold finish
  split
  · simp [Disassembly.resolvePendingJumps, Function.comp_def, outline_settleJump]
  · rfl

theorem map_comment_finish (settings : Settings) :
    (finish dialect settings instructions).instructions.map (·.comment) =
      (link dialect settings instructions).instructions.map (·.comment) := by
  unfold finish
  split
  · simp [Disassembly.resolvePendingJumps, Function.comp_def, comment_settleJump]
  · rfl

/-- The jumps after filling in, from those before. -/
theorem map_jump_resolvePendingJumps (d : Disassembly) :
    d.resolvePendingJumps.2.instructions.map (·.jump) =
      (d.instructions.map (·.jump)).map (Option.map fun jump => (jump.settle d.index).1) := by
  simp [Disassembly.resolvePendingJumps, Function.comp_def, Disassembly.jump_settleJump]

theorem map_jump_finish (h : left.resolveForwardJumps = right.resolveForwardJumps) :
    (finish dialect left instructions).instructions.map (·.jump) =
      (finish dialect right instructions).instructions.map (·.jump) := by
  have hindex : (link dialect left instructions).index =
      (link dialect right instructions).index := by
    rw [link_eq_finish, link_eq_finish, index_finish, index_finish]
  unfold finish
  rw [h]
  split
  · rw [map_jump_resolvePendingJumps, map_jump_resolvePendingJumps, hindex,
      map_jump_link dialect left right]
  · exact map_jump_link dialect left right instructions

/-- **What decoding makes of the same instructions under two settings** agrees up
to what these choose. -/
theorem agreeUpTo_finish :
    AgreeUpTo left right (finish dialect left instructions)
      (finish dialect right instructions) where
  index_eq := by rw [index_finish, index_finish]
  outlines_eq := by
    rw [map_outline_finish, map_outline_finish, map_outline_link dialect left right]
  jumps_eq h := map_jump_finish dialect left right instructions h
  comments_eq h := by
    rw [map_comment_finish, map_comment_finish, link_congr dialect left right instructions h]

end Linking

/-- **Two decodings of the same code come out alike**, and the dialect is shown
the same on the way. -/
theorem decode_alike (dialect : Dialect) (h : left.maxInstructions = right.maxInstructions)
    (code : Code) :
    Alike (AgreeUpTo left right) (decode dialect left code) (decode dialect right code) ∧
      (decodeInOnePass dialect left code).1 = (decodeInOnePass dialect right code).1 := by
  rcases Nat.lt_or_ge code.size UInt32.size with hcode | hcode
  · obtain ⟨instructions, hcuts⟩ | ⟨front, rest, instructions, e, hbytes, hcuts, hstuck⟩ :=
      cuts_or_stuck_code dialect left code
    · have hcuts' := hcuts.congr_settings h.symm
      rw [decode_of_cuts hcode hcuts, decode_of_cuts hcode hcuts',
        decodeInOnePass_of_cuts hcode hcuts, decodeInOnePass_of_cuts hcode hcuts']
      exact ⟨.succeeded (agreeUpTo_finish dialect left right instructions), rfl⟩
    · have hcuts' := hcuts.congr_settings h.symm
      have hstuck' := hstuck.congr_settings h
      rw [decode_of_stuck hcode hbytes hcuts hstuck, decode_of_stuck hcode hbytes hcuts' hstuck',
        decodeInOnePass_of_stuck hcode hbytes hcuts hstuck,
        decodeInOnePass_of_stuck hcode hbytes hcuts' hstuck']
      exact ⟨.failed e, rfl⟩
  · rw [decode_of_size_le hcode, decode_of_size_le hcode, decodeInOnePass, if_pos hcode,
      decodeInOnePass, if_pos hcode]
    exact ⟨.failed _, rfl⟩

/-- Without comments on jumps there are none at all. -/
theorem uncommented_of_decode (h : decode dialect left code = .ok d)
    (hoff : left.annotateJumps = false) : d.Uncommented := by
  intro instruction hmem
  obtain ⟨place, hget⟩ := List.getElem?_of_mem hmem
  obtain ⟨index, hcomment, -⟩ := exists_note_of_decode h hget
  rw [hcomment, Settings.commentOf, hoff]
  rfl

/-! ## Surveys -/

/-- What the full run makes of decoded code. -/
def Disassembly.concluded (d : Disassembly) (dialect : Dialect) (settings : Settings) :
    Disassembly :=
  if settings.scanOccurrences then (d.registerAll dialect.categories).scan.2
  else d.registerAll dialect.categories

theorem disassemble_eq (dialect : Dialect) (settings : Settings) (code : Code) :
    disassemble dialect settings code =
      (decode dialect settings code).map (·.concluded dialect settings) := by
  rw [disassemble]
  cases decode dialect settings code <;> rfl

/-- The work on the survey that belongs to a full run. -/
def Settings.surveySteps (settings : Settings) (dialect : Dialect) : List SurveyStep :=
  if settings.scanOccurrences then [.prepare dialect, .scan] else [.prepare dialect]

theorem Disassembly.concluded_eq (d : Disassembly) (dialect : Dialect) (settings : Settings) :
    d.concluded dialect settings = d.surveyed (settings.surveySteps dialect) := by
  rw [concluded, Settings.surveySteps]
  cases settings.scanOccurrences <;> rfl

/-- The categories of the dialect are offered, whether or not a scan follows. -/
theorem offered_surveySteps (settings : Settings) (dialect : Dialect) :
    SurveyStep.offered (settings.surveySteps dialect) = dialect.categories := by
  unfold Settings.surveySteps
  split <;> simp [SurveyStep.offered, SurveyStep.offers]

theorem readsCode_of_mem_surveySteps (hdialect : dialect.ReadsCode) (settings : Settings) :
    ∀ step ∈ settings.surveySteps dialect, ∀ category ∈ step.offers, category.ReadsCode := by
  intro step hstep category hmem
  have hoffered : category ∈ SurveyStep.offered (settings.surveySteps dialect) :=
    List.mem_flatMap.2 ⟨step, hstep, hmem⟩
  rw [offered_surveySteps] at hoffered
  exact hdialect category hoffered

/-- Nothing is found in a full run that does not survey the code. -/
theorem unfilled_of_disassemble (h : disassemble dialect left code = .ok d)
    (hoff : left.scanOccurrences = false) : d.survey.Unfilled := by
  rw [disassemble_eq] at h
  cases hdecode : decode dialect left code with
  | error e =>
    rw [hdecode] at h
    cases h
  | ok before =>
    rw [hdecode] at h
    obtain rfl : before.concluded dialect left = d := Except.ok.inj h
    have hholds := Disassembly.holds_surveyed (survey_of_decode hdecode) (left.surveySteps dialect)
    have hsteps : left.surveySteps dialect = [] ++ [.prepare dialect] := by
      rw [Settings.surveySteps, hoff]
      rfl
    rw [before.concluded_eq]
    intro collection hmem
    refine hholds.found_of_not_scanned collection hmem ?_
    rw [hsteps, SurveyStep.scanned_concat_of_ne (by simp)]
    exact SurveyStep.not_scanned_nil

/-- The full run does not touch what was decoded. -/
theorem AgreeUpTo.concluded {d' : Disassembly} (h : AgreeUpTo left right d d')
    (dialect : Dialect) :
    AgreeUpTo left right (d.concluded dialect left) (d'.concluded dialect right) := by
  rw [d.concluded_eq, d'.concluded_eq, d.surveyed_eq, d'.surveyed_eq]
  exact ⟨h.index_eq, h.outlines_eq, h.jumps_eq, h.comments_eq⟩

/-- **Full runs over disassemblies that agree** give surveys that agree, if the
categories read the code only. -/
theorem AgreeUpTo.surveysAgree {d' : Disassembly} (h : AgreeUpTo left right d d')
    (hdialect : dialect.ReadsCode) (hd : d.survey = ∅) (hd' : d'.survey = ∅) :
    SurveysAgree left right (d.concluded dialect left).survey
      (d'.concluded dialect right).survey where
  names_eq := by
    rw [d.concluded_eq, d'.concluded_eq, (Disassembly.holds_surveyed hd _).names_eq,
      (Disassembly.holds_surveyed hd' _).names_eq, offered_surveySteps, offered_surveySteps]
  eq_of_scan_eq heq := by
    have hsteps : left.surveySteps dialect = right.surveySteps dialect := by
      rw [Settings.surveySteps, heq, Settings.surveySteps]
    have hreads : d.survey.ReadsCode := by
      rw [hd]
      exact Survey.readsCode_empty
    rw [d.concluded_eq, d'.concluded_eq, hsteps]
    exact Disassembly.survey_surveyed_congr (hd.trans hd'.symm) hreads
      (List.map_eq_of_map_eq h.outlines_eq fun _ => rfl)
      (readsCode_of_mem_surveySteps hdialect right)

/-- **The toggles do not interfere.** Under two settings with the same limit on
instructions, decoding the same code fails for the same reason or gives the
same index and the same instructions with the same edges. The jumps are the
same all through if the places of forward targets are treated the same, the
comments if comments are, and there are none if they are turned off; and the
dialect is shown the same. If the categories of the dialect read the code
only, as those of the NEO dialect and of all dialects given by rules do, the
full runs find the same names, and the same occurrences if both survey the
code or neither does, whatever the other toggles; and none if the code is not
surveyed. -/
theorem toggles_do_not_interfere (dialect : Dialect) {left right : Settings}
    (h : left.maxInstructions = right.maxInstructions) (code : Code) :
    Alike (AgreeUpTo left right) (decode dialect left code) (decode dialect right code) ∧
    (decodeInOnePass dialect left code).1 = (decodeInOnePass dialect right code).1 ∧
    (∀ settings d, decode dialect settings code = .ok d → settings.annotateJumps = false →
      d.Uncommented) ∧
    (dialect.ReadsCode →
      Alike (fun d d' => AgreeUpTo left right d d' ∧ SurveysAgree left right d.survey d'.survey)
        (disassemble dialect left code) (disassemble dialect right code)) ∧
    (∀ settings d, disassemble dialect settings code = .ok d →
      settings.scanOccurrences = false → d.survey.Unfilled) ∧
    Neo.dialect.ReadsCode ∧
    ∀ name opcodes jumps categories,
      (Dialect.ofRules name opcodes jumps categories).ReadsCode := by
  obtain ⟨halike, hvisits⟩ := decode_alike dialect h code
  refine ⟨halike, hvisits, fun _ _ hd => uncommented_of_decode hd, ?_,
    fun _ _ hd => unfilled_of_disassemble hd, Neo.readsCode_dialect, Dialect.readsCode_ofRules⟩
  intro hdialect
  rw [disassemble_eq, disassemble_eq]
  refine halike.map fun d d' hd hd' hagree => ?_
  exact ⟨hagree.concluded dialect,
    hagree.surveysAgree hdialect (survey_of_decode hd) (survey_of_decode hd')⟩

/-- A dialect with one opcode, a jump to the second byte with a comment, and a
category that finds it. -/
def skipDialect : Dialect :=
  Dialect.ofRules "skip" [⟨1, "SKIP", "", .nullary⟩]
    [{ opcode := 1, target := .static 1, comment := some "on" }]
    [{ name := "skips", label := .name }]

/-- With all toggles on the first jump knows its place and has a comment, with
two of them off neither; the two surveys are the same. -/
theorem toggles_do_not_interfere_skipDialect :
    ∃ d d', disassemble skipDialect {} #[1, 1] = .ok d ∧
      disassemble skipDialect { annotateJumps := false, resolveForwardJumps := false } #[1, 1] =
        .ok d' ∧
      d.HasStatic 0 1 (some 1) ∧ (d.get? 0).map (·.comment) = some (some "on") ∧
      d'.HasStatic 0 1 none ∧ (d'.get? 0).map (·.comment) = some none ∧
      d.index = d'.index ∧
      d.instructions.map Instruction.outline = d'.instructions.map Instruction.outline ∧
      d.survey = d'.survey := by
  have hlast : Cuts skipDialect {} 1 1 [1] _ :=
    @Cuts.single _ _ 1 1 1 _ none rfl rfl (by decide)
  have hcuts : Cuts skipDialect {} 0 0 [1, 1] _ :=
    @Cuts.cons _ _ 0 0 1 _ none [1] _ rfl rfl (by decide) hlast
  obtain ⟨-, -, -, hfull, -⟩ := toggles_do_not_interfere skipDialect
    (show ({} : Settings).maxInstructions =
      ({ annotateJumps := false, resolveForwardJumps := false } : Settings).maxInstructions from rfl)
    #[1, 1]
  have halike := hfull (Dialect.readsCode_ofRules _ _ _ _)
  rw [disassemble_eq, disassemble_eq, decode_of_cuts (by decide) hcuts,
    decode_of_cuts (by decide) (hcuts.congr_settings (by rfl))] at halike ⊢
  obtain ⟨hagree, hsurveys⟩ : AgreeUpTo _ _ _ _ ∧ SurveysAgree _ _ _ _ := by
    cases halike with
    | succeeded h => exact h
  exact ⟨_, _, rfl, rfl, by decide +kernel, by decide +kernel, by decide +kernel,
    by decide +kernel, hagree.index_eq, hagree.outlines_eq, hsurveys.eq_of_scan_eq rfl⟩

end Disasm
