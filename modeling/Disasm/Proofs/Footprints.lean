import Disasm.Proofs.LiveEdge
import Disasm.Proofs.Registry
/-!
# What later steps touch

After decoding there is work on the jumps of a disassembly, filling in places
and asking for targets, and work on its survey. Each kind of step has its
footprint: a query an emphasis, filling in the places of static targets, and
work on the survey the survey. What lies outside all of them stays as it was
decoded (`Intact`), whatever steps are taken (`intact_after`). Queries and
filling in leave alone what categories read that look at the code only, so
the two kinds of work commute, and all work on the survey can be thought of
as done first (`after_eq`).
-/

namespace Disasm

open Instruction (bare)

/-! ## Steps -/

/-- A step of work on the jumps of a disassembly. -/
inductive EdgeStep
  /-- The places of static targets are filled in. -/
  | settle
  /-- An instruction is asked for the target of its jump. -/
  | ask (query : Query)

/-- The disassembly after the step. -/
def EdgeStep.apply (step : EdgeStep) (d : Disassembly) : Disassembly :=
  match step with
  | .settle => d.resolvePendingJumps.2
  | .ask query => d.ask query

/-- A step of work on a disassembly. -/
inductive Step
  | edge (step : EdgeStep)
  | survey (step : SurveyStep)

namespace Step

/-- The disassembly after the step. -/
def apply (step : Step) (d : Disassembly) : Disassembly :=
  match step with
  | .edge step => step.apply d
  | .survey step => step.apply d

/-- The step, if it is one of work on jumps. -/
def edge? : Step → Option EdgeStep
  | .edge step => some step
  | .survey _ => none

/-- The step, if it is one of work on the survey. -/
def survey? : Step → Option SurveyStep
  | .edge _ => none
  | .survey step => some step

/-- The categories that the step offers read the code only. -/
def ReadsCode (step : Step) : Prop :=
  ∀ surveyStep, step.survey? = some surveyStep →
    ∀ category ∈ surveyStep.offers, category.ReadsCode

end Step

namespace Disassembly

/-- The disassembly after steps, in order. -/
def after (d : Disassembly) (steps : List Step) : Disassembly :=
  steps.foldl (fun d step => step.apply d) d

/-- The disassembly after steps of work on its jumps, in order. -/
def traced (d : Disassembly) (steps : List EdgeStep) : Disassembly :=
  steps.foldl (fun d step => step.apply d) d

end Disassembly

/-! ## What lasts -/

/-- The jump with the given emphasis, if it is one that can have it. -/
def Jump.mark (emphasis : Emphasis) : Jump → Jump
  | .static target known => .static target known
  | .dynamic jump => .dynamic (jump.mark emphasis)

namespace Instruction

/-- The instruction with the given emphasis of its jump. -/
def mark (emphasis : Emphasis) (instruction : Instruction) : Instruction :=
  { instruction with jump := instruction.jump.map (Jump.mark emphasis) }

/-- The instruction without the place of its jump's target. -/
def unplaced (instruction : Instruction) : Instruction :=
  { instruction with jump := instruction.jump.map Jump.edge }

/-- **What lasts of an instruction**: everything but the place of its jump's
target and the emphasis of its jump. -/
def lasting (instruction : Instruction) : Instruction :=
  instruction.unasked.unplaced

/-- A query changes the emphasis and nothing else. -/
theorem exists_mark_resolve (instruction : Instruction) (context : Option Context) :
    ∃ emphasis, (instruction.resolve context).2 = instruction.mark emphasis := by
  rw [resolve_snd]
  cases hjump : instruction.jump with
  | none => exact ⟨.inactive, by rw [mark, hjump]; rfl⟩
  | some jump =>
    cases jump with
    | static target known => exact ⟨.inactive, by rw [mark, hjump]; rfl⟩
    | dynamic jump =>
      obtain ⟨emphasis, hmark⟩ := jump.exists_mark_resolve context instruction.number
      refine ⟨emphasis, ?_⟩
      rw [mark, hjump, Option.map_some, Option.map_some, Jump.mark, ← hmark]
      rfl

/-- Filling in changes the place and nothing else. -/
theorem unplaced_settleJump (index : OffsetIndex) (instruction : Instruction) :
    (Disassembly.settleJump index instruction).1.unplaced = instruction.unplaced := by
  unfold Disassembly.settleJump
  cases hjump : instruction.jump with
  | none => rfl
  | some jump => simp [unplaced, hjump, Jump.edge_settle]

/-- It does not matter which of the two is left out first. -/
theorem lasting_eq (instruction : Instruction) :
    instruction.lasting = instruction.unplaced.unasked := by
  simp only [lasting, unasked, unplaced, Option.map_map]
  congr 2
  funext jump
  cases jump <;> rfl

theorem lasting_settleJump (index : OffsetIndex) (instruction : Instruction) :
    (Disassembly.settleJump index instruction).1.lasting = instruction.lasting := by
  rw [lasting_eq, unplaced_settleJump, lasting_eq]

end Instruction

/-- **What was decoded is there as it was decoded.** -/
structure Intact (d now : Disassembly) : Prop where
  index_eq : now.index = d.index
  /-- Instructions keep their numbers, offsets, opcodes, operands and comments,
  and their jumps, but for places and emphases. -/
  lasting_eq : now.instructions.map Instruction.lasting = d.instructions.map Instruction.lasting
  listing_eq : now.listing = d.listing
  encode_eq : now.encode = d.encode

/-- The listing and the code again are made from what lasts. -/
theorem intact_of_lasting {d now : Disassembly} (hindex : now.index = d.index)
    (h : now.instructions.map Instruction.lasting = d.instructions.map Instruction.lasting) :
    Intact d now where
  index_eq := hindex
  lasting_eq := h
  listing_eq := by
    rw [Disassembly.listing, Disassembly.listing, List.map_eq_of_map_eq h fun _ => rfl]
  encode_eq := by
    rw [Disassembly.encode, Disassembly.encode, List.flatMap_def, List.flatMap_def,
      List.map_eq_of_map_eq h fun _ => rfl]

/-! ## What a step touches -/

namespace EdgeStep

variable (step : EdgeStep) (d : Disassembly)

/-- Work on jumps changes the instructions only. -/
theorem apply_eq : step.apply d = { d with instructions := (step.apply d).instructions } := by
  cases step with
  | settle => rfl
  | ask query => exact d.asked_eq [query]

theorem index_apply : (step.apply d).index = d.index := by
  rw [apply_eq]

theorem survey_apply : (step.apply d).survey = d.survey := by
  rw [apply_eq]

/-- And of these nothing that lasts. -/
theorem map_lasting_apply :
    (step.apply d).instructions.map Instruction.lasting =
      d.instructions.map Instruction.lasting := by
  cases step with
  | settle =>
    simp [apply, Disassembly.resolvePendingJumps, Function.comp_def,
      Instruction.lasting_settleJump]
  | ask query =>
    have hunasked := congrArg (List.map Instruction.unplaced) (d.map_unasked_ask query)
    rw [List.map_map, List.map_map] at hunasked
    exact hunasked

/-- It does not look at the survey. -/
theorem apply_survey (survey : Survey) :
    step.apply { d with survey } = { step.apply d with survey } := by
  cases step with
  | settle => rfl
  | ask query =>
    show ({ d with survey } : Disassembly).ask query = { d.ask query with survey }
    have hget : ({ d with survey } : Disassembly).get? query.owner = d.get? query.owner := rfl
    unfold Disassembly.ask Disassembly.resolve?
    rw [hget]
    cases d.get? query.owner <;> rfl

end EdgeStep

namespace Disassembly

variable {d : Disassembly} {place : Nat} {target : UInt32} {known : Option Nat}

/-- **A query touches the emphasis of the jump that is asked**, and nothing
else. -/
theorem exists_mark_ask (d : Disassembly) (query : Query) :
    ∃ emphasis, d.ask query =
      { d with
        instructions := d.instructions.modify query.owner (Instruction.mark emphasis) } := by
  obtain ⟨emphasis, hmark⟩ : ∃ emphasis, ∀ instruction, d.get? query.owner = some instruction →
      (instruction.resolve query.context).2 = instruction.mark emphasis := by
    cases d.get? query.owner with
    | none => exact ⟨.inactive, fun _ hget => by cases hget⟩
    | some instruction =>
      obtain ⟨emphasis, hmark⟩ := instruction.exists_mark_resolve query.context
      refine ⟨emphasis, fun _ hget => ?_⟩
      obtain rfl := Option.some.inj hget
      exact hmark
  have hinstructions : (d.ask query).instructions =
      d.instructions.modify query.owner (Instruction.mark emphasis) := by
    apply List.ext_getElem?
    intro place
    have hget := d.get?_ask query place
    rw [get?, get?] at hget
    rw [hget, List.getElem?_modify]
    by_cases hplace : place = query.owner
    · subst hplace
      cases hsome : d.instructions[query.owner]? with
      | none => simp
      | some instruction => simpa using hmark instruction hsome
    · simp [hplace, Ne.symm hplace]
  have hframe := (EdgeStep.ask query).apply_eq d
  rw [show (EdgeStep.ask query).apply d = d.ask query from rfl, hinstructions] at hframe
  exact ⟨emphasis, hframe⟩

/-- **Filling in touches the places of static targets**, and nothing else. -/
theorem map_unplaced_resolvePendingJumps (d : Disassembly) :
    d.resolvePendingJumps.2.instructions.map Instruction.unplaced =
      d.instructions.map Instruction.unplaced := by
  simp [resolvePendingJumps, Function.comp_def, Instruction.unplaced_settleJump]

/-! ## Static jumps -/

/-- A static jump stays what it is when somebody asks. -/
theorem HasStatic.ask (h : d.HasStatic place target known) (query : Query) :
    (d.ask query).HasStatic place target known := by
  rw [HasStatic, get?_ask]
  split_ifs with hplace
  · obtain ⟨instruction, hget, hjump⟩ := Option.bind_eq_some_iff.1 h
    rw [hget, Option.map_some, Option.bind_some, Instruction.resolve_snd]
    show instruction.jump.map _ = _
    rw [hjump]
    rfl
  · exact h

/-- Filling in looks its place up, if it is not known. -/
theorem HasStatic.settle (h : d.HasStatic place target known) :
    d.resolvePendingJumps.2.HasStatic place target (known.or (d.index.indexOf? target)) := by
  obtain ⟨instruction, hget, hjump⟩ := Option.bind_eq_some_iff.1 h
  rw [HasStatic, get?_resolvePendingJumps, hget, Option.map_some, Option.bind_some,
    jump_settleJump, hjump, Option.map_some, settle_static]

/-! ## Runs -/

theorem after_concat (d : Disassembly) (steps : List Step) (step : Step) :
    d.after (steps ++ [step]) = step.apply (d.after steps) := by
  simp [after]

/-- **Whatever is done, what was decoded is intact.** -/
theorem intact_after (d : Disassembly) (steps : List Step) : Intact d (d.after steps) := by
  induction steps using List.reverseRecOn with
  | nil => exact intact_of_lasting rfl rfl
  | append_singleton steps step ih =>
    rw [after_concat]
    cases step with
    | edge step =>
      exact intact_of_lasting ((step.index_apply (d.after steps)).trans ih.index_eq)
        ((step.map_lasting_apply (d.after steps)).trans ih.lasting_eq)
    | survey step =>
      show Intact d (step.apply (d.after steps))
      rw [step.apply_eq]
      exact intact_of_lasting ih.index_eq ih.lasting_eq

/-- **The place of a static target is looked up once**: after the first filling
in it is the one that was known or that the index has, and before it the one
that was known. -/
theorem hasStatic_after (h : d.HasStatic place target known) (steps : List Step) :
    (.edge .settle ∉ steps → (d.after steps).HasStatic place target known) ∧
      (.edge .settle ∈ steps →
        (d.after steps).HasStatic place target (known.or (d.index.indexOf? target))) := by
  induction steps using List.reverseRecOn with
  | nil => exact ⟨fun _ => h, fun hmem => absurd hmem List.not_mem_nil⟩
  | append_singleton steps step ih =>
    obtain ⟨hbefore, hafter⟩ := ih
    rw [after_concat]
    -- a step that does not fill in leaves static jumps alone
    have hkeep : step ≠ .edge .settle → ∀ known, (d.after steps).HasStatic place target known →
        (step.apply (d.after steps)).HasStatic place target known := by
      intro hne known hstatic
      cases step with
      | edge step =>
        cases step with
        | settle => exact absurd rfl hne
        | ask query => exact hstatic.ask query
      | survey step =>
        show (step.apply (d.after steps)).HasStatic place target known
        rw [step.apply_eq]
        exact hstatic
    by_cases hstep : step = .edge .settle
    · subst hstep
      refine ⟨fun hnot => absurd (List.mem_append_right _ List.mem_cons_self) hnot, fun _ => ?_⟩
      show (d.after steps).resolvePendingJumps.2.HasStatic place target _
      by_cases hmem : .edge .settle ∈ steps
      · have hagain := (hafter hmem).settle
        rwa [(d.intact_after steps).index_eq, Option.or_assoc, Option.or_self] at hagain
      · have hfirst := (hbefore hmem).settle
        rwa [(d.intact_after steps).index_eq] at hfirst
    · have hiff : .edge .settle ∈ steps ++ [step] ↔ Step.edge .settle ∈ steps := by
        simp [Ne.symm hstep]
      rw [hiff]
      exact ⟨fun hnot => hkeep hstep _ (hbefore hnot), fun hmem => hkeep hstep _ (hafter hmem)⟩

/-! ## The two kinds of work commute -/

/-- One step of work on jumps and any work on the survey. -/
theorem surveyed_apply (h : d.survey.ReadsCode) (edge : EdgeStep) {steps : List SurveyStep}
    (hsteps : ∀ step ∈ steps, ∀ category ∈ step.offers, category.ReadsCode) :
    (edge.apply d).surveyed steps = edge.apply (d.surveyed steps) := by
  have hbare : d.instructions.map bare = (edge.apply d).instructions.map bare :=
    List.map_eq_of_map_eq (edge.map_lasting_apply d).symm fun _ => rfl
  have hsurvey : (d.surveyed steps).survey = ((edge.apply d).surveyed steps).survey :=
    survey_surveyed_congr (edge.survey_apply d).symm h hbare hsteps
  calc (edge.apply d).surveyed steps
      = { edge.apply d with survey := (d.surveyed steps).survey } := by
        rw [surveyed_eq, hsurvey]
    _ = edge.apply { d with survey := (d.surveyed steps).survey } := (edge.apply_survey d _).symm
    _ = edge.apply (d.surveyed steps) := by rw [← surveyed_eq]

/-- **All work on the survey can be done first**, and all work on jumps after
it. -/
theorem after_eq (h : d.survey.ReadsCode) {steps : List Step}
    (hsteps : ∀ step ∈ steps, step.ReadsCode) :
    d.after steps =
      (d.surveyed (steps.filterMap Step.survey?)).traced (steps.filterMap Step.edge?) := by
  induction steps generalizing d with
  | nil => rfl
  | cons step steps ih =>
    rw [List.forall_mem_cons] at hsteps
    cases step with
    | edge step =>
      have hreads : (step.apply d).survey.ReadsCode := by
        rw [step.survey_apply]
        exact h
      have hoffers : ∀ surveyStep ∈ steps.filterMap Step.survey?,
          ∀ category ∈ surveyStep.offers, category.ReadsCode := by
        intro surveyStep hmem
        obtain ⟨other, hother, hsame⟩ := List.mem_filterMap.1 hmem
        exact hsteps.2 other hother surveyStep hsame
      show (step.apply d).after steps = _
      rw [ih hreads hsteps.2, surveyed_apply h step hoffers]
      rfl
    | survey step =>
      have hreads : (step.apply d).survey.ReadsCode := by
        rw [step.apply_eq]
        exact step.readsCode_resurvey h (hsteps.1 step rfl)
      show (step.apply d).after steps = _
      rw [ih hreads hsteps.2]
      rfl

end Disassembly

/-- **Nothing that was decoded is disturbed.** Let code be decoded and let any
steps follow, of filling in places, asking for targets, registering categories
and scanning. The index, what lasts of the instructions, the listing and the
code again are as they were. A static target gets its place from the index at
the first filling in, if it was not known, and at no other time. A query
touches the emphasis of the jump that is asked, filling in the places of
targets, and work on the survey the survey. And if the categories read the
code only, steps with the same work on jumps and the same work on the survey,
each in its order, come to the same, however the two are mixed. -/
theorem decoded_undisturbed {dialect : Dialect} {settings : Settings} {code : Code}
    {d : Disassembly} (h : decode dialect settings code = .ok d) (steps : List Step) :
    let now := d.after steps
    Intact d now ∧
    (∀ place target known, d.HasStatic place target known →
      (.edge .settle ∉ steps → now.HasStatic place target known) ∧
      (.edge .settle ∈ steps →
        now.HasStatic place target (known.or (d.index.indexOf? target)))) ∧
    (∀ query, ∃ emphasis, now.ask query =
      { now with
        instructions := now.instructions.modify query.owner (Instruction.mark emphasis) }) ∧
    (∃ instructions, now.resolvePendingJumps.2 = { now with instructions } ∧
      instructions.map Instruction.unplaced = now.instructions.map Instruction.unplaced) ∧
    (∀ step : SurveyStep, ∃ survey, step.apply now = { now with survey }) ∧
    ((∀ step ∈ steps, step.ReadsCode) → ∀ others : List Step,
      others.filterMap Step.edge? = steps.filterMap Step.edge? →
      others.filterMap Step.survey? = steps.filterMap Step.survey? → d.after others = now) := by
  intro now
  refine ⟨d.intact_after steps, fun _ _ _ hstatic => Disassembly.hasStatic_after hstatic steps,
    now.exists_mark_ask, ⟨_, rfl, now.map_unplaced_resolvePendingJumps⟩,
    fun step => ⟨_, step.apply_eq now⟩, ?_⟩
  intro hsteps others hedges hsurveys
  have hempty : d.survey.ReadsCode := by
    rw [survey_of_decode h]
    exact Survey.readsCode_empty
  -- the other steps offer the same categories, so they read the code only as well
  have hothers : ∀ step ∈ others, step.ReadsCode := by
    intro step hstep surveyStep hsurvey
    have hmem : surveyStep ∈ others.filterMap Step.survey? :=
      List.mem_filterMap.2 ⟨step, hstep, hsurvey⟩
    rw [hsurveys] at hmem
    obtain ⟨same, hsame, hsurvey⟩ := List.mem_filterMap.1 hmem
    exact hsteps same hsame surveyStep hsurvey
  show d.after others = d.after steps
  rw [Disassembly.after_eq hempty hothers, Disassembly.after_eq hempty hsteps, hedges, hsurveys]

/-- A dialect with two opcodes, a jump to the second byte and a branch to the
start, and a category that finds both. -/
def mixedDialect : Dialect :=
  Dialect.ofRules "mixed" [⟨1, "GO", "", .nullary⟩, ⟨2, "FORK", "", .nullary⟩]
    [{ opcode := 1, target := .static 1 },
      { opcode := 2, target := .dynamic (.conditional 0 true) }]
    [{ name := "all", label := .name }]

/-- The machine of that dialect, at the branch and about to take it. -/
def mixedMachine : Context :=
  { dialect := "mixed", current := some 1, stackTop := .ok true }

/-- A jump and a branch are surveyed, the branch is asked, and the place of the
jump is filled in. The jump then knows its place and the branch is lit, the
listing is what it was, and it does not matter that the survey came first. -/
theorem decoded_undisturbed_mixedDialect :
    ∃ d now, decode mixedDialect { resolveForwardJumps := false } #[1, 2] = .ok d ∧
      now = d.after [.survey (.prepare mixedDialect), .survey .scan,
        .edge (.ask ⟨1, some mixedMachine⟩), .edge .settle] ∧
      d.HasStatic 0 1 none ∧ now.HasStatic 0 1 (some 1) ∧
      now.HasDynamic 1 ⟨"mixed", .conditional 0 true, .taken⟩ ∧ now.listing = d.listing ∧
      d.after [.edge (.ask ⟨1, some mixedMachine⟩), .survey (.prepare mixedDialect),
        .edge .settle, .survey .scan] = now := by
  have hlast : Cuts mixedDialect { resolveForwardJumps := false } 1 1 [2] _ :=
    @Cuts.single _ _ 1 1 2 _ none rfl rfl (by decide)
  have hcuts : Cuts mixedDialect { resolveForwardJumps := false } 0 0 [1, 2] _ :=
    @Cuts.cons _ _ 0 0 1 _ none [2] _ rfl rfl (by decide) hlast
  have hd : decode mixedDialect { resolveForwardJumps := false } #[1, 2] = .ok _ :=
    decode_of_cuts (by decide) hcuts
  have hreads : ∀ step ∈ [Step.survey (.prepare mixedDialect), .survey .scan,
      .edge (.ask ⟨1, some mixedMachine⟩), .edge .settle], step.ReadsCode := by
    intro step hmem surveyStep hsurvey
    simp only [List.mem_cons, List.not_mem_nil, or_false] at hmem
    rcases hmem with rfl | rfl | rfl | rfl
    · obtain rfl := Option.some.inj hsurvey
      exact Dialect.readsCode_ofRules _ _ _ _
    · obtain rfl := Option.some.inj hsurvey
      intro category hmem
      cases hmem
    · cases hsurvey
    · cases hsurvey
  obtain ⟨hintact, -, -, -, -, hcommute⟩ := decoded_undisturbed hd
    [.survey (.prepare mixedDialect), .survey .scan, .edge (.ask ⟨1, some mixedMachine⟩),
      .edge .settle]
  exact ⟨_, _, hd, rfl, by decide +kernel, by decide +kernel, by decide +kernel,
    hintact.listing_eq, hcommute hreads _ rfl rfl⟩

end Disasm
