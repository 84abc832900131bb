import Disasm.Proofs.Emphasis
import Disasm.Proofs.Notes
import Disasm.Proofs.Tiling
/-!
# At most one edge is lit

A display asks every instruction for its jump under one context and then draws
the edges by their emphasis. Whatever was asked before, by whom and under
which contexts, the edge of the instruction that the machine stands at is then
the only one that can be lit (`at_most_one_lit`). A query touches the emphasis
of one jump (`get?_ask`), and what it leaves there does not depend on earlier
queries; that the number of an instruction is its place, so that a context
names one instruction, is due to decoding.
-/

namespace Disasm

/-- **The dialect gives out jumps that can be had**: new ones, and copies of
jumps that have been asked. -/
def Dialect.GivesMadeJumps (dialect : Dialect) : Prop :=
  ∀ instruction index note jump, dialect.note? instruction index = some note →
    note.jump = .dynamic jump → jump.Made

/-- A new jump can be had. -/
theorem DynamicJump.made_new (dialect : String) (branch : Branch) : (new dialect branch).Made :=
  ⟨dialect, branch, [], rfl⟩

/-- Dialects given by rules give out new jumps. -/
theorem Dialect.givesMadeJumps_ofRules (name : String) (opcodes : List OpCode)
    (jumps : List JumpRule) (categories : List CategoryRule) :
    (ofRules name opcodes jumps categories).GivesMadeJumps := by
  intro instruction index note jump hnote hjump
  obtain ⟨rule, -, rfl⟩ := Option.map_eq_some_iff.1 hnote
  cases htarget : rule.target with
  | static offset => simp [JumpRule.note, htarget] at hjump
  | dynamic branch =>
    simp only [JumpRule.note, htarget, Jump.dynamic.injEq] at hjump
    obtain rfl := hjump
    exact DynamicJump.made_new name branch

/-- And so does the NEO dialect. -/
theorem Neo.givesMadeJumps_dialect : Neo.dialect.GivesMadeJumps := by
  intro instruction index note jump hnote hjump
  change Neo.note? instruction index = some note at hnote
  unfold Neo.note? at hnote
  split at hnote
  · cases hnote
  · obtain ⟨target, -, rfl⟩ := Option.map_eq_some_iff.1 hnote
    cases hjump
  · obtain ⟨target, -, rfl⟩ := Option.map_eq_some_iff.1 hnote
    cases hjump
  · obtain ⟨target, -, rfl⟩ := Option.map_eq_some_iff.1 hnote
    obtain rfl := Jump.dynamic.inj hjump
    exact DynamicJump.made_new _ _
  · cases hnote
    obtain rfl := Jump.dynamic.inj hjump
    exact DynamicJump.made_new _ _

/-! ## Asking an instruction -/

/-- The jump as if it had not been asked. -/
def Jump.unasked : Jump → Jump
  | .static offset index => .static offset index
  | .dynamic jump => .dynamic (.new jump.dialect jump.branch)

namespace Instruction

/-- The instruction as if its jump had not been asked. -/
def unasked (instruction : Instruction) : Instruction :=
  { instruction with jump := instruction.jump.map Jump.unasked }

/-- A query leaves everything but the jump. -/
theorem resolve_snd (instruction : Instruction) (context : Option Context) :
    (instruction.resolve context).2 =
      { instruction with
        jump := instruction.jump.map fun jump => (jump.resolve context instruction.number).2 } := by
  cases hjump : instruction.jump with
  | none =>
    rw [resolve, hjump]
    show instruction = { instruction with jump := none }
    rw [← hjump]
  | some jump =>
    rw [resolve, hjump]
    rfl

/-- A dynamic jump after a query is one that was asked. -/
theorem exists_of_resolve_dynamic {instruction : Instruction} {context : Option Context}
    {jump : DynamicJump} (h : (instruction.resolve context).2.jump = some (.dynamic jump)) :
    ∃ before, instruction.jump = some (.dynamic before) ∧
      jump = (before.resolve context instruction.number).2 := by
  rw [resolve_snd] at h
  obtain ⟨before, hbefore, hsame⟩ := Option.map_eq_some_iff.1 h
  cases before with
  | static offset index => cases hsame
  | dynamic before => exact ⟨before, hbefore, (Jump.dynamic.inj hsame).symm⟩

/-- And of the jump everything but the emphasis. -/
theorem unasked_resolve (instruction : Instruction) (context : Option Context) :
    (instruction.resolve context).2.unasked = instruction.unasked := by
  rw [resolve_snd, unasked, unasked]
  congr 1
  rw [Option.map_map]
  congr 1
  funext jump
  cases jump with
  | static offset index => rfl
  | dynamic jump =>
    obtain ⟨emphasis, hmark⟩ := jump.exists_mark_resolve context instruction.number
    show Jump.dynamic (.new (jump.resolve context instruction.number).2.dialect
      (jump.resolve context instruction.number).2.branch) = _
    rw [hmark]
    rfl

end Instruction

namespace Disassembly

variable {d : Disassembly} {place : Nat} {jump : DynamicJump} {context : Option Context}

/-! ## Asking a disassembly -/

/-- The disassembly after a query of one of its instructions. -/
def ask (d : Disassembly) (query : Query) : Disassembly :=
  ((d.resolve? query.owner query.context).map (·.2)).getD d

/-- The disassembly after queries, in order. -/
def asked (d : Disassembly) (queries : List Query) : Disassembly :=
  queries.foldl ask d

/-- The instruction at a place has the dynamic jump. -/
def HasDynamic (d : Disassembly) (place : Nat) (jump : DynamicJump) : Prop :=
  (d.get? place).bind (·.jump) = some (.dynamic jump)

instance (d : Disassembly) (place : Nat) (jump : DynamicJump) :
    Decidable (d.HasDynamic place jump) :=
  inferInstanceAs (Decidable (_ = _))

/-- A query changes the instructions and nothing else. -/
theorem index_ask (d : Disassembly) (query : Query) : (d.ask query).index = d.index := by
  unfold ask resolve?
  cases d.get? query.owner <;> rfl

theorem survey_ask (d : Disassembly) (query : Query) : (d.ask query).survey = d.survey := by
  unfold ask resolve?
  cases d.get? query.owner <;> rfl

/-- **A query touches the instruction that is asked and no other.** -/
theorem get?_ask (d : Disassembly) (query : Query) (place : Nat) :
    (d.ask query).get? place =
      if place = query.owner then
        (d.get? place).map fun instruction => (instruction.resolve query.context).2
      else d.get? place := by
  cases hget : d.get? query.owner with
  | none =>
    have hask : d.ask query = d := by simp [ask, resolve?, hget]
    rw [hask]
    split_ifs with hplace
    · rw [hplace, hget]
      rfl
    · rfl
  | some instruction =>
    have hlt : query.owner < d.instructions.length := (List.getElem?_eq_some_iff.1 hget).1
    have hask : (d.ask query).instructions =
        d.instructions.set query.owner (instruction.resolve query.context).2 := by
      simp [ask, resolve?, hget]
    rw [get?, hask]
    split_ifs with hplace
    · rw [hplace, List.getElem?_set_self hlt, hget]
      rfl
    · exact List.getElem?_set_ne (Ne.symm hplace)

/-- Queries change nothing but emphases. -/
theorem map_unasked_ask (d : Disassembly) (query : Query) :
    (d.ask query).instructions.map Instruction.unasked =
      d.instructions.map Instruction.unasked := by
  apply List.ext_getElem?
  intro place
  have hget := d.get?_ask query place
  rw [get?, get?] at hget
  rw [List.getElem?_map, List.getElem?_map, hget]
  split_ifs with hplace
  · rw [Option.map_map]
    congr 1
    funext instruction
    exact instruction.unasked_resolve query.context
  · rfl

theorem map_unasked_asked (d : Disassembly) (queries : List Query) :
    (d.asked queries).instructions.map Instruction.unasked =
      d.instructions.map Instruction.unasked := by
  induction queries generalizing d with
  | nil => rfl
  | cons query queries ih => exact (ih (d.ask query)).trans (d.map_unasked_ask query)

theorem size_asked (d : Disassembly) (queries : List Query) :
    (d.asked queries).size = d.size := by
  have hlength := congrArg List.length (d.map_unasked_asked queries)
  rwa [List.length_map, List.length_map] at hlength

theorem asked_eq (d : Disassembly) (queries : List Query) :
    d.asked queries = { d with instructions := (d.asked queries).instructions } := by
  induction queries generalizing d with
  | nil => rfl
  | cons query queries ih =>
    have hrest := ih (d.ask query)
    rw [index_ask, survey_ask] at hrest
    exact hrest

/-- No return is lit. -/
def Unlit (d : Disassembly) : Prop :=
  ∀ place jump, d.HasDynamic place jump → jump.Unlit

/-- Where a dynamic jump stands after a query, one stood before. -/
theorem exists_of_hasDynamic_ask {query : Query} (h : (d.ask query).HasDynamic place jump) :
    ∃ before, d.HasDynamic place before ∧
      (jump = before ∨ ∃ owner, jump = (before.resolve query.context owner).2) := by
  rw [HasDynamic, get?_ask] at h
  split_ifs at h with hplace
  · obtain ⟨instruction, hget, hjump⟩ := Option.bind_eq_some_iff.1 h
    obtain ⟨former, hformer, rfl⟩ := Option.map_eq_some_iff.1 hget
    obtain ⟨before, hbefore, hsame⟩ := Instruction.exists_of_resolve_dynamic hjump
    refine ⟨before, ?_, .inr ⟨former.number, hsame⟩⟩
    rw [HasDynamic, hformer]
    exact hbefore
  · exact ⟨jump, h, .inl rfl⟩

/-- No query lights a return. -/
theorem Unlit.ask (h : d.Unlit) (query : Query) : (d.ask query).Unlit := by
  intro place jump hjump
  obtain ⟨before, hbefore, rfl | ⟨owner, rfl⟩⟩ := exists_of_hasDynamic_ask hjump
  · exact h place jump hbefore
  · exact (h place before hbefore).resolve query.context owner

/-- So no history does. -/
theorem Unlit.asked (h : d.Unlit) (queries : List Query) : (d.asked queries).Unlit := by
  induction queries generalizing d with
  | nil => exact h
  | cons query queries ih => exact ih (h.ask query)

/-! ## Asking everyone -/

/-- The queries of a round: the instructions at the places, all under one
context. -/
def roundOf (places : List Nat) (context : Option Context) : List Query :=
  places.map fun place => ⟨place, context⟩

/-- An instruction that is not asked stays as it is. -/
theorem get?_asked_of_notMem {places : List Nat} (h : place ∉ places) :
    (d.asked (roundOf places context)).get? place = d.get? place := by
  induction places generalizing d with
  | nil => rfl
  | cons other places ih =>
    rw [List.mem_cons, not_or] at h
    have hask := d.get?_ask ⟨other, context⟩ place
    rw [if_neg h.1] at hask
    exact (ih h.2).trans hask

/-- **In a round every instruction is asked once.** -/
theorem get?_asked_of_mem {places : List Nat} (hnodup : places.Nodup) (h : place ∈ places) :
    (d.asked (roundOf places context)).get? place =
      (d.get? place).map fun instruction => (instruction.resolve context).2 := by
  induction places generalizing d with
  | nil => simp at h
  | cons other places ih =>
    obtain ⟨hother, hnodup⟩ := List.nodup_cons.1 hnodup
    have hask := d.get?_ask ⟨other, context⟩ place
    show ((d.ask ⟨other, context⟩).asked (roundOf places context)).get? place = _
    rcases List.mem_cons.1 h with rfl | hmem
    · rw [get?_asked_of_notMem hother, hask, if_pos rfl]
    · have hne : place ≠ other := fun heq => hother (heq ▸ hmem)
      rw [ih hnodup hmem, hask, if_neg hne]

theorem get?_resolveAll (d : Disassembly) (context : Option Context) (place : Nat) :
    (d.resolveAll context).2.get? place =
      (d.get? place).map fun instruction => (instruction.resolve context).2 := by
  simp [resolveAll, get?, Function.comp_def]

/-- A round in any order is asking all instructions at once. -/
theorem asked_eq_resolveAll {places : List Nat} (h : places.Perm (List.range d.size))
    (context : Option Context) :
    d.asked (roundOf places context) = (d.resolveAll context).2 := by
  have hnodup : places.Nodup := h.nodup_iff.2 List.nodup_range
  have hinstructions : (d.asked (roundOf places context)).instructions =
      (d.resolveAll context).2.instructions := by
    apply List.ext_getElem?
    intro place
    have hall := d.get?_resolveAll context place
    rw [get?] at hall
    rw [hall]
    by_cases hlt : place < d.size
    · exact get?_asked_of_mem hnodup (h.mem_iff.2 (List.mem_range.2 hlt))
    · have hnone : d.get? place = none := List.getElem?_eq_none (Nat.le_of_not_lt hlt)
      have hnot : place ∉ places := fun hmem => hlt (List.mem_range.1 (h.mem_iff.1 hmem))
      rw [hnone]
      exact (get?_asked_of_notMem hnot).trans hnone
  rw [asked_eq, hinstructions]
  rfl

end Disassembly

/-! ## Which edges are lit -/

/-- The machine stands at the place, and the jump there is a branch of its
dialect that waits for `takenWhen`; on its stack it has `top`. -/
def Decides (context : Option Context) (place : Nat) (jump : DynamicJump)
    (takenWhen top : Bool) : Prop :=
  ∃ machine target, context = some machine ∧ machine.current = some place ∧
    jump.branch = .conditional target takenWhen ∧ machine.dialect = jump.dialect ∧
    machine.stackTop = .ok top

/-- **The jump of the instruction at a place is lit as the context says.** -/
structure RightlyLit (context : Option Context) (place : Nat) (jump : DynamicJump) : Prop where
  /-- It is lit exactly if the machine is about to decide it. -/
  lit_iff : jump.emphasis ≠ .inactive ↔
    ∃ takenWhen top, Decides context place jump takenWhen top
  /-- It is then marked as taken exactly if it gets the value it waits for. -/
  taken_iff : ∀ takenWhen top, Decides context place jump takenWhen top →
    (jump.emphasis = .taken ↔ top = takenWhen)

namespace DynamicJump

variable {jump : DynamicJump} {context : Option Context} {place : Nat}
variable {target : Option UInt32} {emphasis : Emphasis}

/-- Where the machine is about to decide, the list has one outcome. -/
theorem Outcome.eq_of_decides {takenWhen top : Bool}
    (h : Outcome jump.dialect place jump.branch context target emphasis)
    (hdecides : Decides context place jump takenWhen top) :
    emphasis = if top = takenWhen then .taken else .notTaken := by
  obtain ⟨machine, offset, rfl, hcurrent, hbranch, hdialect, htop⟩ := hdecides
  rw [hbranch] at h
  exact ((Outcome.decided hdialect hcurrent htop).unique h).2

/-- And only there does it light anything. -/
theorem Outcome.exists_decides
    (h : Outcome jump.dialect place jump.branch context target emphasis)
    (hlit : emphasis ≠ .inactive) : ∃ takenWhen top, Decides context place jump takenWhen top := by
  generalize hbranch : jump.branch = branch at h
  cases h with
  | decided hdialect hcurrent htop =>
    exact ⟨_, _, _, _, rfl, hcurrent, hbranch, hdialect, htop⟩
  | unavailable | mismatch | elsewhere | undecided | away | returns | stranded =>
    exact absurd rfl hlit

/-- So what a query comes to is right. -/
theorem Outcome.rightlyLit
    (h : Outcome jump.dialect place jump.branch context target emphasis) :
    RightlyLit context place (jump.mark emphasis) where
  lit_iff := by
    constructor
    · exact h.exists_decides
    · rintro ⟨takenWhen, top, hdecides⟩
      show emphasis ≠ .inactive
      rw [h.eq_of_decides hdecides]
      split_ifs <;> decide
  taken_iff := by
    intro takenWhen top hdecides
    show emphasis = .taken ↔ top = takenWhen
    rw [h.eq_of_decides hdecides]
    split_ifs with htop
    · exact iff_of_true rfl htop
    · exact iff_of_false (by decide) htop

end DynamicJump

/-- After a round the jump at a place is lit as the context says, if no return
was lit before and the instruction has the number of its place. -/
theorem Disassembly.Unlit.rightlyLit {d : Disassembly} (h : d.Unlit)
    (hnumber : ∀ place instruction, d.get? place = some instruction →
      instruction.number = place)
    {context : Option Context} {place : Nat} {jump : DynamicJump}
    (hjump : (d.resolveAll context).2.HasDynamic place jump) :
    RightlyLit context place jump := by
  rw [HasDynamic, get?_resolveAll] at hjump
  obtain ⟨instruction, hget, hjump⟩ := Option.bind_eq_some_iff.1 hjump
  obtain ⟨former, hformer, rfl⟩ := Option.map_eq_some_iff.1 hget
  obtain ⟨before, hbefore, rfl⟩ := Instruction.exists_of_resolve_dynamic hjump
  have hunlit : before.Unlit := by
    refine h place before ?_
    rw [HasDynamic, hformer]
    exact hbefore
  rw [hnumber place former hformer]
  obtain ⟨target, emphasis, houtcome, hresolve⟩ := hunlit.exists_outcome context place
  rw [hresolve]
  exact houtcome.rightlyLit

/-- No return is lit in what a dialect that gives out jumps that can be had
makes of code. -/
theorem unlit_of_decode {dialect : Dialect} {settings : Settings} {code : Code}
    {d : Disassembly} (hdialect : dialect.GivesMadeJumps)
    (h : decode dialect settings code = .ok d) : d.Unlit := by
  intro place jump hjump
  obtain ⟨instruction, hget, hjump⟩ := Option.bind_eq_some_iff.1 hjump
  obtain ⟨index, note, hnote, hsame⟩ := exists_note_of_dynamic h hget hjump
  exact (hdialect _ _ _ _ hnote hsame).unlit

/-- After queries an instruction still has the number of its place. -/
theorem number_of_asked {dialect : Dialect} {settings : Settings} {code : Code}
    {d : Disassembly} (h : decode dialect settings code = .ok d) (history : List Query)
    {place : Nat} {instruction : Instruction}
    (hget : (d.asked history).get? place = some instruction) : instruction.number = place := by
  have hunasked : (d.instructions.map Instruction.unasked)[place]? =
      some instruction.unasked := by
    rw [← d.map_unasked_asked history, List.getElem?_map]
    exact congrArg (Option.map Instruction.unasked) hget
  rw [List.getElem?_map] at hunasked
  obtain ⟨before, hbefore, hsame⟩ := Option.map_eq_some_iff.1 hunasked
  obtain ⟨-, -, -, -, -, hnumber, -⟩ := place_of_decode h hbefore
  have hkept := congrArg Instruction.number hsame
  exact hkept.symm.trans hnumber

/-- **At most one edge is lit.** Let code be decoded, let its instructions be
asked anything, and then ask each of them once under one context, in any
order. A jump is then lit exactly if it is a branch that the machine stands at
and has a value for, and marked as taken exactly if it is the value that the
branch waits for; so no two jumps are lit. The jumps are those that decoding
found, but for the emphasis. This holds of every dialect that gives out jumps
that can be had, as the NEO dialect and all dialects given by rules do. -/
theorem at_most_one_lit :
    Neo.dialect.GivesMadeJumps ∧
    (∀ name opcodes jumps categories,
      (Dialect.ofRules name opcodes jumps categories).GivesMadeJumps) ∧
    ∀ (dialect : Dialect) (settings : Settings) (code : Code) (d : Disassembly),
      dialect.GivesMadeJumps → decode dialect settings code = .ok d →
      ∀ (history : List Query) (context : Option Context) (places : List Nat),
        places.Perm (List.range d.size) →
        let after := (d.asked history).asked (Disassembly.roundOf places context)
        after = ((d.asked history).resolveAll context).2 ∧
        after.instructions.map Instruction.unasked = d.instructions.map Instruction.unasked ∧
        (∀ place jump, after.HasDynamic place jump → RightlyLit context place jump) ∧
        ∀ place jump place' jump', after.HasDynamic place jump → after.HasDynamic place' jump' →
          jump.emphasis ≠ .inactive → jump'.emphasis ≠ .inactive → place = place' := by
  refine ⟨Neo.givesMadeJumps_dialect, Dialect.givesMadeJumps_ofRules, ?_⟩
  intro dialect settings code d hdialect hd history context places hplaces after
  have hround : after = ((d.asked history).resolveAll context).2 := by
    refine Disassembly.asked_eq_resolveAll ?_ context
    rwa [Disassembly.size_asked]
  have hlit : ∀ place jump, after.HasDynamic place jump → RightlyLit context place jump := by
    intro place jump hjump
    rw [hround] at hjump
    exact ((unlit_of_decode hdialect hd).asked history).rightlyLit
      (fun _ _ hget => number_of_asked hd history hget) hjump
  refine ⟨hround, ?_, hlit, ?_⟩
  · exact (Disassembly.map_unasked_asked _ _).trans (d.map_unasked_asked history)
  · intro place jump place' jump' hjump hjump' hon hon'
    obtain ⟨-, -, machine, -, hmachine, hcurrent, -⟩ := (hlit place jump hjump).lit_iff.1 hon
    obtain ⟨-, -, machine', -, hmachine', hcurrent', -⟩ :=
      (hlit place' jump' hjump').lit_iff.1 hon'
    -- both are the place that the one context names
    obtain rfl : machine = machine' := Option.some.inj (hmachine.symm.trans hmachine')
    exact Option.some.inj (hcurrent.symm.trans hcurrent')

/-- A dialect with one opcode, a branch to the start that waits for truth. -/
def forkDialect : Dialect :=
  Dialect.ofRules "fork" [⟨1, "FORK", "", .nullary⟩]
    [{ opcode := 1, target := .dynamic (.conditional 0 true) }] []

/-- The machine of that dialect, at an instruction and with a value on its
stack. -/
def forkMachine (current : Nat) (top : Bool) : Context :=
  { dialect := "fork", current := some current, stackTop := .ok top }

/-- The first of two branches was lit when the machine stood there. After a round
that asks the second one first, the light is at the second one, which is not
taken. -/
theorem at_most_one_lit_forkDialect :
    ∃ d after, decode forkDialect {} #[1, 1] = .ok d ∧
      (d.asked [⟨0, forkMachine 0 true⟩]).HasDynamic 0 ⟨"fork", .conditional 0 true, .taken⟩ ∧
      after = (d.asked [⟨0, forkMachine 0 true⟩]).asked
        (Disassembly.roundOf [1, 0] (forkMachine 1 false)) ∧
      after.HasDynamic 0 ⟨"fork", .conditional 0 true, .inactive⟩ ∧
      after.HasDynamic 1 ⟨"fork", .conditional 0 true, .notTaken⟩ ∧
      ∀ place jump, after.HasDynamic place jump →
        RightlyLit (forkMachine 1 false) place jump := by
  have hlast : Cuts forkDialect {} 1 1 [1] _ :=
    @Cuts.single _ _ 1 1 1 _ none rfl rfl (by decide)
  have hcuts : Cuts forkDialect {} 0 0 [1, 1] _ :=
    @Cuts.cons _ _ 0 0 1 _ none [1] _ rfl rfl (by decide) hlast
  have hd : decode forkDialect {} #[1, 1] = .ok _ := decode_of_cuts (by decide) hcuts
  obtain ⟨-, -, hlit, -⟩ :=
    at_most_one_lit.2.2 forkDialect {} #[1, 1] _ (Dialect.givesMadeJumps_ofRules _ _ _ _) hd
      [⟨0, forkMachine 0 true⟩] (forkMachine 1 false) [1, 0] (by decide +kernel)
  exact ⟨_, _, hd, by decide +kernel, rfl, by decide +kernel, by decide +kernel, hlit⟩

end Disasm
