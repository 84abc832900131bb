import Disasm.Dialect.Rules
import Disasm.Neo.Dialect
import Disasm.Proofs.Linking
import Disasm.Proofs.ListFacts
/-!
# The places of static targets

The place of a static target is found in one of two ways. A target that is
not further on than the jump is in the index when the dialect is asked for
the jump, if the dialect looks it up there (`LooksUpTargets`). All other
places are filled in when the index is complete. `ResolvedBack` says how far
the first way gets; from it follows what filling in finds, and how much. In
the end a static jump knows a place exactly if an instruction starts at its
target.
-/

namespace Disasm

/-! ## Dialects that look their targets up -/

/-- **The dialect looks its targets up**: the place it gives a static jump is
the one that the index it is shown has for the target. -/
def Dialect.LooksUpTargets (dialect : Dialect) : Prop :=
  ∀ instruction index note target place, dialect.note? instruction index = some note →
    note.jump = .static target place → place = index.indexOf? target

/-- Dialects given by rules do. -/
theorem Dialect.looksUpTargets_ofRules (name : String) (opcodes : List OpCode)
    (jumps : List JumpRule) (categories : List CategoryRule) :
    (ofRules name opcodes jumps categories).LooksUpTargets := by
  intro instruction index note target place hnote hjump
  obtain ⟨rule, -, rfl⟩ := Option.map_eq_some_iff.1 hnote
  cases htarget : rule.target with
  | static offset =>
    simp only [JumpRule.note, htarget, Jump.static.injEq] at hjump
    obtain ⟨rfl, rfl⟩ := hjump
    rfl
  | dynamic branch => simp [JumpRule.note, htarget] at hjump

/-- And so does the NEO dialect. -/
theorem Neo.looksUpTargets_dialect : Neo.dialect.LooksUpTargets := by
  intro instruction index note target place hnote hjump
  change Neo.note? instruction index = some note at hnote
  unfold Neo.note? at hnote
  split at hnote
  · cases hnote
  · obtain ⟨offset, -, rfl⟩ := Option.map_eq_some_iff.1 hnote
    obtain ⟨rfl, rfl⟩ := Jump.static.inj hjump
    rfl
  · obtain ⟨offset, -, rfl⟩ := Option.map_eq_some_iff.1 hnote
    obtain ⟨rfl, rfl⟩ := Jump.static.inj hjump
    rfl
  · obtain ⟨offset, -, rfl⟩ := Option.map_eq_some_iff.1 hnote
    cases hjump
  · cases hnote
    cases hjump

namespace Disassembly

variable {d : Disassembly} {place : Nat} {target : UInt32} {known : Option Nat}

/-! ## Static jumps of a disassembly -/

/-- The instruction at a place has a static jump to the target, with what is
known of the target's place. -/
def HasStatic (d : Disassembly) (place : Nat) (target : UInt32) (known : Option Nat) : Prop :=
  (d.get? place).bind (·.jump) = some (.static target known)

instance (d : Disassembly) (place : Nat) (target : UInt32) (known : Option Nat) :
    Decidable (d.HasStatic place target known) :=
  inferInstanceAs (Decidable (_ = _))

/-- The target of the static jump at a place. -/
def targetOf? (d : Disassembly) (place : Nat) : Option UInt32 :=
  ((d.get? place).bind (·.jump)).bind Jump.staticOffset?

/-- The instruction at a place has a static jump to an instruction further
on. -/
def JumpsForward (d : Disassembly) (place : Nat) : Prop :=
  ∃ other < d.size, place < other ∧ d.targetOf? place = d.startOf? other

instance (d : Disassembly) (place : Nat) : Decidable (d.JumpsForward place) :=
  inferInstanceAs (Decidable (∃ other < d.size, place < other ∧ _ = _))

/-- **Static jumps know the places of targets that are not further on**, and no
others. -/
structure ResolvedBack (d : Disassembly) : Prop where
  lists : d.index.Lists (d.instructions.map (·.offset))
  known_eq_some_iff : ∀ {place target known}, d.HasStatic place target known →
    ∀ other, known = some other ↔ other ≤ place ∧ d.startOf? other = some target

/-- The index finds the place of every start. -/
theorem ResolvedBack.indexOf?_eq_some_iff (h : d.ResolvedBack) (target : UInt32) (other : Nat) :
    d.index.indexOf? target = some other ↔ d.startOf? other = some target := by
  rw [h.lists.indexOf?_eq_some_iff, startOf?_eq]

/-! ## Filling in -/

/-- A static jump keeps the place it knows and looks up the one it does not. -/
theorem settle_static (index : OffsetIndex) (target : UInt32) (known : Option Nat) :
    (Jump.static target known).settle index =
      (.static target (known.or (index.indexOf? target)),
        known.isNone && (index.indexOf? target).isSome) := by
  cases known <;> rfl

theorem settle_dynamic (index : OffsetIndex) (jump : DynamicJump) :
    (Jump.dynamic jump).settle index = (.dynamic jump, false) := rfl

theorem jump_settleJump (index : OffsetIndex) (instruction : Instruction) :
    (settleJump index instruction).1.jump = instruction.jump.map fun jump =>
      (jump.settle index).1 := by
  cases hjump : instruction.jump <;> simp [settleJump, hjump]

/-- The instruction at a place, after places were filled in. -/
theorem get?_resolvePendingJumps (d : Disassembly) (place : Nat) :
    d.resolvePendingJumps.2.get? place =
      (d.get? place).map fun instruction => (settleJump d.index instruction).1 := by
  simp [resolvePendingJumps, get?, Function.comp_def]

/-- Filling in moves no instruction. -/
theorem startOf?_resolvePendingJumps (d : Disassembly) (place : Nat) :
    d.resolvePendingJumps.2.startOf? place = d.startOf? place := by
  rw [startOf?, get?_resolvePendingJumps, Option.map_map, startOf?]
  congr 1
  funext instruction
  have hbare := congrArg Instruction.offset (instruction.bare_settleJump d.index)
  exact hbare

/-- A static jump was one before, and knows the place that it knew or that the
index has. -/
theorem exists_hasStatic_of_resolvePendingJumps
    (h : d.resolvePendingJumps.2.HasStatic place target known) :
    ∃ before, d.HasStatic place target before ∧
      known = before.or (d.index.indexOf? target) := by
  rw [HasStatic, get?_resolvePendingJumps] at h
  cases hget : d.get? place with
  | none => simp [hget] at h
  | some instruction =>
    rw [hget, Option.map_some, Option.bind_some, jump_settleJump] at h
    obtain ⟨jump, hjump, hsettle⟩ := Option.map_eq_some_iff.1 h
    cases jump with
    | dynamic jump => cases hsettle
    | static offset before =>
      rw [settle_static] at hsettle
      obtain ⟨rfl, rfl⟩ := Jump.static.inj hsettle
      exact ⟨before, by rw [HasStatic, hget, Option.bind_some, hjump], rfl⟩

/-- **After filling in, a static jump knows a place exactly if an instruction
starts at its target.** -/
theorem ResolvedBack.known_eq_some_iff_of_resolvePendingJumps (h : d.ResolvedBack)
    (hstatic : d.resolvePendingJumps.2.HasStatic place target known) (other : Nat) :
    known = some other ↔ d.resolvePendingJumps.2.startOf? other = some target := by
  obtain ⟨before, hbefore, rfl⟩ := exists_hasStatic_of_resolvePendingJumps hstatic
  rw [startOf?_resolvePendingJumps, ← h.indexOf?_eq_some_iff]
  cases before with
  | none => exact Iff.rfl
  | some first =>
    -- the place that was known is the one that the index has
    have hfirst := ((h.known_eq_some_iff hbefore first).1 rfl).2
    rw [Option.some_or, (h.indexOf?_eq_some_iff target first).2 hfirst]

/-- A jump leads further on if its target is where a later instruction starts. -/
theorem jumpsForward_iff :
    d.JumpsForward place ↔ ∃ target other, d.targetOf? place = some target ∧ place < other ∧
      d.startOf? other = some target := by
  constructor
  · rintro ⟨other, hlt, hplace, htarget⟩
    have hstart : d.startOf? other = some d.instructions[other].offset := by
      rw [startOf?, get?, List.getElem?_eq_getElem hlt]
      rfl
    exact ⟨_, other, htarget.trans hstart, hplace, hstart⟩
  · rintro ⟨target, other, htarget, hplace, hstart⟩
    obtain ⟨instruction, hget, -⟩ := Option.map_eq_some_iff.1 hstart
    exact ⟨other, (List.getElem?_eq_some_iff.1 hget).1, hplace, htarget.trans hstart.symm⟩

/-- A jump with a place to be filled in is one that leads further on. -/
theorem ResolvedBack.pending_iff (h : d.ResolvedBack)
    (hstatic : d.HasStatic place target known) :
    known = none ∧ (d.index.indexOf? target).isSome ↔
      ∃ other, place < other ∧ d.startOf? other = some target := by
  constructor
  · rintro ⟨rfl, hsome⟩
    obtain ⟨other, hother⟩ := Option.isSome_iff_exists.1 hsome
    rw [h.indexOf?_eq_some_iff] at hother
    refine ⟨other, ?_, hother⟩
    by_contra hle
    have hknown := (h.known_eq_some_iff hstatic other).2 ⟨by omega, hother⟩
    cases hknown
  · rintro ⟨other, hlt, hother⟩
    rw [← h.indexOf?_eq_some_iff] at hother
    refine ⟨?_, by rw [hother]; rfl⟩
    rw [Option.eq_none_iff_forall_ne_some]
    intro first hfirst
    -- no offset has two places, so the place that is known would be the later one
    obtain ⟨hle, hstart⟩ := (h.known_eq_some_iff hstatic first).1 hfirst
    rw [← h.indexOf?_eq_some_iff, hother, Option.some.injEq] at hstart
    omega

/-- **A place is filled in exactly where a jump leads further on.** -/
theorem ResolvedBack.settleJump_iff (h : d.ResolvedBack) {instruction : Instruction}
    (hget : d.get? place = some instruction) :
    (settleJump d.index instruction).2 = true ↔ d.JumpsForward place := by
  rw [jumpsForward_iff, targetOf?, hget, Option.bind_some]
  cases hjump : instruction.jump with
  | none => simp [settleJump, hjump]
  | some jump =>
    cases jump with
    | dynamic jump => simp [settleJump, hjump, settle_dynamic, Jump.staticOffset?]
    | static target known =>
      have hstatic : d.HasStatic place target known := by
        rw [HasStatic, hget, Option.bind_some, hjump]
      have hpending := h.pending_iff hstatic
      simpa [settleJump, hjump, settle_static, Jump.staticOffset?] using hpending

/-- As many places are filled in as jumps lead further on. -/
theorem ResolvedBack.resolvePendingJumps_fst (h : d.ResolvedBack) :
    d.resolvePendingJumps.1 =
      (List.range d.size).countP fun place => decide (d.JumpsForward place) := by
  rw [resolvePendingJumps, List.countP_map]
  refine List.countP_eq_countP_range fun place instruction hget => ?_
  rw [Bool.eq_iff_iff, decide_eq_true_iff]
  exact h.settleJump_iff hget

/-- What was filled in is not pending any more, and what was not found then is
not found again. -/
theorem settle_settle (index : OffsetIndex) (jump : Jump) :
    (jump.settle index).1.settle index = ((jump.settle index).1, false) := by
  cases jump with
  | dynamic jump => rfl
  | static target known =>
    rw [settle_static, settle_static]
    cases known with
    | some first => rfl
    | none => cases index.indexOf? target <;> rfl

theorem settleJump_settleJump (index : OffsetIndex) (instruction : Instruction) :
    settleJump index (settleJump index instruction).1 =
      ((settleJump index instruction).1, false) := by
  cases hjump : instruction.jump with
  | none => simp [settleJump, hjump]
  | some jump => simp [settleJump, hjump, settle_settle]

/-- **Filling in twice is filling in once.** -/
theorem resolvePendingJumps_resolvePendingJumps (d : Disassembly) :
    d.resolvePendingJumps.2.resolvePendingJumps = (0, d.resolvePendingJumps.2) := by
  simp [resolvePendingJumps, Function.comp_def, settleJump_settleJump]

end Disassembly

/-! ## After linking, and after decoding -/

variable {dialect : Dialect} {settings : Settings} {bytes : List UInt8}
variable {instructions : List Instruction}

/-- Linking without filling in is how decoding ends if forward jumps are left
alone. -/
theorem link_eq_finish (dialect : Dialect) (settings : Settings)
    (instructions : List Instruction) :
    link dialect settings instructions =
      finish dialect { settings with resolveForwardJumps := false } instructions := rfl

/-- **Linking resolves jumps that do not lead further on**, if the dialect looks
its targets up. -/
theorem Cuts.resolvedBack_link (hdialect : dialect.LooksUpTargets)
    (h : Cuts dialect settings 0 0 bytes instructions) (hsize : bytes.length ≤ UInt32.size) :
    (link dialect settings instructions).ResolvedBack where
  lists := by
    rw [link_eq_finish, map_finish _ _ (fun _ => rfl)]
    exact (h.congr_settings (by rfl)).lists_index_finish hsize
  known_eq_some_iff := by
    intro place target known hstatic other
    obtain ⟨instruction, hget, hjump⟩ := Option.bind_eq_some_iff.1 hstatic
    rw [Disassembly.get?, instructions_link, List.getElem?_map] at hget
    obtain ⟨visit, hvisit, rfl⟩ := Option.map_eq_some_iff.1 hget
    obtain ⟨hinstruction, -, hlists⟩ := h.visit_of_getElem? hsize hvisit
    obtain ⟨-, -, hbare⟩ := h.place_of_getElem? hinstruction
    rw [Visit.linked, jump_applyNote, hbare, Option.or_none] at hjump
    obtain ⟨note, hnote, hjump⟩ := Option.map_eq_some_iff.1 hjump
    -- the index that the dialect looked the target up in lists what is not further on
    rw [hdialect _ _ _ _ _ hnote hjump, hlists.indexOf?_eq_some_iff, List.map_take,
      List.getElem?_take, Disassembly.startOf?_eq, link_eq_finish, map_finish _ _ (fun _ => rfl)]
    split_ifs with hlt
    · exact ⟨fun hstart => ⟨by omega, hstart⟩, fun hstart => hstart.2⟩
    · exact iff_of_false (by simp) fun hstart => hlt (by omega)

/-- **A static jump knows a place exactly if an instruction starts at its
target.** If forward jumps are left alone, it knows the places that are not
further on than itself. Filling in the others afterwards counts the jumps
that lead further on and gives the disassembly that decoding would have
given; doing it again finds nothing and changes nothing. This holds of every
dialect that looks its targets up, as the NEO dialect and all dialects given
by rules do. -/
theorem static_places_exact :
    Neo.dialect.LooksUpTargets ∧
    (∀ name opcodes jumps categories,
      (Dialect.ofRules name opcodes jumps categories).LooksUpTargets) ∧
    ∀ (dialect : Dialect) (settings : Settings) (code : Code), dialect.LooksUpTargets →
      (∃ d, decode dialect settings code = .ok d) →
      ∃ pending resolved : Disassembly,
        decode dialect { settings with resolveForwardJumps := false } code = .ok pending ∧
        decode dialect { settings with resolveForwardJumps := true } code = .ok resolved ∧
        (∀ place target known, resolved.HasStatic place target known →
          ∀ other, known = some other ↔ resolved.startOf? other = some target) ∧
        (∀ place target known, pending.HasStatic place target known →
          ∀ other, known = some other ↔
            other ≤ place ∧ pending.startOf? other = some target) ∧
        pending.resolvePendingJumps =
          ((List.range pending.size).countP fun place => decide (pending.JumpsForward place),
            resolved) ∧
        resolved.resolvePendingJumps = (0, resolved) := by
  refine ⟨Neo.looksUpTargets_dialect, Dialect.looksUpTargets_ofRules, ?_⟩
  rintro dialect settings code hdialect ⟨d, hd⟩
  obtain ⟨hcode, instructions, hcuts, -⟩ := decode_eq_ok_iff.1 hd
  have hback := hcuts.resolvedBack_link hdialect hcode.le
  refine ⟨link dialect settings instructions,
    (link dialect settings instructions).resolvePendingJumps.2,
    decode_of_cuts hcode (hcuts.congr_settings (by rfl)),
    decode_of_cuts hcode (hcuts.congr_settings (by rfl)), ?_, ?_, ?_, ?_⟩
  · intro place target known hstatic
    exact hback.known_eq_some_iff_of_resolvePendingJumps hstatic
  · intro place target known hstatic
    exact hback.known_eq_some_iff hstatic
  · rw [← hback.resolvePendingJumps_fst]
  · exact Disassembly.resolvePendingJumps_resolvePendingJumps _

/-- A dialect with one opcode, a jump to the third byte. -/
def hopDialect : Dialect :=
  Dialect.ofRules "hop" [⟨1, "HOP", "", .nullary⟩] [{ opcode := 1, target := .static 2 }] []

/-- Of three jumps to the third instruction two lead further on and one to
itself. -/
theorem static_places_exact_hopDialect :
    ∃ pending resolved : Disassembly,
      decode hopDialect { resolveForwardJumps := false } #[1, 1, 1] = .ok pending ∧
      decode hopDialect {} #[1, 1, 1] = .ok resolved ∧
      pending.HasStatic 0 2 none ∧ pending.HasStatic 2 2 (some 2) ∧
      resolved.HasStatic 0 2 (some 2) ∧
      pending.resolvePendingJumps = (2, resolved) ∧
      resolved.resolvePendingJumps = (0, resolved) := by
  have hthird : Cuts hopDialect {} 2 2 [1] _ :=
    @Cuts.single _ _ 2 2 1 _ none rfl rfl (by decide)
  have hsecond : Cuts hopDialect {} 1 1 [1, 1] _ :=
    @Cuts.cons _ _ 1 1 1 _ none [1] _ rfl rfl (by decide) hthird
  have hcuts : Cuts hopDialect {} 0 0 [1, 1, 1] _ :=
    @Cuts.cons _ _ 0 0 1 _ none [1, 1] _ rfl rfl (by decide) hsecond
  have hd : decode hopDialect {} #[1, 1, 1] = .ok _ := decode_of_cuts (by decide) hcuts
  obtain ⟨pending, resolved, hpending, hresolved, -, -, hfill, hagain⟩ :=
    static_places_exact.2.2 hopDialect {} #[1, 1, 1]
      (Dialect.looksUpTargets_ofRules _ _ _ _) ⟨_, hd⟩
  obtain rfl : link hopDialect {} _ = pending :=
    Except.ok.inj ((decode_of_cuts (by decide) (hcuts.congr_settings (by rfl))).symm.trans
      hpending)
  obtain rfl : finish hopDialect {} _ = resolved := Except.ok.inj (hd.symm.trans hresolved)
  exact ⟨_, _, hpending, hd, by decide +kernel, by decide +kernel, by decide +kernel, hfill,
    hagain⟩

end Disasm
