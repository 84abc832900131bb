import Disasm.CommandLine
import Disasm.Proofs.HexReading
import Disasm.Proofs.Listing
import Disasm.Proofs.NeoEdges
import Disasm.Proofs.Toggles
import Mathlib.Data.List.Forall2
/-!
# The landmarks of NEO code

What the survey of NEO code has to find can be read off the instructions: the
system calls that name something, and whatever carries as many bytes as a hash
has. `Charts` says that a collection lists the instructions of a kind, in
their order and no others, with labels that tell their payloads, and that the
command prints each label beside the offset of the instruction it comes from.
A category that picks out the instructions of a kind charts them
(`charts_of_picks`), and those of NEO code do (`picks_syscall`, `picks_hash`).
`landmarks_of_decode` is the result for the full run and the command.
-/

namespace Disasm

/-! ## Charting the instructions of a kind -/

/-- The line for an occurrence of an instruction. -/
def CommandLine.lineFor (instruction : Instruction) (occurrence : Occurrence) : String :=
  "  [" ++ Hex.numeral 4 instruction.offset.toNat ++ "] " ++ occurrence.label ++ "\n"

/-- The category picks out the instruction if it is wanted, with a label that
tells its payload, and passes it over otherwise. -/
structure Category.Picks (category : Category) (wanted : Instruction → Prop)
    (tells : List UInt8 → String → Prop) (instruction : Instruction) : Prop where
  labelled : wanted instruction → ∃ label, category.label instruction = some label ∧
    label ≠ "" ∧ tells instruction.payload label
  passed : ¬ wanted instruction → ∀ label, category.label instruction = some label → label = ""

/-- **The occurrence records the instruction**: it names its place and has a label
that tells its payload. -/
def Disassembly.Records (d : Disassembly) (tells : List UInt8 → String → Prop)
    (instruction : Instruction) (occurrence : Occurrence) : Prop :=
  d.get? occurrence.instruction = some instruction ∧ tells instruction.payload occurrence.label

/-- **The collection charts the instructions of a kind.** -/
structure Disassembly.Charts (d : Disassembly) (collection : Collection)
    (wanted : Instruction → Prop) [DecidablePred wanted] (tells : List UInt8 → String → Prop) :
    Prop where
  /-- Those and no others are recorded, in their order. -/
  listed : List.Forall₂ (d.Records tells) (d.instructions.filter wanted) collection.found.toList
  /-- They are printed under the name of the category and their number, each
  label beside the offset of its instruction. -/
  printed : CommandLine.sectionText d collection =
    if (d.instructions.filter wanted).isEmpty then ""
    else
      "\n" ++ collection.name ++ " (" ++ toString (d.instructions.filter wanted).length ++ ")\n" ++
        String.join (List.zipWith CommandLine.lineFor (d.instructions.filter wanted)
          collection.found.toList)

section Charts

variable {d : Disassembly} {category : Category} {wanted : Instruction → Prop}
variable [DecidablePred wanted] {tells : List UInt8 → String → Prop}

/-- What a category finds by picking out the instructions of a kind records
them, if each is found at its number. -/
theorem Category.forall₂_records {instructions : List Instruction}
    (hplace : ∀ instruction ∈ instructions, d.get? instruction.number = some instruction)
    (h : ∀ instruction ∈ instructions, category.Picks wanted tells instruction) :
    List.Forall₂ (d.Records tells) (instructions.filter wanted)
      (category.occurrences instructions) := by
  unfold occurrences
  induction instructions with
  | nil => exact .nil
  | cons instruction instructions ih =>
    rw [List.forall_mem_cons] at hplace h
    have hrest := ih hplace.2 h.2
    by_cases hwanted : wanted instruction
    · obtain ⟨label, hlabel, hne, htells⟩ := h.1.labelled hwanted
      have hfound : category.occurrence? instruction = some ⟨label, instruction.number⟩ :=
        occurrence?_eq_some_iff.2 ⟨hlabel, hne, rfl⟩
      rw [List.filter_cons_of_pos (by simpa using hwanted), List.filterMap_cons_some hfound]
      exact .cons ⟨hplace.1, htells⟩ hrest
    · have hnone : category.occurrence? instruction = none := by
        rw [Option.eq_none_iff_forall_not_mem]
        intro occurrence hfound
        obtain ⟨hlabel, hne, -⟩ := occurrence?_eq_some_iff.1 hfound
        exact hne (h.1.passed hwanted _ hlabel)
      rw [List.filter_cons_of_neg (by simpa using hwanted), List.filterMap_cons_none hnone]
      exact hrest

/-- What is listed is printed with the offsets of its instructions: none of them
has to be made up. -/
theorem CommandLine.map_line_of_forall₂ {instructions : List Instruction}
    {found : List Occurrence} (h : List.Forall₂ (d.Records tells) instructions found) :
    (found.map fun occurrence =>
      let offset := ((d.get? occurrence.instruction).map (·.offset)).getD 0
      "  [" ++ Hex.numeral 4 offset.toNat ++ "] " ++ occurrence.label ++ "\n") =
      List.zipWith lineFor instructions found := by
  induction h with
  | nil => rfl
  | cons hrecords _ ih =>
    rw [List.map_cons, ih, hrecords.1]
    rfl

/-- **A category that picks out the instructions of a kind charts them**, if
each instruction is found at its number. -/
theorem charts_of_picks
    (hplace : ∀ instruction ∈ d.instructions, d.get? instruction.number = some instruction)
    (h : ∀ instruction ∈ d.instructions, category.Picks wanted tells instruction) :
    d.Charts ⟨category, (category.occurrences d.instructions).toArray⟩ wanted tells := by
  have hlisted := Category.forall₂_records hplace h
  refine ⟨hlisted, ?_⟩
  have hlength := hlisted.length_eq
  rw [CommandLine.sectionText]
  simp only [List.isEmpty_toArray, List.size_toArray, CommandLine.map_line_of_forall₂ hlisted,
    ← hlength, List.isEmpty_iff_length_eq_zero]

/-- What stands on a chart is an instruction of the kind. -/
theorem Disassembly.Charts.exists_of_mem {collection : Collection}
    (h : d.Charts collection wanted tells) {occurrence : Occurrence}
    (hmem : occurrence ∈ collection.found) :
    ∃ instruction, d.get? occurrence.instruction = some instruction ∧ wanted instruction := by
  obtain ⟨i, hi, rfl⟩ := List.getElem_of_mem (Array.mem_toList_iff.2 hmem)
  have hlength := h.listed.length_eq
  have hi' : i < (d.instructions.filter wanted).length := by omega
  refine ⟨_, (h.listed.get hi' hi).1, ?_⟩
  have hwanted := (List.mem_filter.1 (List.getElem_mem hi')).2
  exact of_decide_eq_true hwanted

/-- A chart of one instruction. -/
theorem Disassembly.Charts.of_singleton {collection : Collection}
    (h : d.Charts collection wanted tells) {instruction : Instruction}
    (hone : d.instructions.filter wanted = [instruction]) :
    ∃ label, tells instruction.payload label ∧ CommandLine.sectionText d collection =
      "\n" ++ collection.name ++ " (1)\n  [" ++ Hex.numeral 4 instruction.offset.toNat ++ "] " ++
        label ++ "\n" := by
  obtain ⟨hlisted, hprinted⟩ := h
  rw [hone, List.forall₂_cons_left_iff] at hlisted
  obtain ⟨occurrence, rest, ⟨-, htells⟩, hrest, hfound⟩ := hlisted
  obtain rfl := List.forall₂_nil_left_iff.1 hrest
  refine ⟨occurrence.label, htells, ?_⟩
  have hcount : toString [instruction].length = "1" := by
    simp only [List.length_singleton]
    decide
  rw [hprinted, hone, hfound, hcount, ← String.toList_inj]
  simp [CommandLine.lineFor]

end Charts

/-- In decoded code an instruction is found at its number. -/
theorem get?_number_of_decode {dialect : Dialect} {settings : Settings} {code : Code}
    {d : Disassembly} (h : decode dialect settings code = .ok d) {instruction : Instruction}
    (hmem : instruction ∈ d.instructions) : d.get? instruction.number = some instruction := by
  obtain ⟨i, hi⟩ := List.getElem?_of_mem hmem
  obtain ⟨-, -, -, -, -, hnumber, -⟩ := place_of_decode h hi
  rw [hnumber]
  exact hi

/-- **The full run with a survey**, for a dialect whose categories have names of
their own. -/
theorem disassemble_of_decode {dialect : Dialect} {settings : Settings} {code : Code}
    {d : Disassembly} (hscan : settings.scanOccurrences = true)
    (hnames : (dialect.categories.map Category.name).Nodup)
    (h : decode dialect settings code = .ok d) :
    disassemble dialect settings code = .ok { d with survey := ⟨dialect.categories.map
      fun category => ⟨category, (category.occurrences d.instructions).toArray⟩⟩ } := by
  have hregistered := @Survey.registerAll_of_nodup ∅ dialect.categories hnames
  rw [disassemble_eq, h, Except.map, Disassembly.concluded, if_pos hscan, Disassembly.registerAll,
    Disassembly.scan, survey_of_decode h, hregistered, Survey.scan_eq, Survey.filled,
    show (∅ : Survey).collections = [] from rfl, List.nil_append, List.map_map]
  rfl

/-- What the command does with code in hexadecimal digits that can be
disassembled. -/
theorem CommandLine.run_of_disassemble {settings : Settings} {script : String} {code : Code}
    {d : Disassembly} (hscript : Hex.decode script = .ok code)
    (h : disassemble Neo.dialect settings code = .ok d) (arguments : List String)
    (program : String) :
    run (script :: arguments) (.ok settings) program = { exitCode := 0, output := report d } := by
  have hd : disassembleHex Neo.dialect settings script = .ok d := by
    rw [disassembleHex, hscript]
    exact h
  simp only [run, hd]

namespace Instruction

variable {instruction : Instruction}

theorem payload_of_operand {operand : Operand} (h : instruction.operand = some operand) :
    instruction.payload = operand.payload := by
  rw [payload, h]
  rfl

/-- A payload that is there is that of an operand. -/
theorem exists_operand (h : instruction.payload ≠ []) :
    ∃ operand, instruction.operand = some operand ∧ instruction.payload = operand.payload := by
  obtain ⟨operand, hoperand⟩ : ∃ operand, instruction.operand = some operand := by
    refine Option.ne_none_iff_exists'.1 fun hnone => h ?_
    rw [payload, hnone]
    rfl
  exact ⟨operand, hoperand, payload_of_operand hoperand⟩

end Instruction

namespace Neo

/-! ## What labels tell -/

/-- **A label spells a payload**: it has a character for each byte, the byte's own
below 128 and a question mark from there on. -/
def Spells (payload : List UInt8) (label : String) : Prop :=
  List.Forall₂ (fun b c => if b.toNat < 128 then c.toNat = b.toNat else c = '?')
    payload label.toList

/-- **A label shows a hash**: after a marker it has two digits for each of the
bytes, and it reads as the payload from back to front. -/
structure ShowsHash (size : Nat) (payload : List UInt8) (label : String) : Prop where
  in_digits : ∃ digits, label.toList = '0' :: 'x' :: digits ∧ digits.length = 2 * size ∧
    ∀ c ∈ digits, c ∈ Hex.digits
  decode_eq : Hex.decode label = .ok payload.reverse.toArray

theorem spells_ascii (operand : Operand) : Spells operand.payload operand.ascii := by
  rw [Spells, Operand.ascii, String.toList_ofList, List.forall₂_map_right_iff, List.forall₂_same]
  intro b _
  have hlt : b < 0x80 ↔ b.toNat < 128 := UInt8.lt_iff_toNat_lt
  by_cases hb : b.toNat < 128
  · rw [if_pos hb, if_pos (hlt.2 hb)]
    have hvalid : b.toNat.isValidChar := .inl (by omega)
    rw [Char.ofNat, dif_pos hvalid]
    rfl
  · rw [if_neg hb, if_neg (hlt.not.2 hb)]

theorem showsHash_ofBytes (payload : List UInt8) :
    ShowsHash payload.length payload ("0x" ++ Hex.ofBytes payload.reverse) where
  in_digits := by
    refine ⟨(Hex.ofBytes payload.reverse).toList, by simp, ?_, fun c hc => Hex.mem_ofBytes hc⟩
    simp [Hex.ofBytes, Hex.pair, Nat.mul_comm]
  decode_eq := Hex.decode_marked payload.reverse

/-! ## What the categories pick out -/

/-- The name of the system call stands for its byte, and no other does. -/
theorem name_eq_syscall_iff : ∀ opcode ∈ opcodes,
    opcode.name = "SYSCALL" ↔ opcode.byte = syscallByte := by
  decide +kernel

/-- **System calls that name something** are picked out, with the name. -/
theorem picks_syscall {instruction : Instruction} (h : instruction.opcode ∈ opcodes) :
    Category.Picks ⟨"SysCalls", syscallLabel?⟩
      (fun instruction => instruction.opcode.name = "SYSCALL" ∧ instruction.payload ≠ [])
      Spells instruction := by
  have hname := name_eq_syscall_iff _ h
  refine ⟨?_, ?_⟩
  · rintro ⟨hcall, hne⟩
    obtain ⟨operand, hoperand, hpayload⟩ := Instruction.exists_operand hne
    have hspells := spells_ascii operand
    refine ⟨operand.ascii, ?_, ?_, ?_⟩
    · show syscallLabel? instruction = some operand.ascii
      rw [syscallLabel?, if_pos (hname.1 hcall), hoperand, Option.map_some]
    · rintro hempty
      rw [Spells, hempty, String.toList_empty, List.forall₂_nil_right_iff] at hspells
      exact hne (hpayload.trans hspells)
    · rw [hpayload]
      exact hspells
  · intro hpassed label hlabel
    change syscallLabel? instruction = some label at hlabel
    rw [syscallLabel?] at hlabel
    split_ifs at hlabel with hbyte
    obtain ⟨operand, hoperand, rfl⟩ := Option.map_eq_some_iff.1 hlabel
    have hempty : operand.payload = [] := by
      by_contra hne
      refine hpassed ⟨hname.2 hbyte, ?_⟩
      rwa [Instruction.payload_of_operand hoperand]
    rw [Operand.ascii, hempty]
    rfl

/-- **Whatever carries a hash** is picked out, with the hash. -/
theorem picks_hash {size : Nat} (hsize : 0 < size) (name : String) (instruction : Instruction) :
    Category.Picks
      ⟨name, fun instruction => instruction.operand.bind fun operand =>
        hashLabel? size operand.payload⟩
      (fun instruction => instruction.payload.length = size) (ShowsHash size) instruction := by
  refine ⟨?_, ?_⟩
  · rintro rfl
    obtain ⟨operand, hoperand, hpayload⟩ :=
      Instruction.exists_operand (List.length_pos_iff.1 hsize)
    refine ⟨"0x" ++ Hex.ofBytes operand.payload.reverse, ?_, by simp, ?_⟩
    · simp only [hoperand, Option.bind_some, hpayload, hashLabel?, if_true]
    · rw [hpayload]
      exact showsHash_ofBytes operand.payload
  · intro hpassed label hlabel
    obtain ⟨operand, hoperand, hhash⟩ := Option.bind_eq_some_iff.1 hlabel
    rw [Instruction.payload_of_operand hoperand] at hpassed
    rw [hashLabel?, if_neg hpassed] at hhash
    cases hhash

/-! ## What the full run finds and the command prints -/

/-- No two categories share a name. -/
theorem nodup_names : (categories.map Category.name).Nodup := by
  decide

/-- **The landmarks of NEO code.** Code that can be decoded is surveyed for three
categories. The first lists the system calls with a payload, each with a label
that spells it; the second and the third list the instructions, of whatever
opcode, that carry 20 and 32 bytes, each with a label that shows the hash. So
none stands in both. Given the code in hexadecimal digits, the command prints
the listing and then these lists, each label beside the offset of the
instruction whose payload it tells. -/
theorem landmarks_of_decode {settings : Settings} {code : Code} {before : Disassembly}
    (hscan : settings.scanOccurrences = true) (h : decode dialect settings code = .ok before) :
    ∃ (d : Disassembly) (calls short long : Collection),
      disassemble dialect settings code = .ok d ∧ d.instructions = before.instructions ∧
      d.survey.collections = [calls, short, long] ∧
      d.survey.names = ["SysCalls", "UInt160-Addresses", "UInt256-Addresses"] ∧
      d.Charts calls (fun instruction =>
        instruction.opcode.name = "SYSCALL" ∧ instruction.payload ≠ []) Spells ∧
      d.Charts short (fun instruction => instruction.payload.length = 20) (ShowsHash 20) ∧
      d.Charts long (fun instruction => instruction.payload.length = 32) (ShowsHash 32) ∧
      (∀ left ∈ short.found, ∀ right ∈ long.found, left.instruction ≠ right.instruction) ∧
      ∀ script arguments program, Hex.decode script = .ok code →
        CommandLine.run (script :: arguments) (.ok settings) program =
          { exitCode := 0
            output := d.listing ++ CommandLine.sectionText d calls ++
              CommandLine.sectionText d short ++ CommandLine.sectionText d long } := by
  have hfull := disassemble_of_decode hscan nodup_names h
  set d : Disassembly := { before with survey := _ }
  have hplace : ∀ instruction ∈ d.instructions, d.get? instruction.number = some instruction :=
    fun _ hmem => get?_number_of_decode h hmem
  have hcalls := charts_of_picks hplace fun instruction hmem =>
    picks_syscall (mem_opcodes_of_decode h hmem).1
  have hshort := charts_of_picks hplace fun instruction _ =>
    picks_hash (show 0 < 20 by decide) "UInt160-Addresses" instruction
  have hlong := charts_of_picks hplace fun instruction _ =>
    picks_hash (show 0 < 32 by decide) "UInt256-Addresses" instruction
  refine ⟨d, _, _, _, hfull, rfl, rfl, rfl, hcalls, hshort, hlong, ?_, ?_⟩
  · intro left hleft right hright hsame
    obtain ⟨instruction, hget, hsize⟩ := hshort.exists_of_mem hleft
    obtain ⟨other, hget', hsize'⟩ := hlong.exists_of_mem hright
    rw [hsame, hget'] at hget
    obtain rfl := Option.some.inj hget
    omega
  · intro script arguments program hscript
    rw [CommandLine.run_of_disassemble hscript hfull arguments program]
    have hreport : CommandLine.report d = d.listing ++ String.join [_, _, _] := rfl
    rw [hreport]
    simp [String.append_assoc]

/-- As many bytes as a hash of 160 bits has. -/
def countedBytes : List UInt8 :=
  [1, 2, 3, 4, 5, 6, 7, 8, 9, 10, 11, 12, 13, 14, 15, 16, 17, 18, 19, 20]

/-- A call that names nothing, a call that names something with a byte above
127 in it, and 20 bytes that are pushed. -/
theorem landmarks_of_decode_script :
    ∃ (d : Disassembly) (name address : String),
      disassemble dialect {} ([0x68, 0, 0x68, 2, 0x41, 0xff, 0x14] ++ countedBytes).toArray =
        .ok d ∧
      Spells [0x41, 0xff] name ∧ ShowsHash 20 countedBytes address ∧
      CommandLine.run ["0x6800680241ff140102030405060708090a0b0c0d0e0f1011121314"] (.ok {}) =
        { exitCode := 0
          output := d.listing ++ ("\nSysCalls (1)\n  [0002] " ++ name ++ "\n") ++
            ("\nUInt160-Addresses (1)\n  [0006] " ++ address ++ "\n") } := by
  have hpush : dialect.opcode? 0x14 = some (pushBytes 20) := by
    rw [opcode?_eq_find?]
    decide +kernel
  have hlast : Cuts dialect {} 6 2 (0x14 :: countedBytes) _ :=
    @Cuts.single _ _ 6 2 0x14 _ (some ⟨.fixed 20, [], countedBytes⟩) rfl hpush (by decide)
  have hnamed : Cuts dialect {} 2 1 ([0x68, 2, 0x41, 0xff, 0x14] ++ countedBytes) _ :=
    @Cuts.cons _ _ 2 1 0x68 _ (some ⟨.varCounted, [2], [0x41, 0xff]⟩) _ _ rfl opcode?_syscall
      ⟨rfl, by decide⟩ hlast
  have hcuts : Cuts dialect {} 0 0 ([0x68, 0, 0x68, 2, 0x41, 0xff, 0x14] ++ countedBytes) _ :=
    @Cuts.cons _ _ 0 0 0x68 _ (some ⟨.varCounted, [0], []⟩) _ _ rfl opcode?_syscall
      ⟨rfl, by decide⟩ hnamed
  have hdecode : decode dialect {}
      ([0x68, 0, 0x68, 2, 0x41, 0xff, 0x14] ++ countedBytes).toArray = .ok _ :=
    decode_of_cuts (by decide) hcuts
  obtain ⟨d, calls, short, long, hfull, hinstructions, hcollections, hnames, hcalls, hshort, hlong,
    -, hrun⟩ := landmarks_of_decode rfl hdecode
  have hnamedOnly : (d.instructions.filter fun instruction =>
      instruction.opcode.name = "SYSCALL" ∧ instruction.payload ≠ []) =
        [⟨1, 2, entry 0x68 "SYSCALL" "Calls the interop service named by the argument." .varCounted,
          some ⟨.varCounted, [2], [0x41, 0xff]⟩, none, none⟩] := by
    rw [hinstructions]
    decide +kernel
  have hpushOnly : (d.instructions.filter fun instruction => instruction.payload.length = 20) =
      [⟨2, 6, pushBytes 20, some ⟨.fixed 20, [], countedBytes⟩, none, none⟩] := by
    rw [hinstructions]
    decide +kernel
  have hnone : (d.instructions.filter fun instruction => instruction.payload.length = 32) = [] := by
    rw [hinstructions]
    decide +kernel
  have hthree : [calls, short, long].map Collection.name =
      ["SysCalls", "UInt160-Addresses", "UInt256-Addresses"] := by
    rw [← hcollections]
    exact hnames
  simp only [List.map_cons, List.map_nil, List.cons.injEq, and_true] at hthree
  obtain ⟨name, hspells, hcallsText⟩ := hcalls.of_singleton hnamedOnly
  obtain ⟨address, hshows, hshortText⟩ := hshort.of_singleton hpushOnly
  have hlongText := hlong.printed
  rw [hnone] at hlongText
  refine ⟨d, name, address, hfull, hspells, hshows, ?_⟩
  have hcallAt : Hex.numeral 4 2 = "0002" := by decide
  have hpushAt : Hex.numeral 4 6 = "0006" := by decide
  rw [hrun _ _ _ (by decide +kernel), hcallsText, hshortText, hlongText, hthree.1, hthree.2.1,
    CommandLine.Outcome.mk.injEq, ← String.toList_inj]
  simp [hcallAt, hpushAt]

end Neo

end Disasm
