import Disasm.Export
import Disasm.Proofs.JsonBlanks
import Disasm.Settings.Reader
/-!
# Settings are read as they were written

Settings can be written as an object that gives some of them by name, in any
order, or as an array that gives the first few. Either way the reader finds
what was given and has the default for the rest, wherever blanks stand
(`settings_read_back`). Along a text the draft holds what was given so far:
`draft` says what that is, and each member or item adds its setting to it.
-/

namespace Disasm

namespace Settings

open Json (Spaced ClosesValue memberParts separated)

variable (settings : Settings)

/-! ## What is given -/

/-- The value that is written for a setting. -/
def value : Setting → Json
  | .annotateJumps => .bool settings.annotateJumps
  | .resolveForwardJumps => .bool settings.resolveForwardJumps
  | .scanOccurrences => .bool settings.scanOccurrences
  | .maxInstructions => Json.ofOption (fun limit => .num limit.toNat) settings.maxInstructions

/-- The member that gives a setting. -/
def member (setting : Setting) : String × Json :=
  (setting.name, settings.value setting)

theorem toJson_eq : settings.toJson = .obj (Setting.all.map settings.member) := rfl

/-- **The settings that are given as they are**, and the others as by default. -/
def only (given : List Setting) : Settings :=
  let default : Settings := {}
  { annotateJumps :=
      if .annotateJumps ∈ given then settings.annotateJumps else default.annotateJumps
    resolveForwardJumps :=
      if .resolveForwardJumps ∈ given then settings.resolveForwardJumps
      else default.resolveForwardJumps
    scanOccurrences :=
      if .scanOccurrences ∈ given then settings.scanOccurrences else default.scanOccurrences
    maxInstructions :=
      if .maxInstructions ∈ given then settings.maxInstructions else default.maxInstructions }

theorem only_all : settings.only Setting.all = settings := rfl

/-- The draft that holds what is given. -/
def draft (given : List Setting) : Draft where
  annotateJumps := if .annotateJumps ∈ given then some settings.annotateJumps else none
  resolveForwardJumps :=
    if .resolveForwardJumps ∈ given then some settings.resolveForwardJumps else none
  scanOccurrences := if .scanOccurrences ∈ given then some settings.scanOccurrences else none
  maxInstructions := if .maxInstructions ∈ given then some settings.maxInstructions else none

theorem draft_nil : settings.draft [] = {} := rfl

theorem finish_draft (given : List Setting) :
    (settings.draft given).finish = settings.only given := by
  have hgetD : ∀ {α : Type} (p : Prop) [Decidable p] (a b : α),
      (if p then some a else none).getD b = if p then a else b := by
    intro α p _ a b
    split_ifs <;> rfl
  simp only [Draft.finish, draft, only, hgetD]

theorem has_draft (given : List Setting) (setting : Setting) :
    (settings.draft given).has setting = decide (setting ∈ given) := by
  have hisSome : ∀ {α : Type} (p : Prop) [Decidable p] (a : α),
      (if p then some a else none).isSome = decide p := by
    intro α p _ a
    split_ifs with hp
    · exact (decide_eq_true hp).symm
    · exact (decide_eq_false hp).symm
  cases setting <;> exact hisSome _ _

variable {settings} {given : List Setting} {setting : Setting} {text : List Char}
variable {parts : List (List Char)}

/-- **Reading the value of a setting** adds it to what is given. -/
theorem read_of_spaced (given : List Setting) (hparts : ClosesValue parts)
    (h : Spaced ((settings.value setting).text.toList :: parts) text) :
    ∃ rest, (settings.draft given).read setting text =
        .ok (settings.draft (given ++ [setting]), rest) ∧ Spaced parts rest := by
  cases setting with
  | annotateJumps | resolveForwardJumps | scanOccurrences =>
    obtain ⟨rest, hread, hrest⟩ := Json.flag_of_spaced h
    refine ⟨rest, ?_, hrest⟩
    simp [Draft.read, hread, Except.map, draft]
  | maxInstructions =>
    obtain ⟨rest, hread, hrest⟩ := Json.limit_of_spaced hparts h
    refine ⟨rest, ?_, hrest⟩
    simp [Draft.read, hread, Except.map, draft]

/-! ## Objects -/

theorem ofName?_name (setting : Setting) : Setting.ofName? setting.name = some setting := by
  cases setting <;> decide

/-- Reading a member gives its setting, if it was not given before. -/
theorem readMember_of_spaced (hnew : setting ∉ given) (hparts : ClosesValue parts)
    (h : Spaced ([':'] :: (settings.value setting).text.toList :: parts) text) :
    ∃ rest, readMember (settings.draft given) (Json.escapedChars setting.name ++ '"' :: text) =
        .ok (settings.draft (given ++ [setting]), rest) ∧ Spaced parts rest := by
  obtain ⟨middle, hcolon, hmiddle⟩ := Json.mark_of_spaced (by decide) h
  obtain ⟨rest, hread, hrest⟩ := read_of_spaced given hparts hmiddle
  refine ⟨rest, ?_, hrest⟩
  simp only [readMember, Json.stringBody_append, readNamed, ofName?_name, has_draft, hnew,
    decide_false, Bool.false_eq_true, if_false, hcolon, hread]

/-- Past the opening quotation mark of a member comes its name, and then its
other parts. -/
theorem skipGap_of_spaced_member
    (h : Spaced (memberParts (settings.member setting) ++ parts) text) :
    ∃ rest, Json.skipGap text = '"' :: (Json.escapedChars setting.name ++ '"' :: rest) ∧
      Spaced ([':'] :: (settings.value setting).text.toList :: parts) rest := by
  rw [memberParts, Json.toList_stringText] at h
  obtain ⟨rest, hskip, hrest⟩ := Json.skipGap_of_spaced (by decide) h
  refine ⟨rest, ?_, hrest⟩
  rw [hskip, List.append_assoc]
  rfl

theorem readMembers_of_end {draft : Draft} {rest : List Char}
    (h : Json.skipGap text = '}' :: rest) : readMembers draft text = .ok (draft, rest) := by
  rw [readMembers]
  split
  · next hg => rw [h] at hg; cases hg
  · next hg =>
    rw [h] at hg
    cases hg
    exact if_pos rfl

theorem readMembers_of_comma {draft next : Draft} {rest tail more : List Char}
    (h : Json.skipGap text = ',' :: rest) (hmark : Json.mark '"' rest = .ok tail)
    (hread : readMember draft tail = .ok (next, more)) :
    readMembers draft text = readMembers next more := by
  rw [readMembers]
  split
  · next hg => rw [h] at hg; cases hg
  · next hg =>
    rw [h] at hg
    cases hg
    rw [if_neg (by decide), if_pos rfl]
    split
    · next hm => rw [hmark] at hm; cases hm
    · next hm =>
      rw [hmark] at hm
      cases hm
      split
      · next hr => rw [hread] at hr; cases hr
      · next hr =>
        rw [hread] at hr
        cases hr
        rfl

/-- **Reading the members after the first** gives the settings of all of them. -/
theorem readMembers_of_spaced {more : List Setting} (hnodup : (given ++ more).Nodup)
    (h : Spaced ((more.flatMap fun setting => [','] :: memberParts (settings.member setting))
      ++ [['}']]) text) :
    ∃ rest, readMembers (settings.draft given) text =
        .ok (settings.draft (given ++ more), rest) ∧ Spaced [] rest := by
  induction more generalizing given text with
  | nil =>
    obtain ⟨rest, hskip, hrest⟩ := Json.skipGap_of_spaced (by decide) h
    refine ⟨rest, ?_, hrest⟩
    rw [readMembers_of_end hskip, List.append_nil, List.nil_append]
  | cons setting more ih =>
    rw [List.flatMap_cons, List.cons_append, List.cons_append, List.append_assoc] at h
    obtain ⟨first, hcomma, hfirst⟩ := Json.skipGap_of_spaced (by decide) h
    obtain ⟨middle, hquote, hmiddle⟩ := skipGap_of_spaced_member hfirst
    have hnew : setting ∉ given := fun hmem =>
      (List.nodup_append.1 hnodup).2.2 _ hmem _ List.mem_cons_self rfl
    obtain ⟨next, hread, hnext⟩ :=
      readMember_of_spaced hnew (Json.closesValue_entries (.inr rfl) _ more) hmiddle
    have hmark : Json.mark '"' first =
        .ok (Json.escapedChars setting.name ++ '"' :: middle) := by
      rw [Json.mark, hquote]
      exact if_pos rfl
    rw [List.append_cons] at hnodup
    rw [readMembers_of_comma hcomma hmark hread, List.append_cons given setting more]
    exact ih hnodup hnext

/-- **Reading an object** gives the settings of its members. -/
theorem readObject_of_spaced (hnodup : given.Nodup)
    (h : Spaced (separated (given.map fun setting => memberParts (settings.member setting))
      ++ [['}']]) text) :
    ∃ rest, readObject text = .ok (settings.draft given, rest) ∧ Spaced [] rest := by
  cases given with
  | nil =>
    obtain ⟨rest, hskip, hrest⟩ := Json.skipGap_of_spaced (by decide) h
    refine ⟨rest, ?_, hrest⟩
    rw [readObject, hskip]
    exact if_pos rfl
  | cons setting given =>
    rw [List.map_cons, separated, List.flatMap_map, List.append_assoc] at h
    obtain ⟨middle, hquote, hmiddle⟩ := skipGap_of_spaced_member h
    obtain ⟨next, hread, hnext⟩ :=
      readMember_of_spaced List.not_mem_nil (Json.closesValue_entries (.inr rfl) _ given) hmiddle
    obtain ⟨rest, hmembers, hrest⟩ := @readMembers_of_spaced _ [setting] _ given hnodup hnext
    refine ⟨rest, ?_, hrest⟩
    rw [draft_nil] at hread
    rw [readObject, hquote]
    simp only [hread]
    exact hmembers

/-! ## Arrays -/

/-- **Reading the items after the first** gives the settings that come next. -/
theorem readItems_of_spaced {coming more : List Setting} (hmore : more <+: coming)
    (h : Spaced ((more.flatMap fun setting => [[','], (settings.value setting).text.toList])
      ++ [[']']]) text) :
    ∃ rest, readItems coming (settings.draft given) text =
        .ok (settings.draft (given ++ more), rest) ∧ Spaced [] rest := by
  induction more generalizing coming given text with
  | nil =>
    rw [List.append_nil]
    cases coming with
    | nil =>
      obtain ⟨rest, hmark, hrest⟩ := Json.mark_of_spaced (by decide) h
      refine ⟨rest, ?_, hrest⟩
      rw [readItems, readEnd, hmark]
      rfl
    | cons setting coming =>
      obtain ⟨rest, hskip, hrest⟩ := Json.skipGap_of_spaced (by decide) h
      refine ⟨rest, ?_, hrest⟩
      rw [readItems, hskip]
      rfl
  | cons setting more ih =>
    obtain ⟨coming, rfl⟩ := hmore
    rw [List.flatMap_cons, List.append_assoc] at h
    obtain ⟨first, hcomma, hfirst⟩ := Json.skipGap_of_spaced (by decide) h
    obtain ⟨c, middle, hskip, hc, hmiddle⟩ := Json.skipGap_of_spaced_text hfirst
    obtain ⟨next, hread, hnext⟩ :=
      read_of_spaced given (Json.closesValue_entries (.inl rfl) _ more) hmiddle
    obtain ⟨rest, hitems, hrest⟩ := ih (List.prefix_append more coming) hnext
    refine ⟨rest, ?_, hrest⟩
    rw [List.cons_append, readItems, hcomma]
    simp only [List.nil_append, hskip, if_neg hc, hread]
    rw [List.append_cons given setting more]
    exact hitems

/-- **Reading an array** gives the first few settings. -/
theorem readArray_of_spaced (hgiven : given <+: Setting.all)
    (h : Spaced (separated (given.map fun setting => [(settings.value setting).text.toList])
      ++ [[']']]) text) :
    ∃ rest, readArray text = .ok (settings.draft given, rest) ∧ Spaced [] rest := by
  cases given with
  | nil =>
    obtain ⟨rest, hskip, hrest⟩ := Json.skipGap_of_spaced (by decide) h
    refine ⟨rest, ?_, hrest⟩
    rw [readArray, hskip]
    exact if_pos rfl
  | cons setting given =>
    obtain ⟨rfl, htail⟩ := List.cons_prefix_cons.1 hgiven
    rw [List.map_cons, separated, List.flatMap_map, List.append_assoc] at h
    obtain ⟨c, middle, hskip, hc, hmiddle⟩ := Json.skipGap_of_spaced_text h
    obtain ⟨next, hread, hnext⟩ :=
      read_of_spaced [] (Json.closesValue_entries (.inl rfl) _ given) hmiddle
    obtain ⟨rest, hitems, hrest⟩ := @readItems_of_spaced _ [.annotateJumps] _ _ given htail hnext
    refine ⟨rest, ?_, hrest⟩
    rw [draft_nil] at hread
    rw [readArray, hskip]
    simp only [if_neg hc, hread]
    exact hitems

/-! ## Documents -/

theorem parse_of_readDocument {text : String} {rest : List Char}
    (h : readDocument text.toList = .ok (settings.draft given, rest)) (hrest : Spaced [] rest) :
    parse text = .ok (settings.only given) := by
  rw [parse, h]
  simp only [bind, Except.bind, Json.skipGap_of_spaced_nil hrest, finish_draft]
  rfl

theorem parse_of_spaced_obj {text : String} (hnodup : given.Nodup)
    (h : Spaced (Json.parts (.obj (given.map settings.member))) text.toList) :
    parse text = .ok (settings.only given) := by
  rw [Json.parts, List.map_map] at h
  obtain ⟨middle, hskip, hmiddle⟩ := Json.skipGap_of_spaced (by decide) h
  obtain ⟨rest, hobject, hrest⟩ := readObject_of_spaced hnodup hmiddle
  refine parse_of_readDocument ?_ hrest
  rw [readDocument, hskip]
  exact hobject

theorem parse_of_spaced_arr {text : String} (hgiven : given <+: Setting.all)
    (h : Spaced (Json.parts (.arr (given.map settings.value))) text.toList) :
    parse text = .ok (settings.only given) := by
  rw [Json.parts, List.map_map] at h
  obtain ⟨middle, hskip, hmiddle⟩ := Json.skipGap_of_spaced (by decide) h
  obtain ⟨rest, harray, hrest⟩ := readArray_of_spaced hgiven hmiddle
  refine parse_of_readDocument ?_ hrest
  rw [readDocument, hskip]
  exact harray

/-- **Settings are read as they were written.** The text that the settings are
written as gives them back. So does every text that gives some of them by name,
each once and in any order, or that gives the first few in an array, with blanks
anywhere between its parts; what is not given has its default. -/
theorem settings_read_back (settings : Settings) :
    parse settings.toJson.text = .ok settings ∧
    (∀ (given : List Setting) (text : String), given.Nodup →
      Spaced (Json.parts (.obj (given.map settings.member))) text.toList →
      parse text = .ok (settings.only given)) ∧
    ∀ (count : Nat) (text : String),
      Spaced (Json.parts (.arr ((Setting.all.take count).map settings.value))) text.toList →
      parse text = .ok (settings.only (Setting.all.take count)) := by
  refine ⟨?_, fun given text => parse_of_spaced_obj,
    fun count text => parse_of_spaced_arr (List.take_prefix count Setting.all)⟩
  rw [← only_all settings]
  refine parse_of_spaced_obj (by decide) ?_
  rw [only_all, toJson_eq]
  exact Json.spaced_text _

/-- Settings with two that are not the default, one of them the greatest limit. -/
def capped : Settings :=
  { annotateJumps := false, maxInstructions := some 18446744073709551615 }

/-- A text that gives the two in the other order, with blanks. -/
def cappedText : String :=
  "\x7b \"max_instructions\": 18446744073709551615,\n\"annotate_jumps\" :false\x7d "

theorem toList_text_false : (Json.bool false).text.toList = "false".toList := by
  rw [Json.text]

theorem parts_capped :
    Json.parts (.obj ([.maxInstructions, .annotateJumps].map capped.member)) =
      ["\x7b", "\"max_instructions\"", ":", "18446744073709551615", ",",
        "\"annotate_jumps\"", ":", "false", "\x7d"].map String.toList := by
  have hlimit : (Json.num 18446744073709551615).text.toList = "18446744073709551615".toList := by
    rw [Json.toList_text_num]
    decide +kernel
  simp only [List.map_cons, List.map_nil, ← hlimit, ← toList_text_false]
  rfl

theorem spaced_cappedText :
    Spaced (Json.parts (.obj ([.maxInstructions, .annotateJumps].map capped.member)))
      cappedText.toList := by
  rw [parts_capped, cappedText, String.toList_ofList]
  exact @Spaced.cons [] _ _ _ rfl <| @Spaced.cons [' '] _ _ _ rfl <| @Spaced.cons [] _ _ _ rfl <|
    @Spaced.cons [' '] _ _ _ rfl <| @Spaced.cons [] _ _ _ rfl <| @Spaced.cons ['\n'] _ _ _ rfl <|
    @Spaced.cons [' '] _ _ _ rfl <| @Spaced.cons [] _ _ _ rfl <| @Spaced.cons [] _ _ _ rfl <|
    @Spaced.nil [' '] rfl

theorem spaced_single :
    Spaced (Json.parts (.arr ((Setting.all.take 1).map capped.value))) "[ false ]".toList := by
  have hparts : Json.parts (.arr ((Setting.all.take 1).map capped.value)) =
      ["[", "false", "]"].map String.toList := by
    simp only [List.map_cons, List.map_nil, ← toList_text_false]
    rfl
  rw [hparts]
  exact @Spaced.cons [] _ _ _ rfl <| @Spaced.cons [' '] _ _ _ rfl <|
    @Spaced.cons [' '] _ _ _ rfl <| @Spaced.nil [] rfl

/-- Settings written in full, two of them in the other order and one in an array. -/
theorem settings_read_back_capped :
    parse capped.toJson.text = .ok capped ∧
    ([.maxInstructions, .annotateJumps] : List Setting).Nodup ∧
    parse cappedText = .ok capped ∧
    parse "[ false ]" = .ok { annotateJumps := false } :=
  ⟨(settings_read_back capped).1, by decide,
    (settings_read_back capped).2.1 _ _ (by decide) spaced_cappedText,
    (settings_read_back capped).2.2 1 _ spaced_single⟩

end Settings

end Disasm
