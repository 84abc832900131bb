import Disasm.Proofs.JsonReading
import Disasm.Proofs.ListFacts
/-!
# JSON text is unambiguous

A JSON value can be told from its text, also when other text follows it, as
long as that could not belong to a number (`selfDelimiting_text`). The first
character tells the kind of the value. A string ends at the first quotation
mark that is not escaped, a number where the digits end, and brackets where a
closing one stands in the place of a comma.
-/

namespace Disasm

namespace Json

/-! ## Kinds -/

/-- A kind of values. -/
inductive Kind
  | null
  | bool
  | num
  | str
  | arr
  | obj
deriving DecidableEq, Repr

/-- The kind of a value. -/
def kind : Json → Kind
  | .null => .null
  | .bool _ => .bool
  | .num _ => .num
  | .str _ => .str
  | .arr _ => .arr
  | .obj _ => .obj

/-- The kind of the values whose text starts with a character. -/
def Kind.ofInitial? (c : Char) : Option Kind :=
  if c = 'n' then some .null
  else if c = 't' ∨ c = 'f' then some .bool
  else if c = '"' then some .str
  else if c = '[' then some .arr
  else if c = '{' then some .obj
  else if c.isDigit then some .num
  else none

theorem Kind.ofInitial?_of_isDigit {c : Char} (h : c.isDigit = true) :
    ofInitial? c = some .num := by
  have hne : ∀ other : Char, other.isDigit = false → c ≠ other := by
    rintro other hother rfl
    rw [h] at hother
    cases hother
  simp [ofInitial?, h, hne 'n' (by decide), hne 't' (by decide), hne 'f' (by decide),
    hne '"' (by decide), hne '[' (by decide), hne '{' (by decide)]

/-! ## The texts of entries -/

theorem itemTexts_eq (items : List Json) : itemTexts items = items.map text := by
  induction items with
  | nil => rw [itemTexts, List.map_nil]
  | cons item items ih => rw [itemTexts, ih, List.map_cons]

/-- The characters of a member of an object. -/
def memberChars (member : String × Json) : List Char :=
  (stringText member.1).toList ++ ':' :: member.2.text.toList

theorem memberTexts_eq (members : List (String × Json)) :
    (memberTexts members).map String.toList = members.map memberChars := by
  induction members with
  | nil => rw [memberTexts, List.map_nil, List.map_nil]
  | cons member members ih =>
    rw [memberTexts, List.map_cons, List.map_cons, ih]
    simp [memberChars]

theorem toList_text_arr (items : List Json) :
    (text (.arr items)).toList =
      '[' :: ([','].intercalate (items.map fun item => item.text.toList) ++ [']']) := by
  rw [text, itemTexts_eq]
  simp [String.toList_intercalate, Function.comp_def]

theorem toList_text_obj (members : List (String × Json)) :
    (text (.obj members)).toList =
      '{' :: ([','].intercalate (members.map memberChars) ++ ['}']) := by
  rw [text, ← memberTexts_eq]
  simp [String.toList_intercalate]

theorem toList_text_num (n : Nat) : (text (.num n)).toList = Nat.toDigits 10 n := by
  rw [text, toList_toString_nat]

theorem toList_text_str (s : String) :
    (text (.str s)).toList = '"' :: (escapedChars s ++ ['"']) := by
  rw [text, toList_stringText]

/-- **The first character of a text tells the kind of the value.** -/
theorem exists_initial (v : Json) :
    ∃ c tail, v.text.toList = c :: tail ∧ Kind.ofInitial? c = some v.kind := by
  cases v with
  | null => exact ⟨'n', _, by rw [text]; rfl, by decide⟩
  | bool b =>
    cases b with
    | true => exact ⟨'t', _, by rw [text]; rfl, by decide⟩
    | false => exact ⟨'f', _, by rw [text]; rfl, by decide⟩
  | num n =>
    obtain ⟨c, tail, hdigits, hc⟩ := exists_cons_toDigits n
    exact ⟨c, tail, by rw [toList_text_num, hdigits], Kind.ofInitial?_of_isDigit hc⟩
  | str s => exact ⟨'"', _, toList_text_str s, rfl⟩
  | arr items => exact ⟨'[', _, toList_text_arr items, rfl⟩
  | obj members => exact ⟨'{', _, toList_text_obj members, rfl⟩

theorem kind_eq_of_text_append {v v' : Json} {rest rest' : List Char}
    (h : v.text.toList ++ rest = v'.text.toList ++ rest') : v.kind = v'.kind := by
  obtain ⟨c, tail, htext, hkind⟩ := v.exists_initial
  obtain ⟨c', tail', htext', hkind'⟩ := v'.exists_initial
  rw [htext, htext', List.cons_append, List.cons_append] at h
  rw [(List.cons.inj h).1, hkind'] at hkind
  exact (Option.some.inj hkind).symm

/-! ## Lists of entries -/

/-- **A thing can be told from its text** and from other things, whatever
follows that could not belong to a number. -/
def SelfDelimiting {α : Type} (chars : α → List Char) (a : α) : Prop :=
  ∀ b rest rest', EndsNumber rest → EndsNumber rest' → chars a ++ rest = chars b ++ rest' →
    a = b ∧ rest = rest'

theorem endsNumber_nil : EndsNumber [] := by
  intro c hc
  cases hc

/-- A comma or a closing bracket ends a number. -/
theorem endsNumber_cons {c : Char} (h : c = ',' ∨ c = ']' ∨ c = '}') (rest : List Char) :
    EndsNumber (c :: rest) := by
  intro first hfirst
  obtain rfl : c = first := Option.some.inj hfirst
  rcases h with rfl | rfl | rfl <;> decide

section Entries

variable {α : Type} {chars : α → List Char} {closing : Char} {rest rest' : List Char}

/-- After an entry comes a comma or the closing bracket. -/
theorem endsNumber_entries (hclosing : closing = ']' ∨ closing = '}') (entries : List α)
    (rest : List Char) :
    EndsNumber ((entries.flatMap fun a => ',' :: chars a) ++ closing :: rest) := by
  cases entries with
  | nil => exact endsNumber_cons (.inr hclosing) _
  | cons a entries => exact endsNumber_cons (.inl rfl) _

/-- Entries with a comma before each are told from their text, if each of them
is. -/
theorem eq_of_flatMap_append (hclosing : closing = ']' ∨ closing = '}') {entries entries' : List α}
    (hentries : ∀ a ∈ entries, SelfDelimiting chars a)
    (h : (entries.flatMap fun a => ',' :: chars a) ++ closing :: rest =
      (entries'.flatMap fun a => ',' :: chars a) ++ closing :: rest') :
    entries = entries' ∧ rest = rest' := by
  have hcomma : closing ≠ ',' := by
    rcases hclosing with rfl | rfl <;> decide
  induction entries generalizing entries' with
  | nil =>
    cases entries' with
    | nil => exact ⟨rfl, (List.cons.inj h).2⟩
    | cons b entries' => exact absurd (List.cons.inj h).1 hcomma
  | cons a entries ih =>
    cases entries' with
    | nil => exact absurd (List.cons.inj h).1.symm hcomma
    | cons b entries' =>
      rw [List.forall_mem_cons] at hentries
      simp only [List.flatMap_cons, List.cons_append, List.append_assoc] at h
      obtain ⟨rfl, htail⟩ := hentries.1 b _ _ (endsNumber_entries hclosing entries rest)
        (endsNumber_entries hclosing entries' rest') (List.cons.inj h).2
      obtain ⟨rfl, hrest⟩ := ih hentries.2 htail
      exact ⟨rfl, hrest⟩

/-- **Entries between brackets are told from their text**, if each of them is and
none of them starts like the closing bracket. -/
theorem eq_of_intercalate_append (hclosing : closing = ']' ∨ closing = '}')
    {entries entries' : List α} (hentries : ∀ a ∈ entries, SelfDelimiting chars a)
    (hstart : ∀ a, ∃ c tail, chars a = c :: tail ∧ c ≠ closing)
    (h : [','].intercalate (entries.map chars) ++ closing :: rest =
      [','].intercalate (entries'.map chars) ++ closing :: rest') :
    entries = entries' ∧ rest = rest' := by
  cases entries with
  | nil =>
    cases entries' with
    | nil => exact ⟨rfl, (List.cons.inj h).2⟩
    | cons b entries' =>
      obtain ⟨c, tail, hb, hc⟩ := hstart b
      rw [List.map_cons, List.intercalate_singleton_cons, hb] at h
      exact absurd (List.cons.inj h).1.symm hc
  | cons a entries =>
    cases entries' with
    | nil =>
      obtain ⟨c, tail, ha, hc⟩ := hstart a
      rw [List.map_cons, List.intercalate_singleton_cons, ha] at h
      exact absurd (List.cons.inj h).1 hc
    | cons b entries' =>
      rw [List.forall_mem_cons] at hentries
      simp only [List.map_cons, List.intercalate_singleton_cons, List.flatMap_map,
        List.append_assoc] at h
      obtain ⟨rfl, htail⟩ := hentries.1 b _ _ (endsNumber_entries hclosing entries rest)
        (endsNumber_entries hclosing entries' rest') h
      obtain ⟨rfl, hrest⟩ := eq_of_flatMap_append hclosing hentries.2 htail
      exact ⟨rfl, hrest⟩

end Entries

/-! ## Values -/

/-- Induction on values: what holds of a value between brackets if it holds of
the values inside holds of all. -/
theorem induct {motive : Json → Prop} (null : motive .null) (bool : ∀ b, motive (.bool b))
    (num : ∀ n, motive (.num n)) (str : ∀ s, motive (.str s))
    (arr : ∀ items, (∀ item ∈ items, motive item) → motive (.arr items))
    (obj : ∀ members, (∀ member ∈ members, motive member.2) → motive (.obj members)) (v : Json) :
    motive v := by
  match v with
  | .null => exact null
  | .bool b => exact bool b
  | .num n => exact num n
  | .str s => exact str s
  | .arr items => exact arr items fun item _ => induct null bool num str arr obj item
  | .obj members =>
    refine obj members fun member hmem => ?_
    have hlt : sizeOf member.2 < sizeOf members := by
      have hmember := List.sizeOf_lt_of_mem hmem
      obtain ⟨name, value⟩ := member
      simp only [Prod.mk.sizeOf_spec] at hmember
      simp only
      omega
    exact induct null bool num str arr obj member.2
termination_by sizeOf v

/-- No value starts like the end of an array. -/
theorem exists_initial_ne (v : Json) : ∃ c tail, v.text.toList = c :: tail ∧ c ≠ ']' := by
  obtain ⟨c, tail, htext, hkind⟩ := v.exists_initial
  refine ⟨c, tail, htext, ?_⟩
  rintro rfl
  cases hkind

/-- And no member like the end of an object. -/
theorem exists_quote_memberChars (member : String × Json) :
    ∃ c tail, memberChars member = c :: tail ∧ c ≠ '}' := by
  rw [memberChars, toList_stringText]
  exact ⟨'"', _, rfl, by decide⟩

/-- A string is told from its text, whatever follows. -/
theorem eq_of_stringText_append {s s' : String} {rest rest' : List Char}
    (h : (stringText s).toList ++ rest = (stringText s').toList ++ rest') :
    s = s' ∧ rest = rest' := by
  simp only [toList_stringText, List.cons_append, List.append_assoc, List.nil_append] at h
  have hread := congrArg stringBody (List.cons.inj h).2
  rw [stringBody_append, stringBody_append] at hread
  exact Prod.mk.inj (Except.ok.inj hread)

/-- A number is told from its digits. -/
theorem eq_of_toDigits_append {n n' : Nat} {rest rest' : List Char} (hends : EndsNumber rest)
    (hends' : EndsNumber rest')
    (h : Nat.toDigits 10 n ++ rest = Nat.toDigits 10 n' ++ rest') : n = n' ∧ rest = rest' := by
  have hread := congrArg digits h
  rw [digits_append n hends, digits_append n' hends'] at hread
  obtain ⟨hdigits, hrest⟩ := Prod.mk.inj hread
  exact ⟨by rw [← ofDigits_toDigits n, hdigits, ofDigits_toDigits], hrest⟩

/-- A member is told from its text if its value is. -/
theorem selfDelimiting_memberChars {member : String × Json}
    (h : SelfDelimiting (fun v : Json => v.text.toList) member.2) :
    SelfDelimiting memberChars member := by
  intro other rest rest' hends hends' htext
  simp only [memberChars, List.append_assoc] at htext
  obtain ⟨hname, htail⟩ := eq_of_stringText_append htext
  obtain ⟨hvalue, hrest⟩ := h other.2 rest rest' hends hends' (List.cons.inj htail).2
  exact ⟨Prod.ext hname hvalue, hrest⟩

/-- **A value is told from its text.** -/
theorem selfDelimiting_text (v : Json) : SelfDelimiting (fun v : Json => v.text.toList) v := by
  induction v using induct with
  | null =>
    intro v' rest rest' _ _ h
    have hkind := kind_eq_of_text_append h
    cases v' with
    | null => exact ⟨rfl, List.append_cancel_left h⟩
    | _ => cases hkind
  | bool b =>
    intro v' rest rest' _ _ h
    have hkind := kind_eq_of_text_append h
    cases v' with
    | bool b' => cases b <;> cases b' <;> simp_all [text]
    | _ => cases hkind
  | num n =>
    intro v' rest rest' hends hends' h
    have hkind := kind_eq_of_text_append h
    cases v' with
    | num n' =>
      simp only [toList_text_num] at h
      obtain ⟨rfl, hrest⟩ := eq_of_toDigits_append hends hends' h
      exact ⟨rfl, hrest⟩
    | _ => cases hkind
  | str s =>
    intro v' rest rest' _ _ h
    have hkind := kind_eq_of_text_append h
    cases v' with
    | str s' =>
      simp only [text] at h
      obtain ⟨rfl, hrest⟩ := eq_of_stringText_append h
      exact ⟨rfl, hrest⟩
    | _ => cases hkind
  | arr items ih =>
    intro v' rest rest' _ _ h
    have hkind := kind_eq_of_text_append h
    cases v' with
    | arr items' =>
      simp only [toList_text_arr, List.cons_append, List.append_assoc, List.nil_append] at h
      obtain ⟨rfl, hrest⟩ :=
        eq_of_intercalate_append (.inl rfl) ih exists_initial_ne (List.cons.inj h).2
      exact ⟨rfl, hrest⟩
    | _ => cases hkind
  | obj members ih =>
    intro v' rest rest' _ _ h
    have hkind := kind_eq_of_text_append h
    cases v' with
    | obj members' =>
      simp only [toList_text_obj, List.cons_append, List.append_assoc, List.nil_append] at h
      obtain ⟨rfl, hrest⟩ := eq_of_intercalate_append (.inr rfl)
        (fun member hmem => selfDelimiting_memberChars (ih member hmem))
        exists_quote_memberChars (List.cons.inj h).2
      exact ⟨rfl, hrest⟩
    | _ => cases hkind

/-- **No two values have the same text.** -/
theorem text_injective : Function.Injective text := by
  intro v v' h
  exact (selfDelimiting_text v v' [] [] endsNumber_nil endsNumber_nil (by simp only [h])).1

end Json

end Disasm
