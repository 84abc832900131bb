import Disasm.Proofs.JsonText
/-!
# Blanks in JSON text

Between the parts of a JSON text any blanks may stand. `Spaced` is a text of
given parts with blanks between them, and the compact text of a value is the
one without blanks (`spaced_text`). The readers of marks, truth values and
limits skip the blanks before what they read, and leave a text of the parts
that follow.
-/

namespace Disasm

namespace Json

/-! ## Texts with blanks -/

/-- **A text of the given parts**, in order, with any blanks before each of them
and at the end. -/
inductive Spaced : (parts : List (List Char)) → (text : List Char) → Prop
  | nil {gap : List Char} : gap.all isGap → Spaced [] gap
  | cons {gap part text : List Char} {parts : List (List Char)} :
      gap.all isGap → Spaced parts text → Spaced (part :: parts) (gap ++ (part ++ text))

/-- The parts of a member of an object. -/
def memberParts (member : String × Json) : List (List Char) :=
  [(stringText member.1).toList, [':'], member.2.text.toList]

/-- The parts of entries, with a comma between each two of them. -/
def separated : List (List (List Char)) → List (List Char)
  | [] => []
  | first :: rest => first ++ rest.flatMap ([','] :: ·)

/-- The parts of the text of a value between which blanks can stand. Entries that
have brackets of their own are not taken apart. -/
def parts : Json → List (List Char)
  | .arr items => ['['] :: (separated (items.map fun item => [item.text.toList]) ++ [[']']])
  | .obj members => ['{'] :: (separated (members.map memberParts) ++ [['}']])
  | value => [value.text.toList]

/-- Without blanks the parts make up a text as well. -/
theorem spaced_flatten (parts : List (List Char)) : Spaced parts parts.flatten := by
  induction parts with
  | nil => exact .nil rfl
  | cons part parts ih => exact @Spaced.cons [] part parts.flatten parts rfl ih

theorem flatten_memberParts (member : String × Json) :
    (memberParts member).flatten = memberChars member := by
  simp [memberParts, memberChars]

theorem flatten_separated {α : Type} {entryParts : α → List (List Char)} {chars : α → List Char}
    (h : ∀ a, (entryParts a).flatten = chars a) (entries : List α) :
    (separated (entries.map entryParts)).flatten = [','].intercalate (entries.map chars) := by
  cases entries with
  | nil => rfl
  | cons a entries =>
    rw [List.map_cons, List.map_cons, separated, List.flatten_append, h,
      List.intercalate_singleton_cons]
    congr 1
    induction entries with
    | nil => rfl
    | cons b entries ih => simp [h, ih]

/-- **The compact text is the one without blanks.** -/
theorem flatten_parts (v : Json) : v.parts.flatten = v.text.toList := by
  cases v with
  | arr items =>
    rw [parts, toList_text_arr, List.flatten_cons, List.flatten_append,
      flatten_separated fun item : Json => List.flatten_singleton]
    rfl
  | obj members =>
    rw [parts, toList_text_obj, List.flatten_cons, List.flatten_append,
      flatten_separated flatten_memberParts]
    rfl
  | _ => exact List.flatten_singleton

theorem spaced_text (v : Json) : Spaced v.parts v.text.toList := by
  rw [← flatten_parts]
  exact spaced_flatten v.parts

/-! ## Going through the parts -/

section Parts

variable {c : Char} {part text gap : List Char} {parts : List (List Char)}

theorem eq_of_isGap (h : isGap c = true) : c = ' ' ∨ c = '\t' ∨ c = '\n' ∨ c = '\r' := by
  simpa only [isGap, Bool.or_eq_true, beq_iff_eq, or_assoc] using h

/-- No text of a value starts with a blank. -/
theorem isGap_of_ofInitial? {kind : Kind} (h : Kind.ofInitial? c = some kind) :
    isGap c = false := by
  rw [Bool.eq_false_iff]
  intro hc
  rcases eq_of_isGap hc with rfl | rfl | rfl | rfl <;> cases h

theorem skipGap_append (hgap : gap.all isGap) (text : List Char) :
    skipGap (gap ++ text) = skipGap text := by
  rw [skipGap, skipGap, List.dropWhile_append_of_pos (List.all_eq_true.1 hgap)]

theorem skipGap_of_spaced_nil (h : Spaced [] text) : skipGap text = [] := by
  cases h with
  | nil hgap =>
    rw [← List.append_nil text, skipGap_append hgap]
    rfl

/-- **Past the blanks the next part begins**, and after it come the others. -/
theorem skipGap_of_spaced (hc : isGap c = false) (h : Spaced ((c :: part) :: parts) text) :
    ∃ rest, skipGap text = c :: (part ++ rest) ∧ Spaced parts rest := by
  cases h with
  | @cons gap _ rest _ hgap hrest =>
    refine ⟨rest, ?_, hrest⟩
    rw [skipGap_append hgap, List.cons_append, skipGap, List.dropWhile_cons_of_neg (by simp [hc])]

/-- The text of a value begins past the blanks, and not with a closing bracket. -/
theorem skipGap_of_spaced_text {v : Json} (h : Spaced (v.text.toList :: parts) text) :
    ∃ c rest, skipGap text = c :: rest ∧ c ≠ ']' ∧ Spaced (v.text.toList :: parts) (c :: rest) := by
  obtain ⟨c, tail, htext, hkind⟩ := v.exists_initial
  rw [htext] at h ⊢
  obtain ⟨rest, hskip, hrest⟩ := skipGap_of_spaced (isGap_of_ofInitial? hkind) h
  refine ⟨c, tail ++ rest, hskip, ?_, @Spaced.cons [] (c :: tail) rest parts rfl hrest⟩
  rintro rfl
  cases hkind

theorem mark_of_spaced (hc : isGap c = false) (h : Spaced ([c] :: parts) text) :
    ∃ rest, mark c text = .ok rest ∧ Spaced parts rest := by
  obtain ⟨rest, hskip, hrest⟩ := skipGap_of_spaced hc h
  refine ⟨rest, ?_, hrest⟩
  rw [mark, hskip]
  exact if_pos rfl

/-- A blank cannot belong to a number. -/
theorem endsNumber_of_isGap (hc : isGap c = true) (rest : List Char) : EndsNumber (c :: rest) := by
  intro first hfirst
  obtain rfl : c = first := Option.some.inj hfirst
  rcases eq_of_isGap hc with rfl | rfl | rfl | rfl <;> decide

/-- What comes after a value: a comma or a closing bracket. -/
def ClosesValue (parts : List (List Char)) : Prop :=
  ∃ c more, parts = [c] :: more ∧ (c = ',' ∨ c = ']' ∨ c = '}')

theorem endsNumber_of_spaced (hparts : ClosesValue parts) (h : Spaced parts text) :
    EndsNumber text := by
  obtain ⟨c, more, rfl, hc⟩ := hparts
  cases h with
  | @cons gap _ rest _ hgap hrest =>
    cases gap with
    | nil => exact endsNumber_cons hc rest
    | cons first gap =>
      rw [List.all_cons, Bool.and_eq_true] at hgap
      exact endsNumber_of_isGap hgap.1 _

theorem closesValue_entries {α : Type} {closing : Char} (hclosing : closing = ']' ∨ closing = '}')
    (entryParts : α → List (List Char)) (entries : List α) :
    ClosesValue ((entries.flatMap fun a => [','] :: entryParts a) ++ [[closing]]) := by
  cases entries with
  | nil => exact ⟨closing, [], rfl, .inr hclosing⟩
  | cons a entries => exact ⟨',', _, rfl, .inl rfl⟩

/-! ## Values -/

theorem flag_of_spaced {b : Bool} (h : Spaced ((Json.bool b).text.toList :: parts) text) :
    ∃ rest, flag text = .ok (b, rest) ∧ Spaced parts rest := by
  cases b with
  | true =>
    rw [Json.text] at h
    obtain ⟨rest, hskip, hrest⟩ := @skipGap_of_spaced 't' ['r', 'u', 'e'] _ _ (by decide) h
    refine ⟨rest, ?_, hrest⟩
    rw [flag, hskip]
    exact literal_append ['r', 'u', 'e'] true rest
  | false =>
    rw [Json.text] at h
    obtain ⟨rest, hskip, hrest⟩ := @skipGap_of_spaced 'f' ['a', 'l', 's', 'e'] _ _ (by decide) h
    refine ⟨rest, ?_, hrest⟩
    rw [flag, hskip]
    exact literal_append ['a', 'l', 's', 'e'] false rest

/-- A word of 64 bits is what its digits say. -/
theorem toUInt64?_toDigits (n : UInt64) :
    Numeral.toUInt64? ⟨false, (Nat.toDigits 10 n.toNat).map digitValue, none, none⟩ = some n := by
  rw [Numeral.toUInt64?, ofDigits_toDigits, if_pos n.toNat_lt, UInt64.ofNat_toNat]

theorem limit_of_spaced {n : Option UInt64} (hparts : ClosesValue parts)
    (h : Spaced ((ofOption (fun n : UInt64 => .num n.toNat) n).text.toList :: parts) text) :
    ∃ rest, limit text = .ok (n, rest) ∧ Spaced parts rest := by
  cases n with
  | none =>
    rw [ofOption, Json.text] at h
    obtain ⟨rest, hskip, hrest⟩ := @skipGap_of_spaced 'n' ['u', 'l', 'l'] _ _ (by decide) h
    refine ⟨rest, ?_, hrest⟩
    rw [limit, hskip]
    exact literal_append ['u', 'l', 'l'] none rest
  | some n =>
    obtain ⟨c, tail, hdigits, hc⟩ := exists_cons_toDigits n.toNat
    have hnull : c ≠ 'n' := by
      rintro rfl
      exact absurd hc (by decide)
    have hgap : isGap c = false := isGap_of_ofInitial? (Kind.ofInitial?_of_isDigit hc)
    rw [ofOption, toList_text_num, hdigits] at h
    obtain ⟨rest, hskip, hrest⟩ := skipGap_of_spaced hgap h
    refine ⟨rest, ?_, hrest⟩
    have hnumeral := numeral_append n.toNat (endsNumber_of_spaced hparts hrest)
    rw [hdigits, List.cons_append, ← hdigits] at hnumeral
    simp only [limit, hskip, if_neg hnull, if_pos hc, hnumeral,
      toUInt64?_toDigits]

end Parts

end Json

end Disasm
