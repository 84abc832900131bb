import Disasm.Export
import Disasm.Proofs.HexReading
/-!
# The grammar of hexadecimal text

A text that stands for a byte string has blanks, perhaps one marker, two digits
for each byte, and blanks again (`IsText`). Reading trims characters and then
counts bytes, so there are two steps to its exactness. What is left of a text
without the blanks around it and one marker is told by `Leaves`, and it is what
reading goes on with (`leaves_iff`). And characters spell a byte string
(`Spells`) if and only if their UTF-8 bytes denote it (`spells_iff_denotes`): a
character that is no digit does not begin with the byte of one. Where the bytes
denote nothing they do not pair up, or there is a first that is no digit.
-/

namespace Disasm

namespace Text

/-! ## Trimming -/

/-- **The core of a text** is what stands between the blanks around it. It
neither begins nor ends with one. -/
structure Trims (text core : List Char) : Prop where
  exists_blanks : ∃ lead trail, text = lead ++ core ++ trail ∧
    (∀ c ∈ lead, isBlank c) ∧ ∀ c ∈ trail, isBlank c
  head_not_isBlank : ∀ c, core.head? = some c → ¬ isBlank c
  last_not_isBlank : ∀ c, core.getLast? = some c → ¬ isBlank c

variable {text core lead trail : List Char}

theorem dropWhile_of_head (h : ∀ c, text.head? = some c → ¬ isBlank c) :
    text.dropWhile isBlank = text := by
  cases text with
  | nil => rfl
  | cons c rest => exact List.dropWhile_cons_of_neg (h c rfl)

theorem not_isBlank_of_head_dropWhile {c : Char}
    (h : (text.dropWhile isBlank).head? = some c) : ¬ isBlank c := by
  have hnot := text.head?_dropWhile_not isBlank
  rw [h] at hnot
  simpa using hnot

/-- What is dropped in front are blanks. -/
theorem exists_dropped (text : List Char) :
    ∃ lead, text = lead ++ text.dropWhile isBlank ∧ ∀ c ∈ lead, isBlank c :=
  ⟨text.takeWhile isBlank, List.takeWhile_append_dropWhile.symm, fun _ => List.mem_takeWhile_imp⟩

/-- Trimming leaves the core. -/
theorem trims_trim (text : List Char) : Trims text (trim text) := by
  obtain ⟨lead, hfront, hlead⟩ := exists_dropped text
  obtain ⟨trail, hback, htrail⟩ := exists_dropped (text.dropWhile isBlank).reverse
  have hcore : text.dropWhile isBlank = trim text ++ trail.reverse := by
    rw [trim, ← List.reverse_append, ← hback, List.reverse_reverse]
  refine ⟨⟨lead, trail.reverse, ?_, hlead, ?_⟩, ?_, ?_⟩
  · rw [List.append_assoc, ← hcore]
    exact hfront
  · intro c hc
    exact htrail c (List.mem_reverse.1 hc)
  · intro c hc
    have hhead : (text.dropWhile isBlank).head? = some c := by
      rw [hcore, List.head?_append, hc, Option.some_or]
    exact not_isBlank_of_head_dropWhile hhead
  · intro c hc
    rw [trim, List.getLast?_reverse] at hc
    exact not_isBlank_of_head_dropWhile hc

/-- And nothing else is the core. -/
theorem Trims.trim_eq (h : Trims text core) : trim text = core := by
  obtain ⟨lead, trail, rfl, hlead, htrail⟩ := h.exists_blanks
  rw [trim, List.append_assoc, List.dropWhile_append_of_pos hlead]
  cases core with
  | nil => rw [List.nil_append, List.dropWhile_eq_nil_iff.2 htrail]; rfl
  | cons c rest =>
    have htrail' : ∀ c ∈ trail.reverse, isBlank c := fun c hc => htrail c (List.mem_reverse.1 hc)
    have hfront : (c :: rest ++ trail).dropWhile isBlank = c :: rest ++ trail :=
      dropWhile_of_head fun _ hc => h.head_not_isBlank _ hc
    have hback : (c :: rest).reverse.dropWhile isBlank = (c :: rest).reverse := by
      refine dropWhile_of_head fun last hlast => h.last_not_isBlank last ?_
      rwa [List.head?_reverse] at hlast
    rw [hfront, List.reverse_append, List.dropWhile_append_of_pos htrail', hback,
      List.reverse_reverse]

/-- A text without blanks is the core of any text that has it between blanks. -/
theorem trims_of_forall_not_isBlank (hlead : ∀ c ∈ lead, isBlank c)
    (hcore : ∀ c ∈ core, ¬ isBlank c) (htrail : ∀ c ∈ trail, isBlank c) :
    Trims (lead ++ core ++ trail) core where
  exists_blanks := ⟨lead, trail, rfl, hlead, htrail⟩
  head_not_isBlank c hc := hcore c (List.mem_of_mem_head? hc)
  last_not_isBlank c hc := hcore c (List.mem_of_mem_getLast? hc)

end Text

namespace Hex

open Text (isBlank trim Trims)
open String (utf8EncodeChar)

/-! ## The grammar -/

/-- The character is the digit of value `n`, in either case. -/
def IsDigit (c : Char) (n : Nat) : Prop :=
  n < 16 ∧ (c = Nat.digitChar n ∨ c = (Nat.digitChar n).toUpper)

instance (c : Char) (n : Nat) : Decidable (IsDigit c n) :=
  inferInstanceAs (Decidable (_ ∧ _))

/-- **Characters spell a byte string**: two digits for each byte, the high one
first. -/
inductive Spells : (text : List Char) → (bytes : List UInt8) → Prop
  | nil : Spells [] []
  | cons {high low : Char} {byte : UInt8} {text : List Char} {bytes : List UInt8} :
    IsDigit high (byte.toNat / 16) → IsDigit low (byte.toNat % 16) → Spells text bytes →
    Spells (high :: low :: text) (byte :: bytes)

/-- **The text stands for the byte string**: blanks, a marker or none, the digits
that spell the bytes, and blanks. -/
inductive IsText : (text : List Char) → (bytes : List UInt8) → Prop
  | intro {lead marker spelled trail : List Char} {bytes : List UInt8} :
    (∀ c ∈ lead, isBlank c) → marker = [] ∨ marker = ['0', 'x'] ∨ marker = ['0', 'X'] →
    Spells spelled bytes → (∀ c ∈ trail, isBlank c) →
    IsText (lead ++ marker ++ spelled ++ trail) bytes

/-- **What is left of a text** without the blanks around it and one marker. -/
inductive Leaves (text : List Char) : (left : List Char) → Prop
  /-- There is a marker, of which one is taken off. -/
  | marked {x : Char} {left : List Char} :
    x = 'x' ∨ x = 'X' → Trims text ('0' :: x :: left) → Leaves text left
  /-- There is none. -/
  | plain {left : List Char} :
    (∀ x rest, left = '0' :: x :: rest → x ≠ 'x' ∧ x ≠ 'X') → Trims text left → Leaves text left

/-- The byte is that of a digit, in ASCII. -/
def IsDigitByte (byte : UInt8) : Prop :=
  ∃ n, IsDigit (Char.ofNat byte.toNat) n

/-- The byte at the position is the first that is no digit. -/
structure FirstFault (bytes : List UInt8) (position : Nat) (byte : UInt8) : Prop where
  getElem?_eq : bytes[position]? = some byte
  not_isDigitByte : ¬ IsDigitByte byte
  isDigitByte_of_lt : ∀ earlier < position, ∀ other, bytes[earlier]? = some other →
    IsDigitByte other

variable {c : Char} {n : Nat} {text left : List Char} {digits bytes : List UInt8}

/-! ## What is left of a text -/

theorem dropMarker_of_marked {x : Char} (h : x = 'x' ∨ x = 'X') :
    dropMarker ('0' :: x :: left) = left := by
  rcases h with rfl | rfl
  · rfl
  · rfl

theorem dropMarker_of_unmarked
    (h : ∀ x rest, left = '0' :: x :: rest → x ≠ 'x' ∧ x ≠ 'X') : dropMarker left = left := by
  unfold dropMarker
  split
  · exact absurd rfl (h _ _ rfl).1
  · exact absurd rfl (h _ _ rfl).2
  · rfl

/-- **What is left is what reading goes on with.** -/
theorem leaves_iff : Leaves text left ↔ left = dropMarker (trim text) := by
  constructor
  · rintro (⟨hx, htrims⟩ | ⟨hx, htrims⟩)
    · rw [htrims.trim_eq, dropMarker_of_marked hx]
    · rw [htrims.trim_eq, dropMarker_of_unmarked hx]
  · rintro rfl
    have htrims := Text.trims_trim text
    by_cases hmarked : ∃ x rest, trim text = '0' :: x :: rest ∧ (x = 'x' ∨ x = 'X')
    · obtain ⟨x, rest, htext, hx⟩ := hmarked
      rw [htext] at htrims
      rw [htext, dropMarker_of_marked hx]
      exact .marked hx htrims
    · have hx : ∀ x rest, trim text = '0' :: x :: rest → x ≠ 'x' ∧ x ≠ 'X' := by
        intro x rest htext
        rw [← not_or]
        exact fun hx => hmarked ⟨x, rest, htext, hx⟩
      rw [dropMarker_of_unmarked hx]
      exact .plain hx htrims

/-! ## Digits and their bytes -/

theorem map_digit?_toUpper : ∀ n < 16,
    (utf8EncodeChar (Nat.digitChar n).toUpper).map digit? = [some (UInt8.ofNat n)] := by
  decide

/-- A digit is one byte, which has its value. -/
theorem IsDigit.exists_byte (h : IsDigit c n) :
    ∃ b, utf8EncodeChar c = [b] ∧ digit? b = some (UInt8.ofNat n) := by
  obtain ⟨hn, rfl | rfl⟩ := h
  · exact exists_byte_of_digitChar hn
  · simpa [List.map_eq_singleton_iff] using map_digit?_toUpper n hn

/-- It is neither a blank nor the second character of a marker. -/
theorem digitChar_plain : ∀ n < 16, [Nat.digitChar n, (Nat.digitChar n).toUpper].all
    (fun c => !isBlank c && c != 'x' && c != 'X') := by
  decide

theorem IsDigit.plain (h : IsDigit c n) : isBlank c = false ∧ c ≠ 'x' ∧ c ≠ 'X' := by
  obtain ⟨hn, hc⟩ := h
  have hplain := List.all_eq_true.1 (digitChar_plain n hn) c (by simpa using hc)
  simpa [and_assoc] using hplain

/-- A byte with the value of a digit is in ASCII, and that of the digit. -/
theorem isDigit_of_digit? {b value : UInt8} (h : digit? b = some value) :
    b.toNat < 128 ∧ IsDigit (Char.ofNat b.toNat) value.toNat := by
  have hall : ∀ n < 256, (digit? (UInt8.ofNat n)).all
      (fun value => decide (n < 128 ∧ IsDigit (Char.ofNat n) value.toNat)) = true := by
    decide +kernel
  have hb := hall b.toNat b.toNat_lt
  rw [UInt8.ofNat_toNat, h] at hb
  exact of_decide_eq_true hb

/-- A character whose first byte is in ASCII is that byte, and no more. -/
theorem utf8EncodeChar_of_head {b : UInt8} {tail : List UInt8}
    (h : utf8EncodeChar c = b :: tail) (hb : b.toNat < 128) : tail = [] ∧ c.toNat = b.toNat := by
  -- the first byte of a longer form has its top bit set
  have hlong : ∀ (x top : UInt8) (more : List UInt8), 128 ≤ top.toNat →
      (x ||| top) :: more ≠ b :: tail := by
    intro x top more htop heq
    obtain ⟨rfl, -⟩ := List.cons.inj heq
    rw [UInt8.toNat_or] at hb
    have hle : top.toNat ≤ x.toNat ||| top.toNat := Nat.right_le_or
    omega
  rcases c.utf8Size_eq with hsize | hsize | hsize | hsize
  · rw [String.utf8EncodeChar_eq_singleton hsize] at h
    obtain ⟨rfl, rfl⟩ := List.cons.inj h
    have hle : c.toNat ≤ 127 := Char.utf8Size_eq_one_iff.1 hsize
    refine ⟨rfl, ?_⟩
    rw [UInt32.toNat_toUInt8, Char.toNat_val]
    omega
  · rw [String.utf8EncodeChar_eq_cons_cons hsize] at h
    exact absurd h (hlong _ _ _ (by decide))
  · rw [String.utf8EncodeChar_eq_cons_cons_cons hsize] at h
    exact absurd h (hlong _ _ _ (by decide))
  · rw [String.utf8EncodeChar_eq_cons_cons_cons_cons hsize] at h
    exact absurd h (hlong _ _ _ (by decide))

theorem toNat_ofNat_byte (b : UInt8) : (Char.ofNat b.toNat).toNat = b.toNat := by
  have hvalid : b.toNat.isValidChar := .inl (lt_trans b.toNat_lt (by decide))
  rw [Char.ofNat, dif_pos hvalid]
  rfl

/-- The bytes of digits are those that have a value. -/
theorem isDigitByte_iff {byte : UInt8} : IsDigitByte byte ↔ (digit? byte).isSome := by
  constructor
  · rintro ⟨n, hdigit⟩
    obtain ⟨b, hb, hvalue⟩ := hdigit.exists_byte
    obtain ⟨-, hnat⟩ := utf8EncodeChar_of_head hb (isDigit_of_digit? hvalue).1
    rw [toNat_ofNat_byte] at hnat
    rw [UInt8.toNat_inj.1 hnat, hvalue]
    rfl
  · intro h
    obtain ⟨value, hvalue⟩ := Option.isSome_iff_exists.1 h
    exact ⟨_, (isDigit_of_digit? hvalue).2⟩

/-! ## Characters and their bytes -/

/-- What two digits make up has them as its halves. -/
theorem halves_of_lt {high low : UInt8} (hhigh : high.toNat < 16) (hlow : low.toNat < 16) :
    (16 * high + low).toNat / 16 = high.toNat ∧ (16 * high + low).toNat % 16 = low.toNat := by
  rw [UInt8.toNat_add, UInt8.toNat_mul, show (16 : UInt8).toNat = 16 from rfl]
  omega

/-- Bytes that begin with that of a digit are those of a digit and then others. -/
theorem exists_cons_of_flatMap {b value : UInt8}
    (h : text.flatMap utf8EncodeChar = b :: digits) (hb : digit? b = some value) :
    ∃ c rest, text = c :: rest ∧ IsDigit c value.toNat ∧ rest.flatMap utf8EncodeChar = digits := by
  obtain ⟨hlt, hdigit⟩ := isDigit_of_digit? hb
  cases text with
  | nil => cases h
  | cons c rest =>
    obtain ⟨first, tail, hc⟩ := List.exists_cons_of_ne_nil (String.utf8EncodeChar_ne_nil (c := c))
    rw [List.flatMap_cons, hc, List.cons_append] at h
    obtain ⟨rfl, hrest⟩ := List.cons.inj h
    obtain ⟨rfl, hnat⟩ := utf8EncodeChar_of_head hc hlt
    rw [← hnat, Char.ofNat_toNat] at hdigit
    exact ⟨c, rest, rfl, hdigit, hrest⟩

theorem denotes_of_spells (h : Spells text bytes) :
    Denotes (text.flatMap utf8EncodeChar) bytes := by
  induction h with
  | nil => exact .nil
  | @cons high low byte text bytes hhigh hlow _ ih =>
    obtain ⟨highByte, hhighByte, hhighValue⟩ := hhigh.exists_byte
    obtain ⟨lowByte, hlowByte, hlowValue⟩ := hlow.exists_byte
    have hcons := Denotes.cons hhighValue hlowValue ih
    rw [ofNat_halves] at hcons
    rwa [List.flatMap_cons, List.flatMap_cons, hhighByte, hlowByte]

theorem spells_of_denotes (h : Denotes (text.flatMap utf8EncodeChar) bytes) :
    Spells text bytes := by
  generalize hdigits : text.flatMap utf8EncodeChar = digits at h
  -- the characters are found from the bytes, so the text is general
  induction h generalizing text with
  | nil =>
    cases text with
    | nil => exact .nil
    | cons c rest => exact absurd (List.append_eq_nil_iff.1 hdigits).1 String.utf8EncodeChar_ne_nil
  | @cons _ _ highValue lowValue _ _ hhigh hlow _ ih =>
    obtain ⟨high, rest, rfl, hhighDigit, hrest⟩ := exists_cons_of_flatMap hdigits hhigh
    obtain ⟨low, rest, rfl, hlowDigit, hrest⟩ := exists_cons_of_flatMap hrest hlow
    obtain ⟨hhighHalf, hlowHalf⟩ := halves_of_lt hhighDigit.1 hlowDigit.1
    refine .cons ?_ ?_ (ih hrest)
    · rwa [hhighHalf]
    · rwa [hlowHalf]

/-- **Characters spell what their bytes denote.** -/
theorem spells_iff_denotes : Spells text bytes ↔ Denotes (text.flatMap utf8EncodeChar) bytes :=
  ⟨denotes_of_spells, spells_of_denotes⟩

/-! ## Texts -/

theorem Spells.not_isBlank (h : Spells text bytes) : ∀ c ∈ text, ¬ isBlank c := by
  induction h with
  | nil => simp
  | cons hhigh hlow _ ih =>
    rw [List.forall_mem_cons, List.forall_mem_cons, hhigh.plain.1, hlow.plain.1]
    exact ⟨Bool.false_ne_true, Bool.false_ne_true, ih⟩

/-- What spells a byte string does not begin with a marker. -/
theorem Spells.second_ne (h : Spells text bytes) (x : Char) (rest : List Char)
    (htext : text = '0' :: x :: rest) : x ≠ 'x' ∧ x ≠ 'X' := by
  subst htext
  cases h with
  | cons _ hlow _ => exact hlow.plain.2

/-- A text that stands for a byte string leaves the characters that spell it. -/
theorem IsText.exists_leaves (h : IsText text bytes) :
    ∃ left, Leaves text left ∧ Spells left bytes := by
  cases h with
  | @intro lead marker spelled trail _ hlead hmarker hspells htrail =>
    have hplain := hspells.not_isBlank
    refine ⟨spelled, ?_, hspells⟩
    rw [List.append_assoc lead]
    rcases hmarker with rfl | rfl | rfl
    · exact .plain hspells.second_ne (Text.trims_of_forall_not_isBlank hlead hplain htrail)
    · refine .marked (.inl rfl) (Text.trims_of_forall_not_isBlank hlead ?_ htrail)
      exact List.forall_mem_cons.2 ⟨by decide, List.forall_mem_cons.2 ⟨by decide, hplain⟩⟩
    · refine .marked (.inr rfl) (Text.trims_of_forall_not_isBlank hlead ?_ htrail)
      exact List.forall_mem_cons.2 ⟨by decide, List.forall_mem_cons.2 ⟨by decide, hplain⟩⟩

/-- And any text that leaves them stands for it. -/
theorem Leaves.isText (h : Leaves text left) (hspells : Spells left bytes) : IsText text bytes := by
  cases h with
  | @marked x _ hx htrims =>
    obtain ⟨lead, trail, rfl, hlead, htrail⟩ := htrims.exists_blanks
    have hmarker : ['0', x] = [] ∨ ['0', x] = ['0', 'x'] ∨ ['0', x] = ['0', 'X'] := by
      rcases hx with rfl | rfl
      · exact .inr (.inl rfl)
      · exact .inr (.inr rfl)
    have htext := IsText.intro hlead hmarker hspells htrail
    rwa [List.append_assoc lead] at htext
  | plain _ htrims =>
    obtain ⟨lead, trail, rfl, hlead, htrail⟩ := htrims.exists_blanks
    have htext := IsText.intro hlead (.inl rfl) hspells htrail
    rwa [List.append_nil] at htext

/-- **A text stands for a byte string if what is left of it spells the bytes.** -/
theorem isText_iff : IsText text bytes ↔ Spells (dropMarker (trim text)) bytes := by
  constructor
  · intro h
    obtain ⟨left, hleaves, hspells⟩ := h.exists_leaves
    rwa [← leaves_iff.1 hleaves]
  · intro h
    exact (leaves_iff.2 rfl).isText h

/-! ## Which bytes are refused -/

/-- Digits that pair up denote a byte string. -/
theorem exists_denotes (heven : digits.length % 2 = 0) (h : ∀ b ∈ digits, (digit? b).isSome) :
    ∃ bytes, Denotes digits bytes := by
  induction hn : digits.length using Nat.strongRecOn generalizing digits with
  | ind n ih =>
    match digits, h with
    | [], _ => exact ⟨[], .nil⟩
    | [b], _ => cases heven
    | high :: low :: rest, h =>
      simp only [List.forall_mem_cons] at h
      obtain ⟨hhigh, hlow, hrest⟩ := h
      simp only [List.length_cons] at heven hn
      obtain ⟨highValue, hhigh⟩ := Option.isSome_iff_exists.1 hhigh
      obtain ⟨lowValue, hlow⟩ := Option.isSome_iff_exists.1 hlow
      obtain ⟨bytes, hbytes⟩ := ih rest.length (by omega) (by omega) hrest rfl
      exact ⟨_, .cons hhigh hlow hbytes⟩

theorem isNone_digit?_iff {byte : UInt8} : (digit? byte).isNone ↔ ¬ IsDigitByte byte := by
  rw [isDigitByte_iff, Option.not_isSome_iff_eq_none, Option.isNone_iff_eq_none]

/-- The first byte without a value is the first that is no digit. -/
theorem firstFault_iff {position : Nat} {byte : UInt8} :
    FirstFault digits position byte ↔
      (digits.findIdx? fun b => (digit? b).isNone) = some position ∧
        digits.getD position 0 = byte := by
  simp only [List.findIdx?_eq_some_iff_getElem, List.getD_eq_getElem?_getD, isNone_digit?_iff,
    not_not]
  constructor
  · intro h
    obtain ⟨hposition, hbyte⟩ := List.getElem?_eq_some_iff.1 h.getElem?_eq
    refine ⟨⟨hposition, ?_, ?_⟩, ?_⟩
    · rw [hbyte]
      exact h.not_isDigitByte
    · intro earlier hearlier
      exact h.isDigitByte_of_lt earlier hearlier _ (List.getElem?_eq_getElem _)
    · rw [h.getElem?_eq, Option.getD_some]
  · rintro ⟨⟨hposition, hfault, hbefore⟩, rfl⟩
    rw [List.getElem?_eq_getElem hposition, Option.getD_some]
    refine ⟨List.getElem?_eq_getElem hposition, hfault, ?_⟩
    intro earlier hearlier other hother
    obtain ⟨-, rfl⟩ := List.getElem?_eq_some_iff.1 hother
    exact hbefore earlier hearlier

/-! ## The outcome of reading bytes -/

theorem decodeDigits_eq_oddLength_iff :
    decodeDigits digits = .error .oddLength ↔ digits.length % 2 = 1 := by
  constructor
  · intro h
    by_contra heven
    rw [decodeDigits, if_neg heven] at h
    split at h
    · cases h
    · cases h
  · exact fun hodd => if_pos hodd

theorem length_even_of_decodeDigits (h : decodeDigits digits ≠ .error .oddLength) :
    digits.length % 2 = 0 := by
  rw [Ne, decodeDigits_eq_oddLength_iff] at h
  omega

theorem decodeDigits_eq_notADigit_iff {byte : UInt8} {position : Nat} :
    decodeDigits digits = .error (.notADigit byte position) ↔
      digits.length % 2 = 0 ∧ FirstFault digits position byte := by
  rw [firstFault_iff]
  constructor
  · intro h
    have heven : digits.length % 2 = 0 := length_even_of_decodeDigits (by simp [h])
    rw [decodeDigits, if_neg (by omega)] at h
    refine ⟨heven, ?_⟩
    split at h
    · next hfind =>
      cases h
      exact ⟨hfind, rfl⟩
    · cases h
  · rintro ⟨heven, hfind, rfl⟩
    rw [decodeDigits, if_neg (by omega), hfind]

theorem decodeDigits_eq_ok_iff {bytes : Array UInt8} :
    decodeDigits digits = .ok bytes ↔ Denotes digits bytes.toList := by
  constructor
  · intro h
    have heven : digits.length % 2 = 0 := length_even_of_decodeDigits (by simp [h])
    have hfind : (digits.findIdx? fun b => (digit? b).isNone) = none := by
      rw [decodeDigits, if_neg (by omega)] at h
      split at h
      · cases h
      · assumption
    -- so every byte is a digit, and they pair up
    have hdigits : ∀ b ∈ digits, (digit? b).isSome := by
      intro b hb
      rw [← Option.isNone_eq_false_iff]
      exact List.findIdx?_eq_none_iff.1 hfind b hb
    obtain ⟨denoted, hdenotes⟩ := exists_denotes heven hdigits
    rw [decodeDigits_of_denotes hdenotes] at h
    cases h
    exact hdenotes
  · intro h
    rw [decodeDigits_of_denotes h]

/-! ## What is written is read -/

/-- A byte is written as the digits of its halves. -/
theorem spells_pairs (bytes : List UInt8) : Spells (bytes.flatMap pair) bytes := by
  rw [spells_iff_denotes]
  exact denotes_pairs bytes

/-- **The texts that are read are those of the grammar.** -/
theorem decode_eq_ok_iff {text : String} {bytes : Array UInt8} :
    decode text = .ok bytes ↔ IsText text.toList bytes.toList := by
  rw [isText_iff, spells_iff_denotes, decode, decodeDigits_eq_ok_iff]

/-- A byte string in digits alone is read again. -/
theorem decode_ofBytes (bytes : List UInt8) : decode (ofBytes bytes) = .ok bytes.toArray := by
  have hblank : ∀ c ∈ ([] : List Char), isBlank c := by simp
  have htext := IsText.intro hblank (.inl rfl) (spells_pairs bytes) hblank
  rw [List.nil_append, List.nil_append, List.append_nil] at htext
  rwa [decode_eq_ok_iff, ofBytes, String.toList_ofList]

/-- So is what the listing shows of an operand, which is nothing for an empty
payload. -/
theorem decode_text (operand : Operand) : decode operand.text = .ok operand.payload.toArray := by
  rw [Operand.text]
  split
  · next hempty =>
    have hnothing := decode_ofBytes []
    rwa [List.isEmpty_iff.1 hempty]
  · exact decode_marked operand.payload

theorem text_eq_empty_iff (operand : Operand) : operand.text = "" ↔ operand.payload = [] := by
  rw [Operand.text, ← List.isEmpty_iff]
  split
  · next hempty => exact iff_of_true rfl hempty
  · next hempty =>
    refine iff_of_false (fun htext => ?_) hempty
    have hchars := congrArg String.toList htext
    rw [String.toList_append] at hchars
    cases hchars

/-- **Reading hexadecimal text is exact.** A text is read as a byte string if and
only if it stands for it. Otherwise look at the UTF-8 bytes of what is left
without the blanks around it and one marker: if their number is odd, that is the
refusal, and if it is even, the refusal names the first of them that is no
digit, and its position. So the payload of an operand is read from its digits,
from what the listing shows of it, and from what its JSON form shows. -/
theorem reading_is_exact :
    (∀ (text : String) (bytes : Array UInt8),
      decode text = .ok bytes ↔ IsText text.toList bytes.toList) ∧
    (∀ text : String, ∃ left, (∀ other, Leaves text.toList other ↔ other = left) ∧
      (decode text = .error .oddLength ↔ (left.flatMap utf8EncodeChar).length % 2 = 1) ∧
      ∀ byte position, decode text = .error (.notADigit byte position) ↔
        (left.flatMap utf8EncodeChar).length % 2 = 0 ∧
          FirstFault (left.flatMap utf8EncodeChar) position byte) ∧
    (Refusal.oddLength.message = "Odd number of digits" ∧
      ∀ byte position, ∃ shown, (Refusal.notADigit byte position).message =
        "Invalid character " ++ shown ++ " at position " ++ toString position) ∧
    ∀ operand : Operand,
      decode operand.hex = .ok operand.payload.toArray ∧
      decode operand.text = .ok operand.payload.toArray ∧
      (operand.text = "" ↔ operand.payload = []) ∧
      ∃ shown, operand.toJson =
          .obj [("shape", operand.shape.toJson), ("raw_value", .str shown)] ∧
        decode shown = .ok operand.payload.toArray := by
  refine ⟨fun _ _ => decode_eq_ok_iff, ?_, ⟨rfl, fun _ _ => ⟨_, rfl⟩⟩, ?_⟩
  · intro text
    refine ⟨dropMarker (trim text.toList), fun _ => leaves_iff, ?_, ?_⟩
    · rw [decode, decodeDigits_eq_oddLength_iff]
    · intro byte position
      rw [decode, decodeDigits_eq_notADigit_iff]
  · intro operand
    exact ⟨decode_ofBytes operand.payload, decode_text operand, text_eq_empty_iff operand, _, rfl,
      decode_marked operand.payload⟩

example : decode "\u00a00X6aF0\n" = .ok #[0x6a, 0xf0] := by decide +kernel

example : decode "0x0x61" = .error (.notADigit 0x78 1) := by decide +kernel

end Hex

end Disasm
