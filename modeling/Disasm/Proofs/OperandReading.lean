import Disasm.Proofs.Operand
/-!
# What reading an operand comes to

`fieldWidth` and `declaredBy` are the format's tables: how many bytes a length
field takes, by its first byte, and the size that such a field stands for.
With them the outcome of reading at a position can be told before it is read:
the length field is cut off, or it announces more than positions can count,
or the payload is cut off, or the operand is there (`read_exact`). Only the
widest form of a variable count can announce too much (`overflows_iff`).
Beyond the end of the code there is nothing left, and that is what is read
there, but for an operand of no bytes (`read_of_size_lt`,
`read_fixed_zero_of_size_lt`).
-/

namespace Disasm

open LittleEndian (value)

/-! ## The tables of the format -/

/-- How many bytes a length field takes. For a variable count its first byte
tells; where that is missing, a byte is what is missing. -/
def Shape.fieldWidth : Shape → (first : Option UInt8) → Nat
  | .nullary, _ | .fixed _, _ => 0
  | .counted .one, _ => 1
  | .counted .two, _ => 2
  | .counted .four, _ => 4
  | .varCounted, some 0xfd => 3
  | .varCounted, some 0xfe => 5
  | .varCounted, some 0xff => 9
  | .varCounted, _ => 1

/-- The size of the payload that a length field stands for. A variable count
of one byte is that byte; a longer one has its number after the first byte. -/
def Shape.declaredBy : Shape → (field : List UInt8) → Nat
  | .nullary, _ => 0
  | .fixed size, _ => size.toNat
  | .counted _, field => value field
  | .varCounted, [marker] => marker.toNat
  | .varCounted, field => value field.tail

namespace Operand

variable {shape : Shape} {rest : List UInt8}

/-- The width of a variable count is that of its marker. -/
theorem fieldWidth_varCounted (marker : UInt8) :
    Shape.varCounted.fieldWidth (some marker) = 1 + markerSize marker := by
  unfold Shape.fieldWidth markerSize
  split <;> simp_all

/-- The table gives the size of the length field that bytes begin with. -/
theorem fieldWidth_head? (shape : Shape) (rest : List UInt8) :
    shape.fieldWidth rest.head? = fieldSize shape rest := by
  cases shape with
  | nullary => rfl
  | fixed size => rfl
  | counted width => cases width <;> rfl
  | varCounted =>
    cases rest with
    | nil => rfl
    | cons marker rest => exact fieldWidth_varCounted marker

/-- A length field that is there stands for what the bytes announce. -/
theorem declaredBy_take (h : fieldSize shape rest ≤ rest.length) :
    shape.declaredBy (rest.take (fieldSize shape rest)) = announced shape rest := by
  cases shape with
  | nullary => rfl
  | fixed size => rfl
  | counted width => rfl
  | varCounted =>
    cases rest with
    | nil => exact absurd h (by decide)
    | cons marker rest =>
      rw [fieldSize, List.length_cons] at h
      rw [fieldSize, announced, Nat.add_comm, List.take_succ_cons]
      by_cases hmarker : markerSize marker = 0
      · rw [if_pos hmarker, hmarker, List.take_zero]
        rfl
      · have hfield : (rest.take (markerSize marker)).length = markerSize marker := by
          rw [List.length_take]
          omega
        obtain ⟨first, tail, htake⟩ : ∃ first tail,
            rest.take (markerSize marker) = first :: tail := by
          refine List.exists_cons_of_ne_nil fun hnil => ?_
          rw [hnil, List.length_nil] at hfield
          omega
        rw [if_neg hmarker, htake]
        rfl

/-! ## Which counts are too large -/

/-- What fills no more than four bytes is small. -/
theorem value_take_lt {size : Nat} (hsize : size ≤ 4) (bytes : List UInt8) :
    value (bytes.take size) < UInt32.size := by
  have hlen : (bytes.take size).length ≤ 4 := le_trans (List.length_take_le _ _) hsize
  calc value (bytes.take size) < 256 ^ (bytes.take size).length := LittleEndian.value_lt _
    _ ≤ 256 ^ 4 := Nat.pow_le_pow_right (by decide) hlen
    _ = UInt32.size := by decide

/-- A variable count of another form than the widest is small. -/
theorem announced_lt_of_ne {marker : UInt8} (hmarker : marker ≠ 0xff) (rest : List UInt8) :
    announced .varCounted (marker :: rest) < UInt32.size ∧ markerSize marker ≤ 4 := by
  have hsize : markerSize marker ≤ 4 := by
    unfold markerSize
    split_ifs <;> decide
  refine ⟨?_, hsize⟩
  rw [announced]
  split_ifs with hzero
  · exact lt_trans marker.toNat_lt (by decide)
  · exact value_take_lt hsize rest

/-- **Only the widest variable count can announce more than positions can
count**, and does so from nine below their number on. -/
theorem overflows_iff (shape : Shape) (rest : List UInt8) :
    Position.count ≤ announced shape rest + fieldSize shape rest ↔
      shape = .varCounted ∧ rest.head? = some 0xff ∧
        Position.count - 9 ≤ announced shape rest := by
  have hcount : Position.count = 4294967296 * 4294967296 := by decide
  have hword : UInt32.size = 4294967296 := by decide
  cases shape with
  | nullary => simp [announced, fieldSize, Position.count]
  | fixed size =>
    have hlt : size.toNat < Position.count := size.toNat_lt
    refine iff_of_false ?_ (by simp)
    rw [announced, fieldSize]
    omega
  | counted width =>
    have hwidth : width.size ≤ 4 := by cases width <;> decide
    have hlt := value_take_lt hwidth rest
    refine iff_of_false ?_ (by simp)
    rw [announced, fieldSize]
    omega
  | varCounted =>
    cases rest with
    | nil => simp [announced, fieldSize, Position.count]
    | cons marker rest =>
      rw [fieldSize, List.head?_cons, Option.some.injEq]
      by_cases hmarker : marker = 0xff
      · have hsize : markerSize marker = 8 := by rw [hmarker]; decide
        rw [hsize]
        constructor
        · intro hover
          exact ⟨rfl, hmarker, by omega⟩
        · rintro ⟨-, -, hover⟩
          omega
      · obtain ⟨hlt, hsize⟩ := announced_lt_of_ne hmarker rest
        refine iff_of_false ?_ fun h => hmarker h.2.1
        omega

/-! ## Reading at any position -/

variable {code : Code} {pos : Nat}

/-- Parsing asks for no bytes that are not there. -/
theorem parse_ne_trap (shape : Shape) (rest : List UInt8) (cause : Trap) :
    parse shape rest ≠ .error (.trap cause) := by
  intro h
  obtain ⟨needed, he⟩ | ⟨declared, he⟩ := available_of_parse h
  · cases he
  · cases he

/-- **Beyond the end of the code reading is parsing no bytes**, unless no bytes
are all that is asked for. -/
theorem read_of_size_lt (h : code.size < pos) (hcode : code.size < Position.count)
    (hshape : shape ≠ .fixed 0) : read shape code pos = parse shape [] := by
  have hleft : code.size - pos = 0 := by omega
  have hdrop : code.toList.drop pos = [] := by
    rw [← List.length_eq_zero_iff, Code.length_drop, hleft]
  -- a length field is missing from its first byte on
  have hfield : 0 < fieldSize shape [] → read shape code pos = parse shape [] := by
    intro hpos
    have hnullary : shape ≠ .nullary := by
      rintro rfl
      exact absurd hpos (Nat.lt_irrefl 0)
    have hshort : (code.toList.drop pos).length < fieldSize shape (code.toList.drop pos) := by
      rwa [hdrop]
    have hheader := readHeader_of_lt hcode hshort
    rw [hdrop] at hheader
    simp only [read, hheader, parse, if_neg hnullary, List.length_nil, if_pos hpos]
    rfl
  cases shape with
  | nullary => rfl
  | fixed size =>
    have hfits : ¬ Position.count ≤ size.toNat := Nat.not_le.2 size.toNat_lt
    have hpos : 0 < size.toNat := by
      refine Nat.pos_of_ne_zero fun hzero => hshape ?_
      rw [UInt64.toNat_inj.1 (show size.toNat = (0 : UInt64).toNat from hzero)]
    simp only [read, readHeader, readPayload, parse, fieldSize, announced, Access.ok_bind,
      Access.error_bind, Nat.add_zero, hleft, reduceCtorEq, List.length_nil, Nat.lt_irrefl, hfits,
      hpos, ↓reduceIte]
  | counted width => exact hfield (by cases width <;> decide)
  | varCounted => exact hfield (by decide)

/-- **There the empty slice is asked for**, and no place beyond the end has
even that. -/
theorem read_fixed_zero_of_size_lt (h : code.size < pos) (hpos : pos < Position.count) :
    read (.fixed 0) code pos = .error (.trap (.outOfRange pos pos)) := by
  have hslice : code.slice pos pos = .error (.outOfRange pos pos) :=
    if_neg fun hle => absurd hle.2 (by omega)
  have hcount : ¬ Position.count ≤ 0 := by decide
  have hadd : Position.add pos 0 = .ok pos := Position.add_of_lt hpos
  simp only [read, readHeader, readPayload, Access.ok_bind, Nat.add_zero, UInt64.toNat_zero,
    hcount, Nat.not_lt_zero, ↓reduceIte, hadd, Access.lift_ok_read, hslice]
  rfl

/-! ## Reading inside the code -/

/-- **Reading an operand is exact.** Let `width` be the size of the length
field at a position of the code, and `declared` what it stands for. Nothing is
read where nothing is to follow. Otherwise a length field that the code does
not hold to its end is refused, with its width as what is needed; then a size
that no position can reach, which only the widest variable count can announce;
then a payload that the code does not hold to its end, with the length field
and the payload as what is needed. And if both are there, they are the operand
that is read, and it takes as many bytes as they do. -/
theorem read_exact (hpos : pos ≤ code.size) (hcode : code.size < UInt64.size) (shape : Shape) :
    let available := code.size - pos
    let width := shape.fieldWidth code[pos]?
    let field := (code.extract pos (pos + width)).toList
    let declared := shape.declaredBy field
    (shape = .nullary → read shape code pos = .ok (none, 0)) ∧
    (shape ≠ .nullary → available < width →
      read shape code pos = .error (.truncated width available)) ∧
    (shape ≠ .nullary → width ≤ available →
      (UInt64.size ≤ declared + width → ∃ size : UInt64, size.toNat = declared ∧
        read shape code pos = .error (.oversized size available)) ∧
      (UInt64.size ≤ declared + width ↔
        shape = .varCounted ∧ code[pos]? = some 0xff ∧ UInt64.size - 9 ≤ declared) ∧
      (declared + width < UInt64.size → available < declared + width →
        read shape code pos = .error (.truncated (declared + width) available)) ∧
      (declared + width ≤ available → ∃ operand : Operand,
        read shape code pos = .ok (some operand, declared + width) ∧
          operand.size = declared + width ∧ operand.shape = shape ∧
          operand.lengthField = field ∧
          operand.payload = (code.extract (pos + width) (pos + width + declared)).toList)) := by
  intro available width field declared
  have hcount : Position.count = UInt64.size := rfl
  have havailable : (code.toList.drop pos).length = available := code.length_drop pos
  have hwidth : fieldSize shape (code.toList.drop pos) = width := by
    rw [← fieldWidth_head?, Code.head?_drop]
  have hfield : (code.toList.drop pos).take width = field :=
    (code.toList_extract_add pos width).symm
  have hread := read_eq_parse hpos hcode shape
  simp only [parse, hwidth, havailable] at hread
  refine ⟨?_, ?_, ?_⟩
  · intro hshape
    rw [hread, if_pos hshape]
  · intro hshape hshort
    rw [hread, if_neg hshape, if_pos hshort]
  · intro hshape hthere
    have hdeclared : announced shape (code.toList.drop pos) = declared := by
      rw [← declaredBy_take (by rw [hwidth, havailable]; exact hthere), hwidth, hfield]
    rw [hdeclared, if_neg hshape, if_neg (by omega)] at hread
    have hover := overflows_iff shape (code.toList.drop pos)
    rw [hdeclared, hwidth, Code.head?_drop, hcount] at hover
    refine ⟨?_, hover, ?_, ?_⟩
    · intro hlarge
      refine ⟨UInt64.ofNat declared, ?_, ?_⟩
      · refine UInt64.toNat_ofNat_of_lt' ?_
        rw [← hdeclared]
        exact announced_lt shape _
      · rw [hread, if_pos (by omega)]
    · intro hsmall hshort
      rw [hread, if_neg (by omega), if_pos hshort]
    · intro hfits
      rw [if_neg (by omega), if_neg (by omega), hfield] at hread
      have hpayload : ((code.toList.drop pos).drop width).take declared =
          (code.extract (pos + width) (pos + width + declared)).toList := by
        rw [Code.toList_extract_add, List.drop_drop]
      refine ⟨_, hread, ?_, rfl, rfl, hpayload⟩
      simp only [Operand.size, hpayload, field, Array.length_toList, Array.size_extract]
      omega

/-- A variable count in its widest form, after another byte: nine below the
number of positions is too much, ten below is merely more than there is. In a
narrower form it announces the two bytes that follow. -/
theorem read_exact_varCounted :
    (∃ size : UInt64, size.toNat = UInt64.size - 9 ∧
      read .varCounted #[7, 0xff, 0xf7, 0xff, 0xff, 0xff, 0xff, 0xff, 0xff, 0xff] 1 =
        .error (.oversized size 9)) ∧
    read .varCounted #[7, 0xff, 0xf6, 0xff, 0xff, 0xff, 0xff, 0xff, 0xff, 0xff] 1 =
      .error (.truncated (UInt64.size - 1) 9) ∧
    ∃ operand, read .varCounted #[7, 0xfd, 2, 0, 5, 6] 1 = .ok (some operand, 5) ∧
      operand.lengthField = [0xfd, 2, 0] ∧ operand.payload = [5, 6] := by
  obtain ⟨-, -, hover⟩ := read_exact
    (show 1 ≤ (#[7, 0xff, 0xf7, 0xff, 0xff, 0xff, 0xff, 0xff, 0xff, 0xff] : Code).size by decide)
    (by decide) .varCounted
  obtain ⟨-, -, hshort⟩ := read_exact
    (show 1 ≤ (#[7, 0xff, 0xf6, 0xff, 0xff, 0xff, 0xff, 0xff, 0xff, 0xff] : Code).size by decide)
    (by decide) .varCounted
  obtain ⟨-, -, hthere⟩ := read_exact
    (show 1 ≤ (#[7, 0xfd, 2, 0, 5, 6] : Code).size by decide) (by decide) .varCounted
  refine ⟨(hover (by decide) (by decide)).1 (by decide), ?_, ?_⟩
  · exact (hshort (by decide) (by decide)).2.2.1 (by decide) (by decide)
  · obtain ⟨operand, hread, -, -, hfield, hpayload⟩ :=
      (hthere (by decide) (by decide)).2.2.2 (by decide)
    exact ⟨operand, hread, hfield, hpayload⟩

end Operand

end Disasm
