import Disasm.Proofs.Bytes
/-!
# The format of operands

`Operand.WellFormed` says which operands can be written: those whose length
field announces their payload, in the manner of their shape.
`Operand.parse` reads an operand off the front of a list of bytes, and
`read_eq_parse` makes reading at a position of the code the same as parsing
the bytes from there on. So what is read depends on nothing before the
position, and the two laws of the format can be proved on lists:
`parse_written` (what is written is parsed, whatever follows) and
`written_of_parse` (what is parsed was written there).
-/

namespace Disasm

open LittleEndian (value word)

/-! ## Operands that can be written -/

namespace Operand

/-- The field is a variable count that stands for `n`: a byte below 0xfd, or a
marker and then `n` in two, four or eight bytes. A wider form than `n` needs
is a count as good as any. -/
def VarCount : List UInt8 → Nat → Prop
  | [], _ => False
  | marker :: field, n =>
    if marker = 0xfd then field.length = 2 ∧ value field = n
    else if marker = 0xfe then field.length = 4 ∧ value field = n
    else if marker = 0xff then field.length = 8 ∧ value field = n
    else field = [] ∧ marker.toNat = n

instance : (field : List UInt8) → (n : Nat) → Decidable (VarCount field n)
  | [], _ => inferInstanceAs (Decidable False)
  | marker :: _, _ => inferInstanceAs (Decidable (if marker = 0xfd then _ else _))

/-- **The length field announces the payload**, in the manner of the
operand's shape. -/
def WellFormed (operand : Operand) : Prop :=
  match operand.shape with
  | .nullary => False
  | .fixed size => operand.lengthField = [] ∧ operand.payload.length = size.toNat
  | .counted width =>
    operand.lengthField.length = width.size ∧ value operand.lengthField = operand.payload.length
  | .varCounted => VarCount operand.lengthField operand.payload.length

instance : (operand : Operand) → Decidable operand.WellFormed
  | ⟨.nullary, _, _⟩ => inferInstanceAs (Decidable False)
  | ⟨.fixed _, _, _⟩ => inferInstanceAs (Decidable (_ ∧ _))
  | ⟨.counted _, _, _⟩ => inferInstanceAs (Decidable (_ ∧ _))
  | ⟨.varCounted, _, _⟩ => inferInstanceAs (Decidable (VarCount _ _))

/-- The bytes of an operand that need not be there. -/
def written (operand : Option Operand) : List UInt8 :=
  (operand.map encode).getD []

@[simp] theorem written_none : written none = [] := rfl

@[simp] theorem written_some (operand : Operand) :
    written (some operand) = operand.lengthField ++ operand.payload := rfl

end Operand

/-- The operand, or its absence, is what an opcode of the given shape asks
for. -/
def Shape.Fits (shape : Shape) : Option Operand → Prop
  | none => shape = .nullary
  | some operand => operand.shape = shape ∧ operand.WellFormed

instance (shape : Shape) : (operand : Option Operand) → Decidable (shape.Fits operand)
  | none => inferInstanceAs (Decidable (shape = .nullary))
  | some _ => inferInstanceAs (Decidable (_ ∧ _))

namespace Operand

/-! ## Parsing -/

/-- How many bytes the length field takes that `rest` begins with. A variable
count whose first byte is missing is taken to be of one byte. -/
def fieldSize : Shape → List UInt8 → Nat
  | .nullary, _ | .fixed _, _ => 0
  | .counted width, _ => width.size
  | .varCounted, [] => 1
  | .varCounted, marker :: _ => 1 + markerSize marker

/-- The size of the payload that the length field announces. -/
def announced : Shape → List UInt8 → Nat
  | .nullary, _ | .varCounted, [] => 0
  | .fixed size, _ => size.toNat
  | .counted width, rest => value (rest.take width.size)
  | .varCounted, marker :: rest =>
    if markerSize marker = 0 then marker.toNat else value (rest.take (markerSize marker))

/-- **The operand of the given shape that `rest` begins with**, and how many
bytes it takes. -/
def parse (shape : Shape) (rest : List UInt8) : Except ReadError (Option Operand × Nat) :=
  let size := fieldSize shape rest
  let needed := announced shape rest + size
  if shape = .nullary then .ok (none, 0)
  else if rest.length < size then .error (.truncated size rest.length)
  else if Position.count ≤ needed then
    .error (.oversized (UInt64.ofNat (announced shape rest)) rest.length)
  else if rest.length < needed then .error (.truncated needed rest.length)
  else .ok (some ⟨shape, rest.take size, (rest.drop size).take (announced shape rest)⟩, needed)

/-- A marker leaves room for no more than a register. -/
theorem markerSize_le (marker : UInt8) : markerSize marker ≤ 8 := by
  unfold markerSize
  split_ifs <;> decide

/-- A field of at most eight bytes fills a register with its value. -/
theorem word_eq_ofNat {field : List UInt8} (h : field.length ≤ 8) :
    word field = UInt64.ofNat (value field) := by
  rw [← LittleEndian.toNat_word h, UInt64.ofNat_toNat]

/-- And its value is a 64-bit number. -/
theorem value_lt_count {field : List UInt8} (h : field.length ≤ 8) :
    value field < Position.count := by
  rw [← LittleEndian.toNat_word h]
  exact (word field).toNat_lt

/-- What a length field can announce is a 64-bit number. -/
theorem announced_lt (shape : Shape) (rest : List UInt8) :
    announced shape rest < Position.count := by
  cases shape with
  | nullary => simp [announced, Position.count]
  | fixed size => exact size.toNat_lt
  | counted width =>
    refine value_lt_count (le_trans (List.length_take_le _ _) ?_)
    cases width <;> decide
  | varCounted =>
    cases rest with
    | nil => simp [announced, Position.count]
    | cons marker rest =>
      rw [announced]
      split_ifs
      · exact lt_trans marker.toNat_lt (by decide)
      · exact value_lt_count (le_trans (List.length_take_le _ _) (markerSize_le marker))

/-! ## Reading is parsing -/

section Read

variable {code : Code} {pos : Nat}

/-- A field that is not there to its end is refused. -/
theorem takeField_of_lt {size available : Nat} (h : available < size) :
    takeField code pos size available = .error (.truncated size available) :=
  if_pos h

/-- A field that is there is the beginning of the rest. -/
theorem takeField_of_le {size : Nat} (hcode : code.size < Position.count)
    (h : pos + size ≤ code.size) :
    takeField code pos size (code.size - pos) = .ok ((code.toList.drop pos).take size) := by
  rw [takeField, if_neg (by omega), Position.add_of_lt (by omega), Access.lift_ok_read,
    Access.ok_bind, Code.slice_of_le h, Access.lift_ok_read]

/-- The first byte of a variable count decides how the rest of it is read. -/
theorem readVarCount_cons {marker : UInt8} {tail : List UInt8}
    (hcode : code.size < Position.count) (hrest : code.toList.drop pos = marker :: tail) :
    readVarCount code pos (code.size - pos) =
      if markerSize marker = 0 then .ok ⟨1, marker.toUInt64⟩
      else if tail.length < markerSize marker then
        .error (.truncated (1 + markerSize marker) (tail.length + 1))
      else .ok ⟨1 + markerSize marker, word (tail.take (markerSize marker))⟩ := by
  have hlen : code.size - pos = tail.length + 1 := by
    rw [← Code.length_drop, hrest, List.length_cons]
  have htail := Code.drop_succ_of_drop hrest
  have hleft : code.size - pos - 1 = code.size - (pos + 1) := by omega
  rw [readVarCount, takeField_of_le hcode (by omega), Code.byteAt_of_drop hrest]
  simp only [Access.ok_bind, Access.lift_ok_read]
  split_ifs with hmarker hfield
  · rfl
  · -- the inner refusal counts from after the marker, the outer one from the marker on
    have hle := markerSize_le marker
    have hcount : 9 < Position.count := by decide
    rw [Position.add_of_lt (by omega), Position.sub_of_le (by omega), Access.lift_ok_read,
      Access.ok_bind, Access.lift_ok_read, Access.ok_bind, takeField_of_lt (by omega)]
    simp only [Position.add_of_lt (show markerSize marker + 1 < Position.count by omega),
      Access.lift_ok_read, Access.ok_bind, Access.throw_eq_error]
    rw [Nat.add_comm, hlen]
  · rw [Position.add_of_lt (by omega), Position.sub_of_le (by omega), Access.lift_ok_read,
      Access.ok_bind, Access.lift_ok_read, Access.ok_bind, hleft,
      takeField_of_le hcode (by omega), htail]
    rfl

/-- A length field that is not there to its end is refused, whatever the
shape. -/
theorem readHeader_of_lt {shape : Shape} (hcode : code.size < Position.count)
    (h : (code.toList.drop pos).length < fieldSize shape (code.toList.drop pos)) :
    readHeader shape code pos (code.size - pos) =
      .error (.truncated (fieldSize shape (code.toList.drop pos))
        (code.toList.drop pos).length) := by
  cases shape with
  | nullary => exact absurd h (Nat.not_lt_zero _)
  | fixed size => exact absurd h (Nat.not_lt_zero _)
  | counted width =>
    rw [Code.length_drop, fieldSize] at h
    rw [readHeader, takeField_of_lt h, Code.length_drop]
    rfl
  | varCounted =>
    have hlen := code.length_drop pos
    cases hrest : code.toList.drop pos with
    | nil =>
      rw [hrest] at hlen
      rw [readHeader, readVarCount, takeField_of_lt (by rw [← hlen]; decide), ← hlen]
      rfl
    | cons marker tail =>
      rw [hrest, List.length_cons, fieldSize] at h
      rw [readHeader, readVarCount_cons hcode hrest, if_neg (by omega), if_pos (by omega)]
      rfl

/-- Otherwise it announces what the bytes of the rest announce. -/
theorem readHeader_of_le {shape : Shape} (hshape : shape ≠ .nullary) (hpos : pos ≤ code.size)
    (hcode : code.size < Position.count)
    (h : fieldSize shape (code.toList.drop pos) ≤ (code.toList.drop pos).length) :
    readHeader shape code pos (code.size - pos) =
      .ok (some ⟨fieldSize shape (code.toList.drop pos),
        UInt64.ofNat (announced shape (code.toList.drop pos))⟩) := by
  cases shape with
  | nullary => exact absurd rfl hshape
  | fixed size => simp [readHeader, fieldSize, announced]
  | counted width =>
    have hwidth : width.size ≤ 8 := by cases width <;> decide
    rw [Code.length_drop, fieldSize] at h
    rw [readHeader, takeField_of_le hcode (by omega), Access.ok_bind, Access.pure_eq_ok,
      word_eq_ofNat (le_trans (List.length_take_le _ _) hwidth)]
    rfl
  | varCounted =>
    cases hrest : code.toList.drop pos with
    | nil =>
      rw [hrest] at h
      exact absurd h (by decide)
    | cons marker tail =>
      rw [hrest, List.length_cons, fieldSize] at h
      rw [readHeader, readVarCount_cons hcode hrest, fieldSize, announced]
      by_cases hmarker : markerSize marker = 0
      · rw [if_pos hmarker, if_pos hmarker, hmarker, ← UInt8.toNat_toUInt64, UInt64.ofNat_toNat]
        rfl
      · rw [if_neg hmarker, if_neg hmarker, if_neg (by omega),
          word_eq_ofNat (le_trans (List.length_take_le _ _) (markerSize_le marker))]
        rfl

/-- A payload that the code holds to its end follows its length field. -/
theorem readPayload_of_le (hcode : code.size < Position.count) (shape : Shape)
    {size declared : Nat} (h : pos + (declared + size) ≤ code.size) :
    readPayload shape code pos (code.size - pos) ⟨size, UInt64.ofNat declared⟩ =
      .ok (⟨shape, (code.toList.drop pos).take size,
        ((code.toList.drop pos).drop size).take declared⟩, declared + size) := by
  have hnat : (UInt64.ofNat declared).toNat = declared :=
    UInt64.toNat_ofNat_of_lt' (show declared < Position.count by omega)
  have hstop : pos + (declared + size) = pos + size + declared := by omega
  have hfield := Code.slice_of_le (show pos + size ≤ code.size by omega)
  have hpayload := Code.slice_of_le (show pos + size + declared ≤ code.size by omega)
  simp only [readPayload, hnat]
  rw [if_neg (by omega), if_neg (by omega), Position.add_of_lt (by omega),
    Position.add_of_lt (by omega), hstop]
  simp only [Access.lift_ok_read, Access.ok_bind, hfield, hpayload, Access.pure_eq_ok,
    List.drop_drop]

/-- **Reading an operand is parsing the bytes from the position on.** Inside
the code no access is refused, and nothing before the position matters. -/
theorem read_eq_parse (hpos : pos ≤ code.size) (hcode : code.size < Position.count)
    (shape : Shape) : read shape code pos = parse shape (code.toList.drop pos) := by
  have hlen := code.length_drop pos
  have hnat : (UInt64.ofNat (announced shape (code.toList.drop pos))).toNat =
      announced shape (code.toList.drop pos) :=
    UInt64.toNat_ofNat_of_lt' (announced_lt shape _)
  simp only [read, parse]
  split_ifs with hshape hfield hover hshort
  · subst hshape
    rfl
  · rw [readHeader_of_lt hcode hfield]
    rfl
  -- the length field is there; what is left is the payload
  all_goals rw [readHeader_of_le hshape hpos hcode (by omega), Access.ok_bind]
  · simp only [readPayload, hnat, if_pos hover, hlen]
    rfl
  · simp only [readPayload, hnat, if_neg hover, ← hlen, if_pos hshort]
    rfl
  · have hpayload := readPayload_of_le hcode shape
      (show pos + (announced shape (code.toList.drop pos) +
        fieldSize shape (code.toList.drop pos)) ≤ code.size by omega)
    simp only [hpayload]
    rfl

end Read

/-! ## The laws of the format -/

/-- A marker and the bytes it asks for are a variable count of what they
announce. -/
theorem varCount_cons {marker : UInt8} {field : List UInt8} {n : Nat} :
    VarCount (marker :: field) n ↔ field.length = markerSize marker ∧
      (if markerSize marker = 0 then marker.toNat else value field) = n := by
  unfold VarCount markerSize
  split_ifs <;> simp_all

/-- The length field of a well-formed operand is as long as its own bytes
say. -/
theorem fieldSize_append {operand : Operand} (h : operand.WellFormed) (tail : List UInt8) :
    fieldSize operand.shape (operand.lengthField ++ tail) = operand.lengthField.length := by
  obtain ⟨shape, field, payload⟩ := operand
  cases shape with
  | nullary => exact absurd h id
  | fixed size =>
    obtain ⟨rfl, -⟩ : field = [] ∧ _ := h
    rfl
  | counted width => exact h.1.symm
  | varCounted =>
    cases field with
    | nil => exact absurd h id
    | cons marker field =>
      obtain ⟨hlen, -⟩ := varCount_cons.1 h
      rw [List.cons_append, fieldSize, List.length_cons, hlen, Nat.add_comm]

/-- And announces the payload. -/
theorem announced_append {operand : Operand} (h : operand.WellFormed) (tail : List UInt8) :
    announced operand.shape (operand.lengthField ++ tail) = operand.payload.length := by
  obtain ⟨shape, field, payload⟩ := operand
  cases shape with
  | nullary => exact absurd h id
  | fixed size => exact h.2.symm
  | counted width =>
    obtain ⟨hlen, hvalue⟩ : field.length = width.size ∧ value field = payload.length := h
    rw [announced, List.take_left' hlen, hvalue]
  | varCounted =>
    cases field with
    | nil => exact absurd h id
    | cons marker field =>
      obtain ⟨hlen, hvalue⟩ := varCount_cons.1 h
      rw [List.cons_append, announced, List.take_left' hlen, hvalue]

/-- Cutting the bytes where the length field says gives a well-formed
operand. -/
theorem wellFormed_of_le {shape : Shape} {rest : List UInt8} (hshape : shape ≠ .nullary)
    (h : announced shape rest + fieldSize shape rest ≤ rest.length) :
    WellFormed ⟨shape, rest.take (fieldSize shape rest),
      (rest.drop (fieldSize shape rest)).take (announced shape rest)⟩ := by
  have hpayload : ((rest.drop (fieldSize shape rest)).take (announced shape rest)).length =
      announced shape rest := by
    rw [List.length_take, List.length_drop]
    omega
  cases shape with
  | nullary => exact absurd rfl hshape
  | fixed size => exact ⟨rfl, hpayload⟩
  | counted width =>
    refine ⟨?_, hpayload.symm⟩
    rw [List.length_take]
    exact Nat.min_eq_left (le_trans (Nat.le_add_left _ _) h)
  | varCounted =>
    show VarCount _ _
    rw [hpayload]
    cases rest with
    | nil => exact absurd h (by decide)
    | cons marker rest =>
      rw [fieldSize, List.length_cons] at h
      rw [fieldSize, Nat.add_comm, List.take_succ_cons, varCount_cons, List.length_take]
      exact ⟨Nat.min_eq_left (by omega), rfl⟩

/-- **What is written is parsed**, whatever bytes follow. -/
theorem parse_written {shape : Shape} {operand : Option Operand} (h : shape.Fits operand)
    (hlen : (written operand).length < Position.count) (tail : List UInt8) :
    parse shape (written operand ++ tail) = .ok (operand, (written operand).length) := by
  cases operand with
  | none =>
    obtain rfl : shape = .nullary := h
    rfl
  | some operand =>
    obtain ⟨rfl, hformed⟩ : operand.shape = shape ∧ operand.WellFormed := h
    have hshape : operand.shape ≠ .nullary := by
      intro hnullary
      rw [WellFormed, hnullary] at hformed
      exact hformed
    rw [written_some, List.length_append] at hlen
    simp only [parse, written_some, List.append_assoc, fieldSize_append hformed,
      announced_append hformed, List.length_append]
    rw [if_neg hshape, if_neg (by omega), if_neg (by omega), if_neg (by omega),
      List.take_left, List.drop_left, List.take_left, Nat.add_comm]

/-- **What is parsed was written there**: the operand fits its shape, and its
bytes are those that the parse took. -/
theorem written_of_parse {shape : Shape} {rest : List UInt8} {operand : Option Operand}
    {consumed : Nat} (h : parse shape rest = .ok (operand, consumed)) :
    shape.Fits operand ∧ consumed = (written operand).length ∧
      ∃ tail, rest = written operand ++ tail := by
  simp only [parse] at h
  split_ifs at h with hshape hfield hover hshort
  · obtain ⟨rfl, rfl⟩ : none = operand ∧ 0 = consumed := by simpa using h
    exact ⟨hshape, rfl, rest, rfl⟩
  · obtain ⟨rfl, rfl⟩ := Prod.mk.inj (Except.ok.inj h)
    refine ⟨⟨rfl, wellFormed_of_le hshape (by omega)⟩, ?_,
      (rest.drop (fieldSize shape rest)).drop (announced shape rest), ?_⟩
    · simp only [written_some, List.length_append, List.length_take, List.length_drop]
      omega
    · rw [written_some, List.append_assoc, List.take_append_drop, List.take_append_drop]

/-- **What is missing where an operand ends too early**: the rest of the length
field, which is then all that was asked for, or the rest of the payload. -/
theorem parse_eq_truncated_iff {shape : Shape} {rest : List UInt8} {needed available : Nat} :
    parse shape rest = .error (.truncated needed available) ↔
      shape ≠ .nullary ∧ available = rest.length ∧ available < needed ∧
        (needed = fieldSize shape rest ∨
          fieldSize shape rest ≤ available ∧ needed = announced shape rest + fieldSize shape rest ∧
            needed < Position.count) := by
  simp only [parse]
  split_ifs with hshape hfield hover hshort
  · simp [hshape]
  all_goals
    simp only [Except.error.injEq, ReadError.truncated.injEq, reduceCtorEq, ne_eq, hshape,
      not_false_eq_true, true_and, false_iff]
    omega

/-- **And where it ends beyond any position**: the length field is there and
announces too much. -/
theorem parse_eq_oversized_iff {shape : Shape} {rest : List UInt8} {declared : UInt64}
    {available : Nat} :
    parse shape rest = .error (.oversized declared available) ↔
      shape ≠ .nullary ∧ available = rest.length ∧ fieldSize shape rest ≤ available ∧
        declared = UInt64.ofNat (announced shape rest) ∧
        Position.count ≤ announced shape rest + fieldSize shape rest := by
  simp only [parse]
  split_ifs with hshape hfield hover hshort
  · simp [hshape]
  all_goals
    simp only [Except.error.injEq, ReadError.oversized.injEq, reduceCtorEq, ne_eq, hshape,
      not_false_eq_true, true_and, false_iff]
  · omega
  · constructor
    · rintro ⟨rfl, rfl⟩
      exact ⟨rfl, by omega, rfl, hover⟩
    · rintro ⟨rfl, -, rfl, -⟩
      exact ⟨rfl, rfl⟩
  · omega
  · omega

/-- A refusal tells how many bytes there were. -/
theorem available_of_parse {shape : Shape} {rest : List UInt8} {e : ReadError}
    (h : parse shape rest = .error e) :
    (∃ needed, e = .truncated needed rest.length) ∨
      ∃ declared, e = .oversized declared rest.length := by
  simp only [parse] at h
  split_ifs at h with hshape hfield hover hshort
  · exact .inl ⟨_, (Except.error.inj h).symm⟩
  · exact .inr ⟨_, (Except.error.inj h).symm⟩
  · exact .inl ⟨_, (Except.error.inj h).symm⟩

end Operand

end Disasm
