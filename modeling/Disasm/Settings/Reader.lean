import Disasm.Json.Scalar
import Disasm.Json.Skip
import Disasm.Settings.Basic
/-!
# Reading settings

Settings are read from JSON text. The text is an object that gives any of the
settings by name, or an array that gives the first few of them in order;
settings not given have their default. Names that are no setting are passed
over with their values.

A value of the wrong kind is a flaw as soon as it is read, or at its opening
bracket. A setting given twice is a flaw at the second time its name is read.
-/

namespace Disasm

open Json (Flaw)

/-- One of the settings. -/
inductive Setting
  | annotateJumps
  | resolveForwardJumps
  | scanOccurrences
  | maxInstructions
deriving DecidableEq, Repr

namespace Setting

/-- The settings in their order. -/
def all : List Setting :=
  [.annotateJumps, .resolveForwardJumps, .scanOccurrences, .maxInstructions]

/-- The name of a setting in JSON text. -/
def name : Setting → String
  | .annotateJumps => "annotate_jumps"
  | .resolveForwardJumps => "resolve_forward_jumps"
  | .scanOccurrences => "scan_occurrences"
  | .maxInstructions => "max_instructions"

/-- The setting of a name. -/
def ofName? (name : String) : Option Setting :=
  all.find? fun setting => setting.name == name

end Setting

/-! ## Drafts -/

namespace Settings

/-- Settings as far as they are given. -/
structure Draft where
  annotateJumps : Option Bool := none
  resolveForwardJumps : Option Bool := none
  scanOccurrences : Option Bool := none
  maxInstructions : Option (Option UInt64) := none
deriving DecidableEq, Repr

namespace Draft

/-- Whether a setting is given. -/
def has (draft : Draft) : Setting → Bool
  | .annotateJumps => draft.annotateJumps.isSome
  | .resolveForwardJumps => draft.resolveForwardJumps.isSome
  | .scanOccurrences => draft.scanOccurrences.isSome
  | .maxInstructions => draft.maxInstructions.isSome

/-- The settings, with the default for what is not given. -/
def finish (draft : Draft) : Settings :=
  let default : Settings := {}
  { annotateJumps := draft.annotateJumps.getD default.annotateJumps
    resolveForwardJumps := draft.resolveForwardJumps.getD default.resolveForwardJumps
    scanOccurrences := draft.scanOccurrences.getD default.scanOccurrences
    maxInstructions := draft.maxInstructions.getD default.maxInstructions }

/-- Reads the value of a setting into the draft. -/
def read (draft : Draft) (setting : Setting) (text : List Char) :
    Except Flaw (Draft × List Char) :=
  match setting with
  | .annotateJumps =>
    (Json.flag text).map fun (b, rest) => ({ draft with annotateJumps := some b }, rest)
  | .resolveForwardJumps =>
    (Json.flag text).map fun (b, rest) => ({ draft with resolveForwardJumps := some b }, rest)
  | .scanOccurrences =>
    (Json.flag text).map fun (b, rest) => ({ draft with scanOccurrences := some b }, rest)
  | .maxInstructions =>
    (Json.limit text).map fun (n, rest) => ({ draft with maxInstructions := some n }, rest)

theorem lt_length_of_read {draft next : Draft} {setting : Setting} {text rest : List Char}
    (h : draft.read setting text = .ok (next, rest)) : rest.length < text.length := by
  cases setting with
  | annotateJumps | resolveForwardJumps | scanOccurrences =>
    cases hv : Json.flag text with
    | error => simp [read, hv, Except.map] at h
    | ok p =>
      simp only [read, hv, Except.map, Except.ok.injEq, Prod.mk.injEq] at h
      exact h.2 ▸ Json.lt_length_of_flag hv
  | maxInstructions =>
    cases hv : Json.limit text with
    | error => simp [read, hv, Except.map] at h
    | ok p =>
      simp only [read, hv, Except.map, Except.ok.injEq, Prod.mk.injEq] at h
      exact h.2 ▸ Json.lt_length_of_limit hv

end Draft

/-! ## Objects -/

/-- Reads the value of the member with the given name into the draft, from
after the name. A name that is no setting is passed over with its value. -/
def readNamed (draft : Draft) (name : String) (text : List Char) :
    Except Flaw (Draft × List Char) :=
  match Setting.ofName? name with
  | some setting =>
    if draft.has setting then .error .mistyped
    else
      match Json.mark ':' text with
      | .error flaw => .error flaw
      | .ok rest => draft.read setting rest
  | none =>
    match Json.mark ':' text with
    | .error flaw => .error flaw
    | .ok rest => (Json.skipValue rest).map fun rest => (draft, rest)

/-- Reads a member of an object into the draft, from just past the opening
quotation mark of its name. -/
def readMember (draft : Draft) (text : List Char) : Except Flaw (Draft × List Char) :=
  match Json.stringBody text with
  | .error flaw => .error flaw
  | .ok (name, rest) => readNamed draft name rest

theorem lt_length_of_readNamed {draft next : Draft} {name : String} {text rest : List Char}
    (h : readNamed draft name text = .ok (next, rest)) : rest.length < text.length := by
  unfold readNamed at h
  split at h
  · split at h
    · simp at h
    · split at h
      · simp at h
      · next hm =>
        exact Nat.lt_trans (Draft.lt_length_of_read h) (Json.lt_length_of_mark hm)
  · split at h
    · simp at h
    · next tail hm =>
      cases hv : Json.skipValue tail with
      | error => simp [hv, Except.map] at h
      | ok p =>
        simp only [hv, Except.map, Except.ok.injEq, Prod.mk.injEq] at h
        have := Json.length_le_of_skipFrom hv
        have := Json.lt_length_of_mark hm
        rw [← h.2]
        omega

theorem lt_length_of_readMember {draft next : Draft} {text rest : List Char}
    (h : readMember draft text = .ok (next, rest)) : rest.length < text.length := by
  unfold readMember at h
  split at h
  · simp at h
  · next hs =>
    exact Nat.lt_trans (lt_length_of_readNamed h) (Json.lt_length_of_stringFrom hs)

/-- Reads what follows a member of an object: its end, or more members. -/
def readMembers (draft : Draft) (text : List Char) : Except Flaw (Draft × List Char) :=
  match hg : Json.skipGap text with
  | [] => .error .unfinished
  | c :: rest =>
    if c = '}' then .ok (draft, rest)
    else if c = ',' then
      match hm : Json.mark '"' rest with
      | .error flaw => .error flaw
      | .ok tail =>
        match hr : readMember draft tail with
        | .error flaw => .error flaw
        | .ok (draft, tail) =>
          have := Json.lt_length_of_skipGap hg
          have := Json.lt_length_of_mark hm
          have := lt_length_of_readMember hr
          readMembers draft tail
    else .error .malformed
termination_by text.length

/-- Reads an object from just past its opening bracket. -/
def readObject (text : List Char) : Except Flaw (Draft × List Char) :=
  match Json.skipGap text with
  | [] => .error .unfinished
  | c :: rest =>
    if c = '}' then .ok ({}, rest)
    else if c = '"' then
      match readMember {} rest with
      | .error flaw => .error flaw
      | .ok (draft, rest) => readMembers draft rest
    else .error .malformed

/-! ## Arrays -/

/-- The end of an array whose every item is read. -/
def readEnd (draft : Draft) (text : List Char) : Except Flaw (Draft × List Char) :=
  (Json.mark ']' text).map fun rest => (draft, rest)

/-- Reads the items after the first: a comma before each, up to the end of the
array. -/
def readItems : List Setting → Draft → List Char → Except Flaw (Draft × List Char)
  | [], draft, text => readEnd draft text
  | setting :: settings, draft, text =>
    match Json.skipGap text with
    | [] => .error .unfinished
    | c :: rest =>
      if c = ']' then .ok (draft, rest)
      else if c = ',' then
        match Json.skipGap rest with
        | [] => .error .unfinished
        | c :: rest =>
          if c = ']' then .error .malformed
          else
            match draft.read setting (c :: rest) with
            | .error flaw => .error flaw
            | .ok (draft, rest) => readItems settings draft rest
      else .error .malformed

/-- Reads an array from just past its opening bracket. -/
def readArray (text : List Char) : Except Flaw (Draft × List Char) :=
  match Json.skipGap text with
  | [] => .error .unfinished
  | c :: rest =>
    if c = ']' then .ok ({}, rest)
    else
      match Draft.read {} .annotateJumps (c :: rest) with
      | .error flaw => .error flaw
      | .ok (draft, rest) => readItems Setting.all.tail draft rest

/-! ## Documents -/

/-- Reads an object or an array. -/
def readDocument (text : List Char) : Except Flaw (Draft × List Char) :=
  match Json.skipGap text with
  | [] => .error .unfinished
  | c :: rest =>
    if c = '{' then readObject rest
    else if c = '[' then readArray rest
    else .error (Json.misfit c rest)

/-- **The settings that a JSON text gives.** -/
def parse (text : String) : Except Flaw Settings := do
  let (draft, rest) ← readDocument text.toList
  if (Json.skipGap rest).isEmpty then return draft.finish else throw .malformed

end Settings

end Disasm
