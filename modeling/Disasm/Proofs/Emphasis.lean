import Disasm.Jump
/-!
# Asking a dynamic jump

A query of a dynamic jump gives a target and leaves an emphasis behind, which
the next query finds. A branch sets its emphasis anew each time. A return
hands on the emphasis it has, unless the context fails, so that an old light
could stay on there; it does not, because no query ever puts one on
(`Unlit`). `Outcome` lists what a query comes to with nothing said of earlier
queries, and `resolve_has_no_memory` is the result: it is what every query
comes to, whatever was asked before.
-/

namespace Disasm

/-- A question to the jump of the instruction numbered `owner`, put under a
context or without one. -/
structure Query where
  owner : Nat
  context : Option Context

namespace DynamicJump

/-- A jump that was not asked yet. -/
def new (dialect : String) (branch : Branch) : DynamicJump :=
  { dialect, branch }

/-- The jump after queries, in order. They need not name the same owner: a copy
of a jump is the jump as it stands, so that its history is that of the jump up
to the copying and then its own. -/
def asked (jump : DynamicJump) (queries : List Query) : DynamicJump :=
  queries.foldl (fun jump query => (jump.resolve query.context query.owner).2) jump

/-- The jump can be had: it was new once, and has been asked since. -/
def Made (jump : DynamicJump) : Prop :=
  ∃ dialect branch history, jump = (new dialect branch).asked history

/-- **What a query comes to**: the target and the emphasis that an owner gets
under a context for a jump of the given dialect and branch. -/
inductive Outcome (dialect : String) (owner : Nat) :
    Branch → Option Context → Option UInt32 → Emphasis → Prop
  /-- Without a context there is no target. -/
  | unavailable {branch : Branch} : Outcome dialect owner branch none none .inactive
  /-- The machine runs code of another dialect. -/
  | mismatch {branch : Branch} {context : Context} :
      context.dialect ≠ dialect → Outcome dialect owner branch (some context) none .inactive
  /-- The machine is elsewhere; whatever is on its stack, a branch has its
  target. -/
  | elsewhere {target : UInt32} {takenWhen : Bool} {context : Context} :
      context.dialect = dialect → context.current ≠ some owner →
      Outcome dialect owner (.conditional target takenWhen) (some context) (some target) .inactive
  /-- The machine stands at the branch and knows which way it will go. -/
  | decided {target : UInt32} {takenWhen top : Bool} {context : Context} :
      context.dialect = dialect → context.current = some owner → context.stackTop = .ok top →
      Outcome dialect owner (.conditional target takenWhen) (some context) (some target)
        (if top = takenWhen then .taken else .notTaken)
  /-- The machine stands at the branch and has no value to go by. -/
  | undecided {target : UInt32} {takenWhen : Bool} {context : Context} {e : ContextError} :
      context.dialect = dialect → context.current = some owner → context.stackTop = .error e →
      Outcome dialect owner (.conditional target takenWhen) (some context) none .inactive
  /-- The machine is elsewhere, and a return has no target. -/
  | away {context : Context} :
      context.dialect = dialect → context.current ≠ some owner →
      Outcome dialect owner .toCaller (some context) none .inactive
  /-- The machine stands at the return and knows its caller. -/
  | returns {context : Context} {offset : UInt32} :
      context.dialect = dialect → context.current = some owner →
      context.returnOffset = .ok offset →
      Outcome dialect owner .toCaller (some context) (some offset) .inactive
  /-- The machine stands at the return and has no caller. -/
  | stranded {context : Context} {e : ContextError} :
      context.dialect = dialect → context.current = some owner →
      context.returnOffset = .error e →
      Outcome dialect owner .toCaller (some context) none .inactive

variable {jump : DynamicJump} {dialect : String} {branch : Branch} {owner : Nat}
variable {context : Option Context} {target : Option UInt32} {emphasis : Emphasis}

/-! ## Asking a new jump -/

/-- A query of a new jump comes to what the list says. -/
theorem Outcome.resolve_new (h : Outcome dialect owner branch context target emphasis) :
    (new dialect branch).resolve context owner =
      (target, (new dialect branch).mark emphasis) := by
  unfold resolve
  cases h with
  | unavailable => rfl
  | mismatch hdialect => simp [answer, new, mark, hdialect]
  | elsewhere hdialect hcurrent => simp [answer, new, hdialect, hcurrent]
  | decided hdialect hcurrent htop =>
    simp [answer, new, hdialect, hcurrent, htop, Except.map]
  | undecided hdialect hcurrent htop =>
    simp [answer, new, mark, hdialect, hcurrent, htop, Except.map]
  | away hdialect hcurrent => simp [answer, new, hdialect, hcurrent]
  | returns hdialect hcurrent hreturn =>
    simp [answer, new, hdialect, hcurrent, hreturn, Except.map]
  | stranded hdialect hcurrent hreturn =>
    simp [answer, new, mark, hdialect, hcurrent, hreturn, Except.map]

/-- And the list leaves no query out. -/
theorem exists_outcome (dialect : String) (owner : Nat) (branch : Branch)
    (context : Option Context) :
    ∃ target emphasis, Outcome dialect owner branch context target emphasis := by
  cases context with
  | none => exact ⟨_, _, .unavailable⟩
  | some context =>
    by_cases hdialect : context.dialect = dialect
    · by_cases hcurrent : context.current = some owner
      · cases branch with
        | conditional target takenWhen =>
          cases htop : context.stackTop with
          | error e => exact ⟨_, _, .undecided hdialect hcurrent htop⟩
          | ok top => exact ⟨_, _, .decided hdialect hcurrent htop⟩
        | toCaller =>
          cases hreturn : context.returnOffset with
          | error e => exact ⟨_, _, .stranded hdialect hcurrent hreturn⟩
          | ok offset => exact ⟨_, _, .returns hdialect hcurrent hreturn⟩
      · cases branch with
        | conditional target takenWhen => exact ⟨_, _, .elsewhere hdialect hcurrent⟩
        | toCaller => exact ⟨_, _, .away hdialect hcurrent⟩
    · exact ⟨_, _, .mismatch hdialect⟩

/-- The list has one outcome for each query. -/
theorem Outcome.unique {target' : Option UInt32} {emphasis' : Emphasis}
    (h : Outcome dialect owner branch context target emphasis)
    (h' : Outcome dialect owner branch context target' emphasis') :
    target' = target ∧ emphasis' = emphasis := by
  have hsame := h'.resolve_new.symm.trans h.resolve_new
  exact ⟨congrArg Prod.fst hsame, congrArg (fun result => result.2.emphasis) hsame⟩

/-! ## What queries keep -/

/-- A query changes nothing but the emphasis. -/
theorem exists_mark_resolve (jump : DynamicJump) (context : Option Context) (owner : Nat) :
    ∃ emphasis, (jump.resolve context owner).2 = jump.mark emphasis := by
  unfold resolve
  split
  · exact ⟨_, rfl⟩
  · exact ⟨_, rfl⟩

/-- **A return is not lit.** -/
def Unlit (jump : DynamicJump) : Prop :=
  jump.branch = .toCaller → jump.emphasis = .inactive

theorem unlit_new (dialect : String) (branch : Branch) : (new dialect branch).Unlit :=
  fun _ => rfl

/-- **Where no return is lit, a jump answers as if it were new**: a branch sets
its emphasis anew, and a return has the one that new jumps have. -/
theorem Unlit.resolve_eq (h : jump.Unlit) (context : Option Context) (owner : Nat) :
    jump.resolve context owner = (new jump.dialect jump.branch).resolve context owner := by
  obtain ⟨dialect, branch, emphasis⟩ := jump
  cases branch with
  | conditional target takenWhen => rfl
  | toCaller =>
    obtain rfl : emphasis = .inactive := h rfl
    rfl

/-- No query lights a return. -/
theorem Outcome.eq_inactive (h : Outcome dialect owner .toCaller context target emphasis) :
    emphasis = .inactive := by
  cases h <;> rfl

/-- **What a query does to a jump of which no return is lit.** -/
theorem Unlit.exists_outcome (h : jump.Unlit) (context : Option Context) (owner : Nat) :
    ∃ target emphasis, Outcome jump.dialect owner jump.branch context target emphasis ∧
      jump.resolve context owner = (target, jump.mark emphasis) := by
  obtain ⟨target, emphasis, houtcome⟩ :=
    DynamicJump.exists_outcome jump.dialect owner jump.branch context
  refine ⟨target, emphasis, houtcome, ?_⟩
  rw [h.resolve_eq, houtcome.resolve_new]
  rfl

/-- It lights none. -/
theorem Unlit.resolve (h : jump.Unlit) (context : Option Context) (owner : Nat) :
    (jump.resolve context owner).2.Unlit := by
  obtain ⟨target, emphasis, houtcome, hresolve⟩ := h.exists_outcome context owner
  intro hbranch
  rw [hresolve] at hbranch ⊢
  rw [show jump.branch = .toCaller from hbranch] at houtcome
  exact houtcome.eq_inactive

theorem asked_cons (jump : DynamicJump) (query : Query) (history : List Query) :
    jump.asked (query :: history) =
      (jump.resolve query.context query.owner).2.asked history := rfl

/-- So no history does, and the dialect and the branch stay. -/
theorem Unlit.asked (h : jump.Unlit) (history : List Query) :
    (jump.asked history).Unlit ∧ (jump.asked history).dialect = jump.dialect ∧
      (jump.asked history).branch = jump.branch := by
  induction history generalizing jump with
  | nil => exact ⟨h, rfl, rfl⟩
  | cons query history ih =>
    obtain ⟨emphasis, hmark⟩ := jump.exists_mark_resolve query.context query.owner
    have hrest := ih (h.resolve query.context query.owner)
    rw [hmark] at hrest
    rw [asked_cons, hmark]
    exact hrest

/-- A jump that can be had has no light on a return. -/
theorem Made.unlit (h : jump.Made) : jump.Unlit := by
  obtain ⟨dialect, branch, history, rfl⟩ := h
  exact ((unlit_new dialect branch).asked history).1

/-- **Asking a jump has no memory.** Whatever a jump was asked since it was new,
by whatever owners and under whatever contexts, the target it gives next and
the emphasis it then has are those that `Outcome` lists for its dialect, its
branch, the owner and the context. Putting the same question again changes
nothing, and a return is never lit. -/
theorem resolve_has_no_memory (dialect : String) (branch : Branch) (history : List Query)
    (last : Option Context) (owner : Nat) :
    (branch = .toCaller → ((new dialect branch).asked history).emphasis = .inactive) ∧
    ∃ target emphasis,
      ((new dialect branch).asked history).resolve last owner =
        (target, (new dialect branch).mark emphasis) ∧
      (∀ target' emphasis', Outcome dialect owner branch last target' emphasis' ↔
        target' = target ∧ emphasis' = emphasis) ∧
      ((new dialect branch).mark emphasis).resolve last owner =
        (target, (new dialect branch).mark emphasis) := by
  obtain ⟨hunlit, hdialect, hbranch⟩ := (unlit_new dialect branch).asked history
  refine ⟨fun hreturn => hunlit (hbranch.trans hreturn), ?_⟩
  obtain ⟨target, emphasis, houtcome⟩ := exists_outcome dialect owner branch last
  have hfirst : ((new dialect branch).asked history).resolve last owner =
      (target, (new dialect branch).mark emphasis) := by
    rw [hunlit.resolve_eq, hdialect, hbranch]
    exact houtcome.resolve_new
  refine ⟨target, emphasis, hfirst, ?_, ?_⟩
  · intro target' emphasis'
    constructor
    · exact houtcome.unique
    · rintro ⟨rfl, rfl⟩
      exact houtcome
  · have hagain := hunlit.resolve last owner
    rw [hfirst] at hagain
    rw [hagain.resolve_eq]
    exact houtcome.resolve_new

/-- A branch was lit while the machine stood at it; when the machine has lost its
stack, the light is out and the target gone. -/
theorem resolve_has_no_memory_faded :
    ((new "neo" (.conditional 6 true)).asked
      [⟨3, some { dialect := "neo", current := some 3, stackTop := .ok true }⟩]).emphasis =
        .taken ∧
    ((new "neo" (.conditional 6 true)).asked
      [⟨3, some { dialect := "neo", current := some 3, stackTop := .ok true }⟩]).resolve
        (some { dialect := "neo", current := some 3 }) 3 =
      (none, new "neo" (.conditional 6 true)) := by
  obtain ⟨-, target, emphasis, hresolve, hunique, -⟩ :=
    resolve_has_no_memory "neo" (.conditional 6 true)
      [⟨3, some { dialect := "neo", current := some 3, stackTop := .ok true }⟩]
      (some { dialect := "neo", current := some 3 }) 3
  obtain ⟨rfl, rfl⟩ := (hunique none .inactive).1 (.undecided rfl rfl rfl)
  exact ⟨rfl, hresolve⟩

end DynamicJump

end Disasm
