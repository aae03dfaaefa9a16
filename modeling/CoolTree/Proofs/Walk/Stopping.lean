import CoolTree.Proofs.Walk.Observation
import CoolTree.Proofs.Walk.Relation

/-!
# The call that stops a walk

A visitor can keep a ledger of its walk: which calls of hooks were made, each with
the journal that it was made in, so that the result of the call can be told.  The
hooks answer until one of them stops.  That call is the last one of the walk, and
the walk comes to the very result of the call, with its value and with the
journal that it left.  A walk that no hook stops ends well or at a malformed node.
-/

namespace CoolTree

variable {Context State Failure Answer Result : Type}

/-- A call of a hook with the journal that it was made in. -/
structure HookRun (Context State : Type) where
  call : HookCall Context
  before : Journal State

/-- The state of a visitor with the calls made so far, oldest first. -/
structure Ledger (Context State : Type) where
  state : State
  runs : List (HookRun Context State)

namespace Journal

def unbooked (journal : Journal (Ledger Context State)) : Journal State :=
  ⟨journal.state.state, journal.log⟩

def booking (call : HookCall Context) (before : Journal (Ledger Context State))
    (after : Journal State) : Journal (Ledger Context State) :=
  ⟨⟨after.state, before.state.runs ++ [⟨call, before.unbooked⟩]⟩, after.log⟩

end Journal

/-- An action that is entered in the ledger as the call of a hook. -/
def Action.booked (call : HookCall Context) (action : Action State Failure Answer) :
    Action (Ledger Context State) Failure Answer := fun journal =>
  mapState (journal.booking call) (action journal.unbooked)

theorem Action.booked_follows (call : HookCall Context) (action : Action State Failure Answer) :
    Follows Journal.unbooked (Action.booked call action) action := by
  intro journal
  rw [Action.booked]
  cases action journal.unbooked <;> rfl

namespace Visitor

def booked (visitor : Visitor Context (Action State Failure)) :
    Visitor Context (Action (Ledger Context State) Failure) where
  pre node := Action.booked ⟨.pre, node⟩ (visitor.pre node)
  visit node := Action.booked ⟨.visit, node⟩ (visitor.visit node)
  post node := Action.booked ⟨.post, node⟩ (visitor.post node)

/-- Keeping a ledger changes nothing in the walk. -/
theorem walk_booked_follows (visitor : Visitor Context (Action State Failure))
    (root : Node Context) :
    CoolTree.Follows Journal.unbooked (visitor.booked.walk root) (visitor.walk root) := by
  have corresponds : Visitor.Corresponds
      (fun Answer (left : Action (Ledger Context State) Failure Answer) right =>
        CoolTree.Follows Journal.unbooked left right)
      (fun node => node) visitor.booked visitor := {
    pre := fun node => Action.booked_follows ⟨.pre, node⟩ (visitor.pre node)
    visit := fun node => Action.booked_follows ⟨.visit, node⟩ (visitor.visit node)
    post := fun node => Action.booked_follows ⟨.post, node⟩ (visitor.post node) }
  exact corresponds.walk (Follows.sequential fun _ _ => rfl) .refl root

def runsOf (visitor : Visitor Context (Action State Failure)) (root : Node Context)
    (state : State) (log : Log) : List (HookRun Context State) :=
  (memoryAfter (visitor.booked.walk root ⟨⟨state, []⟩, log⟩)).state.runs

/-- The hook of a call.  A visit or post hook has nothing to tell and counts as
answering `false`. -/
def hook (visitor : Visitor Context (Action State Failure)) (call : HookCall Context) :
    Action State Failure Bool :=
  match call.phase with
  | .pre => visitor.pre call.node
  | .visit => (fun _ => false) <$> visitor.visit call.node
  | .post => (fun _ => false) <$> visitor.post call.node

def resultOf (visitor : Visitor Context (Action State Failure)) (run : HookRun Context State) :
    EStateM.Result (Stop Failure) (Journal State) Bool :=
  visitor.hook run.call run.before

def Answered (visitor : Visitor Context (Action State Failure))
    (runs : List (HookRun Context State)) : Prop :=
  ∀ run ∈ runs, ∃ handled after, visitor.resultOf run = .ok handled after

theorem Answered.append {visitor : Visitor Context (Action State Failure)}
    {runs : List (HookRun Context State)} (answered : visitor.Answered runs)
    {run : HookRun Context State} {handled : Bool} {after : Journal State}
    (hrun : visitor.resultOf run = .ok handled after) : visitor.Answered (runs ++ [run]) := by
  rw [Answered, List.forall_mem_append, List.forall_mem_singleton]
  exact ⟨answered, handled, after, hrun⟩

/-- A call that stopped is not among calls that were answered. -/
theorem Answered.notMem {visitor : Visitor Context (Action State Failure)}
    {runs : List (HookRun Context State)} (answered : visitor.Answered runs)
    {run : HookRun Context State} {stop : Stop Failure} {after : Journal State}
    (hrun : visitor.resultOf run = .error stop after) : run ∉ runs := by
  intro member
  obtain ⟨handled, journal, hanswer⟩ := answered run member
  cases hrun.symm.trans hanswer

/-- The last of the calls came to a stop, with which everything ended, and the
calls before were answered. -/
def StoppedAt (visitor : Visitor Context (Action State Failure)) (stop : Stop Failure)
    (journal : Journal (Ledger Context State)) : Prop :=
  ∃ earlier last, journal.state.runs = earlier ++ [last] ∧ visitor.Answered earlier ∧
    visitor.resultOf last = .error stop journal.unbooked

/-- After calls that were answered, the action makes calls that are answered, up to
the first one that stops; it then stops in the same way. -/
def EndsWithRun (visitor : Visitor Context (Action State Failure)) (Answer : Type)
    (action : Action (Ledger Context State) Failure Answer) : Prop :=
  ∀ journal, visitor.Answered journal.state.runs →
    match action journal with
    | .ok _ next => visitor.Answered next.state.runs
    | .error stop next => visitor.StoppedAt stop next ∨
        (∃ defect, stop = .malformed defect) ∧ visitor.Answered next.state.runs

namespace EndsWithRun

variable {visitor : Visitor Context (Action State Failure)}

theorem booked {call : HookCall Context} {action : Action State Failure Answer}
    {told : Answer → Bool} (hhook : visitor.hook call = told <$> action) :
    visitor.EndsWithRun Answer (Action.booked call action) := by
  intro journal answered
  have hresult : visitor.resultOf ⟨call, journal.unbooked⟩ = (told <$> action) journal.unbooked :=
    congrFun hhook journal.unbooked
  simp only [Functor.map, EStateM.map] at hresult
  rw [Action.booked]
  cases haction : action journal.unbooked with
  | ok answer next =>
      rw [haction] at hresult
      exact answered.append hresult
  | error stop next =>
      rw [haction] at hresult
      exact Or.inl ⟨journal.state.runs, _, rfl, answered, hresult⟩

theorem bind {action : Action (Ledger Context State) Failure Answer}
    {next : Answer → Action (Ledger Context State) Failure Result}
    (haction : visitor.EndsWithRun Answer action)
    (hnext : ∀ answer, visitor.EndsWithRun Result (next answer)) :
    visitor.EndsWithRun Result (action >>= next) := by
  intro journal answered
  have hfirst := haction journal answered
  simp only [Bind.bind, EStateM.bind]
  cases hresult : action journal with
  | ok answer middle =>
      rw [hresult] at hfirst
      exact hnext answer middle hfirst
  | error stop middle =>
      rw [hresult] at hfirst
      exact hfirst

/-- A walk adds to its hooks only what is answered or stops at a malformed node. -/
theorem sequential :
    Sequential fun Answer (action _ : Action (Ledger Context State) Failure Answer) =>
      visitor.EndsWithRun Answer action where
  pure _ _ answered := answered
  malformed defect _ answered := Or.inr ⟨⟨defect, rfl⟩, answered⟩
  note _ _ answered := answered
  bind := .bind

theorem walk (visitor : Visitor Context (Action State Failure)) (root : Node Context) :
    visitor.EndsWithRun Unit (visitor.booked.walk root) := by
  have corresponds : Visitor.Corresponds
      (fun Answer (action _ : Action (Ledger Context State) Failure Answer) =>
        visitor.EndsWithRun Answer action)
      (fun node => node) visitor.booked visitor.booked := {
    pre := fun node => .booked (id_map (visitor.pre node)).symm
    visit := fun node => .booked rfl
    post := fun node => .booked rfl }
  exact corresponds.walk sequential .refl root

end EndsWithRun

/-- How a walk ends, by the calls that it made. -/
theorem runsOf_of_walk (visitor : Visitor Context (Action State Failure)) (root : Node Context)
    (state : State) (log : Log) :
    match visitor.walk root ⟨state, log⟩ with
    | .ok _ _ => visitor.Answered (visitor.runsOf root state log)
    | .error stop journal =>
        (∃ earlier last, visitor.runsOf root state log = earlier ++ [last] ∧
          visitor.Answered earlier ∧ visitor.resultOf last = .error stop journal) ∨
        (∃ defect, stop = .malformed defect) ∧
          visitor.Answered (visitor.runsOf root state log) := by
  have hends := EndsWithRun.walk visitor root ⟨⟨state, []⟩, log⟩ (by simp [Answered])
  have hfollows := visitor.walk_booked_follows root ⟨⟨state, []⟩, log⟩
  rw [Journal.unbooked] at hfollows
  rw [← hfollows, runsOf]
  cases hwalk : visitor.booked.walk root ⟨⟨state, []⟩, log⟩ with
  | ok answer journal =>
      rw [hwalk] at hends
      exact hends
  | error stop journal =>
      rw [hwalk] at hends
      exact hends

section Failing

variable {visitor : Visitor Context (Action State Failure)} {root : Node Context} {state : State}
  {log : Log} {failure : Failure}

/-- A walk that a hook makes fail comes to the result of that call, its last one. -/
theorem exists_last_run {journal : Journal State}
    (hwalk : visitor.walk root ⟨state, log⟩ = .error (.failed failure) journal) :
    ∃ earlier last, visitor.runsOf root state log = earlier ++ [last] ∧
      visitor.Answered earlier ∧ visitor.resultOf last = .error (.failed failure) journal := by
  have hends := visitor.runsOf_of_walk root state log
  rw [hwalk] at hends
  rcases hends with hlast | ⟨⟨defect, hmalformed⟩, -⟩
  · exact hlast
  · cases hmalformed

/-- A walk fails exactly if one of its calls does. -/
theorem walk_fails_iff :
    (∃ journal, visitor.walk root ⟨state, log⟩ = .error (.failed failure) journal) ↔
      ∃ run ∈ visitor.runsOf root state log, ∃ after,
        visitor.resultOf run = .error (.failed failure) after := by
  constructor
  · rintro ⟨journal, hwalk⟩
    obtain ⟨earlier, last, hruns, -, hlast⟩ := exists_last_run hwalk
    exact ⟨last, by simp [hruns], journal, hlast⟩
  · rintro ⟨run, member, after, hrun⟩
    have hends := visitor.runsOf_of_walk root state log
    cases hwalk : visitor.walk root ⟨state, log⟩ with
    | ok answer journal =>
        rw [hwalk] at hends
        exact absurd member (hends.notMem hrun)
    | error stop journal =>
        rw [hwalk] at hends
        rcases hends with ⟨earlier, last, hruns, answered, hlast⟩ | ⟨-, answered⟩
        · rw [hruns, List.mem_append, List.mem_singleton] at member
          obtain rfl := member.resolve_left (answered.notMem hrun)
          obtain ⟨rfl, rfl⟩ := EStateM.Result.error.inj (hlast.symm.trans hrun)
          exact ⟨journal, rfl⟩
        · exact absurd member (answered.notMem hrun)

end Failing

end Visitor

end CoolTree
