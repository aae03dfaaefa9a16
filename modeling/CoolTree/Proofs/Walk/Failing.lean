import CoolTree.Proofs.Walk.Observation
import CoolTree.Proofs.Walk.Relation

/-!
# Failing at one call

A visitor can be made to fail at one of its calls and to behave as before up to
this call.  Its walk then makes the calls of the walk it had before, up to this
call and with it, and no others.
-/

namespace CoolTree

variable {Context State Failure Answer Result : Type}

/-- The action that counts how often it is performed, and that fails at one
performance, after doing there what it does. -/
def Action.failingAt (position : Nat) (failure : Failure) (action : Action State Failure Answer) :
    Action (State × Nat) Failure Answer := fun ⟨⟨state, earlier⟩, log⟩ =>
  match action ⟨state, log⟩ with
  | .ok answer ⟨state, log⟩ =>
      if earlier = position then
        .error (.failed failure) ⟨(state, earlier + 1), log⟩
      else
        .ok answer ⟨(state, earlier + 1), log⟩
  | .error stop ⟨state, log⟩ => .error stop ⟨(state, earlier + 1), log⟩

/-- The visitor that behaves like the given one but fails at one of its calls,
before which it lets a number of calls pass. -/
def Visitor.failingAt (position : Nat) (failure : Failure)
    (visitor : Visitor Context (Action State Failure)) :
    Visitor Context (Action (State × Nat) Failure) where
  pre node := (visitor.pre node).failingAt position failure
  visit node := (visitor.visit node).failingAt position failure
  post node := (visitor.post node).failingAt position failure

def Journal.counted (journal : Journal (Traced Context State Failure)) :
    Journal (Traced Context (State × Nat) Failure) :=
  ⟨⟨(journal.state.state, journal.state.calls.length), journal.state.calls⟩, journal.log⟩

/-- An action does what another one does as long as this makes few calls, and
stops at the call at a position when there is one. -/
structure CutsAt (position : Nat) (Answer : Type)
    (cut : Action (Traced Context (State × Nat) Failure) Failure Answer)
    (whole : Action (Traced Context State Failure) Failure Answer) : Prop where
  grows : Grows whole
  before : ∀ journal, (memoryAfter (whole journal)).state.calls.length ≤ position →
    cut journal.counted = mapState Journal.counted (whole journal)
  stops : ∀ journal, journal.state.calls.length ≤ position →
    position < (memoryAfter (whole journal)).state.calls.length →
    ∃ stop next, cut journal.counted = .error stop next ∧
      next.state.calls.map Call.made =
        ((memoryAfter (whole journal)).state.calls.take (position + 1)).map Call.made

namespace CutsAt

variable {position : Nat}

theorem of_silent {cut : Action (Traced Context (State × Nat) Failure) Failure Answer}
    {whole : Action (Traced Context State Failure) Failure Answer}
    (hsilent : ∀ journal, (memoryAfter (whole journal)).state.calls = journal.state.calls)
    (hcut : ∀ journal, cut journal.counted = mapState Journal.counted (whole journal)) :
    CutsAt position Answer cut whole where
  grows := .of_silent hsilent
  before journal _ := hcut journal
  stops journal hbefore hafter := by
    rw [hsilent] at hafter
    omega

theorem length_traced (phase : Phase) (node : Node Context) (told : Answer → Bool)
    (action : Action State Failure Answer) (journal : Journal (Traced Context State Failure)) :
    (memoryAfter (Action.traced phase node told action journal)).state.calls.length =
      journal.state.calls.length + 1 := by
  rw [Action.traced]
  cases action journal.untraced <;> simp [memoryAfter]

/-- The failing call itself is made, whatever the visitor answers there. -/
theorem traced (failure : Failure) (phase : Phase) (node : Node Context) (told : Answer → Bool)
    (action : Action State Failure Answer) :
    CutsAt position Answer (Action.traced phase node told (action.failingAt position failure))
      (Action.traced phase node told action) where
  grows := .traced phase node told action
  before journal hafter := by
    have hearlier : journal.state.calls.length ≠ position := by
      rw [length_traced] at hafter
      omega
    simp only [Action.traced, Action.failingAt, Journal.counted, Journal.untraced]
    cases action ⟨journal.state.state, journal.log⟩ with
    | ok answer next => simp [hearlier, mapState, Journal.counted]
    | error stop next => simp [mapState, Journal.counted]
  stops journal hbefore hafter := by
    have hlength := length_traced phase node told action journal
    obtain rfl : position = journal.state.calls.length := by omega
    rw [← hlength, List.take_length]
    simp only [Action.traced, Action.failingAt, Journal.counted, Journal.untraced]
    cases action ⟨journal.state.state, journal.log⟩ with
    | ok answer next =>
        simp only [if_true]
        exact ⟨_, _, rfl, by simp [memoryAfter, Call.made]⟩
    | error stop next => exact ⟨_, _, rfl, by simp [memoryAfter, Call.made]⟩

theorem bind {cut : Action (Traced Context (State × Nat) Failure) Failure Answer}
    {whole : Action (Traced Context State Failure) Failure Answer}
    {cutNext : Answer → Action (Traced Context (State × Nat) Failure) Failure Result}
    {wholeNext : Answer → Action (Traced Context State Failure) Failure Result}
    (hfirst : CutsAt position Answer cut whole)
    (hnext : ∀ answer, CutsAt position Result (cutNext answer) (wholeNext answer)) :
    CutsAt position Result (cut >>= cutNext) (whole >>= wholeNext) where
  grows := hfirst.grows.bind fun answer => (hnext answer).grows
  before journal hafter := by
    have hmiddle := (Grows.prefix_bind whole (fun answer => (hnext answer).grows) journal).length_le
    have hcut := hfirst.before journal (hmiddle.trans hafter)
    simp only [Bind.bind, EStateM.bind] at hafter ⊢
    rw [hcut]
    cases hwhole : whole journal with
    | ok answer middle =>
        rw [hwhole] at hafter
        exact (hnext answer).before middle hafter
    | error stop middle => rfl
  stops journal hbefore hafter := by
    have hmiddle := Grows.prefix_bind whole (fun answer => (hnext answer).grows) journal
    by_cases hearly : position < (memoryAfter (whole journal)).state.calls.length
    · -- The call is made in the first part already, and the rest of the trace comes after it.
      obtain ⟨stop, next, hcut, hcalls⟩ := hfirst.stops journal hbefore hearly
      refine ⟨stop, next, ?_, ?_⟩
      · simp only [Bind.bind, EStateM.bind, hcut]
      · obtain ⟨later, hlater⟩ := hmiddle
        rw [hcalls, ← hlater, List.take_append_of_le_length hearly]
    · have hlate := Nat.le_of_not_lt hearly
      have hcut := hfirst.before journal hlate
      simp only [Bind.bind, EStateM.bind] at hafter ⊢
      rw [hcut]
      cases hwhole : whole journal with
      | ok answer middle =>
          rw [hwhole] at hafter hlate
          exact (hnext answer).stops middle hlate hafter
      | error stop middle =>
          rw [hwhole] at hafter hlate
          exact absurd hlate (Nat.not_le_of_lt hafter)

theorem sequential : Sequential (@CutsAt Context State Failure position) where
  pure _ := .of_silent (fun _ => rfl) fun _ => rfl
  malformed _ := .of_silent (fun _ => rfl) fun _ => rfl
  note _ := .of_silent (fun _ => rfl) fun _ => rfl
  bind := .bind

/-- The walk of the visitor that fails at a call makes the calls of the walk of
the visitor that does not, up to this one. -/
theorem walk (failure : Failure) (visitor : Visitor Context (Action State Failure))
    (root : Node Context) :
    CutsAt position Unit ((visitor.failingAt position failure).traced.walk root)
      (visitor.traced.walk root) := by
  have corresponds : Visitor.Corresponds (@CutsAt Context State Failure position)
      (fun node => node) (visitor.failingAt position failure).traced visitor.traced := {
    pre := fun node => .traced failure .pre node id _
    visit := fun node => .traced failure .visit node _ _
    post := fun node => .traced failure .post node _ _ }
  exact corresponds.walk sequential .refl root

end CutsAt

/-- A visitor that fails at a call makes the calls up to this one. -/
theorem Visitor.map_made_callsOf_failingAt (visitor : Visitor Context (Action State Failure))
    (root : Node Context) (state : State) (log : Log) (position : Nat) (failure : Failure) :
    ((visitor.failingAt position failure).callsOf root (state, 0) log).map Call.made =
      ((visitor.callsOf root state log).take (position + 1)).map Call.made := by
  have hcuts : CutsAt position Unit ((visitor.failingAt position failure).traced.walk root)
      (visitor.traced.walk root) := .walk failure visitor root
  by_cases hreached : position < (visitor.callsOf root state log).length
  · obtain ⟨stop, next, hstop, hcalls⟩ := hcuts.stops ⟨⟨state, []⟩, log⟩ (Nat.zero_le _) hreached
    rw [callsOf, callsOf, ← hcalls]
    exact congrArg (fun outcome => (memoryAfter outcome).state.calls.map Call.made) hstop
  · have hbefore := hcuts.before ⟨⟨state, []⟩, log⟩ (Nat.le_of_not_lt hreached)
    rw [List.take_of_length_le (by omega)]
    have hcalls := congrArg (fun outcome => (memoryAfter outcome).state.calls.map Call.made) hbefore
    rw [callsOf, callsOf]
    refine hcalls.trans ?_
    cases visitor.traced.walk root ⟨⟨state, []⟩, log⟩ <;> rfl

end CoolTree
