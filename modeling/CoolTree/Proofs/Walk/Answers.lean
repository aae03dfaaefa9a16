import CoolTree.Proofs.Walk.Failing

/-!
# What the order of a walk depends on

A walk learns from a hook only whether it handled the node, failed or met a
malformed node.  So the walks of two visitors over one tree call the same hooks
for the same nodes until they get different answers, however different the
states of the visitors are.  If no answer differs, the walks also end alike.
-/

namespace CoolTree

variable {Context State Failure Answer Result : Type}
  {First Second FirstFailure SecondFailure : Type}

/-- Two sequences of calls part ways: they are the same up to a call that both
of them make, and this call gets different answers. -/
def PartWays (left right : List (Call Context Unit)) : Prop :=
  ∃ shared first second leftRest rightRest,
    left = shared ++ first :: leftRest ∧ right = shared ++ second :: rightRest ∧
      first.made = second.made ∧ first.answer ≠ second.answer

/-- What comes later does not bring the sequences together again. -/
theorem PartWays.of_prefix {left right longerLeft longerRight : List (Call Context Unit)}
    (apart : PartWays left right) (hleft : left <+: longerLeft) (hright : right <+: longerRight) :
    PartWays longerLeft longerRight := by
  obtain ⟨shared, first, second, leftRest, rightRest, rfl, rfl, hmade, hanswer⟩ := apart
  obtain ⟨leftLater, rfl⟩ := hleft
  obtain ⟨rightLater, rfl⟩ := hright
  refine ⟨shared, first, second, leftRest ++ leftLater, rightRest ++ rightLater, ?_, ?_,
    hmade, hanswer⟩
  · rw [List.append_assoc, List.cons_append]
  · rw [List.append_assoc, List.cons_append]

/-! ## Two walks in step -/

/-- The calls of a traced run, without the values of failures. -/
def Journal.heard (journal : Journal (Traced Context State Failure)) : List (Call Context Unit) :=
  journal.state.calls.map Call.plain

/-- Answers that a hook tells apart stay apart in what is heard of them. -/
theorem map_told_injective {Cause : Type} {told : Answer → Bool}
    (htold : Function.Injective told) :
    Function.Injective (Except.map told : Except Cause Answer → Except Cause Bool) := by
  intro left right heq
  cases left with
  | ok answer =>
      cases right with
      | ok other => exact congrArg Except.ok (htold (Except.ok.inj heq))
      | error cause => cases heq
  | error cause =>
      cases right with
      | ok other => cases heq
      | error other => exact congrArg Except.error (Except.error.inj heq)

/-- A traced call is heard with the ending that it has for the walk as well. -/
theorem Action.heard_traced (phase : Phase) (node : Node Context) (told : Answer → Bool)
    (action : Action State Failure Answer) (journal : Journal (Traced Context State Failure)) :
    (memoryAfter (Action.traced phase node told action journal)).heard =
        journal.heard ++ [⟨phase, node, (ending (action journal.untraced)).map told⟩] ∧
      ending (Action.traced phase node told action journal) =
        ending (action journal.untraced) := by
  rw [Action.traced]
  cases action journal.untraced <;> exact ⟨List.map_append, rfl⟩

/-- Two actions are in step: when they start with the same calls in their
traces, they come to calls that part ways, or to the same calls and the same
ending. -/
structure InStep (Answer : Type)
    (left : Action (Traced Context First FirstFailure) FirstFailure Answer)
    (right : Action (Traced Context Second SecondFailure) SecondFailure Answer) : Prop where
  leftGrows : Grows left
  rightGrows : Grows right
  agree : ∀ leftBefore rightBefore, leftBefore.heard = rightBefore.heard →
    PartWays (memoryAfter (left leftBefore)).heard (memoryAfter (right rightBefore)).heard ∨
      (memoryAfter (left leftBefore)).heard = (memoryAfter (right rightBefore)).heard ∧
        ending (left leftBefore) = ending (right rightBefore)

namespace InStep

/-- Actions that make no calls and always end alike are in step. -/
theorem of_silent {left : Action (Traced Context First FirstFailure) FirstFailure Answer}
    {right : Action (Traced Context Second SecondFailure) SecondFailure Answer}
    (hleft : ∀ journal, (memoryAfter (left journal)).state.calls = journal.state.calls)
    (hright : ∀ journal, (memoryAfter (right journal)).state.calls = journal.state.calls)
    (hending : ∀ leftBefore rightBefore,
      ending (left leftBefore) = ending (right rightBefore)) :
    InStep Answer left right where
  leftGrows := .of_silent hleft
  rightGrows := .of_silent hright
  agree leftBefore rightBefore hheard := by
    rw [Journal.heard, Journal.heard, hleft, hright]
    exact Or.inr ⟨hheard, hending leftBefore rightBefore⟩

/-- Calls of one hook for one node are in step: either the answers differ, or
the walks learn the same from them. -/
theorem traced (phase : Phase) (node : Node Context) {told : Answer → Bool}
    (htold : Function.Injective told) (left : Action First FirstFailure Answer)
    (right : Action Second SecondFailure Answer) :
    InStep Answer (Action.traced phase node told left)
      (Action.traced phase node told right) where
  leftGrows := .traced phase node told left
  rightGrows := .traced phase node told right
  agree leftBefore rightBefore hheard := by
    obtain ⟨hleft, hleftEnding⟩ := Action.heard_traced phase node told left leftBefore
    obtain ⟨hright, hrightEnding⟩ := Action.heard_traced phase node told right rightBefore
    rw [hleft, hright, hleftEnding, hrightEnding, hheard]
    by_cases hending : ending (left leftBefore.untraced) = ending (right rightBefore.untraced)
    · rw [hending]
      exact Or.inr ⟨rfl, rfl⟩
    · refine Or.inl ⟨rightBefore.heard, _, _, [], [], rfl, rfl, rfl, ?_⟩
      exact fun hanswer => hending (map_told_injective htold hanswer)

theorem bind
    {left : Action (Traced Context First FirstFailure) FirstFailure Answer}
    {right : Action (Traced Context Second SecondFailure) SecondFailure Answer}
    {leftNext : Answer → Action (Traced Context First FirstFailure) FirstFailure Result}
    {rightNext : Answer → Action (Traced Context Second SecondFailure) SecondFailure Result}
    (hfirst : InStep Answer left right)
    (hnext : ∀ answer, InStep Result (leftNext answer) (rightNext answer)) :
    InStep Result (left >>= leftNext) (right >>= rightNext) where
  leftGrows := hfirst.leftGrows.bind fun answer => (hnext answer).leftGrows
  rightGrows := hfirst.rightGrows.bind fun answer => (hnext answer).rightGrows
  agree leftBefore rightBefore hheard := by
    rcases hfirst.agree leftBefore rightBefore hheard with apart | ⟨hsame, hending⟩
    · left
      apply apart.of_prefix
      · exact (Grows.prefix_bind left (fun answer => (hnext answer).leftGrows) leftBefore).map _
      · exact (Grows.prefix_bind right (fun answer => (hnext answer).rightGrows) rightBefore).map _
    · simp only [Bind.bind, EStateM.bind]
      cases hleft : left leftBefore with
      | ok answer leftMiddle =>
          cases hright : right rightBefore with
          | ok other rightMiddle =>
              rw [hleft, hright] at hsame hending
              cases hending
              exact (hnext answer).agree leftMiddle rightMiddle hsame
          | error stop rightMiddle =>
              rw [hleft, hright] at hending
              cases hending
      | error stop leftMiddle =>
          cases hright : right rightBefore with
          | ok other rightMiddle =>
              rw [hleft, hright] at hending
              cases hending
          | error other rightMiddle =>
              rw [hleft, hright] at hsame hending
              exact Or.inr ⟨hsame, congrArg Except.error (Except.error.inj hending)⟩

theorem sequential : Sequential (@InStep Context First Second FirstFailure SecondFailure) where
  pure _ := .of_silent (fun _ => rfl) (fun _ => rfl) fun _ _ => rfl
  malformed _ := .of_silent (fun _ => rfl) (fun _ => rfl) fun _ _ => rfl
  note _ := .of_silent (fun _ => rfl) (fun _ => rfl) fun _ _ => rfl
  bind := .bind

/-- The walks of any two visitors over one tree are in step. -/
theorem walk (first : Visitor Context (Action First FirstFailure))
    (second : Visitor Context (Action Second SecondFailure)) (root : Node Context) :
    InStep Unit (first.traced.walk root) (second.traced.walk root) := by
  have corresponds : Visitor.Corresponds InStep (fun node => node) first.traced second.traced := {
    pre := fun node => .traced .pre node Function.injective_id _ _
    visit := fun node => .traced .visit node (Function.injective_of_subsingleton _) _ _
    post := fun node => .traced .post node (Function.injective_of_subsingleton _) _ _ }
  exact corresponds.walk sequential .refl root

end InStep

/-! ## Passive visitors -/

namespace Visitor

theorem Passive.answers_noting {visitor : Visitor Context (Action State Failure)}
    (passive : visitor.Passive fun _ _ => True) :
    visitor.traced.noting.Passive fun _ journal =>
      ∀ call ∈ journal.state.calls, call.answer = .ok false where
  pre node _ journal holds := by
    obtain ⟨next, hpre, -⟩ := passive.pre node [] journal.untraced trivial
    refine ⟨⟨⟨next.state, journal.state.calls ++ [⟨.pre, node, .ok false⟩]⟩, next.log⟩, ?_, ?_⟩
    · simp only [Visitor.noting, Visitor.traced, Action.traced, bind, EStateM.bind, hpre]
      rfl
    · simpa [or_imp, forall_and] using holds
  visit node _ journal holds := by
    obtain ⟨next, hvisit, -⟩ := passive.visit node [] journal.untraced trivial
    refine ⟨⟨⟨next.state, journal.state.calls ++ [⟨.visit, node, .ok false⟩]⟩, next.log⟩, ?_, ?_⟩
    · simp only [Visitor.noting, Visitor.traced, Action.traced, hvisit]
    · simpa [or_imp, forall_and] using holds
  post node _ journal holds := by
    obtain ⟨next, hpost, -⟩ := passive.post node [] journal.untraced trivial
    refine ⟨⟨⟨next.state, journal.state.calls ++ [⟨.post, node, .ok false⟩]⟩, next.log⟩, ?_, ?_⟩
    · simp only [Visitor.noting, Visitor.traced, Action.traced, hpost]
    · simpa [or_imp, forall_and] using holds

/-- All answers of a passive visitor are the same. -/
theorem Passive.answer_of_mem_callsOf {visitor : Visitor Context (Action State Failure)}
    (passive : visitor.Passive fun _ _ => True) {root : Node Context} {state : State} {log : Log}
    {call : Call Context Failure} (member : call ∈ visitor.callsOf root state log) :
    call.answer = .ok false := by
  obtain ⟨next, hdescend, hanswers⟩ := passive.answers_noting.descend root 0 []
    ⟨⟨state, []⟩, log.push (.walking root.kind)⟩ (by simp)
  rw [callsOf, walk_eq_walkRecursively, walkRecursively] at member
  simp only [bind, EStateM.bind, Action.note, hdescend] at member
  cases hdefect : Node.firstDefect? root.preorder with
  | some defect =>
      rw [hdefect] at member
      exact hanswers call member
  | none =>
      rw [hdefect] at member
      exact hanswers call member

/-- Sequences whose answers are all the same do not part ways. -/
theorem not_partWays_of_answers {left right : List (Call Context Unit)}
    (hleft : ∀ call ∈ left, call.answer = .ok false)
    (hright : ∀ call ∈ right, call.answer = .ok false) : ¬ PartWays left right := by
  rintro ⟨shared, first, second, leftRest, rightRest, rfl, rfl, -, hanswer⟩
  apply hanswer
  rw [hleft first (by simp), hright second (by simp)]

/-- The order of a walk is a function of the tree and of the answers of the
hooks.  The calls of any two visitors walked over one tree are the same, up to
and with the first call that they answer differently; when there is none, all
calls are the same and the walks end alike.  So all visitors that never handle a
node and never fail make the same calls.  And a visitor that behaves like
another one but fails at the call at some position makes the calls of the other
one up to this call. -/
theorem calls_of_answers (first : Visitor Context (Action First FirstFailure))
    (second : Visitor Context (Action Second SecondFailure)) (root : Node Context)
    (firstState : First) (secondState : Second) (firstLog secondLog : Log) :
    let calls := first.callsOf root firstState firstLog
    let others := second.callsOf root secondState secondLog
    (PartWays (calls.map Call.plain) (others.map Call.plain) ∨
      calls.map Call.plain = others.map Call.plain ∧
        ending (first.walk root ⟨firstState, firstLog⟩) =
          ending (second.walk root ⟨secondState, secondLog⟩)) ∧
    ((first.Passive fun _ _ => True) → (second.Passive fun _ _ => True) →
      calls.map Call.made = others.map Call.made ∧
        ending (first.walk root ⟨firstState, firstLog⟩) =
          ending (second.walk root ⟨secondState, secondLog⟩)) ∧
    ∀ position failure,
      ((first.failingAt position failure).callsOf root (firstState, 0) firstLog).map Call.made =
        (calls.take (position + 1)).map Call.made := by
  intro calls others
  have hagree := (InStep.walk first second root).agree ⟨⟨firstState, []⟩, firstLog⟩
    ⟨⟨secondState, []⟩, secondLog⟩ rfl
  rw [ending_walk_traced, ending_walk_traced] at hagree
  refine ⟨hagree, ?_, ?_⟩
  · intro hfirst hsecond
    rcases hagree with apart | ⟨hcalls, hending⟩
    · refine absurd apart (not_partWays_of_answers ?_ ?_)
      · rintro _ member
        obtain ⟨call, hcall, rfl⟩ := List.mem_map.mp member
        rw [Call.plain, hfirst.answer_of_mem_callsOf hcall]
        rfl
      · rintro _ member
        obtain ⟨call, hcall, rfl⟩ := List.mem_map.mp member
        rw [Call.plain, hsecond.answer_of_mem_callsOf hcall]
        rfl
    · refine ⟨?_, hending⟩
      have hmade := congrArg (List.map Call.made) hcalls
      simp only [Journal.heard, List.map_map, Function.comp_def, Call.made_plain] at hmade
      exact hmade
  · intro position failure
    exact first.map_made_callsOf_failingAt root firstState firstLog position failure

end Visitor

end CoolTree
