import CoolTree.Proofs.Walk.Calls
import CoolTree.Proofs.Walk.Recalling
import CoolTree.Proofs.Walk.Stopping

/-!
# Failures across nested walks

A hook that has children walked is open while their walks go on, and hooks called
there may be open inside it.  A chronicle of all these walks tells when each call
begins and when it ends, with what.  If the hooks hand on what a walk of theirs
fails with, the first call that fails is followed by the ends of the calls that
are open, from the inside to the outside, all with the same failure, and by
nothing else.
-/

namespace CoolTree

variable {Context State Failure Answer Result : Type}

/-! ## Chronicles -/

/-- A call of a hook begins, or it ends with an answer or a failure and leaves a
state.  A visit or post hook has nothing to tell and counts as answering `false`. -/
inductive Happening (Context State Failure : Type) where
  | begins (call : HookCall Context)
  | ends (call : HookCall Context) (answer : Except Failure Bool) (state : State)

def Happening.fails : Happening Context State Failure → Bool
  | ends _ (.error _) _ => true
  | _ => false

/-- The state of a visitor with what happened so far, oldest first, in whichever walk. -/
structure Chronicle (Context State Failure : Type) where
  state : State
  happenings : List (Happening Context State Failure)

/-- The script that goes on with a chronicle and closes it with the end of its call. -/
def Script.chronicling (call : HookCall Context) (told : Answer → Bool) :
    Script State Failure Answer → List (Happening Context State Failure) →
      Script (Chronicle Context State Failure) Failure Answer
  | finish answer state, happenings =>
      finish answer ⟨state, happenings ++ [.ends call (answer.map told) state]⟩
  | dispatch position state resume, happenings =>
      dispatch position ⟨state, happenings⟩ fun outcome chronicle =>
        (resume outcome chronicle.state).chronicling call told chronicle.happenings

def Hook.chronicling (call : HookCall Context) (told : Answer → Bool)
    (hook : Hook State Failure Answer) :
    Hook (Chronicle Context State Failure) Failure Answer := fun chronicle =>
  (hook chronicle.state).chronicling call told (chronicle.happenings ++ [.begins call])

theorem Script.chronicling_seenAs (call : HookCall Context) (told : Answer → Bool)
    (script : Script State Failure Answer) (happenings : List (Happening Context State Failure)) :
    (script.chronicling call told happenings).SeenAs Chronicle.state script := by
  induction script generalizing happenings with
  | finish answer state => exact .finish answer (Chronicle.mk state _)
  | dispatch position state resume ih =>
      exact .dispatch position (Chronicle.mk state happenings) fun outcome next =>
        ih outcome next.state next.happenings

namespace Visitor

def chronicling (visitor : Visitor Context (Hook State Failure)) :
    Visitor Context (Hook (Chronicle Context State Failure) Failure) where
  pre node := (visitor.pre node).chronicling ⟨.pre, node⟩ id
  visit node := (visitor.visit node).chronicling ⟨.visit, node⟩ fun _ => false
  post node := (visitor.post node).chronicling ⟨.post, node⟩ fun _ => false

/-- Keeping a chronicle changes nothing in the walks. -/
theorem drive_chronicling_follows (visitor : Visitor Context (Hook State Failure))
    (root : Node Context) :
    CoolTree.Follows (Journal.seen Chronicle.state) (visitor.chronicling.drive root)
      (visitor.drive root) := by
  have seen : visitor.chronicling.SeenAs Chronicle.state visitor := {
    pre := fun _ _ => Script.chronicling_seenAs _ _ _ _
    visit := fun _ _ => Script.chronicling_seenAs _ _ _ _
    post := fun _ _ => Script.chronicling_seenAs _ _ _ _ }
  exact seen.drive root

/-- What happens in the walk of a visitor and in all walks nested in it. -/
def happeningsOf (visitor : Visitor Context (Hook State Failure)) (root : Node Context)
    (state : State) (log : Log) : List (Happening Context State Failure) :=
  (memoryAfter (visitor.chronicling.drive root ⟨⟨state, []⟩, log⟩)).state.happenings

end Visitor

/-! ## Hooks that hand failures on -/

/-- A script that ends at once, and with the very same failure, when a walk that it
asks for fails. -/
inductive Script.PassesOn : Script State Failure Answer → Prop
  | finish (answer : Except Failure Answer) (state : State) : PassesOn (.finish answer state)
  | dispatch (position : Nat) (state : State)
      {resume : Except Failure Unit → State → Script State Failure Answer}
      (passes : ∀ failure state, resume (.error failure) state = .finish (.error failure) state)
      (later : ∀ state, PassesOn (resume (.ok ()) state)) :
      PassesOn (.dispatch position state resume)

structure Visitor.PassesOn (visitor : Visitor Context (Hook State Failure)) : Prop where
  pre : ∀ node state, (visitor.pre node state).PassesOn
  visit : ∀ node state, (visitor.visit node state).PassesOn
  post : ∀ node state, (visitor.post node state).PassesOn

theorem Script.PassesOn.andThen {script : Script State Failure Answer}
    {next : Answer → Hook State Failure Result} (hscript : script.PassesOn)
    (hnext : ∀ answer state, (next answer state).PassesOn) : (script.andThen next).PassesOn := by
  induction hscript with
  | finish answer state =>
      cases answer with
      | ok answer => exact hnext answer state
      | error failure => exact .finish (.error failure) state
  | dispatch position state passes later ih =>
      refine .dispatch position state (fun failure state => ?_) ih
      rw [passes]
      rfl

namespace Recorder

variable (recorder : Recorder Context) (hook? : Option Kind) (node : Node Context)

theorem passesOn_record (phase : Phase) (recording : Recording Context) :
    (recorder.record phase hook? node recording).PassesOn := by
  rw [record]
  cases recorder.failure? with
  | none => exact .finish _ _
  | some point =>
      dsimp only
      split_ifs <;> exact .finish _ _

theorem passesOn_pre (recording : Recording Context) :
    (recorder.pre hook? node recording).PassesOn := by
  apply (recorder.passesOn_record hook? node .pre recording).andThen
  intro _ recording
  cases recorder.drive? node with
  | none => exact .finish _ recording
  | some drive =>
      have hpositions : ∀ (positions : List Nat) (recording : Recording Context),
          (positions.forM (Hook.dispatch : Nat → Hook _ HookFailure Unit) recording).PassesOn := by
        intro positions
        induction positions with
        | nil => exact fun recording => .finish _ recording
        | cons position rest ih =>
            exact fun recording => .dispatch position recording (fun _ _ => rfl) ih
      exact (hpositions drive.positions recording).andThen fun _ recording => .finish _ recording

/-- A recorder lets the failures of the walks that it drives through. -/
theorem passesOn : recorder.hooks.visitor.PassesOn := by
  cases hoverrides : recorder.overrides with
  | none =>
      rw [hooks, hoverrides]
      exact ⟨fun _ => .finish _, fun _ => recorder.passesOn_record _ _ _, fun _ => .finish _⟩
  | generic own =>
      refine ⟨fun node recording => ?_, fun node recording => ?_, fun node recording => ?_⟩
      · rw [visitor_pre hoverrides]
        exact recorder.passesOn_pre _ node recording
      · rw [visitor_visit hoverrides]
        exact recorder.passesOn_record _ node .visit recording
      · rw [visitor_post hoverrides]
        exact recorder.passesOn_record _ node .post recording

end Recorder

/-! ## Open calls -/

/-- The calls that are open after some happenings, the innermost one first.  Only
the innermost call can end. -/
inductive OpenAfter : List (Happening Context State Failure) → List (HookCall Context) → Prop
  | start : OpenAfter [] []
  | begins {happenings : List (Happening Context State Failure)} {stack : List (HookCall Context)}
      (call : HookCall Context) :
      OpenAfter happenings stack → OpenAfter (happenings ++ [.begins call]) (call :: stack)
  | ends {happenings : List (Happening Context State Failure)} {stack : List (HookCall Context)}
      {call : HookCall Context} (answer : Except Failure Bool) (state : State) :
      OpenAfter happenings (call :: stack) →
        OpenAfter (happenings ++ [.ends call answer state]) stack

def Calm (happenings : List (Happening Context State Failure)) : Prop :=
  ∀ happening ∈ happenings, happening.fails = false

theorem Calm.append {happenings : List (Happening Context State Failure)}
    (calm : Calm happenings) {happening : Happening Context State Failure}
    (hcalm : happening.fails = false) : Calm (happenings ++ [happening]) := by
  rw [Calm, List.forall_mem_append, List.forall_mem_singleton]
  exact ⟨calm, hcalm⟩

theorem Calm.ends_notMem {happenings : List (Happening Context State Failure)}
    (calm : Calm happenings) {call : HookCall Context} {failure : Failure} {state : State} :
    .ends call (.error failure) state ∉ happenings :=
  fun member => Bool.noConfusion (calm _ member)

/-- After a first failure there are only the ends of open calls, from the innermost
one outwards, all with that failure and with the state that it left.  The calls of
the stack are still open. -/
def Unwound (failure : Failure) (state : State) (stack : List (HookCall Context))
    (happenings : List (Happening Context State Failure)) : Prop :=
  ∃ earlier innermost outer,
    happenings =
        earlier ++ (innermost :: outer).map (fun call => .ends call (.error failure) state) ∧
      Calm earlier ∧ OpenAfter earlier (innermost :: (outer ++ stack))

theorem Unwound.ends {failure : Failure} {state : State} {call : HookCall Context}
    {stack : List (HookCall Context)} {happenings : List (Happening Context State Failure)}
    (unwound : Unwound failure state (call :: stack) happenings) :
    Unwound failure state stack (happenings ++ [.ends call (.error failure) state]) := by
  obtain ⟨earlier, innermost, outer, rfl, calm, hopen⟩ := unwound
  refine ⟨earlier, innermost, outer ++ [call], by simp, calm, ?_⟩
  rwa [List.append_assoc, List.singleton_append]

/-- Without a failure the calls of the stack stay open, and a failure that goes
through leaves them to be ended. -/
def LeavesOpen (stack : List (HookCall Context)) :
    EStateM.Result (Stop Failure) (Journal (Chronicle Context State Failure)) Answer → Prop
  | .ok _ next => Calm next.state.happenings ∧ OpenAfter next.state.happenings stack
  | .error (.failed failure) next =>
      Unwound failure next.state.state stack next.state.happenings
  | .error (.malformed _) next => Calm next.state.happenings

/-- An action that closes what it opens, and that lets a failure through at once. -/
def Unwinds (action : Action (Chronicle Context State Failure) Failure Answer) : Prop :=
  ∀ journal stack, Calm journal.state.happenings → OpenAfter journal.state.happenings stack →
    LeavesOpen stack (action journal)

namespace Unwinds

theorem bind {action : Action (Chronicle Context State Failure) Failure Answer}
    {next : Answer → Action (Chronicle Context State Failure) Failure Result}
    (haction : Unwinds action) (hnext : ∀ answer, Unwinds (next answer)) :
    Unwinds (action >>= next) := by
  intro journal stack calm hopen
  have hfirst := haction journal stack calm hopen
  simp only [Bind.bind, EStateM.bind]
  cases hresult : action journal with
  | ok answer middle =>
      rw [hresult] at hfirst
      exact hnext answer middle stack hfirst.1 hfirst.2
  | error stop middle =>
      rw [hresult] at hfirst
      cases stop <;> exact hfirst

/-- A walk adds nothing to the chronicle by itself. -/
theorem sequential :
    Sequential fun Answer
      (action _ : Action (Chronicle Context State Failure) Failure Answer) => Unwinds action where
  pure _ _ _ calm hopen := ⟨calm, hopen⟩
  malformed _ _ _ calm _ := calm
  note _ _ _ calm hopen := ⟨calm, hopen⟩
  bind := .bind

end Unwinds

/-- A script of an open call closes that call, whatever walks it asks for, and hands
on the failure of each of them. -/
theorem Script.PassesOn.leavesOpen {call : HookCall Context} {told : Answer → Bool}
    {children : List (Node Context)}
    {walk : Node Context → Action (Chronicle Context State Failure) Failure Unit}
    (hwalk : ∀ child, Unwinds (walk child)) {script : Script State Failure Answer}
    (hscript : script.PassesOn) {stack : List (HookCall Context)}
    {happenings : List (Happening Context State Failure)} (calm : Calm happenings)
    (hopen : OpenAfter happenings (call :: stack)) (log : Log) :
    LeavesOpen stack ((script.chronicling call told happenings).perform children walk log) := by
  induction hscript generalizing happenings log with
  | finish answer state =>
      cases answer with
      | ok answer => exact ⟨calm.append rfl, hopen.ends _ _⟩
      | error failure => exact ⟨happenings, call, [], rfl, calm, hopen⟩
  | dispatch position state passes later ih =>
      rw [chronicling, perform]
      cases children[position]? with
      | none => exact ih state calm hopen log
      | some child =>
          have hchild := hwalk child ⟨⟨state, happenings⟩, log⟩ (call :: stack) calm hopen
          dsimp only
          cases hresult : walk child ⟨⟨state, happenings⟩, log⟩ with
          | ok answer next =>
              rw [hresult] at hchild
              exact ih next.state.state hchild.1 hchild.2 next.log
          | error stop next =>
              rw [hresult] at hchild
              cases stop with
              | failed failure =>
                  dsimp only
                  rw [passes]
                  exact hchild.ends
              | malformed defect => exact hchild

/-- The call of a hook that hands failures on is closed when it is over. -/
theorem Hook.unwinds_chronicling {call : HookCall Context} {told : Answer → Bool}
    {hook : Hook State Failure Answer} (passes : ∀ state, (hook state).PassesOn)
    {walk : Node Context → Action (Chronicle Context State Failure) Failure Unit}
    (hwalk : ∀ child, Unwinds (walk child)) (node : Node Context) :
    Unwinds ((hook.chronicling call told).perform node walk) := by
  intro journal stack calm hopen
  exact (passes journal.state.state).leavesOpen hwalk (calm.append rfl) (hopen.begins call)
    journal.log

namespace Visitor

variable {visitor : Visitor Context (Hook State Failure)}

theorem PassesOn.performedBy (passes : visitor.PassesOn)
    {walk : Node Context → Action (Chronicle Context State Failure) Failure Unit}
    (hwalk : ∀ child, Unwinds (walk child)) :
    Visitor.Corresponds
      (fun Answer (action _ : Action (Chronicle Context State Failure) Failure Answer) =>
        Unwinds action)
      (fun node => node) (visitor.chronicling.performedBy walk)
      (visitor.chronicling.performedBy walk) where
  pre node := Hook.unwinds_chronicling (passes.pre node) hwalk node
  visit node := Hook.unwinds_chronicling (passes.visit node) hwalk node
  post node := Hook.unwinds_chronicling (passes.post node) hwalk node

/-- Failures go through the walks nested to any depth. -/
theorem PassesOn.performing (passes : visitor.PassesOn) (depth : Nat) :
    Visitor.Corresponds
      (fun Answer (action _ : Action (Chronicle Context State Failure) Failure Answer) =>
        Unwinds action)
      (fun node => node) (visitor.chronicling.performing depth)
      (visitor.chronicling.performing depth) := by
  induction depth with
  | zero => exact passes.performedBy fun _ => Unwinds.sequential.pure ()
  | succ depth ih => exact passes.performedBy fun child => ih.walk Unwinds.sequential .refl child

/-- What happened in the walks, by how the outermost one ended. -/
theorem PassesOn.happeningsOf_of_drive (passes : visitor.PassesOn) (root : Node Context) (state : State)
    (log : Log) :
    match visitor.drive root ⟨state, log⟩ with
    | .error (.failed failure) journal =>
        Unwound failure journal.state [] (visitor.happeningsOf root state log)
    | _ => Calm (visitor.happeningsOf root state log) := by
  have hunwinds : Unwinds (visitor.chronicling.drive root) :=
    (passes.performing root.count).walk Unwinds.sequential .refl root
  have hleaves := hunwinds ⟨⟨state, []⟩, log⟩ [] (by simp [Calm]) .start
  have hfollows := visitor.drive_chronicling_follows root ⟨⟨state, []⟩, log⟩
  rw [Journal.seen] at hfollows
  rw [← hfollows, Visitor.happeningsOf]
  cases hdrive : visitor.chronicling.drive root ⟨⟨state, []⟩, log⟩ with
  | ok answer journal =>
      rw [hdrive] at hleaves
      exact hleaves.1
  | error stop journal =>
      rw [hdrive] at hleaves
      cases stop <;> exact hleaves

section Failing

variable {root : Node Context} {state : State} {log : Log} {failure : Failure}

theorem PassesOn.unwound (passes : visitor.PassesOn) {journal : Journal State}
    (hdrive : visitor.drive root ⟨state, log⟩ = .error (.failed failure) journal) :
    Unwound failure journal.state [] (visitor.happeningsOf root state log) := by
  have hhappenings := passes.happeningsOf_of_drive root state log
  rwa [hdrive] at hhappenings

/-- The outermost walk fails exactly if some call in one of the walks does, and with
its failure. -/
theorem PassesOn.drive_fails_iff (passes : visitor.PassesOn) :
    (∃ journal, visitor.drive root ⟨state, log⟩ = .error (.failed failure) journal) ↔
      ∃ call after, .ends call (.error failure) after ∈ visitor.happeningsOf root state log := by
  constructor
  · rintro ⟨journal, hdrive⟩
    obtain ⟨earlier, innermost, outer, hhappenings, -, -⟩ := passes.unwound hdrive
    exact ⟨innermost, journal.state, by simp [hhappenings]⟩
  · rintro ⟨call, after, member⟩
    have hhappenings := passes.happeningsOf_of_drive root state log
    cases hdrive : visitor.drive root ⟨state, log⟩ with
    | ok answer journal =>
        rw [hdrive] at hhappenings
        exact absurd member hhappenings.ends_notMem
    | error stop journal =>
        rw [hdrive] at hhappenings
        cases stop with
        | malformed defect => exact absurd member hhappenings.ends_notMem
        | failed other =>
            obtain ⟨earlier, innermost, outer, heq, calm, -⟩ := hhappenings
            rw [heq, List.mem_append, List.mem_map] at member
            obtain ⟨opened, -, hends⟩ := member.resolve_left calm.ends_notMem
            cases hends
            exact ⟨journal, rfl⟩

end Failing

/-- The first failure ends a walk.  A walk fails exactly if a call of a hook does;
that call is its last one, the calls before it were answered, and the walk comes to
what the call came to, its failure and its journal.  When hooks hand on at once
what walks of their own fail with, the outermost walk fails exactly if a call in
one of all these walks does.  The first call that does is the innermost of the
calls that are open then; after it nothing begins, and the open calls end one after
the other with its failure and in the state that it left. -/
theorem first_failure_ends_walk (root : Node Context) (state : State) (log : Log) :
    (∀ visitor : Visitor Context (Action State Failure),
      (∀ failure, (∃ journal, visitor.walk root ⟨state, log⟩ = .error (.failed failure) journal) ↔
        ∃ run ∈ visitor.runsOf root state log, ∃ after,
          visitor.resultOf run = .error (.failed failure) after) ∧
      ∀ failure journal, visitor.walk root ⟨state, log⟩ = .error (.failed failure) journal →
        ∃ earlier last, visitor.runsOf root state log = earlier ++ [last] ∧
          (∀ run ∈ earlier, ∃ handled after, visitor.resultOf run = .ok handled after) ∧
          visitor.resultOf last = .error (.failed failure) journal) ∧
    ∀ visitor : Visitor Context (Hook State Failure), visitor.PassesOn →
      (∀ failure, (∃ journal, visitor.drive root ⟨state, log⟩ = .error (.failed failure) journal) ↔
        ∃ call after, .ends call (.error failure) after ∈ visitor.happeningsOf root state log) ∧
      ∀ failure journal, visitor.drive root ⟨state, log⟩ = .error (.failed failure) journal →
        ∃ earlier innermost outer, visitor.happeningsOf root state log =
            earlier ++ (innermost :: outer).map
              (fun call => .ends call (.error failure) journal.state) ∧
          (∀ happening ∈ earlier, happening.fails = false) ∧
          OpenAfter earlier (innermost :: outer) := by
  refine ⟨fun visitor => ⟨fun failure => walk_fails_iff, fun failure journal hwalk => ?_⟩,
    fun visitor passes => ⟨fun failure => passes.drive_fails_iff, fun failure journal hdrive => ?_⟩⟩
  · exact exists_last_run hwalk
  · obtain ⟨earlier, innermost, outer, hhappenings, calm, hopen⟩ := passes.unwound hdrive
    rw [List.append_nil] at hopen
    exact ⟨earlier, innermost, outer, hhappenings, calm, hopen⟩

/-- Two nested blocks take their only child twice, and the second visit of the leaf
fails.  The pre hooks of both blocks are open then, and the failure goes through
them.  For the outermost walk it is its first call that fails. -/
theorem first_failure_ends_walk_blocks :
    let recorder : Recorder Nat :=
      { drive? := DriveRule.drive? [⟨.block, .twice, false⟩]
        failure? := some ⟨.visit, some .noExpr, 1⟩ }
    let root : Node Nat := .expression (.block 0 [.block 1 [.noExpr 2]])
    let failure : HookFailure := ⟨.visit, .noExpr⟩
    recorder.hooks.visitor.PassesOn ∧
      ∃ journal,
        recorder.hooks.visitor.drive root ⟨.empty, #[]⟩ = .error (.failed failure) journal ∧
        (∃ earlier last,
          (recorder.hooks.visitor.performing root.count).runsOf root .empty #[] =
            earlier ++ [last] ∧
          (recorder.hooks.visitor.performing root.count).resultOf last =
            .error (.failed failure) journal) ∧
        ∃ earlier innermost outer,
          recorder.hooks.visitor.happeningsOf root .empty #[] =
            earlier ++ (innermost :: outer).map
              (fun call => .ends call (.error failure) journal.state) ∧
          OpenAfter earlier (innermost :: outer) ∧ outer.length = 2 := by
  intro recorder root failure
  have hfails : outcome (recorder.hooks.visitor.drive root ⟨.empty, #[]⟩) =
      .error (.failed failure) := by decide +kernel
  have hthree :
      (recorder.hooks.visitor.happeningsOf root .empty #[]).countP Happening.fails = 3 := by
    decide +kernel
  obtain ⟨hwalks, hnested⟩ := first_failure_ends_walk root Recording.empty #[]
  cases hdrive : recorder.hooks.visitor.drive root ⟨.empty, #[]⟩ with
  | ok answer journal =>
      rw [hdrive] at hfails
      cases hfails
  | error stop journal =>
      rw [hdrive] at hfails
      cases hfails
      obtain ⟨first, last, hruns, -, hlast⟩ := (hwalks _).2 failure journal hdrive
      obtain ⟨earlier, innermost, outer, hhappenings, calm, hopen⟩ :=
        (hnested _ recorder.passesOn).2 failure journal hdrive
      have hcalm : earlier.countP Happening.fails = 0 := by
        simpa [List.countP_eq_zero] using calm
      have hlength : (innermost :: outer).length = 3 := by
        rw [hhappenings, List.countP_append, hcalm, Nat.zero_add, List.countP_map] at hthree
        exact (List.countP_eq_length.mpr fun _ _ => rfl).symm.trans hthree
      exact ⟨recorder.passesOn, journal, rfl, ⟨first, last, hruns, hlast⟩, earlier, innermost,
        outer, hhappenings, hopen, Nat.succ.inj hlength⟩

end Visitor

end CoolTree
