import CoolTree.Proofs.Walk.Nesting
import CoolTree.Proofs.Walk.Passive
import CoolTree.Walk.Recorder

/-!
# The calls of a recorder

The hooks that a recorder has called, and their order, are a list that the
tree and the recorder's answers determine: at a node the pre hook, then the
children that it drives walks over itself, and then, unless it handles the node,
the children again and the last two hooks.  A recorder that never fails makes
these calls one after the other, up to the first malformed node.  Driven walks
start afresh inside a hook, and still all calls come in this one order.
-/

namespace CoolTree

variable {Context State Failure Answer Result : Type}

/-! ## Performing hooks -/

namespace Script

/-- A hook that goes on with another one is performed like both in turn. -/
theorem perform_andThen (children : List (Node Context))
    (walk : Node Context → Action State Failure Unit) (next : Answer → Hook State Failure Result)
    (script : Script State Failure Answer) (log : Log) :
    (script.andThen next).perform children walk log =
      match script.perform children walk log with
      | .ok answer ⟨state, log⟩ => (next answer state).perform children walk log
      | .error stop journal => .error stop journal := by
  induction script generalizing log with
  | finish answer state => cases answer <;> rfl
  | dispatch position state resume ih =>
      rw [andThen, perform, perform]
      cases hchild : children[position]? with
      | none => exact ih (.ok ()) state log
      | some child =>
          dsimp only
          cases walk child ⟨state, log⟩ with
          | ok answer journal => exact ih (.ok ()) journal.state journal.log
          | error stop journal =>
              cases stop with
              | failed failure => exact ih (.error failure) journal.state journal.log
              | malformed defect => rfl

end Script

namespace Hook

variable (node : Node Context) (walk : Node Context → Action State Failure Unit)

@[simp]
theorem perform_pure (answer : Answer) :
    (pure answer : Hook State Failure Answer).perform node walk = pure answer := rfl

@[simp]
theorem perform_bind (hook : Hook State Failure Answer)
    (next : Answer → Hook State Failure Result) :
    (hook >>= next).perform node walk =
      hook.perform node walk >>= fun answer => (next answer).perform node walk := by
  funext journal
  obtain ⟨state, log⟩ := journal
  have hboth := Script.perform_andThen node.children walk next (hook state) log
  simp only [bind, EStateM.bind, perform] at hboth ⊢
  rw [hboth]
  cases (hook state).perform node.children walk log <;> rfl

theorem perform_dispatch_none {position : Nat} (hchild : node.children[position]? = none) :
    (dispatch position).perform node walk = pure () := by
  funext journal
  rw [perform, dispatch, Script.perform, hchild]
  rfl

theorem perform_dispatch_some {position : Nat} {child : Node Context}
    (hchild : node.children[position]? = some child) :
    (dispatch position).perform node walk = walk child := by
  funext journal
  rw [perform, dispatch, Script.perform, hchild]
  dsimp only
  cases walk child journal with
  | ok answer journal => rfl
  | error stop journal => cases stop <;> rfl

/-- A hook that has children walked one after the other performs these walks one
after the other; positions without a child are skipped. -/
theorem perform_forM_dispatch (positions : List Nat) :
    (positions.forM dispatch).perform node walk =
      (positions.filterMap fun position => node.children[position]?).forM walk := by
  induction positions with
  | nil => rfl
  | cons position rest ih =>
      rw [List.forM_eq_forM, List.forM_cons, perform_bind]
      cases hchild : node.children[position]? with
      | none =>
          rw [perform_dispatch_none node walk hchild, pure_bind, List.filterMap_cons_none hchild]
          exact ih
      | some child =>
          rw [perform_dispatch_some node walk hchild, List.filterMap_cons_some hchild,
            List.forM_eq_forM, List.forM_cons]
          exact bind_congr fun _ => ih

end Hook

/-! ## Calls -/

structure HookCall (Context : Type) where
  phase : Phase
  node : Node Context

namespace HookCall

/-- The defect that stops a walk instead of this call.  A walk looks for one
before the first hook of a node only. -/
def defect? (call : HookCall Context) : Option Defect :=
  match call.phase with
  | .pre => call.node.defect?
  | .visit | .post => none

def isSound (call : HookCall Context) : Bool :=
  call.defect?.isNone

def entered? (call : HookCall Context) : Option (Node Context) :=
  match call.phase with
  | .pre => some call.node
  | .visit | .post => none

/-- How a recorder with own hooks for some kinds writes the call down. -/
def event (own : List Kind) (call : HookCall Context) : Event Context where
  phase := call.phase
  hook? := if call.phase = .visit ∨ call.node.kind ∈ own then some call.node.kind else none
  node := call.node

def enact (own : List Kind) (call : HookCall Context) :
    EStateM (Stop HookFailure) (Recording Context) Unit :=
  match call.defect? with
  | some defect => throw (.malformed defect)
  | none => modify fun recording =>
      { recording with events := recording.events.push (call.event own) }

end HookCall

def Recording.append (recording : Recording Context) (own : List Kind)
    (calls : List (HookCall Context)) : Recording Context :=
  { recording with events := recording.events ++ calls.map (HookCall.event own) }

@[simp]
theorem Recording.append_nil (recording : Recording Context) (own : List Kind) :
    recording.append own [] = recording := by
  simp [Recording.append]

theorem Recording.append_cons (recording : Recording Context) (own : List Kind)
    (call : HookCall Context) (later : List (HookCall Context)) :
    recording.append own (call :: later) = (recording.append own [call]).append own later := by
  simp [Recording.append]

@[simp]
theorem Recording.toList_events_append_empty (own : List Kind) (calls : List (HookCall Context)) :
    (Recording.empty.append own calls).events.toList = calls.map (HookCall.event own) := by
  simp [Recording.append, Recording.empty]

namespace HookCall

def firstDefect? (calls : List (HookCall Context)) : Option Defect :=
  calls.findSome? defect?

def beforeDefect (calls : List (HookCall Context)) : List (HookCall Context) :=
  calls.takeWhile isSound

/-- Only calls that enter nodes can have defects. -/
theorem firstDefect?_eq (calls : List (HookCall Context)) :
    firstDefect? calls = Node.firstDefect? (calls.filterMap entered?) := by
  rw [firstDefect?, Node.firstDefect?, ← List.head?_filterMap, ← List.head?_filterMap,
    List.filterMap_filterMap]
  congr 2
  funext call
  rw [defect?, entered?]
  cases call.phase <;> rfl

/-- The first call with a defect cuts off the calls. -/
theorem cut_at_defect {first : List (HookCall Context)}
    (hfirst : ∀ call ∈ first, call.defect? = none) (call : HookCall Context) {defect : Defect}
    (hdefect : call.defect? = some defect) (later : List (HookCall Context)) :
    firstDefect? (first ++ call :: later) = some defect ∧
      beforeDefect (first ++ call :: later) = first := by
  constructor
  · rw [firstDefect?, List.findSome?_append, List.findSome?_eq_none_iff.mpr hfirst,
      List.findSome?_cons, hdefect]
    rfl
  · have hsound : ∀ call ∈ first, call.isSound = true := fun call member =>
      Option.isNone_iff_eq_none.mpr (hfirst call member)
    rw [beforeDefect, List.takeWhile_append_of_pos hsound, List.takeWhile_cons, isSound, hdefect]
    exact List.append_nil first

/-- Making calls one after the other writes them down up to the first defect. -/
theorem forM_enact (own : List Kind) (calls : List (HookCall Context))
    (recording : Recording Context) :
    forM calls (enact own) recording =
      Visitor.passiveOutcome (firstDefect? calls) ()
        (recording.append own (beforeDefect calls)) := by
  induction calls generalizing recording with
  | nil => exact congrArg (EStateM.Result.ok ()) (recording.append_nil own).symm
  | cons call later ih =>
      rw [List.forM_cons, firstDefect?, beforeDefect, List.findSome?_cons, List.takeWhile_cons,
        isSound, enact]
      cases hdefect : call.defect? with
      | some defect =>
          exact congrArg (EStateM.Result.error (Stop.malformed defect))
            (recording.append_nil own).symm
      | none =>
          simp only [Option.isNone_none, if_true]
          rw [Recording.append_cons]
          exact ih (recording.append own [call])

end HookCall

namespace Recorder

def answers (recorder : Recorder Context) (node : Node Context) : Bool :=
  match recorder.drive? node with
  | some drive => drive.handled
  | none => recorder.handles node

/-- The children that the pre hook itself has walked. -/
def driven (recorder : Recorder Context) (node : Node Context) : List (Node Context) :=
  match recorder.drive? node with
  | some drive => drive.positions.filterMap fun position => node.children[position]?
  | none => []

/-- The children that are walked between the calls for a node. -/
def below (recorder : Recorder Context) (node : Node Context) : List (Node Context) :=
  recorder.driven node ++ if recorder.answers node then [] else node.children

theorem mem_children_of_mem_driven {recorder : Recorder Context} {node child : Node Context}
    (member : child ∈ recorder.driven node) : child ∈ node.children := by
  rw [driven] at member
  cases hdrive : recorder.drive? node with
  | none => simp [hdrive] at member
  | some drive =>
      simp only [hdrive, List.mem_filterMap] at member
      obtain ⟨position, -, hchild⟩ := member
      exact List.mem_of_getElem? hchild

theorem mem_children_of_mem_below {recorder : Recorder Context} {node child : Node Context}
    (member : child ∈ recorder.below node) : child ∈ node.children := by
  rw [below, List.mem_append] at member
  rcases member with hdriven | hwalked
  · exact mem_children_of_mem_driven hdriven
  · split at hwalked
    · simp at hwalked
    · exact hwalked

/-- The calls that a recorder makes for the nodes of a tree, if none is malformed. -/
def calls (recorder : Recorder Context) (node : Node Context) : List (HookCall Context) :=
  ⟨.pre, node⟩ ::
    ((recorder.below node).attach.flatMap fun ⟨child, _⟩ => recorder.calls child) ++
      if recorder.answers node then [] else [⟨.visit, node⟩, ⟨.post, node⟩]
termination_by sizeOf node
decreasing_by exact Node.sizeOf_lt_of_mem_children (mem_children_of_mem_below ‹_›)

theorem calls_eq (recorder : Recorder Context) (node : Node Context) :
    recorder.calls node =
      ⟨.pre, node⟩ :: ((recorder.driven node).flatMap recorder.calls ++
        if recorder.answers node then []
        else node.children.flatMap recorder.calls ++ [⟨.visit, node⟩, ⟨.post, node⟩]) := by
  have hbelow : recorder.calls node =
      ⟨.pre, node⟩ :: (recorder.below node).flatMap recorder.calls ++
        if recorder.answers node then [] else [⟨.visit, node⟩, ⟨.post, node⟩] := by
    rw [calls, List.flatMap_def, List.flatMap_def]
    simp
  rw [hbelow, below]
  cases recorder.answers node <;> simp

end Recorder

/-! ## Actions that make calls -/

/-- An outcome is told by what is seen of it. -/
theorem exists_of_mapState_eq {Memory Image : Type} {project : Memory → Image}
    {outcome : EStateM.Result (Stop Failure) Memory Answer} {defect? : Option Defect}
    {answer : Answer} {image : Image}
    (heq : mapState project outcome = Visitor.passiveOutcome defect? answer image) :
    ∃ memory, outcome = Visitor.passiveOutcome defect? answer memory ∧ project memory = image := by
  cases outcome with
  | ok reached memory =>
      cases defect? with
      | none =>
          cases heq
          exact ⟨memory, rfl, rfl⟩
      | some defect => cases heq
  | error stop memory =>
      cases defect? with
      | none => cases heq
      | some defect =>
          cases heq
          exact ⟨memory, rfl, rfl⟩

/-- The action makes some calls one after the other, whatever it answers and notes. -/
def Enacts (own : List Kind) (action : Action (Recording Context) HookFailure Answer)
    (calls : List (HookCall Context)) : Prop :=
  Follows Journal.state (action >>= fun _ => pure ()) (forM calls (HookCall.enact own))

namespace Enacts

variable {own : List Kind}

theorem pure (answer : Answer) :
    Enacts own (Pure.pure answer : Action (Recording Context) HookFailure Answer) [] := by
  intro journal
  rfl

theorem note (record : LogRecord) :
    Enacts own (Action.note record : Action (Recording Context) HookFailure Unit) [] := by
  intro journal
  rfl

theorem bind {action : Action (Recording Context) HookFailure Answer}
    {next : Answer → Action (Recording Context) HookFailure Result}
    {first later : List (HookCall Context)}
    (haction : Enacts own action first) (hnext : ∀ answer, Enacts own (next answer) later) :
    Enacts own (action >>= next) (first ++ later) := by
  intro journal
  have hfirst := haction journal
  rw [List.forM_append]
  simp only [Bind.bind, EStateM.bind] at hfirst ⊢
  rw [← hfirst]
  cases action journal with
  | ok answer journal => exact hnext answer journal
  | error stop journal => rfl

theorem cumulative : Cumulative fun Answer calls
    (action : Action (Recording Context) HookFailure Answer) => Enacts own action calls where
  pure := .pure
  bind := .bind

theorem forM {walk : Node Context → Action (Recording Context) HookFailure Unit}
    {calls : Node Context → List (HookCall Context)} {nodes : List (Node Context)}
    (each : ∀ node ∈ nodes, Enacts own (walk node) (calls node)) :
    Enacts own (nodes.forM walk) (nodes.flatMap calls) := by
  induction nodes with
  | nil => exact .pure ()
  | cons node rest ih =>
      rw [List.flatMap_cons, List.forM_eq_forM, List.forM_cons]
      apply Enacts.bind (each node List.mem_cons_self)
      intro _
      exact ih fun other member => each other (List.mem_cons_of_mem node member)

/-- A defect stops the walk in place of all calls that were still to come. -/
theorem malformed (call : HookCall Context) {defect : Defect} (hdefect : call.defect? = some defect)
    (later : List (HookCall Context)) :
    Enacts own (throw (.malformed defect) : Action (Recording Context) HookFailure Answer)
      (call :: later) := by
  intro journal
  rw [List.forM_cons, HookCall.enact, hdefect]
  rfl

end Enacts

namespace Recorder

variable {recorder : Recorder Context} {own : List Kind}

theorem enacts_record (hnever : recorder.failure? = none) (call : HookCall Context)
    (hsound : call.defect? = none)
    (walk : Node Context → Action (Recording Context) HookFailure Unit) :
    Enacts own
      ((recorder.record call.phase (call.event own).hook? call.node).perform call.node walk)
      [call] := by
  intro journal
  simp only [Bind.bind, EStateM.bind, Hook.perform, record, hnever, Script.perform,
    List.forM_cons, List.forM_nil, HookCall.enact, hsound]
  rfl

/-- A pre hook is performed in three parts: it writes itself down, the children
that it drives are walked, and it answers. -/
theorem perform_pre (recorder : Recorder Context) (hook? : Option Kind) (node : Node Context)
    (walk : Node Context → Action (Recording Context) HookFailure Unit) :
    (recorder.pre hook? node).perform node walk = (do
      (recorder.record .pre hook? node).perform node walk
      (recorder.driven node).forM walk
      return recorder.answers node) := by
  rw [pre, driven, answers, Hook.perform_bind]
  apply bind_congr
  intro _
  cases recorder.drive? node with
  | none => rfl
  | some drive =>
      simp only [Hook.perform_bind, Hook.perform_forM_dispatch, Hook.perform_pure]

/-! ### The hooks of a recorder with generic hooks -/

section Hooks

variable (hown : recorder.overrides = .generic own) (node : Node Context)
include hown

theorem visitor_pre :
    recorder.hooks.visitor.pre node =
      recorder.pre (HookCall.event own ⟨.pre, node⟩).hook? node := by
  rw [hooks, hown]
  by_cases hkind : node.kind ∈ own <;> simp [HookTable.visitor, HookCall.event, hkind]

theorem visitor_visit :
    recorder.hooks.visitor.visit node =
      recorder.record .visit (HookCall.event own ⟨.visit, node⟩).hook? node := by
  rw [hooks, hown]
  simp [HookTable.visitor, HookCall.event]

theorem visitor_post :
    recorder.hooks.visitor.post node =
      recorder.record .post (HookCall.event own ⟨.post, node⟩).hook? node := by
  rw [hooks, hown]
  by_cases hkind : node.kind ∈ own <;> simp [HookTable.visitor, HookCall.event, hkind]

end Hooks

theorem enacts_walk {visitor : Visitor Context (Action (Recording Context) HookFailure)}
    {node : Node Context} {calls : List (HookCall Context)}
    (hdescend : Enacts own (visitor.noting.descend node 0) calls) :
    Enacts own (visitor.walk node) calls := by
  rw [Visitor.walk_eq_walkRecursively, Visitor.walkRecursively]
  simpa using Enacts.bind (.note _) fun _ => hdescend.bind fun entered => .note _

/-- The pre hook of a recorder, given how the children are walked that it asks for. -/
theorem noting_pre (hown : recorder.overrides = .generic own)
    (walk : Node Context → Action (Recording Context) HookFailure Unit) (node : Node Context) :
    (recorder.hooks.visitor.performedBy walk).noting.pre node = (do
      (recorder.record .pre (HookCall.event own ⟨.pre, node⟩).hook? node).perform node walk
      (recorder.driven node).forM walk
      if recorder.answers node then
        Action.note (.handled node.kind)
      return recorder.answers node) := by
  simp only [Visitor.noting, Visitor.performedBy, visitor_pre hown, perform_pre, bind_assoc,
    pure_bind]

theorem enacts_leave (hown : recorder.overrides = .generic own) (hnever : recorder.failure? = none)
    (walk : Node Context → Action (Recording Context) HookFailure Unit) (node : Node Context)
    (entered : Nat) :
    Enacts own
      ((recorder.hooks.visitor.performedBy walk).noting.perform entered (.leave node))
      [⟨.visit, node⟩, ⟨.post, node⟩] := by
  simp only [Visitor.perform, Visitor.noting, Visitor.performedBy, visitor_visit hown,
    visitor_post hown]
  apply Enacts.bind (enacts_record hnever ⟨.visit, node⟩ rfl _)
  intro _
  apply Enacts.bind (enacts_record hnever ⟨.post, node⟩ rfl _)
  intro _
  exact .pure entered

/-- The recursion on a tree makes the calls of the tree, when the hooks have children
driven. -/
theorem enacts_descend (hown : recorder.overrides = .generic own)
    (hnever : recorder.failure? = none) (node : Node Context) (entered : Nat) :
    Enacts own
      ((recorder.hooks.visitor.performedBy recorder.hooks.visitor.drive).noting.descend node
        entered)
      (recorder.calls node) := by
  induction node using Node.induction generalizing entered with
  | step node ih =>
      rw [Visitor.descend, calls_eq]
      cases hdefect : node.defect? with
      | some defect => exact .malformed ⟨.pre, node⟩ hdefect _
      | none =>
          dsimp only
          rw [noting_pre hown]
          simp only [bind_assoc]
          -- The pre hook writes itself down and drives walks, which start afresh.
          apply Enacts.bind (enacts_record hnever ⟨.pre, node⟩ hdefect _)
          intro _
          apply Enacts.bind
          · apply Enacts.forM
            intro child member
            rw [Visitor.drive_eq]
            exact enacts_walk (ih child (mem_children_of_mem_driven member) 0)
          intro _
          -- Unless the node is handled, the children follow in the same walk.
          cases recorder.answers node with
          | true => exact Enacts.bind (.note _) fun _ => .pure (entered + 1)
          | false =>
              simp only [Bool.false_eq_true, if_false, pure_bind]
              apply Enacts.bind
              · exact Enacts.cumulative.descendAll ih (entered + 1)
              · exact enacts_leave hown hnever recorder.hooks.visitor.drive node

/-- A recorder that never fails makes exactly the calls of the tree. -/
theorem enacts_recorder_walk (hown : recorder.overrides = .generic own)
    (hnever : recorder.failure? = none) (root : Node Context) :
    Enacts own (recorder.walk root) (recorder.calls root) := by
  rw [Recorder.walk, Visitor.drive_eq]
  exact enacts_walk (enacts_descend hown hnever root 0)

/-- How a walk of a recorder ends that never fails: at the first defect, or after
all calls, and with the calls before the defect written down. -/
theorem walk_outcome (recorder : Recorder Context) (hown : recorder.overrides = .generic own)
    (hnever : recorder.failure? = none) (root : Node Context) (recording : Recording Context)
    (log : Log) :
    ∃ journal, recorder.walk root ⟨recording, log⟩ =
        Visitor.passiveOutcome (HookCall.firstDefect? (recorder.calls root)) () journal ∧
      journal.state = recording.append own (HookCall.beforeDefect (recorder.calls root)) := by
  have henacts := enacts_recorder_walk hown hnever root ⟨recording, log⟩
  rw [bind_pure_unit, HookCall.forM_enact] at henacts
  exact exists_of_mapState_eq henacts

end Recorder

end CoolTree
