import CoolTree.Proofs.Walk.Recalling
import CoolTree.Proofs.Walk.Schedule
import CoolTree.Proofs.Walk.SelfDriven

/-!
# Visitors that drive their own walks

A pre hook that has children walked itself starts walks inside a walk, and the
hooks called there start more of them.  When the children and the answer are a
function of the node, the calls of all these walks together are a list that the
tree determines: a moment for each call, at the place where it is made.  On a
well-shaped tree a visitor that never fails makes exactly these calls.
-/

namespace CoolTree

variable {Context State Failure Answer Result : Type}

/-! ## Visitors driven by a function of the node -/

/-- The script has the children at some positions walked, one after the other,
and ends with an answer, whatever it does to the state in between. -/
inductive Script.Drives (answer : Answer) : List Nat → Script State Failure Answer → Prop
  | finish (state : State) : Drives answer [] (.finish (.ok answer) state)
  | dispatch {position : Nat} {rest : List Nat} {state : State}
      {resume : Except Failure Unit → State → Script State Failure Answer}
      (later : ∀ state, Drives answer rest (resume (.ok ()) state)) :
      Drives answer (position :: rest) (.dispatch position state resume)

/-- A visitor that never fails, and whose pre hook for a node walks children and
answers as a function of the node says. -/
structure Visitor.DrivenBy (drive : Node Context → Drive)
    (visitor : Visitor Context (Hook State Failure)) : Prop where
  pre : ∀ node state, (visitor.pre node state).Drives (drive node).handled (drive node).positions
  visit : ∀ node state, (visitor.visit node state).Drives () []
  post : ∀ node state, (visitor.post node state).Drives () []

namespace Script

/-- Scripts that go on with one another take children one after the other. -/
theorem Drives.andThen {first later : List Nat} {answer : Answer} {result : Result}
    {script : Script State Failure Answer} {next : Answer → Hook State Failure Result}
    (hscript : script.Drives answer first)
    (hnext : ∀ state, (next answer state).Drives result later) :
    (script.andThen next).Drives result (first ++ later) := by
  induction hscript with
  | finish state => exact hnext state
  | dispatch _ ih => exact .dispatch ih

theorem drives_forM_dispatch (positions : List Nat) (state : State) :
    (positions.forM (Hook.dispatch : Nat → Hook State Failure Unit) state).Drives () positions := by
  induction positions generalizing state with
  | nil => exact .finish state
  | cons position rest ih => exact .dispatch ih

end Script

namespace Recorder

def driveAt (recorder : Recorder Context) (node : Node Context) : Drive :=
  (recorder.drive? node).getD ⟨[], recorder.handles node⟩

variable {recorder : Recorder Context}

theorem drives_record (hnever : recorder.failure? = none) (phase : Phase) (hook? : Option Kind)
    (node : Node Context) (recording : Recording Context) :
    (recorder.record phase hook? node recording).Drives () [] := by
  rw [record, hnever]
  exact .finish _

theorem drives_pre (hnever : recorder.failure? = none) (hook? : Option Kind) (node : Node Context)
    (recording : Recording Context) :
    (recorder.pre hook? node recording).Drives (recorder.driveAt node).handled
      (recorder.driveAt node).positions := by
  apply (drives_record hnever .pre hook? node recording).andThen
  intro recording
  rw [driveAt]
  cases recorder.drive? node with
  | none => exact .finish recording
  | some drive =>
      have hboth : ((do drive.positions.forM Hook.dispatch; pure drive.handled :
          Hook (Recording Context) HookFailure Bool) recording).Drives drive.handled
            (drive.positions ++ []) :=
        (Script.drives_forM_dispatch drive.positions recording).andThen fun recording =>
          .finish recording
      rwa [List.append_nil] at hboth

/-- A recorder with generic hooks that is not to fail is driven by its rules. -/
theorem drivenBy {own : List Kind} (hown : recorder.overrides = .generic own)
    (hnever : recorder.failure? = none) : recorder.hooks.visitor.DrivenBy recorder.driveAt where
  pre node recording := by
    rw [visitor_pre hown]
    exact drives_pre hnever _ node recording
  visit node recording := by
    rw [visitor_visit hown]
    exact drives_record hnever _ _ node recording
  post node recording := by
    rw [visitor_post hown]
    exact drives_record hnever _ _ node recording

end Recorder

namespace Node

variable (drive : Node Context → Drive)

/-- The positions of the children that are walked between the calls for a node,
first by its pre hook and then, unless that handles the node, by the walk. -/
def walkedPositions (node : Node Context) : List Nat :=
  (drive node).positions ++
    if (drive node).handled then [] else List.range node.children.length

/-- The moments of all walks that come out of walking a tree. -/
def drivenMoments (node : Node Context) : List (Moment Context) :=
  ⟨.pre, ⟨[], node⟩⟩ ::
    ((node.walkedPositions drive).flatMap fun position =>
      match _hchild : node.children[position]? with
      | none => []
      | some child => (drivenMoments child).map (.under position)) ++
      if (drive node).handled then [] else [⟨.visit, ⟨[], node⟩⟩, ⟨.post, ⟨[], node⟩⟩]
termination_by sizeOf node
decreasing_by exact sizeOf_lt_of_mem_children (List.mem_of_getElem? _hchild)

def drivenMomentsAt (node : Node Context) (position : Nat) : List (Moment Context) :=
  (node.children[position]?).elim [] fun child =>
    (child.drivenMoments drive).map (.under position)

theorem drivenMoments_eq (node : Node Context) :
    node.drivenMoments drive =
      ⟨.pre, ⟨[], node⟩⟩ ::
        ((node.walkedPositions drive).flatMap (node.drivenMomentsAt drive) ++
          if (drive node).handled then [] else [⟨.visit, ⟨[], node⟩⟩, ⟨.post, ⟨[], node⟩⟩]) := by
  rw [drivenMoments, List.cons_append]
  congr 3
  funext position
  rw [drivenMomentsAt]
  split <;> simp [*]

def drivenCalls (node : Node Context) : List (HookCall Context) :=
  (node.drivenMoments drive).map Moment.call

theorem map_call_drivenMomentsAt (node : Node Context) (positions : List Nat) :
    (positions.flatMap (node.drivenMomentsAt drive)).map Moment.call =
      (positions.filterMap fun position => node.children[position]?).flatMap
        (drivenCalls drive) := by
  induction positions with
  | nil => rfl
  | cons position rest ih =>
      rw [List.flatMap_cons, List.map_append, ih, drivenMomentsAt]
      cases hchild : node.children[position]? with
      | none => rw [List.filterMap_cons_none hchild]; rfl
      | some child =>
          rw [List.filterMap_cons_some hchild, List.flatMap_cons, drivenCalls, Option.elim_some,
            List.map_map]
          rfl

/-- The pre hook calls first; then come the children that it takes, and then,
unless it handles the node, all children and the last two hooks. -/
theorem drivenCalls_eq (node : Node Context) :
    node.drivenCalls drive =
      ⟨.pre, node⟩ ::
        (((drive node).positions.filterMap fun position => node.children[position]?).flatMap
            (drivenCalls drive) ++
          if (drive node).handled then []
          else node.children.flatMap (drivenCalls drive) ++ [⟨.visit, node⟩, ⟨.post, node⟩]) := by
  rw [drivenCalls, drivenMoments_eq, List.map_cons, List.map_append, map_call_drivenMomentsAt,
    walkedPositions, List.filterMap_append, List.flatMap_append]
  cases (drive node).handled with
  | true => simp [Moment.call]
  | false =>
      simp only [Bool.false_eq_true, if_false, Recorder.filterMap_getElem?_range, List.append_assoc]
      rfl

end Node

/-! ## The walk makes these calls -/

/-- The action comes to such an answer and has then made some more calls. -/
def Makes (calls : List (HookCall Context)) (answered : Answer → Prop)
    (action : Action (Recalled Context State) Failure Answer) : Prop :=
  ∀ journal, ∃ answer next, action journal = .ok answer next ∧ answered answer ∧
    next.state.calls = journal.state.calls ++ calls

namespace Makes

variable {answered : Answer → Prop} {first later : List (HookCall Context)}

theorem pure (answer : Answer) (hanswer : answered answer) :
    Makes [] answered (Pure.pure answer : Action (Recalled Context State) Failure Answer) :=
  fun journal => ⟨answer, journal, rfl, hanswer, (List.append_nil _).symm⟩

theorem note (record : LogRecord) :
    Makes [] (fun _ => True) (Action.note record : Action (Recalled Context State) Failure Unit) :=
  fun _ => ⟨(), _, rfl, trivial, (List.append_nil _).symm⟩

theorem bind {action : Action (Recalled Context State) Failure Answer}
    {next : Answer → Action (Recalled Context State) Failure Result} {reached : Result → Prop}
    (haction : Makes first answered action)
    (hnext : ∀ answer, answered answer → Makes later reached (next answer)) :
    Makes (first ++ later) reached (action >>= next) := by
  intro journal
  obtain ⟨answer, between, hresult, hanswer, hfirst⟩ := haction journal
  obtain ⟨result, after, hafter, hreached, hlater⟩ := hnext answer hanswer between
  refine ⟨result, after, ?_, hreached, ?_⟩
  · simp only [Bind.bind, EStateM.bind, hresult, hafter]
  · rw [hlater, hfirst, List.append_assoc]

theorem cumulative : Cumulative fun Answer calls
    (action : Action (Recalled Context State) Failure Answer) =>
      Makes calls (fun _ => True) action where
  pure answer := .pure answer trivial
  bind haction hnext := haction.bind fun answer _ => hnext answer

end Makes

/-- A script makes the calls of the children that it has walked. -/
theorem Script.Drives.makes {positions : List Nat} {answer : Answer}
    {script : Script State Failure Answer} (hdrives : script.Drives answer positions)
    {children : List (Node Context)} {callsOf : Node Context → List (HookCall Context)}
    {walk : Node Context → Action (Recalled Context State) Failure Unit}
    (hwalk : ∀ child ∈ children, Makes (callsOf child) (fun _ => True) (walk child))
    (earlier : List (HookCall Context)) (log : Log) :
    ∃ next, (script.recalling earlier).perform children walk log = .ok answer next ∧
      next.state.calls =
        earlier ++ (positions.filterMap fun position => children[position]?).flatMap callsOf := by
  induction hdrives generalizing earlier log with
  | finish state => exact ⟨_, rfl, (List.append_nil earlier).symm⟩
  | @dispatch position rest state resume later ih =>
      rw [Script.recalling, Script.perform]
      cases hchild : children[position]? with
      | none =>
          rw [List.filterMap_cons_none hchild]
          exact ih state earlier log
      | some child =>
          obtain ⟨_, between, hresult, -, hbetween⟩ :=
            hwalk child (List.mem_of_getElem? hchild) ⟨⟨state, earlier⟩, log⟩
          obtain ⟨next, hnext, hcalls⟩ := ih between.state.state between.state.calls between.log
          refine ⟨next, ?_, ?_⟩
          · simp only [hresult]
            exact hnext
          · rw [hcalls, hbetween, List.filterMap_cons_some hchild, List.flatMap_cons,
              List.append_assoc]

/-- A hook makes its own call and those of the children that it has walked. -/
theorem Hook.makes_recalling {hook : Hook State Failure Answer} {answer : Answer}
    {positions : List Nat} (hdrives : ∀ state, (hook state).Drives answer positions)
    (call : HookCall Context) {node : Node Context}
    {callsOf : Node Context → List (HookCall Context)}
    {walk : Node Context → Action (Recalled Context State) Failure Unit}
    (hwalk : ∀ child ∈ node.children, Makes (callsOf child) (fun _ => True) (walk child)) :
    Makes (call :: (positions.filterMap fun position => node.children[position]?).flatMap callsOf)
      (fun given => given = answer) ((hook.recalling call).perform node walk) := by
  intro journal
  obtain ⟨next, hnext, hcalls⟩ := (hdrives journal.state.state).makes hwalk
    (journal.state.calls ++ [call]) journal.log
  refine ⟨answer, next, hnext, rfl, ?_⟩
  rw [hcalls, List.append_assoc, List.singleton_append]

theorem Makes.walk {visitor : Visitor Context (Action (Recalled Context State) Failure)}
    {node : Node Context} {calls : List (HookCall Context)}
    (hdescend : Makes calls (fun _ => True) (visitor.noting.descend node 0)) :
    Makes calls (fun _ => True) (visitor.walk node) := by
  rw [Visitor.walk_eq_walkRecursively, Visitor.walkRecursively]
  simpa using Makes.bind (.note _) fun _ _ => hdescend.bind fun entered _ => .note _

namespace Visitor.DrivenBy

variable {drive : Node Context → Drive} {visitor : Visitor Context (Hook State Failure)}

/-- The recursion on a tree makes the calls of the tree, when the hooks have children
driven. -/
theorem makes_descend (driven : visitor.DrivenBy drive) (node : Node Context)
    (shaped : node.WellShaped) (entered : Nat) :
    Makes (node.drivenCalls drive) (fun _ => True)
      ((visitor.recalling.performedBy visitor.recalling.drive).noting.descend node entered) := by
  induction node using Node.induction generalizing entered with
  | step node ih =>
      obtain ⟨hdefect, hchildren⟩ := Node.wellShaped_iff.mp shaped
      have hwalk : ∀ child ∈ node.children, Makes (child.drivenCalls drive) (fun _ => True)
          (visitor.recalling.drive child) := by
        intro child member
        rw [Visitor.drive_eq]
        exact (ih child member (hchildren child member) 0).walk
      have hpre := Hook.makes_recalling (driven.pre node) ⟨.pre, node⟩ hwalk
      have hvisit := Hook.makes_recalling (driven.visit node) ⟨.visit, node⟩ hwalk
      have hpost := Hook.makes_recalling (driven.post node) ⟨.post, node⟩ hwalk
      rw [Visitor.descend, hdefect, Node.drivenCalls_eq, ← List.cons_append]
      dsimp only [Visitor.noting, Visitor.performedBy, Visitor.recalling]
      simp only [bind_assoc]
      apply Makes.bind hpre
      rintro _ rfl
      cases (drive node).handled with
      | true => exact Makes.bind (.note _) fun _ _ => .pure (entered + 1) trivial
      | false =>
          simp only [Bool.false_eq_true, if_false, pure_bind]
          apply Makes.bind
          · apply Makes.cumulative.descendAll
            exact fun child member => ih child member (hchildren child member)
          · intro entered _
            exact hvisit.bind fun _ _ => hpost.bind fun _ _ => .pure entered trivial

/-- The walk comes to its end and has made the calls. -/
theorem makes_drive (driven : visitor.DrivenBy drive) {root : Node Context}
    (shaped : root.WellShaped) :
    Makes (root.drivenCalls drive) (fun _ => True) (visitor.recalling.drive root) := by
  rw [Visitor.drive_eq]
  exact (driven.makes_descend root shaped 0).walk

end Visitor.DrivenBy

end CoolTree
