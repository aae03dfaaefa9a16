import CoolTree.Proofs.Walk.Recursion

/-!
# Invariants of walks

What every hook of a visitor keeps, its walk keeps.  The invariant may speak of
the nodes that are entered and not yet left, which are the ancestors of the node
that is walked, and of the number of nodes entered so far.  A walk that stops
leaves behind what holds at any moment of it.
-/

namespace CoolTree

variable {Context State Failure Answer Result Memory : Type}

/-- From some memories, an action comes to answers in the right memories, or
stops in the right ones. -/
def Leads (before : Memory → Prop) (action : EStateM (Stop Failure) Memory Answer)
    (answered : Answer → Memory → Prop) (stopped : Memory → Prop) : Prop :=
  ∀ memory, before memory →
    match action memory with
    | .ok answer memory => answered answer memory
    | .error _ memory => stopped memory

namespace Leads

variable {before : Memory → Prop} {stopped : Memory → Prop}

theorem pure {answered : Answer → Memory → Prop} (answer : Answer)
    (hanswer : ∀ memory, before memory → answered answer memory) :
    Leads before (Pure.pure answer : EStateM (Stop Failure) Memory Answer) answered stopped :=
  hanswer

theorem throw {answered : Answer → Memory → Prop} (stop : Stop Failure)
    (hstop : ∀ memory, before memory → stopped memory) :
    Leads before (MonadExcept.throw stop : EStateM (Stop Failure) Memory Answer) answered
      stopped :=
  hstop

theorem bind {action : EStateM (Stop Failure) Memory Answer}
    {next : Answer → EStateM (Stop Failure) Memory Result}
    {between : Answer → Memory → Prop} {answered : Result → Memory → Prop}
    (haction : Leads before action between stopped)
    (hnext : ∀ answer, Leads (between answer) (next answer) answered stopped) :
    Leads before (action >>= next) answered stopped := by
  intro memory holds
  have hfirst := haction memory holds
  simp only [Bind.bind, EStateM.bind]
  cases hresult : action memory with
  | ok answer memory =>
      rw [hresult] at hfirst
      exact hnext answer memory hfirst
  | error stop memory =>
      rw [hresult] at hfirst
      exact hfirst

theorem note (assertion : State → Prop) (record : LogRecord) {stopped : Journal State → Prop} :
    Leads (fun journal => assertion journal.state)
      (Action.note record : Action State Failure Unit)
      (fun _ journal => assertion journal.state) stopped :=
  fun _ holds => holds

end Leads

namespace Visitor

/-- The hooks of a visitor keep an assertion about the open nodes, the deepest
first, and the number of nodes entered.  A pre hook opens its node unless it
handles it, and the last two hooks close it. -/
structure Keeps (inside : List (Node Context) → Nat → Memory → Prop) (stopped : Memory → Prop)
    (visitor : Visitor Context (EStateM (Stop Failure) Memory)) : Prop where
  stop : ∀ opened entered memory, inside opened entered memory → stopped memory
  pre : ∀ node opened entered,
    Leads (inside opened entered) (visitor.pre node)
      (fun handled => inside (if handled then opened else node :: opened) (entered + 1)) stopped
  leave : ∀ node opened entered,
    Leads (inside (node :: opened) entered) (do visitor.visit node; visitor.post node)
      (fun _ => inside opened entered) stopped

namespace Keeps

variable {inside : List (Node Context) → Nat → Memory → Prop} {stopped : Memory → Prop}
  {visitor : Visitor Context (EStateM (Stop Failure) Memory)}

theorem descendAll {nodes opened : List (Node Context)}
    (each : ∀ node ∈ nodes, ∀ entered,
      Leads (inside opened entered) (visitor.descend node entered) (inside opened) stopped)
    (entered : Nat) :
    Leads (inside opened entered) (visitor.descendAll nodes entered) (inside opened) stopped := by
  induction nodes generalizing entered with
  | nil =>
      rw [Visitor.descendAll]
      exact .pure entered fun _ holds => holds
  | cons node rest ih =>
      rw [Visitor.descendAll]
      apply Leads.bind (each node List.mem_cons_self entered)
      exact ih fun other member => each other (List.mem_cons_of_mem node member)

/-- Walking a tree leaves the same nodes open as before. -/
theorem descend (keeps : visitor.Keeps inside stopped) (node : Node Context)
    (opened : List (Node Context)) (entered : Nat) :
    Leads (inside opened entered) (visitor.descend node entered) (inside opened) stopped := by
  induction node using Node.induction generalizing opened entered with
  | step node ih =>
      rw [Visitor.descend]
      cases node.defect? with
      | some defect => exact .throw _ (keeps.stop opened entered)
      | none =>
          apply Leads.bind (keeps.pre node opened entered)
          intro handled
          cases handled with
          | true => exact .pure (entered + 1) fun _ holds => holds
          | false =>
              apply Leads.bind
                (descendAll (fun child member => ih child member (node :: opened)) (entered + 1))
              intro entered
              have hanswer : Leads (inside opened entered)
                  (pure entered : EStateM (Stop Failure) Memory Nat) (inside opened) stopped :=
                .pure entered fun _ holds => holds
              have hleave := Leads.bind (keeps.leave node opened entered) fun _ => hanswer
              rwa [bind_assoc] at hleave

end Keeps

/-- What the hooks keep of the state, the walk keeps, whatever is noted in the log. -/
theorem Keeps.walk {visitor : Visitor Context (Action State Failure)}
    (inside : List (Node Context) → State → Prop) (stopped : State → Prop)
    (keeps : visitor.Keeps (fun opened _ journal => inside opened journal.state)
      fun journal => stopped journal.state)
    (root : Node Context) :
    Leads (fun journal => inside [] journal.state) (visitor.walk root)
      (fun _ journal => inside [] journal.state) fun journal => stopped journal.state := by
  have hnoting : visitor.noting.Keeps (fun opened _ journal => inside opened journal.state)
      fun journal => stopped journal.state := {
    stop := keeps.stop
    pre := by
      intro node opened entered
      apply Leads.bind (keeps.pre node opened entered)
      intro handled
      cases handled with
      | true => exact Leads.bind (.note (inside opened) _) fun _ => .pure true fun _ holds => holds
      | false => exact .pure false fun _ holds => holds
    leave := keeps.leave }
  rw [walk_eq_walkRecursively, walkRecursively]
  apply Leads.bind (.note (inside []) _)
  intro _
  apply Leads.bind (hnoting.descend root [] 0)
  intro entered
  exact .note (inside []) _

end Visitor

end CoolTree
