import CoolTree.Proofs.Walk.Account
import CoolTree.Proofs.Walk.Invariant

/-!
# The log accounts for walks

The log of a run has exactly the records that the history of the run calls for.
In the middle of a walk, its counter is the number of pre hooks that it called
itself; and of the nodes that it entered and that were not handled, as many wait
for their last two hooks as it has entered and not yet left.  Every step keeps to
this, also a step whose hook makes walks, since these account for themselves.
When a walk comes to its end no node waits any more.
-/

namespace CoolTree

variable {Context State Failure Answer : Type} {subject : Subject}

/-! ## Accounts -/

/-- After its start, the log has exactly what the history says, and all walks of
the history are balanced. -/
structure Accounts (start : List LogRecord) (history : History subject) (log : Log) : Prop where
  records : log.toList = start ++ history.records
  balanced : ∀ made ∈ history.walks, made.Balanced

namespace Accounts

variable {start : List LogRecord} {before middle log : Log}

theorem nil (log : Log) : Accounts log.toList (.nil : History subject) log where
  records := (List.append_nil _).symm
  balanced _ member := by cases member

theorem append {first last : History subject} (hfirst : Accounts start first middle)
    (hlast : Accounts middle.toList last log) : Accounts start (first.append last) log where
  records := by
    rw [hlast.records, hfirst.records, History.records_append, List.append_assoc]
  balanced made member := by
    rw [History.walks_append, List.mem_append] at member
    exact member.elim (hfirst.balanced made) (hlast.balanced made)

theorem noted {record : LogRecord} (other : record.isOfWalk = false) {later : History .call}
    (hlater : Accounts (Array.push before record).toList later log) :
    Accounts before.toList (.noted record other later) log where
  records := by
    rw [hlater.records, Array.toList_push, List.append_assoc]
    rfl
  balanced := hlater.balanced

/-- A call accounts for what happened in it, and for the record that follows if
it handled its node. -/
theorem called (phase : Phase) (kind : Kind) {handled : Bool} {inside : History .call}
    (hinside : Accounts before.toList inside middle)
    (hlog : log.toList = middle.toList ++ if handled then [.handled kind] else []) :
    Accounts before.toList (.called phase kind handled inside .nil) log where
  records := by
    rw [hlog, hinside.records, History.records, History.records, List.append_nil,
      List.append_assoc]
  balanced made member := by
    rw [History.walks, History.walks, List.append_nil] at member
    exact hinside.balanced made member

/-- A walk accounts for its calls, between its start and its end. -/
theorem walked {made : WalkMade} (hbalanced : made.Balanced)
    (hcalls : Accounts (before.toList ++ [.walking made.root]) made.calls middle)
    (hlog : log.toList = middle.toList ++
      if made.ended then [.walked made.root made.calls.entered] else []) :
    Accounts before.toList made.history log where
  records := by
    rw [hlog, hcalls.records, made.records_history]
    simp
  balanced inner member := by
    rw [WalkMade.history, History.walks, History.walks, List.append_nil, List.mem_cons] at member
    rcases member with rfl | member
    · exact hbalanced
    · exact hcalls.balanced inner member

end Accounts

/-! ## What a walk keeps to -/

/-- The state of affairs in the middle of a walk.  Of the nodes that it entered
and that were not handled, some wait for their visit hooks, and some for their
post hooks. -/
structure Underway (start : List LogRecord) (unvisited unleft entered : Nat)
    (journal : Journal (Account .walk State)) : Prop where
  accounts : Accounts start journal.state.history journal.log
  preCalls : journal.state.history.entered = entered
  visitCalls : journal.state.history.visited + journal.state.history.handled + unvisited = entered
  postCalls : journal.state.history.left + journal.state.history.handled + unleft = entered

def Halted (start : List LogRecord) (journal : Journal (Account .walk State)) : Prop :=
  Accounts start journal.state.history journal.log

structure Visitor.KeepsAccounts (start : List LogRecord)
    (visitor : Visitor Context (Action (Account .walk State) Failure)) : Prop where
  pre : ∀ node unvisited unleft entered,
    Leads (Underway start unvisited unleft entered) (visitor.pre node)
      (fun handled =>
        if handled then Underway start unvisited unleft (entered + 1)
        else Underway start (unvisited + 1) (unleft + 1) (entered + 1))
      (Halted start)
  visit : ∀ node unvisited unleft entered,
    Leads (Underway start (unvisited + 1) unleft entered) (visitor.visit node)
      (fun _ => Underway start unvisited unleft entered) (Halted start)
  post : ∀ node unvisited unleft entered,
    Leads (Underway start unvisited (unleft + 1) entered) (visitor.post node)
      (fun _ => Underway start unvisited unleft entered) (Halted start)

/-- As many nodes wait for their last two hooks as are open. -/
theorem Visitor.KeepsAccounts.keeps {start : List LogRecord}
    {visitor : Visitor Context (Action (Account .walk State) Failure)}
    (keeps : visitor.KeepsAccounts start) :
    visitor.Keeps (fun opened entered => Underway start opened.length opened.length entered)
      (Halted start) where
  stop _ _ _ holds := holds.accounts
  pre node opened entered journal holds := by
    have hpre := keeps.pre node opened.length opened.length entered journal holds
    cases hresult : visitor.pre node journal with
    | error stop next =>
        rw [hresult] at hpre
        exact hpre
    | ok handled next =>
        rw [hresult] at hpre
        cases handled <;> exact hpre
  leave node opened entered := by
    apply Leads.bind (keeps.visit node opened.length (opened.length + 1) entered)
    intro _
    exact keeps.post node opened.length opened.length entered

/-! ## Errands keep their accounts -/

def Errand.IsAccountable (errand : Errand State Failure Answer) : Prop :=
  ∀ log, Accounts log.toList (memoryAfter (errand.accounted log)).state.history
    (memoryAfter (errand.accounted log)).log

/-- One more call adds one to the counts of calls of its sort. -/
theorem History.count_append_called (wanted : Phase → Bool → Bool) (calls : History .walk)
    (phase : Phase) (kind : Kind) (handled : Bool) (inside : History .call) :
    (calls.append (.called phase kind handled inside .nil)).count wanted =
      calls.count wanted + if wanted phase handled then 1 else 0 := by
  rw [count_append, count, count, Nat.add_zero]

/-- A call moves a walk on, as its phase and its answer say, once it is accounted for. -/
theorem Underway.of_called {start : List LogRecord} {unvisited unleft entered : Nat}
    {before after : Journal (Account .walk State)}
    (holds : Underway start unvisited unleft entered before)
    (phase : Phase) (kind : Kind) {handled : Bool} {inside : History .call}
    (hhistory : after.state.history =
      before.state.history.append (.called phase kind handled inside .nil))
    (haccounts : Accounts before.log.toList (.called phase kind handled inside .nil) after.log)
    {unvisitedNow unleftNow : Nat}
    (hvisited : unvisitedNow + (if phase = .visit then 1 else 0) + handled.toNat =
      unvisited + if phase = .pre then 1 else 0)
    (hleft : unleftNow + (if phase = .post then 1 else 0) + handled.toNat =
      unleft + if phase = .pre then 1 else 0) :
    Underway start unvisitedNow unleftNow (entered + if phase = .pre then 1 else 0) after := by
  obtain ⟨hbefore, hpreCalls, hvisitCalls, hpostCalls⟩ := holds
  have hhandled : (if handled then 1 else 0) = handled.toNat := by cases handled <;> rfl
  simp only [History.entered, History.visited, History.left, History.handled] at *
  constructor
  · rw [hhistory]
    exact hbefore.append haccounts
  all_goals
    simp only [History.entered, History.visited, History.left, History.handled, hhistory,
      History.count_append_called, decide_eq_true_eq, hhandled]
    omega

/-- A call that cannot handle its node moves a walk on or stops it. -/
theorem Action.leads_called {start : List LogRecord} {unvisited unleft entered : Nat}
    {hook : State → Errand State Failure Answer}
    (haccountable : ∀ state, (hook state).IsAccountable) (phase : Phase) (kind : Kind)
    {unvisitedNow unleftNow : Nat}
    (hvisited : unvisitedNow + (if phase = .visit then 1 else 0) =
      unvisited + if phase = .pre then 1 else 0)
    (hleft : unleftNow + (if phase = .post then 1 else 0) =
      unleft + if phase = .pre then 1 else 0) :
    Leads (Underway start unvisited unleft entered)
      (Action.called phase kind (fun _ => false) fun state log => (hook state).accounted log)
      (fun _ => Underway start unvisitedNow unleftNow (entered + if phase = .pre then 1 else 0))
      (Halted start) := by
  intro journal holds
  have hinside := haccountable journal.state.state journal.log
  rw [Action.called]
  cases hresult : (hook journal.state.state).accounted journal.log with
  | error stop inside =>
      rw [hresult] at hinside
      exact holds.accounts.append (.called phase kind hinside (List.append_nil _).symm)
  | ok answer inside =>
      rw [hresult] at hinside
      have hcalled : Accounts journal.log.toList
          (.called phase kind false inside.state.history .nil) inside.log :=
        .called phase kind hinside (List.append_nil _).symm
      apply holds.of_called phase kind rfl hcalled
      · exact hvisited
      · exact hleft

namespace Errands

variable {errands : Errands Context State Failure} {start : List LogRecord}

/-- A call of a pre hook, and the record that follows if it handled its node,
move a walk on or stop it. -/
theorem leads_pre (hooks : errands.Always Errand.IsAccountable) (node : Node Context)
    (unvisited unleft entered : Nat) :
    Leads (Underway start unvisited unleft entered) (errands.accounted.noting.pre node)
      (fun handled =>
        if handled then Underway start unvisited unleft (entered + 1)
        else Underway start (unvisited + 1) (unleft + 1) (entered + 1))
      (Halted start) := by
  intro journal holds
  have hinside := hooks.pre node journal.state.state journal.log
  simp only [Visitor.noting, accounted, Action.called, bind, EStateM.bind]
  -- Between the call and the record of a handled node the log lags behind the
  -- history, so both are taken in one step.
  cases hresult : (errands.pre node journal.state.state).accounted journal.log with
  | error stop inside =>
      rw [hresult] at hinside
      exact holds.accounts.append (.called .pre node.kind hinside (List.append_nil _).symm)
  | ok handled inside =>
      rw [hresult] at hinside
      cases handled with
      | true =>
          have hcalled : Accounts journal.log.toList
              (.called .pre node.kind true inside.state.history .nil)
              (inside.log.push (.handled node.kind)) :=
            .called .pre node.kind hinside Array.toList_push
          exact holds.of_called .pre node.kind rfl hcalled rfl rfl
      | false =>
          have hcalled : Accounts journal.log.toList
              (.called .pre node.kind false inside.state.history .nil) inside.log :=
            .called .pre node.kind hinside (List.append_nil _).symm
          exact holds.of_called .pre node.kind rfl hcalled rfl rfl

theorem keepsAccounts (hooks : errands.Always Errand.IsAccountable) :
    errands.accounted.noting.KeepsAccounts start where
  pre := leads_pre hooks
  visit node _ _ _ := Action.leads_called (hooks.visit node) .visit node.kind rfl rfl
  post node _ _ _ := Action.leads_called (hooks.post node) .post node.kind rfl rfl

/-- A walk with accountable hooks accounts for itself. -/
theorem accounts_walk (errands : Errands Context State Failure)
    (hooks : errands.Always Errand.IsAccountable) (root : Node Context) (state : State)
    (log : Log) :
    Accounts log.toList
      (WalkMade.ofResult root (errands.accounted.walk root ⟨⟨state, .nil⟩, log⟩)).history
      (memoryAfter (errands.accounted.walk root ⟨⟨state, .nil⟩, log⟩)).log := by
  have hstart : Underway (log.toList ++ [.walking root.kind]) 0 0 0
      (⟨⟨state, .nil⟩, log.push (.walking root.kind)⟩ : Journal (Account .walk State)) := by
    refine ⟨?_, rfl, rfl, rfl⟩
    rw [← Array.toList_push]
    exact .nil _
  have hdescend := (keepsAccounts hooks).keeps.descend root [] 0 _ hstart
  rw [Visitor.walk_eq_walkRecursively, Visitor.walkRecursively]
  simp only [bind, EStateM.bind, Action.note]
  cases hresult : errands.accounted.noting.descend root 0
      ⟨⟨state, .nil⟩, log.push (.walking root.kind)⟩ with
  | error stop journal =>
      rw [hresult] at hdescend
      have hcalls : Accounts (log.toList ++ [.walking root.kind]) journal.state.history
          journal.log := hdescend
      have hbalanced : WalkMade.Balanced ⟨root.kind, false, journal.state.history⟩ :=
        fun hended => by cases hended
      exact .walked hbalanced hcalls (List.append_nil _).symm
  | ok entered journal =>
      rw [hresult] at hdescend
      obtain ⟨hcalls, hpreCalls, hvisitCalls, hpostCalls⟩ :
        Underway (log.toList ++ [.walking root.kind]) 0 0 entered journal := hdescend
      have hbalanced : WalkMade.Balanced ⟨root.kind, true, journal.state.history⟩ :=
        fun _ => ⟨hvisitCalls.trans hpreCalls.symm, hpostCalls.trans hpreCalls.symm⟩
      apply Accounts.walked hbalanced hcalls
      -- The walk notes its counter, which is the number of its own pre hooks.
      rw [hpreCalls]
      exact Array.toList_push

end Errands

namespace Errand

/-- The log accounts for every errand. -/
theorem isAccountable (errand : Errand State Failure Answer) : errand.IsAccountable := by
  induction errand with
  | finish answer state =>
      intro log
      cases answer <;> exact .nil log
  | note record other later ih =>
      intro log
      rw [accounted, memoryAfter_mapState]
      exact .noted other (ih _)
  | walk pre visit post root state resume ihPre ihVisit ihPost ih =>
      intro log
      have hwalk := Errands.accounts_walk ⟨pre, visit, post⟩ ⟨ihPre, ihVisit, ihPost⟩ root state
        log
      rw [accounted_walk ⟨pre, visit, post⟩, memoryAfter_mapState]
      exact hwalk.append (ih _ _ _)

end Errand

namespace Errands

/-- What a walk adds to the log is what its history calls for. -/
theorem accounts_walkMade (errands : Errands Context State Failure) (root : Node Context)
    (state : State) (log : Log) :
    Accounts log.toList (errands.walkMade root state log).history
      (memoryAfter (errands.visitor.walk root ⟨state, log⟩)).log := by
  rw [← errands.mapState_accounted_walk, memoryAfter_mapState]
  exact errands.accounts_walk (errands.always Errand.isAccountable) root state log

end Errands

/-- The log accounts for a walk that a visitor of scripts drives. -/
theorem Visitor.accounts_drive (visitor : Visitor Context (Hook State Failure))
    (root : Node Context) (state : State) (log : Log) :
    Accounts log.toList ((visitor.running root.count).walkMade root state log).history
      (memoryAfter (visitor.drive root ⟨state, log⟩)).log := by
  rw [drive_eq_walk]
  exact (visitor.running root.count).accounts_walkMade root state log

end CoolTree
