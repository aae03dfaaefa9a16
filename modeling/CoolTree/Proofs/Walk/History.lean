import CoolTree.Walk.Event
import CoolTree.Walk.Log

/-!
# Histories

A history tells what happened in a run: which hooks a walk called, in which
order and with which answers, and for each of these calls what was noted and
which walks were made in it, each walk with a history of its own.  A history
alone determines what the log must have about it.  The records of a walk stand
between its start and its end, and all that a call noted, itself or by walks
nested in it, comes before the record that the call handled its node.
-/

namespace CoolTree

namespace LogRecord

def isOfWalk : LogRecord → Bool
  | walking _ | handled _ | walked _ _ => true
  | printerCreated _ | graphBuilt _ _ => false

end LogRecord

/-- What a history is about: one walk, or one call of a hook. -/
inductive Subject where
  | walk
  | call

/-- What happened one after the other, with all that happened inside.  A walk
calls hooks, and a call notes things and makes walks; the index tells the two
apart within one type, so that one induction is about both. -/
inductive History : Subject → Type where
  | nil {subject : Subject} : History subject
  /-- A hook is called for a node of some kind.  Only pre hooks handle nodes. -/
  | called (phase : Phase) (kind : Kind) (handled : Bool) (inside : History .call)
      (later : History .walk) : History .walk
  /-- Something is noted that is not about walks. -/
  | noted (record : LogRecord) (other : record.isOfWalk = false) (later : History .call) :
      History .call
  /-- A tree whose root has some kind is walked, to its end or until it stops. -/
  | walked (root : Kind) (ended : Bool) (calls : History .walk) (later : History .call) :
      History .call

namespace History

def append {subject : Subject} : History subject → History subject → History subject
  | nil, last => last
  | called phase kind handled inside later, last =>
      called phase kind handled inside (later.append last)
  | noted record other later, last => noted record other (later.append last)
  | walked root ended calls later, last => walked root ended calls (later.append last)

/-- The number of wanted calls, without those of nested walks. -/
def count {subject : Subject} (wanted : Phase → Bool → Bool) : History subject → Nat
  | nil => 0
  | called phase _ handled _ later => (if wanted phase handled then 1 else 0) + later.count wanted
  | noted _ _ later => later.count wanted
  | walked _ _ _ later => later.count wanted

variable {subject : Subject}

/-- The number of pre hooks that a walk called itself. -/
def entered (history : History subject) : Nat :=
  history.count fun phase _ => phase = .pre

def handled (history : History subject) : Nat :=
  history.count fun _ handled => handled

def visited (history : History subject) : Nat :=
  history.count fun phase _ => phase = .visit

def left (history : History subject) : Nat :=
  history.count fun phase _ => phase = .post

/-- What the log must have.  A walk notes its start with the kind of its root,
and at its end, if it came there, also how many pre hooks it called itself.  In
between, each call that handled its node is noted, after everything that was
noted inside the call. -/
def records {subject : Subject} : History subject → List LogRecord
  | nil => []
  | called _ kind handled inside later =>
      inside.records ++ (if handled then [.handled kind] else []) ++ later.records
  | noted record _ later => record :: later.records
  | walked root ended calls later =>
      .walking root :: calls.records ++ (if ended then [.walked root calls.entered] else []) ++
        later.records

end History

structure WalkMade where
  root : Kind
  ended : Bool
  calls : History .walk

namespace WalkMade

def history (made : WalkMade) : History .call :=
  .walked made.root made.ended made.calls .nil

/-- The records of a walk go from its start to its end. -/
theorem records_history (made : WalkMade) :
    made.history.records = .walking made.root :: made.calls.records ++
      if made.ended then [.walked made.root made.calls.entered] else [] := by
  rw [history, History.records, History.records, List.append_nil]

example : (history ⟨.block, true, .called .pre .block true
    (.walked .loop false .nil (.noted (.graphBuilt 1 0) rfl .nil)) .nil⟩).records =
    [.walking .block, .walking .loop, .graphBuilt 1 0, .handled .block, .walked .block 1] := rfl

/-- A walk that came to its end has called both last hooks for all nodes that it
entered, except the handled ones. -/
def Balanced (made : WalkMade) : Prop :=
  made.ended = true →
    made.calls.visited + made.calls.handled = made.calls.entered ∧
      made.calls.left + made.calls.handled = made.calls.entered

end WalkMade

namespace History

def walks {subject : Subject} : History subject → List WalkMade
  | nil => []
  | called _ _ _ inside later => inside.walks ++ later.walks
  | noted _ _ later => later.walks
  | walked root ended calls later => ⟨root, ended, calls⟩ :: (calls.walks ++ later.walks)

variable {subject : Subject}

/-! ## Histories one after the other -/

theorem count_append (wanted : Phase → Bool → Bool) (first last : History subject) :
    (first.append last).count wanted = first.count wanted + last.count wanted := by
  induction first with
  | nil => simp [append, count]
  | called phase kind handled inside later _ ih =>
      rw [append, count, count, ih, Nat.add_assoc]
  | noted record other later ih => rw [append, count, count, ih]
  | walked root ended calls later _ ih => rw [append, count, count, ih]

theorem records_append (first last : History subject) :
    (first.append last).records = first.records ++ last.records := by
  induction first with
  | nil => rfl
  | called phase kind handled inside later _ ih =>
      simp only [append, records, ih, List.append_assoc]
  | noted record other later ih => rw [append, records, records, ih, List.cons_append]
  | walked root ended calls later _ ih =>
      simp only [append, records, ih, List.append_assoc, List.cons_append]

theorem walks_append (first last : History subject) :
    (first.append last).walks = first.walks ++ last.walks := by
  induction first with
  | nil => rfl
  | called phase kind handled inside later _ ih =>
      rw [append, walks, walks, ih, List.append_assoc]
  | noted record other later ih => rw [append, walks, walks, ih]
  | walked root ended calls later _ ih =>
      rw [append, walks, walks, ih, List.cons_append, List.append_assoc]

/-! ## The walks of a history -/

end History

/-! ## Starts and ends -/

/-- Records in which every end of a walk belongs to the last start before it that
is still open.  Where walks may stop, there may be starts without an end. -/
inductive Nested (mayStop : Prop) : List LogRecord → Prop where
  | nil : Nested mayStop []
  | other {record : LogRecord} (other : record.isOfWalk = false) {later : List LogRecord}
      (hlater : Nested mayStop later) : Nested mayStop (record :: later)
  | handled (kind : Kind) {later : List LogRecord} (hlater : Nested mayStop later) :
      Nested mayStop (.handled kind :: later)
  | walk (root : Kind) (entered : Nat) {inner later : List LogRecord}
      (hinner : Nested mayStop inner) (hlater : Nested mayStop later) :
      Nested mayStop (.walking root :: inner ++ .walked root entered :: later)
  | stopped (root : Kind) {later : List LogRecord} (hstop : mayStop)
      (hlater : Nested mayStop later) : Nested mayStop (.walking root :: later)

namespace Nested

variable {mayStop : Prop}

theorem append {first last : List LogRecord} (hfirst : Nested mayStop first)
    (hlast : Nested mayStop last) : Nested mayStop (first ++ last) := by
  induction hfirst with
  | nil => exact hlast
  | other other _ ih => exact .other other ih
  | handled kind _ ih => exact .handled kind ih
  | walk root entered hinner _ _ ih =>
      rw [List.append_assoc]
      exact .walk root entered hinner ih
  | stopped root hstop _ ih => exact .stopped root hstop ih

/-- The records of a history are nested like the history. -/
theorem records {subject : Subject} {history : History subject}
    (hstopped : ∀ made ∈ history.walks, made.ended = false → mayStop) :
    Nested mayStop history.records := by
  induction history with
  | nil => exact .nil
  | called phase kind handled inside later ihInside ih =>
      have hinside := ihInside fun made member => hstopped made (List.mem_append_left _ member)
      have hlater := ih fun made member => hstopped made (List.mem_append_right _ member)
      rw [History.records]
      cases handled with
      | true => exact (hinside.append (.handled kind .nil)).append hlater
      | false => exact (hinside.append .nil).append hlater
  | noted record other later ih => exact .other other (ih hstopped)
  | walked root ended calls later ihCalls ih =>
      have hcalls := ihCalls fun made member =>
        hstopped made (List.mem_cons_of_mem _ (List.mem_append_left _ member))
      have hlater := ih fun made member =>
        hstopped made (List.mem_cons_of_mem _ (List.mem_append_right _ member))
      rw [History.records]
      cases ended with
      | true => exact (Nested.walk root calls.entered hcalls .nil).append hlater
      | false =>
          have hstop : mayStop := hstopped _ List.mem_cons_self rfl
          exact ((Nested.stopped root hstop hcalls).append .nil).append hlater

end Nested

end CoolTree
