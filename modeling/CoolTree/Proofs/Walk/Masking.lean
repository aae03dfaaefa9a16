import CoolTree.Proofs.Walk.Schedule

/-!
# Handled nodes

A handled node masks what is below it: no hook is called there, and a malformed
node there does not stop the walk.  A walk therefore stops exactly when there is
a malformed node without a handled one above it, at the first such node in
preorder.  By then it has made the calls that the schedule has before that node,
as far as they are not masked.
-/

namespace CoolTree

variable {Context : Type}

def Occurrence.IsAbove (upper lower : Occurrence Context) : Prop :=
  upper.path <+: lower.path ∧ upper.path ≠ lower.path

instance (upper lower : Occurrence Context) : Decidable (upper.IsAbove lower) :=
  inferInstanceAs (Decidable (_ ∧ _))

theorem Occurrence.isAbove_under {position : Nat} {upper lower : Occurrence Context} :
    (upper.under position).IsAbove (lower.under position) ↔ upper.IsAbove lower := by
  simp [IsAbove, List.cons_prefix_cons]

namespace Node

/-- A walk reaches the place: none of the nodes above it is handled. -/
def Reaches (handles : Node Context → Bool) (root : Node Context)
    (occurrence : Occurrence Context) : Prop :=
  ∀ ancestor ∈ root.occurrences, ancestor.IsAbove occurrence → handles ancestor.node = false

instance (handles : Node Context → Bool) (root : Node Context)
    (occurrence : Occurrence Context) : Decidable (root.Reaches handles occurrence) :=
  inferInstanceAs (Decidable (∀ ancestor ∈ root.occurrences,
    ancestor.IsAbove occurrence → handles ancestor.node = false))

/-- The place has a malformed node and is not masked. -/
def Violates (handles : Node Context → Bool) (root : Node Context)
    (occurrence : Occurrence Context) : Prop :=
  occurrence.node.defect? ≠ none ∧ root.Reaches handles occurrence

instance (handles : Node Context → Bool) (root : Node Context)
    (occurrence : Occurrence Context) : Decidable (root.Violates handles occurrence) :=
  inferInstanceAs (Decidable (_ ∧ _))

variable {handles : Node Context → Bool} {root child : Node Context}

theorem reaches_root : root.Reaches handles ⟨[], root⟩ := by
  rintro ancestor - ⟨hpath, hne⟩
  exact absurd (List.prefix_nil.mp hpath) hne

/-- A place below the root is reached when the root is not handled and the walk
of the child reaches it. -/
theorem reaches_under {position : Nat} (hchild : root.children[position]? = some child)
    {occurrence : Occurrence Context} :
    root.Reaches handles (occurrence.under position) ↔
      handles root = false ∧ child.Reaches handles occurrence := by
  rw [Reaches, occurrences, List.forall_mem_cons]
  apply and_congr
  · simp [Occurrence.IsAbove]
  · constructor
    · intro hbelow ancestor member habove
      apply hbelow (ancestor.under position) _ (Occurrence.isAbove_under.mpr habove)
      exact mem_occurrencesFrom.mpr
        ⟨position, child, ancestor, hchild, member, by rw [Nat.zero_add]⟩
    · intro hinner ancestor member habove
      obtain ⟨other, sibling, inner, hsibling, hmember, rfl⟩ := mem_occurrencesFrom.mp member
      obtain rfl : other = position := by
        have hpath := habove.1
        rw [Occurrence.path_under, Occurrence.path_under, List.cons_prefix_cons] at hpath
        omega
      rw [hchild] at hsibling
      cases hsibling
      rw [Nat.zero_add] at habove
      exact hinner inner hmember (Occurrence.isAbove_under.mp habove)

end Node

namespace Moment

/-- The call of the moment is made: its place is reached, and its node is not
left after it was handled. -/
def IsMade (handles : Node Context → Bool) (root : Node Context) (moment : Moment Context) :
    Prop :=
  root.Reaches handles moment.occurrence ∧
    (moment.phase = .pre ∨ handles moment.occurrence.node = false)

instance (handles : Node Context → Bool) (root : Node Context) (moment : Moment Context) :
    Decidable (moment.IsMade handles root) :=
  inferInstanceAs (Decidable (_ ∧ _))

variable {handles : Node Context → Bool} {root child : Node Context}

theorem isMade_root {phase : Phase} :
    Moment.IsMade handles root ⟨phase, ⟨[], root⟩⟩ ↔ phase = .pre ∨ handles root = false :=
  and_iff_right Node.reaches_root

theorem isMade_under {position : Nat} (hchild : root.children[position]? = some child)
    {moment : Moment Context} :
    (moment.under position).IsMade handles root ↔
      handles root = false ∧ moment.IsMade handles child := by
  rw [IsMade, occurrence_under, Node.reaches_under hchild, and_assoc]
  rfl

/-- A call that is made has no defect, unless its place violates the tree. -/
theorem defect?_call_of_made {moment : Moment Context} (hmade : moment.IsMade handles root)
    (hsound : ¬ root.Violates handles moment.occurrence) : moment.call.defect? = none := by
  obtain ⟨phase, occurrence⟩ := moment
  cases phase with
  | pre =>
      by_contra hdefect
      exact hsound ⟨hdefect, hmade.1⟩
  | visit => rfl
  | post => rfl

end Moment

/-- What holds when a walk stops at a malformed node: the node is the first one
in preorder that violates the tree, and these are the calls made by then. -/
structure Node.Interrupted (handles : Node Context → Bool) (root : Node Context)
    (before : List (Occurrence Context)) (stop : Occurrence Context)
    (after : List (Occurrence Context)) (moments : List (Moment Context)) : Prop where
  split : root.occurrences = before ++ stop :: after
  violates : root.Violates handles stop
  isFirst : ∀ occurrence ∈ before, ¬ root.Violates handles occurrence
  /-- The calls come in the order of the schedule. -/
  inOrder : moments.Sublist root.schedule
  nodup : moments.Nodup
  /-- Exactly the nodes before the malformed one that are reached are entered. -/
  entered : ∀ occurrence, ⟨.pre, occurrence⟩ ∈ moments ↔
    occurrence ∈ before ∧ root.Reaches handles occurrence
  /-- Of these, exactly the ones that are neither handled nor above the malformed
  node are left, by both of their last calls. -/
  left : ∀ phase occurrence, phase ≠ .pre → (⟨phase, occurrence⟩ ∈ moments ↔
    occurrence ∈ before ∧ root.Reaches handles occurrence ∧
      handles occurrence.node = false ∧ ¬ occurrence.IsAbove stop)
  /-- No hook is called for the malformed node. -/
  untouched : ∀ moment ∈ moments, moment.occurrence ≠ stop
  /-- No node above the malformed one is left. -/
  openAbove : ∀ moment ∈ moments, moment.occurrence.IsAbove stop → moment.phase = .pre

namespace Node

variable {handles : Node Context → Bool} {root : Node Context}
  {before after : List (Occurrence Context)} {stop : Occurrence Context}

/-- The places before a place have other paths. -/
theorem path_ne_of_mem_before (hsplit : root.occurrences = before ++ stop :: after)
    {occurrence : Occurrence Context} (member : occurrence ∈ before) :
    occurrence.path ≠ stop.path := by
  have hpaths := root.nodup_paths
  rw [hsplit, List.map_append, List.nodup_append] at hpaths
  exact hpaths.2.2 _ (List.mem_map_of_mem member) _ (by simp)

/-- The calls before the first violation are what the schedule has before it, as
far as it is not masked. -/
theorem interrupted_of_earlier (hsplit : root.occurrences = before ++ stop :: after)
    (hviolates : root.Violates handles stop)
    (hfirst : ∀ occurrence ∈ before, ¬ root.Violates handles occurrence)
    {earlier later : List (Moment Context)}
    (hschedule : root.schedule = earlier ++ ⟨.pre, stop⟩ :: later)
    (hearlier : ∀ moment, moment ∈ earlier ↔
      moment.occurrence ∈ before ∧ moment.IsOver stop) :
    root.Interrupted handles before stop after
      (earlier.filter fun moment => moment.IsMade handles root) := by
  have hsublist : (earlier.filter fun moment => moment.IsMade handles root).Sublist
      root.schedule := by
    rw [hschedule]
    exact List.filter_sublist.trans (List.sublist_append_left _ _)
  have hmem : ∀ moment, moment ∈ earlier.filter (fun moment => moment.IsMade handles root) ↔
      (moment.occurrence ∈ before ∧ moment.IsOver stop) ∧ moment.IsMade handles root := by
    intro moment
    rw [List.mem_filter, hearlier, decide_eq_true_iff]
  refine {
    split := hsplit
    violates := hviolates
    isFirst := hfirst
    inOrder := hsublist
    nodup := hsublist.nodup root.nodup_schedule
    entered := ?_
    left := ?_
    untouched := ?_
    openAbove := ?_ }
  · intro occurrence
    rw [hmem]
    simp [Moment.IsOver, Moment.IsMade]
  · intro phase occurrence hphase
    rw [hmem]
    simp only [Moment.IsOver, Moment.IsMade, hphase, false_or]
    constructor
    · rintro ⟨⟨hbefore, hleft⟩, hreached, hhandled⟩
      exact ⟨hbefore, hreached, hhandled, fun habove => hleft habove.1⟩
    · rintro ⟨hbefore, hreached, hhandled, hleft⟩
      have hnot : ¬ occurrence.path <+: stop.path := fun hpath =>
        hleft ⟨hpath, path_ne_of_mem_before hsplit hbefore⟩
      exact ⟨⟨hbefore, hnot⟩, hreached, hhandled⟩
  · intro moment member heq
    exact path_ne_of_mem_before hsplit ((hmem moment).mp member).1.1 (congrArg _ heq)
  · intro moment member hpath
    obtain ⟨⟨-, hphase | hleft⟩, -⟩ := (hmem moment).mp member
    · exact hphase
    · exact absurd hpath.1 hleft

end Node

namespace Recorder

/-- A recorder that handles some nodes and leaves all else to the walk. -/
def handling (own : List Kind) (handles : Node Context → Bool) : Recorder Context where
  overrides := .generic own
  handles := handles

variable {handles : Node Context → Bool} {root : Node Context}

theorem calls_handling_eq (own : List Kind) (node : Node Context) :
    (handling own handles).calls node =
      ⟨.pre, node⟩ :: if handles node then []
        else node.children.flatMap (handling own handles).calls ++
          [⟨.visit, node⟩, ⟨.post, node⟩] := by
  rw [calls_eq]
  rfl

/-- Below a handled node no call is made. -/
theorem filter_scheduleFrom_of_handled (hhandled : handles root = true) :
    (Node.scheduleFrom 0 root.children).filter (fun moment => moment.IsMade handles root) = [] := by
  rw [List.filter_eq_nil_iff]
  intro moment member hmade
  rw [Node.mem_scheduleFrom, Node.mem_occurrencesFrom] at member
  obtain ⟨position, child, inner, hchild, _, heq⟩ := member
  have hreached := (of_decide_eq_true hmade).1
  rw [heq, Nat.zero_add, Node.reaches_under hchild, hhandled] at hreached
  cases hreached.1

theorem map_call_scheduleFrom {own : List Kind} (hopen : handles root = false)
    {children : List (Node Context)}
    (each : ∀ child ∈ children, (handling own handles).calls child =
      (child.schedule.filter fun moment => moment.IsMade handles child).map Moment.call)
    {start : Nat} (hchildren : root.children.drop start = children) :
    ((Node.scheduleFrom start children).filter fun moment => moment.IsMade handles root).map
        Moment.call = children.flatMap (handling own handles).calls := by
  induction children generalizing start with
  | nil => simp [Node.scheduleFrom]
  | cons child rest ih =>
      have hchild : root.children[start]? = some child := by
        rw [← Nat.add_zero start, ← List.getElem?_drop, hchildren]
        rfl
      have hrest : root.children.drop (start + 1) = rest := by
        rw [← List.drop_drop, hchildren]
        rfl
      rw [Node.scheduleFrom, List.filter_append, List.map_append, List.flatMap_cons,
        ih (fun other member => each other (List.mem_cons_of_mem child member)) hrest,
        each child List.mem_cons_self, List.filter_map, List.map_map]
      congr 2
      apply List.filter_congr
      intro moment _
      simp [Moment.isMade_under hchild, hopen]

/-- The calls of a recorder that handles nodes are those of the schedule that
are not masked. -/
theorem calls_handling (own : List Kind) (handles : Node Context → Bool) (root : Node Context) :
    (handling own handles).calls root =
      (root.schedule.filter fun moment => moment.IsMade handles root).map Moment.call := by
  induction root using Node.induction with
  | step root ih =>
      rw [calls_handling_eq, Node.schedule, List.filter_cons, List.filter_append]
      cases hhandled : handles root with
      | true =>
          rw [filter_scheduleFrom_of_handled hhandled]
          simp [Moment.isMade_root, hhandled, Moment.call]
      | false =>
          have hbelow := map_call_scheduleFrom hhandled ih List.drop_zero
          simp [Moment.isMade_root, hhandled, Moment.call, ← hbelow]

/-- Where nothing violates the tree, all calls can be made. -/
theorem firstDefect?_calls_of_sound (own : List Kind)
    (hsound : ∀ occurrence ∈ root.occurrences, ¬ root.Violates handles occurrence) :
    HookCall.firstDefect? ((handling own handles).calls root) = none := by
  rw [HookCall.firstDefect?, List.findSome?_eq_none_iff, calls_handling]
  intro call member
  obtain ⟨moment, hmoment, rfl⟩ := List.mem_map.mp member
  obtain ⟨hschedule, hmade⟩ := List.mem_filter.mp hmoment
  exact Moment.defect?_call_of_made (of_decide_eq_true hmade)
    (hsound _ ((root.mem_schedule moment).mp hschedule))

/-- The first place that violates the tree cuts off the calls. -/
theorem exists_interrupted (own : List Kind)
    (violated : ∃ occurrence ∈ root.occurrences, root.Violates handles occurrence) :
    ∃ before stop after moments defect,
      root.Interrupted handles before stop after moments ∧
      stop.node.defect? = some defect ∧
      HookCall.firstDefect? ((handling own handles).calls root) = some defect ∧
      HookCall.beforeDefect ((handling own handles).calls root) = moments.map Moment.call := by
  obtain ⟨stop, hfind⟩ : ∃ stop, root.occurrences.find?
      (fun occurrence => root.Violates handles occurrence) = some stop := by
    simpa [← Option.isSome_iff_exists] using violated
  obtain ⟨hstop, before, after, hsplit, hbefore⟩ := List.find?_eq_some_iff_append.mp hfind
  have hviolates : root.Violates handles stop := of_decide_eq_true hstop
  have hfirst : ∀ occurrence ∈ before, ¬ root.Violates handles occurrence := by
    simpa using hbefore
  obtain ⟨defect, hdefect⟩ := Option.ne_none_iff_exists'.mp hviolates.1
  obtain ⟨earlier, later, hschedule, hearlier⟩ := Node.schedule_split hsplit
  have hsound : ∀ call ∈ (earlier.filter fun moment => moment.IsMade handles root).map Moment.call,
      call.defect? = none := by
    intro call member
    obtain ⟨moment, hmoment, rfl⟩ := List.mem_map.mp member
    obtain ⟨hmem, hmade⟩ := List.mem_filter.mp hmoment
    exact Moment.defect?_call_of_made (of_decide_eq_true hmade)
      (hfirst _ ((hearlier moment).mp hmem).1)
  have hmade : Moment.IsMade handles root ⟨.pre, stop⟩ := ⟨hviolates.2, Or.inl rfl⟩
  refine ⟨before, stop, after, _, defect,
    Node.interrupted_of_earlier hsplit hviolates hfirst hschedule hearlier, hdefect, ?_⟩
  rw [calls_handling, hschedule, List.filter_append, List.filter_cons,
    if_pos (decide_eq_true hmade), List.map_append]
  exact HookCall.cut_at_defect hsound ⟨.pre, stop.node⟩ hdefect _

theorem walk_of_sound (own : List Kind) (log : Log)
    (hsound : ¬ ∃ occurrence ∈ root.occurrences, root.Violates handles occurrence) :
    ∃ journal, (handling own handles).walk root ⟨.empty, log⟩ = .ok () journal := by
  obtain ⟨journal, hwalk, -⟩ := (handling own handles).walk_outcome rfl rfl root .empty log
  rw [firstDefect?_calls_of_sound own (by simpa using hsound)] at hwalk
  exact ⟨journal, hwalk⟩

theorem walk_of_violated (own : List Kind) (log : Log)
    (violated : ∃ occurrence ∈ root.occurrences, root.Violates handles occurrence) :
    ∃ before stop after moments defect journal,
      (handling own handles).walk root ⟨.empty, log⟩ = .error (.malformed defect) journal ∧
      root.Interrupted handles before stop after moments ∧
      stop.node.defect? = some defect ∧
      journal.state.events.toList = moments.map fun moment => moment.call.event own := by
  obtain ⟨before, stop, after, moments, defect, hinterrupted, hdefect, hfirst, hbefore⟩ :=
    exists_interrupted own violated
  obtain ⟨journal, hwalk, hstate⟩ := (handling own handles).walk_outcome rfl rfl root .empty log
  rw [hfirst] at hwalk
  refine ⟨before, stop, after, moments, defect, journal, hwalk, hinterrupted, hdefect, ?_⟩
  rw [hstate, hbefore, Recording.toList_events_append_empty, List.map_map]
  rfl

/-- A walk that handles some nodes stops exactly when a malformed node is not
masked by a handled one above it, and otherwise ends well.  When it stops it
reports the first such node in preorder, and the hooks that have been called are
those of the schedule before that node, as far as they are not masked. -/
theorem walk_handling (own : List Kind) (handles : Node Context → Bool) (root : Node Context)
    (log : Log) :
    ((∃ defect journal, (handling own handles).walk root ⟨.empty, log⟩ =
          .error (.malformed defect) journal) ↔
        ∃ occurrence ∈ root.occurrences, root.Violates handles occurrence) ∧
      ((¬ ∃ occurrence ∈ root.occurrences, root.Violates handles occurrence) →
        ∃ journal, (handling own handles).walk root ⟨.empty, log⟩ = .ok () journal) ∧
      ∀ defect journal, (handling own handles).walk root ⟨.empty, log⟩ =
          .error (.malformed defect) journal →
        ∃ before stop after moments,
          root.Interrupted handles before stop after moments ∧
          stop.node.defect? = some defect ∧
          defect.message = "malformed AST: `" ++ stop.node.kind.label ++ "` node requires " ++
            defect.requirement ∧
          journal.state.events.toList =
            moments.map fun moment => moment.call.event own := by
  have hviolated : ∀ defect journal, (handling own handles).walk root ⟨.empty, log⟩ =
      .error (.malformed defect) journal →
        ∃ occurrence ∈ root.occurrences, root.Violates handles occurrence := by
    intro defect journal hwalk
    by_contra hsound
    obtain ⟨_, hends⟩ := walk_of_sound own log hsound
    rw [hends] at hwalk
    cases hwalk
  refine ⟨⟨?_, ?_⟩, walk_of_sound own log, ?_⟩
  · rintro ⟨defect, journal, hwalk⟩
    exact hviolated defect journal hwalk
  · intro violated
    obtain ⟨_, _, _, _, defect, journal, hwalk, -⟩ := walk_of_violated own log violated
    exact ⟨defect, journal, hwalk⟩
  · intro defect journal hwalk
    obtain ⟨before, stop, after, moments, _, _, hstops, hinterrupted, hdefect, hevents⟩ :=
      walk_of_violated own log (hviolated defect journal hwalk)
    rw [hwalk] at hstops
    cases hstops
    exact ⟨before, stop, after, moments, hinterrupted, hdefect,
      Node.message_of_defect? hdefect, hevents⟩

/-- The empty block is masked by the handled block around it, and the walk stops
at the choice without branches that comes later. -/
theorem walk_handling_blocks :
    let root : Node Nat := .expression (.block 0
      [.block 1 [.block 2 []], .typeCase 3 (.noExpr 4) []])
    let handles : Node Nat → Bool := fun node => node.context = 1
    (∃ occurrence ∈ root.occurrences, root.Violates handles occurrence) ∧
      ∃ defect journal before stop after moments,
        (handling [] handles).walk root ⟨.empty, #[]⟩ = .error (.malformed defect) journal ∧
        root.Interrupted handles before stop after moments ∧
        stop.node.defect? = some defect := by
  intro root handles
  have hviolated : ∃ occurrence ∈ root.occurrences, root.Violates handles occurrence := by
    refine ⟨Occurrence.under 1 ⟨[], .expression (.typeCase 3 (.noExpr 4) [])⟩, ?_, ?_, ?_⟩
    · exact Node.mem_occurrences.mpr rfl
    · exact Option.some_ne_none Defect.noBranches
    · exact (Node.reaches_under rfl).mpr ⟨rfl, Node.reaches_root⟩
  obtain ⟨hstops, -, hreport⟩ := walk_handling [] handles root #[]
  obtain ⟨defect, journal, hwalk⟩ := hstops.mpr hviolated
  obtain ⟨before, stop, after, moments, hinterrupted, hdefect, -⟩ := hreport defect journal hwalk
  exact ⟨hviolated, defect, journal, before, stop, after, moments, hwalk, hinterrupted, hdefect⟩

end Recorder

end CoolTree
