import CoolTree.Proofs.Walk.Calls
import Mathlib.Data.List.Infix
import Mathlib.Data.List.Lex
import Mathlib.Data.List.Nodup

/-!
# Schedules

A walk that nothing holds up has its calls in a fixed order, the schedule of the
tree.  A moment of the schedule is a call at a place of the tree, so the moments
of equal nodes at different places are different.

A schedule is sorted.  The rank of a moment is the path of its place, followed by
a position behind all children for the last two calls there, and the moments of a
schedule stand in the lexicographic order of their ranks.  So the moments before
another one are those of smaller rank.  In particular, before a node is entered,
the schedule enters what stands before it in preorder, and of these it leaves all
but the ancestors of the node.
-/

namespace CoolTree

variable {Context : Type}

structure Moment (Context : Type) where
  phase : Phase
  occurrence : Occurrence Context

namespace Moment

def call (moment : Moment Context) : HookCall Context :=
  ⟨moment.phase, moment.occurrence.node⟩

/-- The same moment seen from one level higher. -/
def under (position : Nat) (moment : Moment Context) : Moment Context :=
  ⟨moment.phase, moment.occurrence.under position⟩

@[simp]
theorem call_under (position : Nat) (moment : Moment Context) :
    (moment.under position).call = moment.call := rfl

@[simp]
theorem phase_under (position : Nat) (moment : Moment Context) :
    (moment.under position).phase = moment.phase := rfl

@[simp]
theorem occurrence_under (position : Nat) (moment : Moment Context) :
    (moment.under position).occurrence = moment.occurrence.under position := rfl

/-- The moments seen from one level higher are those at places seen from there. -/
theorem mem_map_under {position : Nat} {moments : List (Moment Context)}
    {moment : Moment Context} :
    moment ∈ moments.map (.under position) ↔
      ∃ occurrence, ⟨moment.phase, occurrence⟩ ∈ moments ∧
        occurrence.under position = moment.occurrence := by
  rw [List.mem_map]
  constructor
  · rintro ⟨inner, member, rfl⟩
    exact ⟨inner.occurrence, member, rfl⟩
  · rintro ⟨occurrence, member, heq⟩
    exact ⟨_, member, congrArg (Moment.mk moment.phase) heq⟩

end Moment

namespace Node

mutual

/-- The moments of a walk that nothing holds up. -/
def schedule (node : Node Context) : List (Moment Context) :=
  ⟨.pre, ⟨[], node⟩⟩ ::
    (scheduleFrom 0 node.children ++ [⟨.visit, ⟨[], node⟩⟩, ⟨.post, ⟨[], node⟩⟩])
termination_by 2 * node.size
decreasing_by
  have hsize := node.size_eq
  omega

def scheduleFrom (position : Nat) (children : List (Node Context)) : List (Moment Context) :=
  match children with
  | [] => []
  | child :: rest => child.schedule.map (.under position) ++ scheduleFrom (position + 1) rest
termination_by 2 * totalSize children + 1
decreasing_by
  · rw [totalSize_cons]
    omega
  · have hsize := child.size_eq
    rw [totalSize_cons]
    omega

end

theorem mem_scheduleFrom_of {children : List (Node Context)}
    (each : ∀ child ∈ children, ∀ moment,
      moment ∈ child.schedule ↔ moment.occurrence ∈ child.occurrences)
    (start : Nat) (moment : Moment Context) :
    moment ∈ scheduleFrom start children ↔
      moment.occurrence ∈ occurrencesFrom start children := by
  induction children generalizing start with
  | nil => simp [scheduleFrom, occurrencesFrom]
  | cons child rest ih =>
      have hrest := ih (fun other member => each other (List.mem_cons_of_mem child member))
        (start + 1)
      rw [scheduleFrom, occurrencesFrom, List.mem_append, List.mem_append, hrest]
      apply or_congr_left
      rw [Moment.mem_map_under, List.mem_map]
      simp only [each child List.mem_cons_self]

/-- Every place of a tree has one moment of each phase. -/
theorem mem_schedule (node : Node Context) (moment : Moment Context) :
    moment ∈ node.schedule ↔ moment.occurrence ∈ node.occurrences := by
  induction node using Node.induction generalizing moment with
  | step node ih =>
      obtain ⟨phase, occurrence⟩ := moment
      rw [schedule, occurrences, List.mem_cons, List.mem_append, mem_scheduleFrom_of ih,
        List.mem_cons]
      cases phase <;> simp [or_comm]

theorem mem_scheduleFrom (children : List (Node Context)) (start : Nat)
    (moment : Moment Context) :
    moment ∈ scheduleFrom start children ↔
      moment.occurrence ∈ occurrencesFrom start children :=
  mem_scheduleFrom_of (fun child _ => mem_schedule child) start moment

end Node

/-! ## Ranks -/

namespace Moment

/-- Where a moment stands in a schedule: at the path of its place, or behind all
children of the place for its last two calls. -/
def rank (moment : Moment Context) : List Nat :=
  moment.occurrence.path ++
    match moment.phase with
    | .pre => []
    | .visit => [moment.occurrence.node.children.length]
    | .post => [moment.occurrence.node.children.length + 1]

@[simp]
theorem rank_under (position : Nat) (moment : Moment Context) :
    (moment.under position).rank = position :: moment.rank := rfl

@[simp]
theorem rank_pre (place : Occurrence Context) : (Moment.mk .pre place).rank = place.path :=
  List.append_nil _

theorem rank_post (place : Occurrence Context) :
    (Moment.mk .post place).rank = place.path ++ [place.node.children.length + 1] := rfl

/-- The last two calls at a place are behind all its children. -/
theorem exists_rank_eq {moment : Moment Context} (hphase : moment.phase ≠ .pre) :
    ∃ position, moment.occurrence.node.children.length ≤ position ∧
      position ≤ moment.occurrence.node.children.length + 1 ∧
      moment.rank = moment.occurrence.path ++ [position] := by
  obtain ⟨phase, place⟩ := moment
  cases phase with
  | pre => exact absurd rfl hphase
  | visit => exact ⟨_, le_rfl, Nat.le_succ _, rfl⟩
  | post => exact ⟨_, Nat.le_succ _, le_rfl, rfl⟩

end Moment

namespace Node

theorem exists_of_mem_scheduleFrom {children : List (Node Context)} {start : Nat}
    {moment : Moment Context} (member : moment ∈ scheduleFrom start children) :
    ∃ (position : Nat) (child : Node Context) (inner : Moment Context),
      children[position]? = some child ∧ inner ∈ child.schedule ∧
        moment = inner.under (start + position) := by
  obtain ⟨phase, place⟩ := moment
  obtain ⟨position, child, inner, hchild, hinner, rfl⟩ :=
    mem_occurrencesFrom.mp ((mem_scheduleFrom children start _).mp member)
  exact ⟨position, child, ⟨phase, inner⟩, hchild, (child.mem_schedule _).mpr hinner, rfl⟩

theorem pairwise_rank_scheduleFrom {children : List (Node Context)}
    (each : ∀ child ∈ children, child.schedule.Pairwise fun first second =>
      first.rank < second.rank) (start : Nat) :
    (scheduleFrom start children).Pairwise fun first second => first.rank < second.rank := by
  induction children generalizing start with
  | nil => simp [scheduleFrom]
  | cons child rest ih =>
      rw [scheduleFrom, List.pairwise_append, List.pairwise_map]
      refine ⟨?_, ih (fun other member => each other (List.mem_cons_of_mem child member)) _, ?_⟩
      · apply (each child List.mem_cons_self).imp
        intro first second hless
        simpa [List.cons_lt_cons_iff] using hless
      · intro first hfirst second hsecond
        obtain ⟨inner, _, rfl⟩ := List.mem_map.mp hfirst
        obtain ⟨position, _, other, _, _, rfl⟩ := exists_of_mem_scheduleFrom hsecond
        rw [Moment.rank_under, Moment.rank_under, List.cons_lt_cons_iff]
        omega

/-- The moments of a schedule stand in the order of their ranks. -/
theorem pairwise_rank_schedule (root : Node Context) :
    root.schedule.Pairwise fun first second => first.rank < second.rank := by
  induction root using Node.induction with
  | step root ih =>
      have hbelow : ∀ moment ∈ scheduleFrom 0 root.children,
          ∃ position rest, position < root.children.length ∧
            moment.rank = position :: rest := by
        intro moment member
        obtain ⟨position, child, inner, hchild, _, rfl⟩ := exists_of_mem_scheduleFrom member
        refine ⟨0 + position, inner.rank, ?_, rfl⟩
        rw [Nat.zero_add]
        exact (List.getElem?_eq_some_iff.mp hchild).1
      rw [schedule, List.pairwise_cons, List.pairwise_append]
      refine ⟨?_, pairwise_rank_scheduleFrom ih 0, ?_, ?_⟩
      · intro moment member
        rw [Moment.rank_pre]
        rcases List.mem_append.mp member with hinside | hlast
        · obtain ⟨position, rest, -, hrank⟩ := hbelow moment hinside
          rw [hrank]
          exact List.nil_lt_cons position rest
        · simp only [List.mem_cons, List.not_mem_nil, or_false] at hlast
          rcases hlast with rfl | rfl <;> exact List.nil_lt_cons _ _
      · simp [Moment.rank, List.cons_lt_cons_iff]
      · intro first hfirst second hsecond
        obtain ⟨position, rest, hposition, hrank⟩ := hbelow first hfirst
        rw [hrank]
        simp only [List.mem_cons, List.not_mem_nil, or_false] at hsecond
        rcases hsecond with rfl | rfl
        · exact List.cons_lt_cons_iff.mpr (Or.inl hposition)
        · exact List.cons_lt_cons_iff.mpr (Or.inl (Nat.lt_succ_of_lt hposition))

theorem nodup_schedule (root : Node Context) : root.schedule.Nodup := by
  apply root.pairwise_rank_schedule.imp
  rintro first _ hless rfl
  exact List.lt_irrefl first.rank hless

theorem filter_pre_scheduleFrom {children : List (Node Context)}
    (each : ∀ child ∈ children,
      (child.schedule.filter fun moment => moment.phase = .pre).map Moment.occurrence =
        child.occurrences) (start : Nat) :
    ((scheduleFrom start children).filter fun moment => moment.phase = .pre).map
        Moment.occurrence = occurrencesFrom start children := by
  induction children generalizing start with
  | nil => simp [scheduleFrom, occurrencesFrom]
  | cons child rest ih =>
      rw [scheduleFrom, occurrencesFrom, List.filter_append, List.map_append,
        ih fun other member => each other (List.mem_cons_of_mem child member),
        ← each child List.mem_cons_self, List.filter_map, List.map_map, List.map_map]
      rfl

/-- A schedule enters the places of its tree in preorder. -/
theorem filter_pre_schedule (root : Node Context) :
    (root.schedule.filter fun moment => moment.phase = .pre).map Moment.occurrence =
      root.occurrences := by
  induction root using Node.induction with
  | step root ih =>
      rw [schedule, occurrences, List.filter_cons_of_pos (by rfl), List.filter_append,
        List.map_cons, List.map_append, filter_pre_scheduleFrom ih]
      simp

/-- The places of a tree stand in the order of their paths. -/
theorem pairwise_path_occurrences (root : Node Context) :
    root.occurrences.Pairwise fun first second => first.path < second.path := by
  rw [← filter_pre_schedule, List.pairwise_map]
  apply (root.pairwise_rank_schedule.filter _).imp_of_mem
  rintro ⟨phase, first⟩ ⟨other, second⟩ hfirst hsecond hless
  obtain rfl := of_decide_eq_true (List.mem_filter.mp hfirst).2
  obtain rfl := of_decide_eq_true (List.mem_filter.mp hsecond).2
  simpa using hless

end Node

/-! ## What comes before another moment -/

/-- In a sorted list the entries before another one are the smaller ones. -/
theorem mem_before_iff {Entry : Type} {key : Entry → List Nat} {before after : List Entry}
    {entry other : Entry}
    (hsorted : (before ++ entry :: after).Pairwise fun first second => key first < key second)
    (member : other ∈ before ++ entry :: after) : other ∈ before ↔ key other < key entry := by
  rw [List.pairwise_append, List.pairwise_cons] at hsorted
  obtain ⟨-, ⟨hafter, -⟩, hbefore⟩ := hsorted
  constructor
  · intro hother
    exact hbefore other hother entry List.mem_cons_self
  · intro hless
    rw [List.mem_append, List.mem_cons] at member
    rcases member with hother | rfl | hother
    · exact hother
    · exact absurd hless (List.lt_irrefl _)
    · exact absurd hless (List.lt_asymm (hafter other hother))

theorem append_lt_append_left_iff {path left right : List Nat} :
    path ++ left < path ++ right ↔ left < right := by
  induction path with
  | nil => rfl
  | cons position path ih => simpa [List.cons_lt_cons_iff] using ih

/-- A path that is smaller than another one and no prefix of it stays smaller
when it is continued. -/
theorem append_lt_of_apart {path rank : List Nat} (hless : path < rank)
    (hapart : ¬ path <+: rank) (tail : List Nat) : path ++ tail < rank := by
  induction path generalizing rank with
  | nil => exact absurd List.nil_prefix hapart
  | cons first path ih =>
      cases rank with
      | nil => exact absurd hless (List.not_lt_nil _)
      | cons position rank =>
          rw [List.cons_append, List.cons_lt_cons_iff]
          rcases List.cons_lt_cons_iff.mp hless with hfirst | ⟨rfl, hrest⟩
          · exact Or.inl hfirst
          · refine Or.inr ⟨rfl, ih hrest fun hbelow => hapart ?_⟩
            exact List.cons_prefix_cons.mpr ⟨rfl, hbelow⟩

/-- The last calls at a place are beyond what lies below it. -/
theorem not_lt_of_below {root : Node Context} {place reached : Occurrence Context}
    (hplace : place ∈ root.occurrences) (hreached : reached ∈ root.occurrences)
    (hbelow : place.path <+: reached.path) {position : Nat}
    (hposition : place.node.children.length ≤ position) {tail : List Nat}
    (htail : reached.path = place.path → ¬ [position] < tail) :
    ¬ place.path ++ [position] < reached.path ++ tail := by
  obtain ⟨rest, hrest⟩ := hbelow
  rw [← hrest, List.append_assoc, append_lt_append_left_iff]
  cases rest with
  | nil => exact htail (by rw [← hrest, List.append_nil])
  | cons next rest =>
      have hnext := Node.lt_length_children hplace hreached hrest.symm
      rw [List.cons_append, List.cons_lt_cons_iff]
      omega

/-- The moment lies before the place is reached, if its own place stands before
that one in preorder: nodes before are entered, and all but the ancestors left. -/
def Moment.IsOver (reached : Occurrence Context) (moment : Moment Context) : Prop :=
  moment.phase = .pre ∨ ¬ moment.occurrence.path <+: reached.path

/-- The moments of smaller rank than the path of a place are those that are over when
it is reached. -/
theorem Moment.rank_lt_path_iff {root : Node Context} {reached : Occurrence Context}
    {moment : Moment Context} (hreached : reached ∈ root.occurrences)
    (member : moment.occurrence ∈ root.occurrences) :
    moment.rank < reached.path ↔
      moment.occurrence.path < reached.path ∧ moment.IsOver reached := by
  by_cases hphase : moment.phase = .pre
  · obtain ⟨phase, place⟩ := moment
    obtain rfl : phase = .pre := hphase
    rw [rank_pre]
    exact (and_iff_left (Or.inl rfl)).symm
  · obtain ⟨position, hposition, -, hrank⟩ := exists_rank_eq hphase
    rw [hrank, IsOver, or_iff_right hphase]
    constructor
    · intro hless
      constructor
      · refine List.lt_trans ?_ hless
        simpa using append_lt_append_left_iff.mpr (List.nil_lt_cons position [])
      · intro hbelow
        refine not_lt_of_below member hreached hbelow hposition (fun _ => List.not_lt_nil _) ?_
        rwa [List.append_nil]
    · rintro ⟨hless, hapart⟩
      exact append_lt_of_apart hless hapart [position]

namespace Node

/-- Before a place is reached, the schedule has what is over then of the places before it. -/
theorem schedule_split {root : Node Context} {before after : List (Occurrence Context)}
    {reached : Occurrence Context} (hsplit : root.occurrences = before ++ reached :: after) :
    ∃ earlier later, root.schedule = earlier ++ ⟨.pre, reached⟩ :: later ∧
      ∀ moment, moment ∈ earlier ↔ moment.occurrence ∈ before ∧ moment.IsOver reached := by
  have hreached : reached ∈ root.occurrences := by
    rw [hsplit]
    exact List.mem_append_right before List.mem_cons_self
  obtain ⟨earlier, later, hschedule⟩ :=
    List.append_of_mem ((root.mem_schedule ⟨.pre, reached⟩).mpr hreached)
  refine ⟨earlier, later, hschedule, fun moment => ?_⟩
  by_cases member : moment ∈ root.schedule
  · have hplace := (root.mem_schedule moment).mp member
    have hearlier := mem_before_iff (hschedule ▸ root.pairwise_rank_schedule) (hschedule ▸ member)
    have hbefore := mem_before_iff (hsplit ▸ root.pairwise_path_occurrences) (hsplit ▸ hplace)
    rw [hearlier, hbefore, Moment.rank_pre, Moment.rank_lt_path_iff hreached hplace]
  · constructor
    · intro hearlier
      exact absurd (hschedule ▸ List.mem_append_left _ hearlier) member
    · rintro ⟨hbefore, -⟩
      refine absurd ((root.mem_schedule moment).mpr ?_) member
      rw [hsplit]
      exact List.mem_append_left _ hbefore

end Node

end CoolTree
