import CoolTree.Proofs.Walk.Pruning

/-!
# Positions of calls

On a well-shaped tree a recorder that handles no node makes three calls for every
node, and the place of each call among all of them is known in advance.  When a
node is entered, every node before it in preorder has been entered, and all of
these but its ancestors have been left as well, which makes three calls for each
of them less two for each ancestor.  From there on the calls of its own tree
follow without a gap, and they are the calls of a walk over that tree alone.
-/

namespace CoolTree

variable {Context : Type}

/-- The node seen from the root of a tree in which its own root stands at a path. -/
def Occurrence.within (path : List Nat) (occurrence : Occurrence Context) : Occurrence Context :=
  ⟨path ++ occurrence.path, occurrence.node⟩

namespace Moment

def within (path : List Nat) (moment : Moment Context) : Moment Context :=
  ⟨moment.phase, moment.occurrence.within path⟩

@[simp]
theorem call_within (path : List Nat) (moment : Moment Context) :
    (moment.within path).call = moment.call := rfl

@[simp]
theorem within_nil : (within [] : Moment Context → Moment Context) = id := rfl

end Moment

namespace Node

/-! ## Counting moments -/

theorem length_scheduleFrom {children : List (Node Context)}
    (each : ∀ child ∈ children, child.schedule.length = 3 * child.size) (start : Nat) :
    (scheduleFrom start children).length = 3 * totalSize children := by
  induction children generalizing start with
  | nil => simp [scheduleFrom]
  | cons child rest ih =>
      rw [scheduleFrom, List.length_append, List.length_map, each child List.mem_cons_self,
        ih fun other member => each other (List.mem_cons_of_mem child member), totalSize_cons,
        Nat.mul_add]

theorem length_schedule (node : Node Context) : node.schedule.length = 3 * node.size := by
  induction node using induction with
  | step node ih =>
      rw [schedule, List.length_cons, List.length_append, length_scheduleFrom ih, size_eq]
      simp only [List.length_cons, List.length_nil]
      omega

/-! ## The block of a tree -/

/-- The moments of the tree at a place stand in one block, and so many others
stand before it. -/
def HasBlock (moments : List (Moment Context)) (place : Occurrence Context) (first : Nat) : Prop :=
  ∃ before after, moments = before ++ (place.node.schedule.map (.within place.path) ++ after) ∧
    before.length = first

/-- A block stands later when more moments come first. -/
theorem HasBlock.append_left {moments : List (Moment Context)} {place : Occurrence Context}
    {first : Nat} (earlier : List (Moment Context)) (block : HasBlock moments place first) :
    HasBlock (earlier ++ moments) place (earlier.length + first) := by
  obtain ⟨before, after, rfl, rfl⟩ := block
  refine ⟨earlier ++ before, after, ?_, List.length_append⟩
  rw [List.append_assoc]

theorem HasBlock.append_right {moments : List (Moment Context)} {place : Occurrence Context}
    {first : Nat} (block : HasBlock moments place first) (later : List (Moment Context)) :
    HasBlock (moments ++ later) place first := by
  obtain ⟨before, after, rfl, hfirst⟩ := block
  refine ⟨before, after ++ later, ?_, hfirst⟩
  simp only [List.append_assoc]

/-- A block stays one when its moments are seen from one level higher. -/
theorem HasBlock.under {moments : List (Moment Context)} {place : Occurrence Context}
    {first : Nat} (position : Nat) (block : HasBlock moments place first) :
    HasBlock (moments.map (.under position)) (place.under position) first := by
  obtain ⟨before, after, rfl, hfirst⟩ := block
  refine ⟨before.map (.under position), after.map (.under position), ?_, ?_⟩
  · rw [List.map_append, List.map_append, List.map_map]
    rfl
  · rw [List.length_map, hfirst]

/-- Below one parent, two moments of the parent are still to come for the places there. -/
theorem scheduleFrom_hasBlock {children : List (Node Context)}
    (each : ∀ child ∈ children, ∀ (index : Nat) (place : Occurrence Context),
      child.occurrences[index]? = some place →
        ∃ first, HasBlock child.schedule place first ∧ first + 2 * place.depth = 3 * index)
    {start index : Nat} {place : Occurrence Context}
    (hplace : (occurrencesFrom start children)[index]? = some place) :
    ∃ first, HasBlock (scheduleFrom start children) place first ∧
      first + 2 * place.depth = 3 * index + 2 := by
  induction children generalizing start index with
  | nil => simp [occurrencesFrom] at hplace
  | cons child rest ih =>
      rw [occurrencesFrom, List.getElem?_append, List.length_map, length_occurrences] at hplace
      rw [scheduleFrom]
      split at hplace
      · -- The place is in the tree of this child.
        rw [List.getElem?_map] at hplace
        obtain ⟨inner, hinner, rfl⟩ := Option.map_eq_some_iff.mp hplace
        obtain ⟨first, block, hfirst⟩ := each child List.mem_cons_self index inner hinner
        refine ⟨first, (block.under start).append_right _, ?_⟩
        rw [Occurrence.depth_under]
        omega
      · -- The tree of this child comes first, with all its moments.
        obtain ⟨first, block, hfirst⟩ :=
          ih (fun other member => each other (List.mem_cons_of_mem child member)) hplace
        refine ⟨_, block.append_left (child.schedule.map (.under start)), ?_⟩
        rw [List.length_map, length_schedule]
        omega

/-- The moments of the tree at a place stand in one block.  Before it stand three
moments for every node before the place in preorder, less two for every ancestor. -/
theorem schedule_hasBlock {root : Node Context} {index : Nat} {place : Occurrence Context}
    (hplace : root.occurrences[index]? = some place) :
    ∃ first, HasBlock root.schedule place first ∧ first + 2 * place.depth = 3 * index := by
  induction root using induction generalizing index place with
  | step root ih =>
      rw [occurrences] at hplace
      cases index with
      | zero =>
          cases hplace
          refine ⟨0, ⟨[], [], ?_, rfl⟩, rfl⟩
          simp
      | succ index =>
          obtain ⟨first, block, hfirst⟩ :=
            scheduleFrom_hasBlock (fun child member index place => ih child member) hplace
          rw [schedule]
          refine ⟨_, (block.append_right _).append_left [_], ?_⟩
          rw [List.length_singleton]
          omega

/-- What is in a block is found from its beginning on. -/
theorem HasBlock.drop_take {moments : List (Moment Context)} {place : Occurrence Context}
    {first : Nat} (block : HasBlock moments place first) :
    (moments.drop first).take (3 * place.node.size) =
      place.node.schedule.map (.within place.path) := by
  obtain ⟨before, after, rfl, rfl⟩ := block
  rw [List.drop_left]
  apply List.take_left'
  rw [List.length_map, length_schedule]

/-- The first moment of a tree is that of its root's pre hook, and the last two are
those of its root's other hooks. -/
theorem getElem?_schedule (node : Node Context) :
    node.schedule[0]? = some ⟨.pre, ⟨[], node⟩⟩ ∧
      node.schedule[3 * node.size - 2]? = some ⟨.visit, ⟨[], node⟩⟩ ∧
      node.schedule[3 * node.size - 1]? = some ⟨.post, ⟨[], node⟩⟩ := by
  have hlength : (scheduleFrom 0 node.children).length + 3 = 3 * node.size := by
    rw [← length_schedule, schedule, List.length_cons, List.length_append]
    rfl
  have hvisit : 3 * node.size - 2 = (scheduleFrom 0 node.children).length + 1 := by omega
  have hpost : 3 * node.size - 1 = (scheduleFrom 0 node.children).length + 1 + 1 := by omega
  rw [hvisit, hpost, schedule]
  exact ⟨rfl, by simp, by simp⟩

/-- A call of the node at a place is found in its block. -/
theorem HasBlock.getElem? {moments : List (Moment Context)} {place : Occurrence Context}
    {first offset : Nat} {phase : Phase} (block : HasBlock moments place first)
    (hoffset : place.node.schedule[offset]? = some ⟨phase, ⟨[], place.node⟩⟩) :
    moments[first + offset]? = some ⟨phase, place⟩ := by
  have hlength : offset < 3 * place.node.size := by
    rw [← length_schedule]
    exact (List.getElem?_eq_some_iff.mp hoffset).1
  have hblock := congrArg (fun moments => moments[offset]?) block.drop_take
  rw [List.getElem?_take_of_lt hlength, List.getElem?_drop, List.getElem?_map, hoffset] at hblock
  rw [hblock, Option.map_some, Moment.within, Occurrence.within, List.append_nil]

/-- A moment of the schedule has one position only. -/
theorem getElem?_schedule_iff {root : Node Context} {moment : Moment Context} {reached : Nat}
    (hreached : root.schedule[reached]? = some moment) (position : Nat) :
    root.schedule[position]? = some moment ↔ position = reached := by
  constructor
  · intro hposition
    obtain ⟨hlength, -⟩ := List.getElem?_eq_some_iff.mp hposition
    exact (List.getElem?_inj hlength root.nodup_schedule).mp (hposition.trans hreached.symm)
  · rintro rfl
    exact hreached

end Node

namespace Recorder

variable {root : Node Context}

/-- Where the events of a walk stand that handles no node and does not fail.  There
are three for every node of the tree.  The node at a place with so many nodes
before it in preorder and so many ancestors has its pre event after three events
for each of the former less two for each of the latter; its visit and post events
are the last two of as many events as its own tree has, which begin there and
are the events of a walk over that tree alone. -/
theorem walk_positions (own : List Kind) (shaped : root.WellShaped) (log : Log) :
    ∃ journal, (handling own fun _ => false).walk root ⟨.empty, log⟩ = .ok () journal ∧
      journal.state.events.toList =
        root.schedule.map (fun moment => moment.call.event own) ∧
      journal.state.events.size = 3 * root.count ∧
      ∀ (index : Nat) (place : Occurrence Context), root.occurrences[index]? = some place →
        let first := 3 * index - 2 * place.depth
        let length := 3 * place.node.count
        2 * place.depth ≤ 3 * index ∧
        (∀ position, root.schedule[position]? = some ⟨.pre, place⟩ ↔ position = first) ∧
        (∀ position, root.schedule[position]? = some ⟨.visit, place⟩ ↔
          position = first + length - 2) ∧
        (∀ position, root.schedule[position]? = some ⟨.post, place⟩ ↔
          position = first + length - 1) ∧
        ∀ later, ∃ inner,
          (handling own fun _ => false).walk place.node ⟨.empty, later⟩ = .ok () inner ∧
          (journal.state.events.toList.drop first).take length = inner.state.events.toList := by
  obtain ⟨journal, hwalk, hevents⟩ := walk_of_wellShaped own (fun _ => false) shaped log
  rw [Moment.filter_isMade_of_never] at hevents
  refine ⟨journal, hwalk, hevents, ?_, ?_⟩
  · rw [← Array.length_toList, hevents, List.length_map, Node.length_schedule, Node.count_eq_size]
  · intro index place hplace first length
    have hlength : length = 3 * place.node.size := by rw [← Node.count_eq_size]
    have hsize := place.node.size_eq
    obtain ⟨start, block, hstart⟩ := Node.schedule_hasBlock hplace
    obtain ⟨hpre, hvisit, hpost⟩ := place.node.getElem?_schedule
    have hfirst : first = start := Nat.sub_eq_of_eq_add hstart.symm
    have hvisits : first + length - 2 = start + (3 * place.node.size - 2) := by omega
    have hposts : first + length - 1 = start + (3 * place.node.size - 1) := by omega
    rw [hvisits, hposts, hlength, hfirst]
    refine ⟨Nat.le.intro (Nat.add_comm _ _ ▸ hstart), ?_, ?_, ?_, ?_⟩
    · exact Node.getElem?_schedule_iff (block.getElem? hpre)
    · exact Node.getElem?_schedule_iff (block.getElem? hvisit)
    · exact Node.getElem?_schedule_iff (block.getElem? hpost)
    · intro later
      have member : place.node ∈ root.preorder := by
        rw [← Node.map_node_occurrences]
        exact List.mem_map_of_mem (List.mem_of_getElem? hplace)
      obtain ⟨inner, hinner, hothers⟩ :=
        walk_of_wellShaped own (fun _ => false) (shaped.of_mem_preorder member) later
      rw [Moment.filter_isMade_of_never] at hothers
      refine ⟨inner, hinner, ?_⟩
      rw [hevents, ← List.map_drop, ← List.map_take, block.drop_take, hothers, List.map_map]
      rfl

/-- The innermost of three nested blocks is the third node, and it has two nodes
above it and one below. -/
theorem walk_positions_blocks :
    let root : Node Nat := .expression (.block 0
      [.block 1 [.block 2 [.noExpr 3], .noExpr 4], .noExpr 5])
    let place : Occurrence Nat := ⟨[0, 0], .expression (.block 2 [.noExpr 3])⟩
    root.WellShaped ∧ root.occurrences[2]? = some place ∧
      ∃ journal, (handling [] fun _ => false).walk root ⟨.empty, #[]⟩ = .ok () journal ∧
        journal.state.events.size = 18 ∧
        root.schedule[2]? = some ⟨.pre, place⟩ ∧
        root.schedule[6]? = some ⟨.visit, place⟩ ∧
        root.schedule[7]? = some ⟨.post, place⟩ ∧
        ∃ inner, (handling [] fun _ => false).walk place.node ⟨.empty, #[]⟩ = .ok () inner ∧
          (journal.state.events.toList.drop 2).take 6 = inner.state.events.toList := by
  intro root place
  have hshaped : root.WellShaped := by
    unfold root
    decide +kernel
  have hplace : root.occurrences[2]? = some place := by
    unfold root place
    decide +kernel
  have hcounts : root.count = 6 ∧ place.node.count = 2 := by
    unfold root place
    decide +kernel
  obtain ⟨journal, hwalk, -, hsize, hplaces⟩ := walk_positions [] hshaped #[]
  obtain ⟨-, hpre, hvisit, hpost, hblock⟩ := hplaces 2 place hplace
  rw [hcounts.1] at hsize
  rw [hcounts.2] at hvisit hpost hblock
  exact ⟨hshaped, hplace, journal, hwalk, hsize, (hpre 2).mpr rfl, (hvisit 6).mpr rfl,
    (hpost 7).mpr rfl, hblock #[]⟩

end Recorder

end CoolTree
