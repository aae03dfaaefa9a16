import CoolTree.Proofs.Graph.Building
import CoolTree.Proofs.Walk.Enacting
import CoolTree.Proofs.Walk.Progress

/-!
# The open nodes of a builder

A builder learns of a walk only through its hooks, and it looks neither for the
parent of a node that is entered nor for the node that is left: it takes the next
slot of the deepest open node, and closes the deepest open node.  Between any two
calls its open nodes are those entered and not yet left, from the root on, and
each has kept the slots of the children that are still to be entered.  So the slot
taken is the one of the child that is entered, and the node closed is the one that
is left, with no slot remaining.
-/

namespace CoolTree

variable {Context : Type}

/-- The slots of a place whose children have not been entered by some calls. -/
def Occurrence.remaining (place : Occurrence Context) (past : List (Moment Context)) :
    List Slot :=
  (place.node.slots.zipIdx.filter fun entry =>
    ¬ hasPassed past .pre (place.path ++ [entry.2])).map fun entry => entry.1.1

/-- The nodes entered and not left by some calls, under their preorder numbers and
with the slots whose children have not been entered. -/
def Node.openNodes (root : Node Context) (past : List (Moment Context)) : List OpenNode :=
  (root.openPlaces past).map fun entry => ⟨entry.2, entry.1.remaining past⟩

/-! ## The slots that remain -/

theorem map_fst_filter_zipIdx {Entry : Type} (entries : List Entry) (position start : Nat) :
    ((entries.zipIdx start).filter fun entry => ¬ entry.2 < position).map Prod.fst =
      entries.drop (position - start) := by
  induction entries generalizing start with
  | nil => simp
  | cons first rest ih =>
      rw [List.zipIdx_cons]
      by_cases hless : start < position
      · rw [List.filter_cons_of_neg (by simpa using hless), ih,
          show position - start = position - (start + 1) + 1 by omega, List.drop_succ_cons]
      · rw [List.filter_cons_of_pos (by simpa using hless), List.map_cons, ih,
          Nat.sub_eq_zero_of_le (by omega), Nat.sub_eq_zero_of_le (by omega)]
        rfl

namespace Occurrence

variable {place : Occurrence Context} {past : List (Moment Context)} {position : Nat}

/-- If the children before a position have been entered, the slots from there on remain. -/
theorem remaining_eq
    (hentered : ∀ index child, place.node.children[index]? = some child →
      (hasPassed past .pre (place.path ++ [index]) = true ↔ index < position)) :
    place.remaining past = (place.node.slots.drop position).map Prod.fst := by
  have hfilter : (place.node.slots.zipIdx.filter fun entry =>
      ¬ hasPassed past .pre (place.path ++ [entry.2])) =
        place.node.slots.zipIdx.filter fun entry => ¬ entry.2 < position := by
    apply List.filter_congr
    rintro ⟨⟨slot, child⟩, index⟩ member
    have hslot := List.mk_mem_zipIdx_iff_getElem?.mp member
    apply decide_eq_decide.mpr
    apply not_congr
    exact hentered index child (Node.getElem?_children_eq_some_iff.mpr ⟨slot, hslot⟩)
  rw [remaining, hfilter, ← Nat.sub_zero position, ← map_fst_filter_zipIdx, List.map_map]
  rfl

/-- Only to enter a child changes the slots that remain. -/
theorem remaining_concat {moment : Moment Context}
    (hother : moment.phase = .pre → ∀ index, moment.occurrence.path ≠ place.path ++ [index]) :
    place.remaining (past ++ [moment]) = place.remaining past := by
  rw [remaining, remaining]
  congr 1
  apply List.filter_congr
  intro entry member
  apply decide_eq_decide.mpr
  rw [hasPassed_concat]
  apply not_congr
  exact or_iff_left fun hcall => hother hcall.1 entry.2 hcall.2

section Walking

variable {root : Node Context} {later : List (Moment Context)}

/-- A place above a moment keeps the slots from the next position on. -/
theorem remaining_above {moment : Moment Context}
    (hsplit : root.schedule = past ++ moment :: later) (member : place ∈ root.occurrences)
    (hrank : moment.rank = place.path ++ [position]) :
    place.remaining past = (place.node.slots.drop position).map Prod.fst :=
  remaining_eq fun _ _ hchild => hasPassed_child_iff hsplit member hrank hchild

/-- A place just entered has all its slots. -/
theorem remaining_entered (hsplit : root.schedule = past ++ ⟨.pre, place⟩ :: later) :
    place.remaining (past ++ [⟨.pre, place⟩]) = place.node.slots.map Prod.fst := by
  rw [← List.drop_zero (l := place.node.slots)]
  apply remaining_eq
  intro index child hchild
  rw [hasPassed_concat]
  have hbefore := not_hasPassed_child hsplit hchild
  simp [hbefore]

/-- A parent whose child has just been entered has the slots behind this child. -/
theorem remaining_parent {child : Node Context}
    (hsplit : root.schedule = past ++ ⟨.pre, ⟨place.path ++ [position], child⟩⟩ :: later)
    (member : place ∈ root.occurrences) :
    place.remaining (past ++ [⟨.pre, ⟨place.path ++ [position], child⟩⟩]) =
      (place.node.slots.drop (position + 1)).map Prod.fst := by
  apply remaining_eq
  intro index other hother
  rw [hasPassed_concat, hasPassed_child_iff hsplit member (Moment.rank_pre _) hother]
  simp only [true_and, List.append_right_inj, List.cons.injEq, and_true]
  omega

end Walking

end Occurrence

/-! ## The open nodes around a call -/

namespace Node

variable {root : Node Context} {past later : List (Moment Context)} {number : Nat}

/-- When a child is entered, the deepest open node is its parent, and its next slot is
the slot of this child.  This slot is taken, and the child becomes the deepest open
node with all its slots. -/
theorem exists_openNodes_enter {path : List Nat} {position : Nat} {child : Node Context}
    (hsplit : root.schedule = past ++ ⟨.pre, ⟨path ++ [position], child⟩⟩ :: later)
    (hnumber : root.occurrences[number]? = some ⟨path ++ [position], child⟩) :
    ∃ source parent slot rest above, root.occurrences[source]? = some ⟨path, parent⟩ ∧
      parent.slots[position]? = some (slot, child) ∧
      root.openNodes past = above ++ [⟨source, slot :: rest⟩] ∧
      root.openNodes (past ++ [⟨.pre, ⟨path ++ [position], child⟩⟩]) =
        above ++ [⟨source, rest⟩, ⟨number, child.slots.map Prod.fst⟩] := by
  obtain ⟨parent, hparent, hchild⟩ := exists_parent (List.mem_of_getElem? hnumber)
  obtain ⟨source, hsource⟩ := List.mem_iff_getElem?.mp hparent
  obtain ⟨slot, hslot⟩ := getElem?_children_eq_some_iff.mp hchild
  have hplaces : root.openPlaces past =
      root.placesAbove path ++ [(⟨path, parent⟩, source)] := by
    rw [openPlaces_eq hsplit, Moment.rank_pre]
    exact placesAbove_concat hsource position
  have hdrop : parent.slots.drop position = (slot, child) :: parent.slots.drop (position + 1) := by
    obtain ⟨hposition, hget⟩ := List.getElem?_eq_some_iff.mp hslot
    rw [List.drop_eq_getElem_cons hposition, hget]
  refine ⟨source, parent, slot, (parent.slots.drop (position + 1)).map Prod.fst,
    (root.placesAbove path).map fun entry => ⟨entry.2, entry.1.remaining past⟩,
    hsource, hslot, ?_, ?_⟩
  · rw [openNodes, hplaces, List.map_append, List.map_singleton]
    rw [Occurrence.remaining_above hsplit hparent (Moment.rank_pre _), hdrop]
    rfl
  · rw [openNodes, openPlaces_entered hsplit hnumber, hplaces]
    simp only [List.map_append, List.map_singleton, List.append_assoc]
    rw [Occurrence.remaining_entered hsplit, Occurrence.remaining_parent hsplit hparent]
    congr 1
    -- The other open places are further above, so this call enters none of their children.
    apply List.map_congr_left
    intro entry member
    obtain ⟨-, hne⟩ := of_decide_eq_true (List.mem_filter.mp member).2
    rw [Occurrence.remaining_concat]
    intro _ index hpath
    exact hne (List.append_inj_left' hpath rfl).symm

/-- The root is entered when nothing is open. -/
theorem openNodes_enter_root
    (hsplit : root.schedule = past ++ ⟨.pre, ⟨[], root⟩⟩ :: later)
    (hnumber : root.occurrences[number]? = some ⟨[], root⟩) :
    root.openNodes past = [] ∧
      root.openNodes (past ++ [⟨.pre, ⟨[], root⟩⟩]) = [⟨number, root.slots.map Prod.fst⟩] := by
  have hplaces : root.openPlaces past = [] := by
    rw [openPlaces_eq hsplit, Moment.rank_pre, placesAbove_nil]
  constructor
  · rw [openNodes, hplaces]
    rfl
  · rw [openNodes, openPlaces_entered hsplit hnumber, hplaces]
    simp [Occurrence.remaining_entered hsplit]

/-- At the last two calls for a node, it is the deepest open node and has no slots left. -/
theorem exists_openNodes_last {moment : Moment Context}
    (hsplit : root.schedule = past ++ moment :: later) (hphase : moment.phase ≠ .pre) :
    ∃ number above, root.occurrences[number]? = some moment.occurrence ∧
      root.openNodes past = above ++ [⟨number, []⟩] := by
  have member := (root.mem_schedule moment).mp (mem_schedule_of_split hsplit)
  obtain ⟨number, hnumber⟩ := List.mem_iff_getElem?.mp member
  obtain ⟨position, hposition, -, hrank⟩ := Moment.exists_rank_eq hphase
  have hdrop : moment.occurrence.node.slots.drop position = [] := by
    rw [children, List.length_map] at hposition
    exact List.drop_eq_nil_of_le hposition
  refine ⟨number, (root.placesAbove moment.occurrence.path).map fun entry =>
    ⟨entry.2, entry.1.remaining past⟩, hnumber, ?_⟩
  rw [openNodes, openPlaces_eq hsplit, hrank, placesAbove_concat hnumber, List.map_append,
    List.map_singleton, Occurrence.remaining_above hsplit member hrank, hdrop]
  rfl

/-- The visit hook changes nothing about the open nodes. -/
theorem openNodes_visited (root : Node Context) (past : List (Moment Context))
    (place : Occurrence Context) :
    root.openNodes (past ++ [⟨.visit, place⟩]) = root.openNodes past := by
  rw [openNodes, openNodes, openPlaces_visited]
  apply List.map_congr_left
  intro entry member
  rw [Occurrence.remaining_concat]
  intro hphase
  cases hphase

/-- To leave a node takes the deepest open node away. -/
theorem openNodes_left {place : Occurrence Context}
    (hsplit : root.schedule = past ++ ⟨.post, place⟩ :: later) :
    root.openNodes (past ++ [⟨.post, place⟩]) = (root.openNodes past).dropLast := by
  have member := (root.mem_schedule _).mp (mem_schedule_of_split hsplit)
  obtain ⟨number, hnumber⟩ := List.mem_iff_getElem?.mp member
  rw [openNodes, openNodes, openPlaces_left hsplit hnumber, List.map_append, List.map_singleton,
    List.dropLast_concat]
  apply List.map_congr_left
  intro entry member
  rw [Occurrence.remaining_concat]
  intro hphase
  cases hphase

/-- Before a call, the open places lie on the way from the root to its place, which is
itself open unless it is only being entered. -/
theorem map_path_openPlaces {moment : Moment Context}
    (hsplit : root.schedule = past ++ moment :: later) :
    (root.openPlaces past).map (fun entry => entry.1.path) =
      if moment.phase = .pre then moment.occurrence.path.inits.dropLast
      else moment.occurrence.path.inits := by
  have member := (root.mem_schedule moment).mp (mem_schedule_of_split hsplit)
  have hway := map_path_placesAbove member
  rw [openPlaces_eq hsplit, ← hway]
  by_cases hphase : moment.phase = .pre
  · obtain ⟨phase, place⟩ := moment
    obtain rfl : phase = .pre := hphase
    rw [if_pos rfl, Moment.rank_pre, List.dropLast_concat]
  · obtain ⟨number, hnumber⟩ := List.mem_iff_getElem?.mp member
    obtain ⟨position, -, -, hrank⟩ := Moment.exists_rank_eq hphase
    rw [if_neg hphase, hrank, placesAbove_concat hnumber, List.map_append, List.map_singleton]

/-- After the whole schedule no node is open. -/
theorem openNodes_schedule (root : Node Context) : root.openNodes root.schedule = [] := by
  rw [openNodes, openPlaces_schedule]
  rfl

end Node

/-! ## The builder at every moment -/

namespace GraphBuilder

structure Tracks (root : Node Context) (past : List (Moment Context))
    (builder : GraphBuilder) : Prop where
  /-- The next node gets its preorder number. -/
  number : builder.labels.size = past.countP fun moment => moment.phase = .pre
  opened : builder.opened.reverse = root.openNodes past

theorem unhandling : (@hooks Context).visitor.Unhandling := by
  rintro node ⟨builder, log⟩ next hpre
  rw [visitor_pre] at hpre
  cases hpre

theorem tracks_empty (root : Node Context) : Tracks root [] empty where
  number := rfl
  opened := by simp [Node.openNodes, Node.openPlaces, hasPassed, empty]

/-- A node that is entered becomes the deepest open node. -/
theorem Tracks.enter {root : Node Context} {past later : List (Moment Context)}
    {place : Occurrence Context} {builder : GraphBuilder} (tracks : Tracks root past builder)
    (hsplit : root.schedule = past ++ ⟨.pre, place⟩ :: later) :
    Tracks root (past ++ [⟨.pre, place⟩]) (builder.entering place.node) where
  number := by
    rw [entering, Array.size_push, tracks.number, List.countP_append]
    rfl
  opened := by
    have hnumber := Node.getElem?_occurrences_of_split hsplit
    rw [← tracks.number] at hnumber
    obtain ⟨path, node⟩ := place
    rcases List.eq_nil_or_concat' path with rfl | ⟨path, position, rfl⟩
    · obtain rfl : root = node :=
        Option.some.inj (Node.mem_occurrences.mp (List.mem_of_getElem? hnumber))
      obtain ⟨hbefore, hafter⟩ := Node.openNodes_enter_root hsplit hnumber
      have hopened := tracks.opened.trans hbefore
      rw [List.reverse_eq_nil_iff] at hopened
      rw [hafter, entering, hopened]
      rfl
    · obtain ⟨source, parent, slot, rest, above, -, -, hbefore, hafter⟩ :=
        Node.exists_openNodes_enter hsplit hnumber
      have hopened := tracks.opened.trans hbefore
      rw [List.reverse_eq_iff, List.reverse_append] at hopened
      rw [hafter, entering, hopened]
      simp [takeSlot]

theorem enacts_tracks (root : Node Context) :
    (@hooks Context).visitor.Enacts root fun past journal => Tracks root past journal.state := by
  rintro past ⟨phase, place⟩ later ⟨builder, log⟩ hsplit tracks hright
  cases phase with
  | pre =>
      refine ⟨⟨builder.entering place.node, log⟩, ?_, tracks.enter hsplit⟩
      rw [Visitor.enact_pre (hright rfl)]
      simp only [bind, EStateM.bind, visitor_pre]
      rfl
  | visit =>
      refine ⟨⟨builder, log⟩, rfl, ?_, ?_⟩
      · simpa [List.countP_append] using tracks.number
      · rw [Node.openNodes_visited, tracks.opened]
  | post =>
      refine ⟨⟨{ builder with opened := builder.opened.tail }, log⟩, rfl, ?_, ?_⟩
      · simpa [List.countP_append] using tracks.number
      · rw [Node.openNodes_left hsplit, ← tracks.opened, List.dropLast_reverse]

/-- What is to be seen of the open nodes at a call, given the calls made before it. -/
structure OpenAround (root : Node Context) (past : List (Moment Context))
    (moment : Moment Context) (before after : GraphBuilder) : Prop where
  /-- The open nodes are those entered and not yet left, before the call and after it. -/
  openBefore : before.opened.reverse = root.openNodes past
  openAfter : after.opened.reverse = root.openNodes (past ++ [moment])
  /-- They lie on the way from the root to the place of the call, which is itself open
  unless it is only being entered. -/
  way : (root.openPlaces past).map (fun entry => entry.1.path) =
    if moment.phase = .pre then moment.occurrence.path.inits.dropLast
    else moment.occurrence.path.inits
  /-- When a node other than the root is entered, its parent is the deepest open node and
  has the slot of this very child as its next one. -/
  entering : moment.phase = .pre → ∀ path position,
    moment.occurrence.path = path ++ [position] →
      ∃ source parent slot rest outer, root.occurrences[source]? = some ⟨path, parent⟩ ∧
        parent.slots[position]? = some (slot, moment.occurrence.node) ∧
        before.opened = ⟨source, slot :: rest⟩ :: outer
  /-- When a node is left, it is the deepest open node and has no slots left. -/
  leaving : moment.phase ≠ .pre → ∃ number outer,
    root.occurrences[number]? = some moment.occurrence ∧ before.opened = ⟨number, []⟩ :: outer

theorem Tracks.around {root : Node Context} {past later : List (Moment Context)}
    {moment : Moment Context} {before after : GraphBuilder}
    (hsplit : root.schedule = past ++ moment :: later) (hbefore : Tracks root past before)
    (hafter : Tracks root (past ++ [moment]) after) :
    OpenAround root past moment before after where
  openBefore := hbefore.opened
  openAfter := hafter.opened
  way := Node.map_path_openPlaces hsplit
  entering := by
    obtain ⟨phase, place, node⟩ := moment
    rintro hphase path position hpath
    obtain rfl : phase = .pre := hphase
    obtain rfl : place = path ++ [position] := hpath
    obtain ⟨source, parent, slot, rest, above, hsource, hslot, hopen, -⟩ :=
      Node.exists_openNodes_enter hsplit (Node.getElem?_occurrences_of_split hsplit)
    refine ⟨source, parent, slot, rest, above.reverse, hsource, hslot, ?_⟩
    rw [List.reverse_eq_iff.mp (hbefore.opened.trans hopen), List.reverse_append]
    rfl
  leaving := by
    intro hphase
    obtain ⟨number, above, hnumber, hopen⟩ := Node.exists_openNodes_last hsplit hphase
    refine ⟨number, above.reverse, hnumber, ?_⟩
    rw [List.reverse_eq_iff.mp (hbefore.opened.trans hopen), List.reverse_append]
    rfl

/-- Between any two calls of the walk that builds a graph, the open nodes of the builder
are the nodes entered and not yet left, from the root to the deepest one, each under its
preorder number and with the slots of the children that have not been entered yet, in
order.  So whenever a node other than the root is entered, the deepest open node is its
parent and its next slot is that of this child; a node is left only when it is the
deepest open node and has no slots left; and after a walk that comes to its end no node
is open.  The walk makes the calls of the schedule, up to a malformed node. -/
theorem opened_between_calls (root : Node Context) (log : Log) :
    let watched := hooks.visitor.watched.walk root ⟨⟨empty, []⟩, log⟩
    mapState Journal.unwatched watched = hooks.visitor.walk root ⟨empty, log⟩ ∧
      ∃ made, Visitor.HasMade root made watched ∧
        (memoryAfter watched).state.sightings.length = made.length ∧
        (∀ past moment later, made = past ++ moment :: later →
          ∃ before after, OpenAround root past moment before after ∧
            (memoryAfter watched).state.sightings[past.length]? =
              some ⟨moment.phase, moment.occurrence.node, before, after⟩) ∧
        (memoryAfter watched).state.state.opened.reverse = root.openNodes made ∧
        (outcome watched = .ok () → (memoryAfter watched).state.state.opened = []) := by
  intro watched
  refine ⟨hooks.visitor.walk_watched_follows root _, ?_⟩
  obtain ⟨made, hmade, shows⟩ := (enacts_tracks root).watched.walk unhandling.watched
    (Watched.Shows.nil (tracks_empty root)) log
  obtain ⟨rest, hrest⟩ := hmade.exists_rest
  refine ⟨made, hmade, shows.length, ?_, shows.state.opened, ?_⟩
  · intro past moment later hsplit
    obtain ⟨before, after, hbefore, hafter, hseen⟩ := shows.sighting past moment later hsplit
    have hschedule : root.schedule = past ++ moment :: (later ++ rest) := by
      rw [hrest, hsplit, List.append_assoc, List.cons_append]
    exact ⟨before, after, hbefore.around hschedule hafter, hseen⟩
  · intro hended
    have hopened := shows.state.opened
    rwa [hmade.eq_schedule hended, Node.openNodes_schedule, List.reverse_eq_nil_iff] at hopened

end GraphBuilder

end CoolTree
