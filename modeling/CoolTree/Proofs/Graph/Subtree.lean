import CoolTree.Proofs.Graph.Building

/-!
# Graphs of subtrees

In the graph of a tree every subtree has a block of its own: its nodes have
consecutive numbers, the edges inside it stand one behind the other, and of all
other edges only the one that leads to its root touches it.  The block is the
graph of the subtree with all numbers raised by that of its root.
-/

namespace CoolTree

variable {Context : Type}

def inRange (first count number : Nat) : Bool :=
  first ≤ number && number < first + count

namespace Edge

def inside (first count : Nat) (edge : Edge) : Bool :=
  inRange first count edge.source && inRange first count edge.target

def crosses (first count : Nat) (edge : Edge) : Bool :=
  inRange first count edge.source != inRange first count edge.target

theorem inside_iff {first count : Nat} {edge : Edge} :
    edge.inside first count = true ↔
      (first ≤ edge.source ∧ edge.source < first + count) ∧
        first ≤ edge.target ∧ edge.target < first + count := by
  simp [inside, inRange]

theorem crosses_iff {first count : Nat} {edge : Edge} :
    edge.crosses first count = true ↔
      ¬ (first ≤ edge.source ∧ edge.source < first + count ↔
        first ≤ edge.target ∧ edge.target < first + count) := by
  rw [crosses, bne_iff_ne, ne_eq, Bool.eq_iff_iff]
  simp [inRange]

def lowered (offset : Nat) (edge : Edge) : Edge :=
  ⟨edge.source - offset, edge.target - offset, edge.slot⟩

end Edge

namespace Node

/-! ## Numbers -/

theorem edgesAmong_lowered {slots : List (Slot × Node Context)}
    (each : ∀ child ∈ slots.map Prod.snd, ∀ number offset,
      (child.edgesFrom (number + offset)).map (Edge.lowered offset) = child.edgesFrom number)
    (source target offset : Nat) :
    (edgesAmong (source + offset) (target + offset) slots).map (Edge.lowered offset) =
      edgesAmong source target slots := by
  induction slots generalizing target with
  | nil => rw [edgesAmong, edgesAmong, List.map_nil]
  | cons place rest ih =>
      obtain ⟨slot, child⟩ := place
      have hedge : Edge.lowered offset ⟨source + offset, target + offset, slot⟩ =
          ⟨source, target, slot⟩ := by
        simp [Edge.lowered]
      rw [edgesAmong, edgesAmong, List.map_append, List.map_cons, hedge,
        each child List.mem_cons_self, Nat.add_right_comm,
        ih fun other member => each other (List.mem_cons_of_mem child member)]

/-- The number of the root raises the ends of all edges alike. -/
theorem edgesFrom_lowered (node : Node Context) (number offset : Nat) :
    (node.edgesFrom (number + offset)).map (Edge.lowered offset) = node.edgesFrom number := by
  induction node using Node.induction generalizing number offset with
  | step node ih =>
      rw [edgesFrom, edgesFrom, Nat.add_right_comm, edgesAmong_lowered ih]

/-- The edges inside a tree join its nodes. -/
theorem bounds_of_mem_edgesFrom {node : Node Context} {number : Nat} {edge : Edge}
    (member : edge ∈ node.edgesFrom number) :
    number ≤ edge.source ∧ edge.source < edge.target ∧ edge.target < number + node.size := by
  obtain ⟨position, hedge, rfl⟩ := List.getElem_of_mem member
  obtain ⟨hlength, heach⟩ := List.forall₂_iff_get.mp (node.edgesFrom_leadTo number)
  have hentry : position < (node.occurrences.zipIdx number).tail.length := hlength ▸ hedge
  obtain ⟨htarget, hless, path, place, parent, hpath, hparent, hslot⟩ :=
    heach position hentry hedge
  have hnumber := List.mem_zipIdx hparent
  have hsize := node.length_edgesFrom number
  simp only [List.get_eq_getElem, List.getElem_tail, List.getElem_zipIdx] at htarget hless hnumber
  omega

theorem bounds_of_mem_edgesAmong {slots : List (Slot × Node Context)} {source target : Nat}
    {edge : Edge} (member : edge ∈ edgesAmong source target slots) :
    (edge.source = source ∨ target ≤ edge.source) ∧ target ≤ edge.target := by
  induction slots generalizing target with
  | nil => simp [edgesAmong] at member
  | cons place rest ih =>
      rw [edgesAmong, List.cons_append, List.mem_cons, List.mem_append] at member
      rcases member with rfl | hinside | hrest
      · exact ⟨Or.inl rfl, Nat.le_refl target⟩
      · have hbounds := bounds_of_mem_edgesFrom hinside
        omega
      · have hbounds := ih hrest
        omega

/-! ## Blocks -/

/-- Below one parent, the nodes of the tree at a place stand in one block. -/
theorem flatMap_preorder_block {children : List (Node Context)}
    (each : ∀ child ∈ children, ∀ (index : Nat) (place : Occurrence Context),
      child.occurrences[index]? = some place → ∃ before after,
        child.preorder = before ++ (place.node.preorder ++ after) ∧ before.length = index)
    {start index : Nat} {place : Occurrence Context}
    (hplace : (occurrencesFrom start children)[index]? = some place) :
    ∃ before after, children.flatMap preorder = before ++ (place.node.preorder ++ after) ∧
      before.length = index := by
  induction children generalizing start index with
  | nil => simp [occurrencesFrom] at hplace
  | cons child rest ih =>
      rw [occurrencesFrom, List.getElem?_append, List.length_map, length_occurrences] at hplace
      rw [List.flatMap_cons]
      split at hplace
      · -- The place is in the tree of this child.
        rw [List.getElem?_map] at hplace
        obtain ⟨inner, hinner, rfl⟩ := Option.map_eq_some_iff.mp hplace
        obtain ⟨before, after, hblock, hbefore⟩ :=
          each child List.mem_cons_self index inner hinner
        refine ⟨before, after ++ rest.flatMap preorder, ?_, hbefore⟩
        rw [hblock, List.append_assoc, List.append_assoc]
        rfl
      · -- The tree of this child comes first, with all its nodes.
        obtain ⟨before, after, hblock, hbefore⟩ :=
          ih (fun other member => each other (List.mem_cons_of_mem child member)) hplace
        refine ⟨child.preorder ++ before, after, ?_, ?_⟩
        · rw [hblock, List.append_assoc]
        · rw [List.length_append, length_preorder]
          omega

/-- The nodes of the tree at a place stand in one block, behind the nodes that come
before the place in preorder. -/
theorem preorder_block {root : Node Context} {index : Nat} {place : Occurrence Context}
    (hplace : root.occurrences[index]? = some place) :
    ∃ before after, root.preorder = before ++ (place.node.preorder ++ after) ∧
      before.length = index := by
  induction root using induction generalizing index place with
  | step root ih =>
      rw [occurrences] at hplace
      cases index with
      | zero =>
          cases hplace
          exact ⟨[], [], by simp, rfl⟩
      | succ index =>
          obtain ⟨before, after, hblock, hbefore⟩ :=
            flatMap_preorder_block (fun child member index place => ih child member) hplace
          refine ⟨root :: before, after, ?_, congrArg (· + 1) hbefore⟩
          rw [preorder_eq, hblock, List.cons_append]

theorem index_add_size_le {root : Node Context} {index : Nat} {place : Occurrence Context}
    (hplace : root.occurrences[index]? = some place) : index + place.node.size ≤ root.size := by
  obtain ⟨before, after, hblock, rfl⟩ := preorder_block hplace
  have hlength := congrArg List.length hblock
  rw [List.length_append, List.length_append, length_preorder, length_preorder] at hlength
  omega

/-- The edges inside a tree stand in one block, right behind the edge that leads to
its root.  Before this edge stand so many others, and no other edge touches the
nodes of the tree. -/
def HasEdgeBlock (edges : List Edge) (inner : Node Context) (first count : Nat) : Prop :=
  ∃ earlier border later, edges = earlier ++ border :: (inner.edgesFrom first ++ later) ∧
    earlier.length = count ∧ border.source < first ∧ border.target = first ∧
    (∀ edge ∈ earlier, edge.source < first ∧ edge.target < first) ∧
    ∀ edge ∈ later, first + inner.size ≤ edge.target ∧
      (edge.source < first ∨ first + inner.size ≤ edge.source)

theorem HasEdgeBlock.append_left {edges : List Edge} {inner : Node Context} {first count : Nat}
    (block : HasEdgeBlock edges inner first count) {before : List Edge}
    (hbefore : ∀ edge ∈ before, edge.source < first ∧ edge.target < first) :
    HasEdgeBlock (before ++ edges) inner first (before.length + count) := by
  obtain ⟨earlier, border, later, rfl, rfl, hsource, htarget, hearlier, hlater⟩ := block
  exact ⟨before ++ earlier, border, later, (List.append_assoc ..).symm, List.length_append,
    hsource, htarget, List.forall_mem_append.mpr ⟨hbefore, hearlier⟩, hlater⟩

theorem HasEdgeBlock.append_right {edges : List Edge} {inner : Node Context} {first count : Nat}
    (block : HasEdgeBlock edges inner first count) {after : List Edge}
    (hafter : ∀ edge ∈ after, first + inner.size ≤ edge.target ∧
      (edge.source < first ∨ first + inner.size ≤ edge.source)) :
    HasEdgeBlock (edges ++ after) inner first count := by
  obtain ⟨earlier, border, later, rfl, hcount, hsource, htarget, hearlier, hlater⟩ := block
  refine ⟨earlier, border, later ++ after, ?_, hcount, hsource, htarget, hearlier,
    List.forall_mem_append.mpr ⟨hlater, hafter⟩⟩
  simp only [List.append_assoc, List.cons_append]

/-- Below one parent, the edge that leads to a place stands behind one edge for every
node before the place. -/
theorem edgesAmong_block {slots : List (Slot × Node Context)}
    (each : ∀ child ∈ slots.map Prod.snd, ∀ (number index : Nat) (place : Occurrence Context),
      child.occurrences[index + 1]? = some place →
        HasEdgeBlock (child.edgesFrom number) place.node (number + (index + 1)) index)
    {source target start index : Nat} {place : Occurrence Context} (hless : source < target)
    (hplace : (occurrencesFrom start (slots.map Prod.snd))[index]? = some place) :
    HasEdgeBlock (edgesAmong source target slots) place.node (target + index) index := by
  induction slots generalizing target start index with
  | nil => simp [occurrencesFrom] at hplace
  | cons entry rest ih =>
      obtain ⟨slot, child⟩ := entry
      have hsize := child.length_edgesFrom target
      rw [List.map_cons, occurrencesFrom, List.getElem?_append, List.length_map,
        length_occurrences] at hplace
      dsimp only at hplace
      rw [edgesAmong, List.cons_append]
      split at hplace
      · -- The place is in the tree of this child, and what follows is behind it.
        rw [List.getElem?_map] at hplace
        obtain ⟨inner, hinner, rfl⟩ := Option.map_eq_some_iff.mp hplace
        have hend := index_add_size_le hinner
        have hafter : ∀ edge ∈ edgesAmong source (target + child.size) rest,
            target + index + inner.node.size ≤ edge.target ∧
              (edge.source < target + index ∨ target + index + inner.node.size ≤ edge.source) := by
          intro edge member
          have hbounds := bounds_of_mem_edgesAmong member
          omega
        cases index with
        | zero =>
            rw [occurrences] at hinner
            cases hinner
            exact ⟨[], ⟨source, target, slot⟩, _, rfl, rfl, hless, rfl, by simp, hafter⟩
        | succ index =>
            have block := each child List.mem_cons_self target index inner hinner
            rw [← List.cons_append, ← List.singleton_append]
            have hfirst : ∀ edge ∈ [(⟨source, target, slot⟩ : Edge)],
                edge.source < target + (index + 1) ∧ edge.target < target + (index + 1) := by
              simp only [List.forall_mem_singleton]
              omega
            have hblock := (block.append_left hfirst).append_right hafter
            rwa [List.length_singleton, Nat.add_comm 1] at hblock
      · -- The tree of this child comes first, with the edge that leads to it.
        have hbehind : source < target + child.size := by omega
        have block := ih (fun other member => each other (List.mem_cons_of_mem child member))
          hbehind hplace
        have hfirst : target + child.size + (index - child.size) = target + index := by omega
        rw [hfirst] at block
        rw [← List.cons_append]
        have hbefore : ∀ edge ∈ (⟨source, target, slot⟩ : Edge) :: child.edgesFrom target,
            edge.source < target + index ∧ edge.target < target + index := by
          refine List.forall_mem_cons.mpr ⟨by dsimp only; omega, ?_⟩
          intro edge member
          have hbounds := bounds_of_mem_edgesFrom member
          omega
        have hblock := block.append_left hbefore
        have hcount : (child.edgesFrom target).length + 1 + (index - child.size) = index := by omega
        rwa [List.length_cons, hcount] at hblock

/-- The edges inside the tree at a place other than the root stand in one block. -/
theorem edgesFrom_block {root : Node Context} {number index : Nat} {place : Occurrence Context}
    (hplace : root.occurrences[index + 1]? = some place) :
    HasEdgeBlock (root.edgesFrom number) place.node (number + (index + 1)) index := by
  induction root using Node.induction generalizing number index place with
  | step root ih =>
      rw [occurrences] at hplace
      have hfirst : number + (index + 1) = number + 1 + index := by omega
      rw [edgesFrom, hfirst]
      exact edgesAmong_block (fun child member number index place => ih child member)
        (Nat.lt_succ_self number) hplace

/-! ## Edges by their ends -/

theorem inside_of_mem_edgesFrom {node : Node Context} {number : Nat} {edge : Edge}
    (member : edge ∈ node.edgesFrom number) : edge.inside number node.size = true := by
  have hbounds := bounds_of_mem_edgesFrom member
  rw [Edge.inside_iff]
  omega

theorem filter_inside_edgesFrom (node : Node Context) (number : Nat) :
    (node.edgesFrom number).filter (Edge.inside number node.size) = node.edgesFrom number :=
  List.filter_eq_self.mpr fun _ => inside_of_mem_edgesFrom

namespace HasEdgeBlock

variable {edges : List Edge} {inner : Node Context} {first count : Nat}

/-- Of the edges, only those inside the tree and the one that leads to its root have an
end among its nodes. -/
theorem filter_touching (block : HasEdgeBlock edges inner first count) {kept : Edge → Bool}
    (hkept : ∀ edge, kept edge = true →
      (first ≤ edge.source ∧ edge.source < first + inner.size) ∨
        (first ≤ edge.target ∧ edge.target < first + inner.size)) :
    ∃ border, border.source < first ∧ border.target = first ∧
      edges.filter kept = (border :: inner.edgesFrom first).filter kept := by
  obtain ⟨earlier, border, later, rfl, -, hsource, htarget, hearlier, hlater⟩ := block
  have hbefore : earlier.filter kept = [] := by
    apply List.filter_eq_nil_iff.mpr
    intro edge member hedge
    have hends := hearlier edge member
    have htouches := hkept edge hedge
    omega
  have hafter : later.filter kept = [] := by
    apply List.filter_eq_nil_iff.mpr
    intro edge member hedge
    have hends := hlater edge member
    have htouches := hkept edge hedge
    omega
  refine ⟨border, hsource, htarget, ?_⟩
  rw [List.filter_append, hbefore, List.nil_append, ← List.cons_append, List.filter_append, hafter,
    List.append_nil]

/-- The edges inside the tree are those with both ends among its nodes. -/
theorem filter_inside (block : HasEdgeBlock edges inner first count) :
    edges.filter (Edge.inside first inner.size) = inner.edgesFrom first := by
  obtain ⟨border, hsource, -, hedges⟩ := block.filter_touching fun edge hedge =>
    Or.inl (Edge.inside_iff.mp hedge).1
  have hborder : ¬ border.inside first inner.size = true := by
    rw [Edge.inside_iff]
    omega
  rw [hedges, List.filter_cons_of_neg hborder, filter_inside_edgesFrom]

/-- Only the edge to the root of the tree joins its nodes to others. -/
theorem filter_crosses (block : HasEdgeBlock edges inner first count) :
    ∃ border, edges.filter (Edge.crosses first inner.size) = [border] ∧
      border.target = first := by
  obtain ⟨border, hsource, htarget, hedges⟩ :=
    block.filter_touching fun edge (hedge : edge.crosses first inner.size = true) => by
      rw [Edge.crosses_iff] at hedge
      omega
  have hpositive := inner.size_eq
  have hborder : border.crosses first inner.size = true := by
    rw [Edge.crosses_iff]
    omega
  have hinside : (inner.edgesFrom first).filter (Edge.crosses first inner.size) = [] := by
    apply List.filter_eq_nil_iff.mpr
    intro edge member
    have hends := bounds_of_mem_edgesFrom member
    rw [Edge.crosses_iff]
    omega
  exact ⟨border, by rw [hedges, List.filter_cons_of_pos hborder, hinside], htarget⟩

theorem drop_take (block : HasEdgeBlock edges inner first count) :
    (edges.drop (count + 1)).take (inner.size - 1) = inner.edgesFrom first := by
  obtain ⟨earlier, border, later, rfl, rfl, -⟩ := block
  have hsize := inner.length_edgesFrom first
  rw [List.append_cons, List.drop_left' (by rw [List.length_append]; rfl)]
  exact List.take_left' (by omega)

end HasEdgeBlock

/-- The edges inside the tree at a place, in the graph of the whole tree. -/
theorem edgesFrom_at {root : Node Context} {index : Nat} {place : Occurrence Context}
    (hplace : root.occurrences[index]? = some place) :
    (root.edgesFrom 0).filter (Edge.inside index place.node.size) = place.node.edgesFrom index ∧
      ((root.edgesFrom 0).drop index).take (place.node.size - 1) = place.node.edgesFrom index ∧
      (place.path ≠ [] → ∃ border,
        (root.edgesFrom 0).filter (Edge.crosses index place.node.size) = [border] ∧
          border.target = index) := by
  cases index with
  | zero =>
      rw [occurrences] at hplace
      cases hplace
      have hsize := root.length_edgesFrom 0
      refine ⟨root.filter_inside_edgesFrom 0, ?_, fun hpath => absurd rfl hpath⟩
      rw [List.drop_zero]
      exact List.take_of_length_le (Nat.le_sub_of_add_le hsize.le)
  | succ index =>
      have block : HasEdgeBlock (root.edgesFrom 0) place.node (0 + (index + 1)) index :=
        edgesFrom_block hplace
      rw [Nat.zero_add] at block
      exact ⟨block.filter_inside, block.drop_take, fun _ => block.filter_crosses⟩

end Node

namespace Graph

/-- The graph of a subtree is a block of the graph of the whole tree.  When the root of
the subtree has a number there, its labels are as many labels from this number on.
Its edges are the edges whose ends are both among these nodes, in their order and
with the number taken from both ends; they stand one behind the other from the
edge of this number on.  Unless the subtree is the whole tree, exactly one edge
joins these nodes to others, and it leads to the root of the subtree. -/
theorem ofTree_subtree {root : Node Context} (shaped : root.WellShaped) {index : Nat}
    {place : Occurrence Context} (hplace : root.occurrences[index]? = some place)
    (log later : Log) :
    let count := place.node.count
    ∃ whole part, (ofTree root log).1 = .ok whole ∧ (ofTree place.node later).1 = .ok part ∧
      part.nodeCount = count ∧
      part.labels.toList = (whole.labels.toList.drop index).take count ∧
      part.edges.toList =
        (whole.edges.toList.filter (Edge.inside index count)).map (Edge.lowered index) ∧
      whole.edges.toList.filter (Edge.inside index count) =
        (whole.edges.toList.drop index).take (count - 1) ∧
      (place.path ≠ [] → ∃ border,
        whole.edges.toList.filter (Edge.crosses index count) = [border] ∧
          border.target = index) := by
  intro count
  have hcount : count = place.node.size := place.node.count_eq_size
  have hshaped := shaped.of_mem_occurrences (List.mem_of_getElem? hplace)
  obtain ⟨hinside, hblock, hcrosses⟩ := Node.edgesFrom_at hplace
  refine ⟨_, _, congrArg Prod.fst (ofTree_of_wellShaped shaped log),
    congrArg Prod.fst (ofTree_of_wellShaped hshaped later), ?_, ?_, ?_, ?_, ?_⟩
  · simp [nodeCount, hcount, Node.length_preorder]
  · obtain ⟨before, after, hnodes, rfl⟩ := Node.preorder_block hplace
    rw [hcount, ← List.map_drop, ← List.map_take, hnodes, List.drop_left,
      List.take_left' place.node.length_preorder]
  · rw [hcount, hinside]
    have hlowered := place.node.edgesFrom_lowered 0 index
    rw [Nat.zero_add] at hlowered
    exact hlowered.symm
  · rw [hcount, hinside, hblock]
  · rw [hcount]
    exact hcrosses

/-- A dispatch between two siblings, the fifth of nine nodes, has three nodes below it. -/
theorem ofTree_subtree_dispatch :
    let root : Node Nat := .expression (.block 0
      [.binary 1 .plus (.intLiteral 2 1) (.intLiteral 3 2),
        .dynamicDispatch 4 (.object 5 "self") "f" [.noExpr 6, .noExpr 7], .noExpr 8])
    let place : Occurrence Nat :=
      ⟨[1], .expression (.dynamicDispatch 4 (.object 5 "self") "f" [.noExpr 6, .noExpr 7])⟩
    root.WellShaped ∧ root.occurrences[4]? = some place ∧
      ∃ whole part, (ofTree root #[]).1 = .ok whole ∧ (ofTree place.node #[]).1 = .ok part ∧
        part.labels.toList = (whole.labels.toList.drop 4).take 4 ∧
        part.edges.toList =
          (whole.edges.toList.filter (Edge.inside 4 4)).map (Edge.lowered 4) ∧
        whole.edges.toList.filter (Edge.inside 4 4) = (whole.edges.toList.drop 4).take 3 ∧
        ∃ border, whole.edges.toList.filter (Edge.crosses 4 4) = [border] ∧
          border.target = 4 := by
  intro root place
  have hshaped : root.WellShaped := by
    unfold root
    decide +kernel
  have hplace : root.occurrences[4]? = some place := by
    unfold root place
    decide +kernel
  have hcount : place.node.count = 4 := by
    unfold place
    decide +kernel
  obtain ⟨whole, part, hwhole, hpart, -, hlabels, hedges, hrun, hborder⟩ :=
    ofTree_subtree hshaped hplace #[] #[]
  rw [hcount] at hlabels hedges hrun hborder
  exact ⟨hshaped, hplace, whole, part, hwhole, hpart, hlabels, hedges, hrun,
    hborder (List.cons_ne_nil 1 [])⟩

end Graph

end CoolTree
