import CoolTree.Graph.Dot
import CoolTree.Proofs.Graph.Building
import CoolTree.Proofs.Output.Room
import CoolTree.Proofs.Syntax.Display
import CoolTree.Proofs.Syntax.Levels

/-!
# Reading a rendered graph back

Every statement of a graph in DOT stands on a line of its own, so the text tells
the statements, the statements tell the labels and the ends of the edges, and a
tree is told by these: an edge puts its target one level below its source, and
the label of a node tells what is displayed of it.  Hence the text shows the
skeleton of a tree and nothing else.
-/

namespace CoolTree

variable {Context Image : Type}

namespace Graph

/-! ## Writing the lines -/

/-- The lines are written like the text that they make up. -/
theorem render_eq (graph : Graph) :
    graph.render = EStateM.adaptExcept .render (Sink.writeText graph.dot) := by
  have hlines : graph.checkedLines?.get graph.isSome_checkedLines? = graph.dotLines :=
    Option.get_of_eq_some _ graph.checkedLines?_eq
  rw [render, hlines, dot, ← Sink.forM_writeText, List.forM_eq_forM, List.forM_map]

/-- A sink without a limit stores the whole text. -/
theorem render_of_unlimited (graph : Graph) {sink : Sink} (hsink : sink.limit? = none) :
    graph.render sink = .ok () (sink.storing graph.dot.toUTF8) := by
  have hfits := Sink.fits_of_unlimited hsink graph.dot.toUTF8.size
  rw [render_eq]
  simp only [EStateM.adaptExcept, Sink.writeText, Sink.write_of_fits hfits]

/-! ## The statements of a graph -/

theorem not_mem_nodeName {letter : Char} (hletter : letter ≠ 'n')
    (hdigit : letter.isDigit = false) (number : Nat) : letter ∉ (nodeName number).toList := by
  simp [nodeName, hletter, Text.not_mem_decimal hdigit]

theorem lineFeed_not_mem_nodeName (number : Nat) : '\n' ∉ (nodeName number).toList :=
  not_mem_nodeName (by decide) rfl number

theorem lineFeed_not_mem_labelAttribute (label : String) :
    '\n' ∉ (labelAttribute label).toList := by
  simp [labelAttribute, Text.lineFeed_not_mem_escapedLabel]

theorem lineFeed_not_mem_dotLines (graph : Graph) :
    ∀ line ∈ graph.dotLines, '\n' ∉ line.toList := by
  intro line member
  simp only [dotLines, List.cons_append, List.mem_cons, List.mem_append, List.mem_mapIdx,
    List.mem_map, List.not_mem_nil, or_false] at member
  rcases member with rfl | (⟨number, _, rfl⟩ | ⟨edge, _, rfl⟩) | rfl
  · decide
  · simp [nodeStatement, lineFeed_not_mem_nodeName, lineFeed_not_mem_labelAttribute]
  · simp [edgeStatement, lineFeed_not_mem_nodeName, lineFeed_not_mem_labelAttribute]
  · decide

theorem dotLines_eq_of_dot_eq {left right : Graph} (heq : left.dot = right.dot) :
    left.dotLines = right.dotLines :=
  Text.eq_of_ofLines_eq left.lineFeed_not_mem_dotLines right.lineFeed_not_mem_dotLines heq

theorem nodeStatement_injective (number : Nat) : Function.Injective (nodeStatement number) := by
  intro left right heq
  apply Text.escapedLabel_injective
  simpa [nodeStatement, labelAttribute] using heq

/-- The statement of an edge tells its source. -/
theorem source_eq_of_edgeStatement_eq {left right : Edge}
    (heq : edgeStatement left = edgeStatement right) : left.source = right.source := by
  have hblank : Char.isDigit ' ' = false := rfl
  have hletters := congrArg String.toList heq
  simp only [edgeStatement, nodeName, String.toList_append, List.append_assoc,
    List.append_cancel_left_eq, Nat.toList_repr] at hletters
  obtain ⟨hdigits, _⟩ := Text.eq_of_append_mark_eq (Text.not_mem_decimal hblank left.source)
    (Text.not_mem_decimal hblank right.source) hletters
  apply Nat.repr_injective
  rw [Nat.repr_eq_ofList_toDigits, Nat.repr_eq_ofList_toDigits, hdigits]

/-- A graph with one edge to every node but one is told by its text, as far as
labels and the sources of edges go. -/
theorem labels_and_sources_eq_of_dot_eq {left right : Graph}
    (hleft : left.edges.size + 1 = left.labels.size)
    (hright : right.edges.size + 1 = right.labels.size) (heq : left.dot = right.dot) :
    left.labels = right.labels ∧
      left.edges.toList.map Edge.source = right.edges.toList.map Edge.source := by
  have hlines := dotLines_eq_of_dot_eq heq
  simp only [dotLines, List.append_cancel_right_eq, List.cons_append, List.cons.injEq,
    true_and] at hlines
  -- There are twice as many statements as edges and one more, so the nodes are as many.
  have hcount := congrArg List.length hlines
  simp only [List.length_append, List.length_mapIdx, List.length_map, Array.length_toList] at hcount
  obtain ⟨hnodes, hedges⟩ := List.append_inj hlines (by
    simp only [List.length_mapIdx, Array.length_toList]
    omega)
  constructor
  · apply Array.toList_inj.mp
    apply List.ext_getElem?
    intro number
    have hstatement := congrArg (fun statements => statements[number]?) hnodes
    simp only [List.getElem?_mapIdx] at hstatement
    exact Option.map_injective (nodeStatement_injective number) hstatement
  · obtain ⟨read, hread⟩ := (Function.factorsThrough_iff Edge.source).mp
      fun _ _ => source_eq_of_edgeStatement_eq
    rw [hread, ← List.map_map, ← List.map_map, hedges]

end Graph

namespace Node

/-! ## Levels by edges -/

/-- An edge puts its target one level below its source. -/
theorem depth_of_edge (root : Node Context) {j : Nat} (hj : j + 1 < root.occurrences.length) :
    ∃ source, ((root.edgesFrom 0).map Edge.source)[j]? = some source ∧ source ≤ j ∧
      (root.occurrences[j + 1]?).map Occurrence.depth =
        (root.occurrences[source]?).map fun parent => parent.depth + 1 := by
  obtain ⟨edge, path, position, parent, child, hedge, htarget, hless, hchild, hparent, _⟩ :=
    root.edge_to hj
  refine ⟨edge.source, ?_, by omega, ?_⟩
  · rw [List.getElem?_map, hedge]
    rfl
  · rw [hchild, hparent]
    simp [Occurrence.depth]

/-- The sources of the edges tell the levels of all nodes. -/
theorem depths_eq_of_sources {left : Node Context} {right : Node Image}
    (hlength : left.occurrences.length = right.occurrences.length)
    (hsources : (left.edgesFrom 0).map Edge.source = (right.edgesFrom 0).map Edge.source) :
    left.occurrences.map Occurrence.depth = right.occurrences.map Occurrence.depth := by
  apply List.ext_getElem?
  intro number
  rw [List.getElem?_map, List.getElem?_map]
  induction number using Nat.strongRecOn with
  | ind number ih =>
      cases number with
      | zero =>
          rw [occurrences, occurrences]
          rfl
      | succ j =>
          by_cases hj : j + 1 < left.occurrences.length
          · obtain ⟨source, hsource, hle, hdepth⟩ := left.depth_of_edge hj
            obtain ⟨other, hother, _, hotherDepth⟩ := right.depth_of_edge (hlength ▸ hj)
            rw [hsources, hother] at hsource
            obtain rfl := Option.some.inj hsource
            have hparents := congrArg (Option.map (· + 1)) (ih other (by omega))
            rw [hdepth, hotherDepth]
            simpa [Function.comp_def] using hparents
          · rw [List.getElem?_eq_none (by omega), List.getElem?_eq_none (by omega)]
            rfl

/-- The levels and the displayed heads of a tree, listed apart. -/
theorem map_displayed_levels (node : Node Context) :
    ((node.levels 0).map fun level => (level.1, level.2.displayed)) =
      (node.occurrences.map Occurrence.depth).zip
        (node.preorder.map fun inner => inner.head.displayed) := by
  rw [levels, ← map_node_occurrences, List.map_map, List.map_map, List.zip_map']
  apply List.map_congr_left
  intro occurrence _
  exact Prod.ext (Nat.zero_add _) rfl

/-! ## Skeletons by graphs -/

theorem edgesAmong_skeleton {slots : List (Slot × Node Context)}
    (each : ∀ child ∈ slots.map Prod.snd, ∀ number,
      child.skeleton.edgesFrom number = child.edgesFrom number)
    (source target : Nat) :
    edgesAmong source target (slots.map fun place => (place.1, place.2.skeleton)) =
      edgesAmong source target slots := by
  induction slots generalizing target with
  | nil => rw [List.map_nil, edgesAmong, edgesAmong]
  | cons place rest ih =>
      rw [List.map_cons, edgesAmong, edgesAmong, size_skeleton,
        each place.2 List.mem_cons_self,
        ih fun child member => each child (List.mem_cons_of_mem place.2 member)]

/-- A tree has the edges of its skeleton. -/
theorem edgesFrom_skeleton (node : Node Context) (number : Nat) :
    node.skeleton.edgesFrom number = node.edgesFrom number := by
  induction node using Node.induction generalizing number with
  | step node ih =>
      rw [edgesFrom, edgesFrom, slots_skeleton, edgesAmong_skeleton ih]

/-- A tree has the texts of its skeleton. -/
theorem map_text_preorder (node : Node Context) :
    node.preorder.map text = node.skeleton.preorder.map text := by
  rw [← map_node_occurrences, ← map_node_occurrences, occurrences_skeleton, List.map_map,
    List.map_map, List.map_map]
  apply List.map_congr_left
  intro occurrence _
  simp only [Function.comp_apply, Occurrence.skeleton, text, head_skeleton, Head.text_displayed]

end Node

namespace Graph

def ofShaped (root : Node Context) : Graph :=
  ⟨(root.preorder.map Node.text).toArray, (root.edgesFrom 0).toArray⟩

theorem ofShaped_skeleton (root : Node Context) : ofShaped root.skeleton = ofShaped root := by
  rw [ofShaped, ofShaped, Node.edgesFrom_skeleton, ← Node.map_text_preorder]

theorem dot_ofShaped_eq_iff {left : Node Context} {right : Node Image} :
    (ofShaped left).dot = (ofShaped right).dot ↔ left.skeleton = right.skeleton := by
  constructor
  · intro heq
    obtain ⟨hlabels, hsources⟩ := labels_and_sources_eq_of_dot_eq
      (by simp [ofShaped, Node.length_edgesFrom, Node.length_preorder])
      (by simp [ofShaped, Node.length_edgesFrom, Node.length_preorder]) heq
    have htexts : left.preorder.map Node.text = right.preorder.map Node.text :=
      congrArg Array.toList hlabels
    have hdepths : left.occurrences.map Occurrence.depth =
        right.occurrences.map Occurrence.depth := by
      apply Node.depths_eq_of_sources _ hsources
      simpa [Node.length_occurrences, Node.length_preorder] using congrArg List.length htexts
    apply Node.skeleton_eq_of_levels
    rw [Node.map_displayed_levels, Node.map_displayed_levels, hdepths,
      Head.displayed_eq_of_texts htexts]
  · intro heq
    rw [← ofShaped_skeleton left, ← ofShaped_skeleton right, heq]

/-- The texts that render the graphs of two well-shaped trees are equal exactly
when the trees have the same skeleton. -/
theorem render_eq_iff_skeleton_eq {left : Node Context} {right : Node Image}
    (hleft : left.WellShaped) (hright : right.WellShaped) (log : Log) (sink : Sink)
    (hsink : sink.limit? = none) :
    ∃ (leftGraph rightGraph : Graph) (leftText rightText : String),
      (ofTree left log).1 = .ok leftGraph ∧ (ofTree right log).1 = .ok rightGraph ∧
      leftGraph.render sink = .ok () (sink.storing leftText.toUTF8) ∧
      rightGraph.render sink = .ok () (sink.storing rightText.toUTF8) ∧
      (leftText = rightText ↔ left.skeleton = right.skeleton) := by
  refine ⟨ofShaped left, ofShaped right, (ofShaped left).dot, (ofShaped right).dot, ?_, ?_, ?_, ?_,
    dot_ofShaped_eq_iff⟩
  · exact congrArg Prod.fst (ofTree_of_wellShaped hleft log)
  · exact congrArg Prod.fst (ofTree_of_wellShaped hright log)
  · exact render_of_unlimited _ hsink
  · exact render_of_unlimited _ hsink

/-- Two bindings whose contexts and declared types differ are rendered alike,
though the text bound needs escaping twice. -/
theorem render_eq_iff_skeleton_eq_bindings :
    let left : Node Nat := .expression
      (.letIn 1 "x" "String" (.stringLiteral 2 "\"é\n") (.block 3 [.object 4 "x"]))
    let right : Node String := .expression
      (.letIn "a" "x" "Object" (.stringLiteral "b" "\"é\n") (.block "c" [.object "d" "x"]))
    left.WellShaped ∧ right.WellShaped ∧ Sink.unlimited.limit? = none ∧
      ∃ (leftGraph rightGraph : Graph) (leftText rightText : String),
        (ofTree left #[]).1 = .ok leftGraph ∧ (ofTree right #[]).1 = .ok rightGraph ∧
        leftGraph.render Sink.unlimited = .ok () (Sink.unlimited.storing leftText.toUTF8) ∧
        rightGraph.render Sink.unlimited = .ok () (Sink.unlimited.storing rightText.toUTF8) ∧
        (leftText = rightText ↔ left.skeleton = right.skeleton) := by
  intro left right
  have hleft : left.WellShaped := by
    unfold left
    decide +kernel
  have hright : right.WellShaped := by
    unfold right
    decide +kernel
  exact ⟨hleft, hright, rfl, render_eq_iff_skeleton_eq hleft hright #[] Sink.unlimited rfl⟩

end Graph

end CoolTree
