import CoolTree.Proofs.Graph.Rendering
import CoolTree.Proofs.Text.BareQuotes

/-!
# Statements that hold their labels

The lines of a rendered graph are printable ASCII, whatever the strings of the tree
hold.  Every statement of a node or an edge has two bare quotes, which stand around
its label: no string breaks out of the label that shows it.
-/

namespace CoolTree

namespace Text

def AllPrintable (text : String) : Prop :=
  ∀ character ∈ text.toList, IsPrintable character

theorem allPrintable_of_all {text : String}
    (hall : (text.toList.all fun letter => decide (IsPrintable letter)) = true) :
    AllPrintable text := fun _ member => isPrintable_of_mem member hall

theorem AllPrintable.append {left right : String} (hleft : AllPrintable left)
    (hright : AllPrintable right) : AllPrintable (left ++ right) := by
  rw [AllPrintable, String.toList_append]
  exact List.forall_mem_append.mpr ⟨hleft, hright⟩

end Text

namespace Graph

/-! ## Labels in their statements -/

/-- The bare quotes of a line are two, and between them stands the escaped label. -/
def HoldsLabel (label line : String) : Prop :=
  ∃ front back, line.toList =
      front ++ '"' :: ((Text.escapedLabel label).toList ++ '"' :: back) ∧
    ∀ position, Text.IsBareQuote line.toList position ↔
      position = front.length ∨
        position = front.length + 1 + (Text.escapedLabel label).toList.length

theorem holdsLabel_append {opening : String} (hslash : '\\' ∉ opening.toList)
    (hquote : '"' ∉ opening.toList) (label : String) :
    HoldsLabel label (opening ++ labelAttribute label) := by
  have hfront : Text.Sealed ((opening ++ "[label=").toList) := by
    apply Text.sealed_of_plain
    · simp [hslash]
    · simp [hquote]
  have hback : Text.Sealed [']', ';'] := Text.sealed_of_plain (by decide) (by decide)
  have hline : (opening ++ labelAttribute label).toList = (opening ++ "[label=").toList ++
      '"' :: ((Text.escapedLabel label).toList ++ '"' :: [']', ';']) := by
    simp [labelAttribute]
  refine ⟨_, _, hline, ?_⟩
  rw [hline]
  exact Text.isBareQuote_around_label hfront hback label

theorem holdsLabel_nodeStatement (number : Nat) (label : String) :
    HoldsLabel label (nodeStatement number label) := by
  have hslash : '\\' ∉ (nodeName number).toList := not_mem_nodeName (by decide) rfl number
  have hquote : '"' ∉ (nodeName number).toList := not_mem_nodeName (by decide) rfl number
  apply holdsLabel_append
  · simp [hslash]
  · simp [hquote]

theorem holdsLabel_edgeStatement (edge : Edge) :
    HoldsLabel edge.slot.text (edgeStatement edge) := by
  have hslash : ∀ number, '\\' ∉ (nodeName number).toList := not_mem_nodeName (by decide) rfl
  have hquote : ∀ number, '"' ∉ (nodeName number).toList := not_mem_nodeName (by decide) rfl
  apply holdsLabel_append
  · simp [hslash]
  · simp [hquote]

/-! ## Printable lines -/

theorem allPrintable_nodeName (number : Nat) : Text.AllPrintable (nodeName number) := by
  have hletter : Text.AllPrintable "n" := Text.allPrintable_of_all (by decide)
  apply hletter.append
  intro digit member
  rw [Nat.toList_repr] at member
  exact Text.isPrintable_of_mem_decimal member

theorem allPrintable_labelAttribute (label : String) :
    Text.AllPrintable (labelAttribute label) := by
  have hopening : Text.AllPrintable "[label=\"" := Text.allPrintable_of_all (by decide)
  have hclosing : Text.AllPrintable "\"];" := Text.allPrintable_of_all (by decide)
  exact (hopening.append fun _ => Text.isPrintable_of_mem_escapedLabel).append hclosing

theorem allPrintable_of_mem_dotLines {graph : Graph} {line : String}
    (member : line ∈ graph.dotLines) : Text.AllPrintable line := by
  have hindent : Text.AllPrintable "    " := Text.allPrintable_of_all (by decide)
  have harrow : Text.AllPrintable " -> " := Text.allPrintable_of_all (by decide)
  simp only [dotLines, List.cons_append, List.mem_cons, List.mem_append, List.mem_mapIdx,
    List.mem_map, List.not_mem_nil, or_false] at member
  rcases member with rfl | (⟨number, _, rfl⟩ | ⟨edge, _, rfl⟩) | rfl
  · exact Text.allPrintable_of_all (by decide)
  · exact (hindent.append (allPrintable_nodeName number)).append (allPrintable_labelAttribute _)
  · exact (((hindent.append (allPrintable_nodeName edge.source)).append harrow).append
      (allPrintable_nodeName edge.target)).append (allPrintable_labelAttribute _)
  · exact Text.allPrintable_of_all (by decide)

/-! ## Whole graphs -/

variable {Context : Type}

/-- The statements of a graph hold the labels of its nodes and the texts of the slots of
its edges, in this order. -/
theorem statements_holdLabels (graph : Graph) :
    List.Forall₂ HoldsLabel
      (graph.labels.toList ++ graph.edges.toList.map fun edge => edge.slot.text)
      (graph.labels.toList.mapIdx nodeStatement ++ graph.edges.toList.map edgeStatement) := by
  apply List.rel_append
  · apply List.forall₂_iff_get.mpr
    refine ⟨List.length_mapIdx.symm, ?_⟩
    intro number hlabel hstatement
    rw [List.get_eq_getElem, List.get_eq_getElem, List.getElem_mapIdx]
    exact holdsLabel_nodeStatement number _
  · apply List.forall₂_map_left_iff.mpr
    apply List.forall₂_map_right_iff.mpr
    exact List.forall₂_same.mpr fun edge _ => holdsLabel_edgeStatement edge

/-- Rendering the graph of a well-shaped tree to a sink without a limit passes all checks
and writes as many lines as there are nodes and edges and two more, all of them
printable ASCII whatever the strings of the tree hold.  Every line but the first and
the last one is the statement of a node or an edge, and its only bare quotes are
the two around its escaped label. -/
theorem render_holdsLabels {root : Node Context} (shaped : root.WellShaped) (log : Log)
    {sink : Sink} (hsink : sink.limit? = none) :
    ∃ graph lines statements, (ofTree root log).1 = .ok graph ∧
      graph.checkedLines? = some lines ∧
      graph.render sink = .ok () (sink.storing (Text.ofLines lines).toUTF8) ∧
      lines.length = 2 * graph.nodeCount + 1 ∧
      (∀ line ∈ lines, Text.AllPrintable line) ∧
      lines = "digraph ast \x7b" :: statements ++ ["\x7d"] ∧
      List.Forall₂ HoldsLabel
        (graph.labels.toList ++ graph.edges.toList.map fun edge => edge.slot.text)
        statements := by
  refine ⟨ofShaped root, (ofShaped root).dotLines, _,
    congrArg Prod.fst (ofTree_of_wellShaped shaped log), checkedLines?_eq _, ?_, ?_,
    fun _ => allPrintable_of_mem_dotLines, ?_, statements_holdLabels _⟩
  · exact render_of_unlimited _ hsink
  · have hedges := root.length_edgesFrom 0
    simp only [dotLines, ofShaped, nodeCount, List.length_append, List.length_cons,
      List.length_mapIdx, List.length_map, List.length_nil, List.size_toArray,
      Node.length_preorder]
    omega
  · rw [dotLines]
    rfl

/-- A name that ends in a backslash and a double quote, and a literal with both of them
and a letter beyond ASCII. -/
theorem render_holdsLabels_quotes :
    let root : Node Nat := .expression (.assign 0 "x\\\"" (.stringLiteral 1 "\\\"é\n"))
    root.WellShaped ∧ Sink.unlimited.limit? = none ∧
      ∃ graph lines statements, (ofTree root #[]).1 = .ok graph ∧
        graph.checkedLines? = some lines ∧
        graph.render Sink.unlimited =
          .ok () (Sink.unlimited.storing (Text.ofLines lines).toUTF8) ∧
        lines.length = 2 * graph.nodeCount + 1 ∧
        (∀ line ∈ lines, Text.AllPrintable line) ∧
        lines = "digraph ast \x7b" :: statements ++ ["\x7d"] ∧
        List.Forall₂ HoldsLabel
          (graph.labels.toList ++ graph.edges.toList.map fun edge => edge.slot.text)
          statements := by
  intro root
  have hshaped : root.WellShaped := by
    unfold root
    decide +kernel
  exact ⟨hshaped, rfl, render_holdsLabels hshaped #[] rfl⟩

end Graph

end CoolTree
