import CoolTree.Graph.Basic
import CoolTree.Output.Error
import CoolTree.Text.Label

/-!
# Graphs in DOT

A graph is written in the DOT language as one statement per line: first the
nodes in the order of their numbers, then the edges in their order, each with
its escaped label between double quotes.  The names that stand for the graph and
for its nodes have to be identifiers of DOT, and every node that is written needs
a label.  Both are checked while the lines are made, and both are always so.
-/

namespace CoolTree

namespace Graph

/-- Whether a name is an identifier of DOT: a letter followed by letters, digits and
underscores. -/
def isIdentifier (name : String) : Bool :=
  match name.toList with
  | [] => false
  | first :: rest => first.isAlpha && rest.all fun letter => letter.isAlphanum || letter == '_'

def nodeName (number : Nat) : String :=
  "n" ++ number.repr

def labelAttribute (label : String) : String :=
  "[label=\"" ++ Text.escapedLabel label ++ "\"];"

def nodeStatement (number : Nat) (label : String) : String :=
  "    " ++ nodeName number ++ labelAttribute label

def edgeStatement (edge : Edge) : String :=
  "    " ++ nodeName edge.source ++ " -> " ++ nodeName edge.target ++
    labelAttribute edge.slot.text

/-! ## Lines with checks -/

/-- The statement of a node, if its name is an identifier and it has a label. -/
def checkedNode? (graph : Graph) (number : Nat) : Option String := do
  guard (isIdentifier (nodeName number))
  let label ← graph.label? number
  some (nodeStatement number label)

def checkedEdge? (edge : Edge) : Option String := do
  guard (isIdentifier (nodeName edge.source))
  guard (isIdentifier (nodeName edge.target))
  some (edgeStatement edge)

/-- The lines of a graph in DOT, unless a name is not an identifier or a node that is
to be written has no label. -/
def checkedLines? (graph : Graph) : Option (List String) := do
  guard (isIdentifier "ast")
  let nodes ← (List.range graph.nodeCount).mapM graph.checkedNode?
  let edges ← graph.edges.toList.mapM checkedEdge?
  some ("digraph ast \x7b" :: nodes ++ edges ++ ["\x7d"])

theorem isIdentifier_nodeName (number : Nat) : isIdentifier (nodeName number) = true := by
  have hdigits : ∀ digit ∈ Nat.toDigits 10 number, digit.isDigit = true := fun digit member =>
    Nat.isDigit_of_mem_toDigits (by decide) (by decide) member
  have hname : (nodeName number).toList = 'n' :: Nat.toDigits 10 number := by simp [nodeName]
  have hfirst : Char.isAlpha 'n' = true := rfl
  rw [isIdentifier, hname]
  simp only [hfirst, Bool.true_and, List.all_eq_true]
  intro digit member
  rw [Char.isAlphanum, hdigits digit member, Bool.or_true, Bool.true_or]

/-- The lines of a graph in DOT, nothing being checked. -/
def dotLines (graph : Graph) : List String :=
  "digraph ast \x7b" :: graph.labels.toList.mapIdx nodeStatement ++
    graph.edges.toList.map edgeStatement ++ ["\x7d"]

theorem mapM_range'_eq_some {write : Nat → Option String} {lines : List String} {start : Nat}
    (each : ∀ position line, lines[position]? = some line →
      write (start + position) = some line) :
    (List.range' start lines.length).mapM write = some lines := by
  induction lines generalizing start with
  | nil => rfl
  | cons line rest ih =>
    have hrest := @ih (start + 1) fun position other hother => by
      rw [Nat.add_assoc, Nat.add_comm 1]
      exact each (position + 1) other hother
    have hfirst : write start = some line := each 0 line rfl
    rw [List.length_cons, List.range'_succ, List.mapM_cons, hfirst, hrest]
    rfl

theorem checkedEdge?_eq (edge : Edge) : checkedEdge? edge = some (edgeStatement edge) := by
  rw [checkedEdge?, isIdentifier_nodeName, isIdentifier_nodeName]
  rfl

/-- No check of a graph fails. -/
theorem checkedLines?_eq (graph : Graph) : graph.checkedLines? = some graph.dotLines := by
  have hidentifier : isIdentifier "ast" = true := by decide
  have hnodes : (List.range graph.nodeCount).mapM graph.checkedNode? =
      some (graph.labels.toList.mapIdx nodeStatement) := by
    have hlength : (graph.labels.toList.mapIdx nodeStatement).length = graph.nodeCount := by
      simp [nodeCount]
    rw [List.range_eq_range', ← hlength]
    apply mapM_range'_eq_some
    intro number line hline
    rw [List.getElem?_mapIdx] at hline
    obtain ⟨label, hlabel, rfl⟩ := Option.map_eq_some_iff.mp hline
    have hfound : graph.label? number = some label := by
      rw [label?, ← Array.getElem?_toList, hlabel]
    rw [Nat.zero_add, checkedNode?, isIdentifier_nodeName, hfound]
    rfl
  have hedges : graph.edges.toList.mapM checkedEdge? =
      some (graph.edges.toList.map edgeStatement) := by
    rw [funext checkedEdge?_eq]
    exact List.mapM_pure
  rw [checkedLines?, hidentifier, hnodes, hedges]
  rfl

theorem isSome_checkedLines? (graph : Graph) : graph.checkedLines?.isSome = true := by
  rw [checkedLines?_eq]
  rfl

/-! ## Rendering -/

def dot (graph : Graph) : String :=
  String.join (graph.dotLines.map fun line => line ++ "\n")

/-- Writes a graph in DOT to a sink, line by line.  The lines are the checked ones, and
they are there, since no check fails. -/
def render (graph : Graph) : EStateM OutputError Sink Unit :=
  let lines := graph.checkedLines?.get graph.isSome_checkedLines?
  EStateM.adaptExcept .render (lines.forM fun line => Sink.writeText (line ++ "\n"))

end Graph

end CoolTree
