import CoolTree.Proofs.Output.Reading
import CoolTree.Proofs.Syntax.Replacement

/-!
# Local changes of a tree

What a printer writes for a subtree is one piece of what it writes for the whole
tree, and the pieces around it depend neither on the contents nor on the size of
the subtree.  The depth at which a subtree is written is the depth of the
beginning and one more for every ancestor, whatever was written before.
-/

namespace CoolTree

variable {Context : Type}

namespace Node

theorem flatMap_set {Letter : Type} (write : Node Context → List Letter)
    {children : List (Node Context)} {position : Nat} (hposition : position < children.length)
    (child : Node Context) :
    (children.set position child).flatMap write =
      (children.take position).flatMap write ++ write child ++
        (children.drop (position + 1)).flatMap write := by
  rw [List.set_eq_take_append_cons_drop, if_pos hposition, List.flatMap_append,
    List.flatMap_cons, List.append_assoc]

/-- The levels around a subtree stay what they are when it is replaced. -/
theorem levels_replaceAt? {root inner : Node Context} {path : List Nat}
    (hinner : root.descendant? path = some inner) (depth : Nat) :
    ∃ before after,
      root.levels depth = before ++ inner.levels (depth + path.length) ++ after ∧
      ∀ other edited, root.replaceAt? path other = some edited →
        edited.levels depth = before ++ other.levels (depth + path.length) ++ after := by
  induction path generalizing root depth with
  | nil =>
      rw [descendant?] at hinner
      obtain rfl := Option.some.inj hinner
      refine ⟨[], [], by simp, ?_⟩
      intro other edited hedited
      rw [replaceAt?] at hedited
      obtain rfl := Option.some.inj hedited
      simp
  | cons position path ih =>
      rw [descendant?] at hinner
      obtain ⟨child, hchild, hbelow⟩ := Option.bind_eq_some_iff.mp hinner
      obtain ⟨before, after, hlevels, hothers⟩ := ih hbelow (depth + 1)
      obtain ⟨hposition, hmember⟩ := List.getElem?_eq_some_iff.mp hchild
      have hself : root.children.set position child = root.children := by
        rw [← hmember, List.set_getElem_self]
      have hdepth : depth + 1 + path.length = depth + (position :: path).length := by
        rw [List.length_cons]
        omega
      rw [hdepth] at hlevels hothers
      refine ⟨(depth, root.head) ::
          (root.children.take position).flatMap (levels (depth + 1)) ++ before,
        after ++ (root.children.drop (position + 1)).flatMap (levels (depth + 1)), ?_, ?_⟩
      · rw [levels_eq, ← hself, flatMap_set _ hposition, hlevels, hself]
        simp
      · intro other edited hedited
        obtain ⟨replaced, changed, hreplaced, hchanged, -, hhead, hchildren⟩ :=
          replaceAt?_cons_eq_some_iff.mp hedited
        obtain rfl : child = replaced := Option.some.inj (hchild.symm.trans hreplaced)
        rw [levels_eq, hhead, hchildren, flatMap_set _ hposition, hothers other changed hchanged]
        simp

end Node

namespace Printer

/-- A printer that starts at a depth writes the text for the tree and comes back
to this depth, whatever its sink holds already. -/
def Writes (indent : String) (depth : Nat) (node : Node Context) (text : String) : Prop :=
  ∀ (sink : Sink) (log : Log), sink.limit? = none →
    ∃ later, dispatch node ⟨⟨sink, depth, indent⟩, log⟩ =
      .ok () ⟨⟨sink.storing text.toUTF8, depth, indent⟩, later⟩

def levelLines (indent : String) (levels : List (Nat × Head)) : String :=
  Text.ofLines (levels.map (lineOnLevel indent))

theorem levelLines_append (indent : String) (left right : List (Nat × Head)) :
    levelLines indent (left ++ right) = levelLines indent left ++ levelLines indent right := by
  rw [levelLines, levelLines, levelLines, List.map_append, Text.ofLines_append]

theorem writes_levelLines {node : Node Context} (shaped : node.WellShaped) (indent : String)
    (depth : Nat) : Writes indent depth node (levelLines indent (node.levels depth)) := by
  intro sink log hsink
  rw [levelLines, ← lines_eq_ofLines]
  exact ⟨_, dispatch_of_fits shaped (Sink.fits_of_unlimited hsink _) log⟩

theorem writes_of_levels_eq {node : Node Context} (shaped : node.WellShaped) (indent : String)
    {depth : Nat} {before inside after : List (Nat × Head)}
    (hlevels : node.levels depth = before ++ inside ++ after) :
    Writes indent depth node
      (levelLines indent before ++ levelLines indent inside ++ levelLines indent after) := by
  rw [← levelLines_append, ← levelLines_append, ← hlevels]
  exact writes_levelLines shaped indent depth

/-- What is written for a subtree of a well-shaped tree stands between two texts in
what is written for the whole tree, and it is written as at a depth with one more
for every ancestor.  When the subtree is replaced by a well-shaped tree, as it can
be by every tree of its category, the two texts stay, and between them stands what
is written at that depth for the new tree. -/
theorem writes_replaced {root inner : Node Context} {path : List Nat}
    (shaped : root.WellShaped) (hinner : root.descendant? path = some inner) (indent : String)
    (depth : Nat) :
    ∃ before innerText after : String,
      Writes indent (depth + path.length) inner innerText ∧
      Writes indent depth root (before ++ innerText ++ after) ∧
      (∀ other, Node.SameCategory inner other →
        ∃ edited, root.replaceAt? path other = some edited) ∧
      ∀ other edited, other.WellShaped → root.replaceAt? path other = some edited →
        ∃ otherText, Writes indent (depth + path.length) other otherText ∧
          Writes indent depth edited (before ++ otherText ++ after) := by
  obtain ⟨before, after, hlevels, hothers⟩ := Node.levels_replaceAt? hinner depth
  have hmember : ⟨path, inner⟩ ∈ root.occurrences := Node.mem_occurrences.mpr hinner
  have hshaped : inner.WellShaped := shaped.of_mem_occurrences hmember
  refine ⟨levelLines indent before, levelLines indent (inner.levels (depth + path.length)),
    levelLines indent after, ?_, ?_, ?_, ?_⟩
  · exact writes_levelLines hshaped indent _
  · exact writes_of_levels_eq shaped indent hlevels
  · intro other same
    obtain ⟨edited, hedited, -⟩ := Node.exists_replaceAt? hinner same
    exact ⟨edited, hedited⟩
  · intro other edited hother hedited
    refine ⟨levelLines indent (other.levels (depth + path.length)), ?_, ?_⟩
    · exact writes_levelLines hother indent _
    · exact writes_of_levels_eq (shaped.of_replaceAt? hother hedited) indent
        (hothers other edited hedited)

/-- The body of a loop is replaced by a block of two nodes, in front of a name with a
line feed. -/
theorem writes_replaced_loop :
    let inner : Node Nat := .expression (.noExpr 3)
    let other : Node Nat := .expression (.block 7 [.stringLiteral 8 "\t"])
    let root : Node Nat := .expression
      (.block 0 [.loop 1 (.boolLiteral 2 true) (.noExpr 3), .object 4 "x\ny"])
    let edited : Node Nat := .expression
      (.block 0 [.loop 1 (.boolLiteral 2 true) (.block 7 [.stringLiteral 8 "\t"]),
        .object 4 "x\ny"])
    root.WellShaped ∧ root.descendant? [0, 1] = some inner ∧ other.WellShaped ∧
      root.replaceAt? [0, 1] other = some edited ∧
      ∃ before innerText otherText after : String,
        Writes "\t" 5 inner innerText ∧ Writes "\t" 3 root (before ++ innerText ++ after) ∧
        Writes "\t" 5 other otherText ∧ Writes "\t" 3 edited (before ++ otherText ++ after) := by
  intro inner other root edited
  have hroot : root.WellShaped := by
    unfold root
    decide +kernel
  have hother : other.WellShaped := by
    unfold other
    decide +kernel
  have hinner : root.descendant? [0, 1] = some inner := rfl
  have hedited : root.replaceAt? [0, 1] other = some edited := rfl
  obtain ⟨before, innerText, after, hwrites, hwhole, -, hothers⟩ :=
    writes_replaced hroot hinner "\t" 3
  obtain ⟨otherText, hinside, houtside⟩ := hothers other edited hother hedited
  exact ⟨hroot, hinner, hother, hedited, before, innerText, otherText, after, hwrites, hwhole,
    hinside, houtside⟩

end Printer

end CoolTree
