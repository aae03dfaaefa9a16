import CoolTree.Proofs.Output.Dump
import CoolTree.Proofs.Syntax.Display
import CoolTree.Proofs.Syntax.Levels

/-!
# Reading a dump back

When the indent is made of blanks and tabs, the blanks and tabs that a line
begins with tell the level of its node, and what follows tells what is displayed
of it.  Only identifiers can bring line feeds into a line; without them a dump
tells its lines, and so the skeleton of the tree.  Nothing else is shown: trees
with the same skeleton have the same dump.
-/

namespace CoolTree

variable {Context Image : Type}

def isIndenting (character : Char) : Bool :=
  character = ' ' ∨ character = '\t'

/-- An indent of one or more blanks and tabs. -/
structure IsIndent (indent : String) : Prop where
  nonempty : indent ≠ ""
  indenting : ∀ character ∈ indent.toList, isIndenting character

/-- No line feed occurs in an identifier that is displayed of a tree. -/
def Node.NamesOnOneLine (node : Node Context) : Prop :=
  ∀ inner ∈ node.preorder, ∀ identifier ∈ inner.head.identifier?, '\n' ∉ identifier.toList

instance (node : Node Context) : Decidable node.NamesOnOneLine :=
  inferInstanceAs (Decidable (∀ inner ∈ node.preorder, ∀ identifier ∈ inner.head.identifier?,
    '\n' ∉ identifier.toList))

/-- A text begins with the label of a kind, and so with a letter. -/
theorem Head.takeWhile_text (head : Head) : head.text.toList.takeWhile isIndenting = [] := by
  have hlabel : ∃ first rest, head.kind.label.toList = first :: rest ∧
      isIndenting first = false := by
    cases head.kind <;> exact ⟨_, _, rfl, rfl⟩
  obtain ⟨first, rest, hlabel, hfirst⟩ := hlabel
  rw [text]
  cases head.payload? <;> simp [hlabel, hfirst]

namespace Printer

def indents (indent : String) (depth : Nat) : String :=
  String.join (List.replicate depth indent)

def lineOnLevel (indent : String) (level : Nat × Head) : String :=
  indents indent level.1 ++ level.2.text

theorem lines_eq_ofLines (indent : String) (depth : Nat) (node : Node Context) :
    lines indent depth node.occurrences =
      Text.ofLines ((node.levels depth).map (lineOnLevel indent)) := by
  rw [lines, Text.ofLines, Node.levels, List.map_map, List.map_map]
  apply congrArg String.join
  apply List.map_congr_left
  intro occurrence _
  exact String.append_assoc.symm

section Indents

variable {indent : String} (hindent : IsIndent indent)
include hindent

/-- Indents consist of blanks and tabs. -/
theorem isIndenting_of_mem_indents {depth : Nat} {character : Char}
    (member : character ∈ (indents indent depth).toList) : isIndenting character = true := by
  rw [indents, String.toList_join, List.mem_flatMap] at member
  obtain ⟨part, hpart, member⟩ := member
  obtain rfl := List.eq_of_mem_replicate hpart
  exact hindent.indenting character member

theorem lineFeed_not_mem_indents (depth : Nat) : '\n' ∉ (indents indent depth).toList := by
  intro member
  exact absurd (isIndenting_of_mem_indents hindent member) (by decide)

theorem indents_injective : Function.Injective (indents indent) := by
  intro left right heq
  have hlength := congrArg (fun text => text.toList.length) heq
  have hpositive : 0 < indent.toList.length := by
    apply List.length_pos_of_ne_nil
    simpa using hindent.nonempty
  apply Nat.eq_of_mul_eq_mul_right hpositive
  simpa [indents, String.toList_join] using hlength

/-- The blanks and tabs that a line begins with are its indents. -/
theorem takeWhile_lineOnLevel (level : Nat × Head) :
    (lineOnLevel indent level).toList.takeWhile isIndenting =
      (indents indent level.1).toList := by
  rw [lineOnLevel, String.toList_append, List.takeWhile_append_of_pos, Head.takeWhile_text,
    List.append_nil]
  intro character member
  exact isIndenting_of_mem_indents hindent member

/-- A line tells its level and what is displayed on it. -/
theorem level_eq_of_lineOnLevel_eq {left right : Nat × Head}
    (heq : lineOnLevel indent left = lineOnLevel indent right) :
    (left.1, left.2.displayed) = (right.1, right.2.displayed) := by
  have hindents : indents indent left.1 = indents indent right.1 := by
    apply String.toList_inj.mp
    rw [← takeWhile_lineOnLevel hindent, ← takeWhile_lineOnLevel hindent, heq]
  have htext : left.2.text = right.2.text := by
    rw [lineOnLevel, lineOnLevel, hindents] at heq
    simpa using heq
  exact Prod.ext (indents_injective hindent hindents) (Head.text_eq_iff.mp htext)

/-- A tree whose names stand on one line has every node on one line. -/
theorem lineFeed_not_mem_lineOnLevel {node : Node Context} (hnames : node.NamesOnOneLine)
    (depth : Nat) :
    ∀ line ∈ (node.levels depth).map (lineOnLevel indent), '\n' ∉ line.toList := by
  intro line member
  rw [Node.levels, List.map_map] at member
  obtain ⟨occurrence, hoccurrence, rfl⟩ := List.mem_map.mp member
  have hnode : occurrence.node ∈ node.preorder := by
    rw [← Node.map_node_occurrences]
    exact List.mem_map_of_mem hoccurrence
  have htext := Head.lineFeed_not_mem_text (hnames occurrence.node hnode)
  simp [lineOnLevel, Occurrence.level, lineFeed_not_mem_indents hindent, htext]

/-- The lines of a tree tell its skeleton. -/
theorem skeleton_eq_of_lines_eq {left : Node Context} {right : Node Image}
    (hleft : left.NamesOnOneLine) (hright : right.NamesOnOneLine) {depth : Nat}
    (heq : lines indent depth left.occurrences = lines indent depth right.occurrences) :
    left.skeleton = right.skeleton := by
  rw [lines_eq_ofLines, lines_eq_ofLines] at heq
  have hlines := Text.eq_of_ofLines_eq (lineFeed_not_mem_lineOnLevel hindent hleft depth)
    (lineFeed_not_mem_lineOnLevel hindent hright depth) heq
  obtain ⟨read, hread⟩ :=
    (Function.factorsThrough_iff fun level : Nat × Head => (level.1, level.2.displayed)).mp
      fun _ _ => level_eq_of_lineOnLevel_eq hindent
  apply Node.skeleton_eq_of_levels
  rw [hread, ← List.map_map, ← List.map_map, hlines]

end Indents

/-- What is not displayed is not in the lines. -/
theorem lines_skeleton (indent : String) (depth : Nat) (node : Node Context) :
    lines indent depth node.skeleton.occurrences = lines indent depth node.occurrences := by
  rw [lines_eq_ofLines, lines_eq_ofLines, Node.levels_skeleton, List.map_map]
  apply congrArg Text.ofLines
  apply List.map_congr_left
  intro level _
  simp only [Function.comp_apply, lineOnLevel, Head.text_displayed]

/-- A well-shaped tree that has room is dumped whole. -/
theorem dispatch_of_fits {root : Node Context} (shaped : root.WellShaped) {indent : String}
    {depth : Nat} {sink : Sink}
    (hfits : sink.Fits (lines indent depth root.occurrences).toUTF8.size) (log : Log) :
    dispatch root ⟨⟨sink, depth, indent⟩, log⟩ =
      .ok () ⟨⟨sink.storing (lines indent depth root.occurrences).toUTF8, depth, indent⟩,
        (log.push (.walking root.kind)).push (.walked root.kind root.size)⟩ := by
  have sound : ∀ occurrence ∈ root.occurrences, occurrence.node.defect? = none := by
    intro occurrence member
    exact Occurrence.isSound_iff.mp (Node.wellShaped_iff_isSound.mp shaped occurrence member)
  rw [dispatch_eq, forM_printAt_of_fits sound hfits]

/-- For every indent of blanks and tabs, the dumps of two well-shaped trees whose
names stand on one line are equal exactly when the trees have the same
skeleton. -/
theorem dump_eq_iff_skeleton_eq {indent : String} (hindent : IsIndent indent)
    {left : Node Context} {right : Node Image} (hleft : left.WellShaped)
    (hright : right.WellShaped) (hleftNames : left.NamesOnOneLine)
    (hrightNames : right.NamesOnOneLine) (sink : Sink) (hsink : sink.limit? = none)
    (depth : Nat) (log : Log) :
    ∃ (leftText rightText : String) (leftLog rightLog : Log),
      dispatch left ⟨⟨sink, depth, indent⟩, log⟩ =
        .ok () ⟨⟨sink.storing leftText.toUTF8, depth, indent⟩, leftLog⟩ ∧
      dispatch right ⟨⟨sink, depth, indent⟩, log⟩ =
        .ok () ⟨⟨sink.storing rightText.toUTF8, depth, indent⟩, rightLog⟩ ∧
      (leftText = rightText ↔ left.skeleton = right.skeleton) := by
  refine ⟨_, _, _, _, dispatch_of_fits hleft (Sink.fits_of_unlimited hsink _) log,
    dispatch_of_fits hright (Sink.fits_of_unlimited hsink _) log, ?_⟩
  constructor
  · exact skeleton_eq_of_lines_eq hindent hleftNames hrightNames
  · intro heq
    rw [← lines_skeleton, heq, lines_skeleton]

/-- Two classes that differ in contexts, parents and declared types, with an
indent of a tab and a blank and a line feed in a literal. -/
theorem dump_eq_iff_skeleton_eq_classes :
    let left : Node Nat := .classDecl ⟨1, "Main", "IO",
      [.methodDecl ⟨2, "main", [⟨3, "x", "Int"⟩], "Object", .stringLiteral 4 "two\nlines"⟩]⟩
    let right : Node String := .classDecl ⟨"a", "Main", "Object",
      [.methodDecl ⟨"b", "main", [⟨"c", "x", "Bool"⟩], "Main", .stringLiteral "d" "two\nlines"⟩]⟩
    IsIndent "\t " ∧ left.WellShaped ∧ right.WellShaped ∧ left.NamesOnOneLine ∧
      right.NamesOnOneLine ∧ Sink.unlimited.limit? = none ∧
      ∃ (leftText rightText : String) (leftLog rightLog : Log),
        dispatch left ⟨⟨Sink.unlimited, 0, "\t "⟩, #[]⟩ =
          .ok () ⟨⟨Sink.unlimited.storing leftText.toUTF8, 0, "\t "⟩, leftLog⟩ ∧
        dispatch right ⟨⟨Sink.unlimited, 0, "\t "⟩, #[]⟩ =
          .ok () ⟨⟨Sink.unlimited.storing rightText.toUTF8, 0, "\t "⟩, rightLog⟩ ∧
        (leftText = rightText ↔ left.skeleton = right.skeleton) := by
  intro left right
  have hindent : IsIndent "\t " := by
    constructor
    · decide
    · simp [isIndenting]
  have hleft : left.WellShaped := by
    unfold left
    decide +kernel
  have hright : right.WellShaped := by
    unfold right
    decide +kernel
  have hleftNames : left.NamesOnOneLine := by
    unfold left
    decide +kernel
  have hrightNames : right.NamesOnOneLine := by
    unfold right
    decide +kernel
  exact ⟨hindent, hleft, hright, hleftNames, hrightNames, rfl,
    dump_eq_iff_skeleton_eq hindent hleft hright hleftNames hrightNames Sink.unlimited rfl 0 #[]⟩

end Printer

end CoolTree
