import CoolTree.Proofs.Output.Reading

/-!
# The number of lines of a dump

A dump has a line for every node, and only the identifiers that are displayed
can bring further line feeds into it: literals are written so that they fit on
one line.  Hence the line feeds of a dump are counted from the tree, and the dump
has exactly one line per node when no displayed identifier holds a line feed.
-/

namespace CoolTree

variable {Context : Type}

/-- The identifiers and type names that are displayed of a tree, in preorder. -/
def Node.displayedNames (node : Node Context) : List String :=
  node.preorder.filterMap fun inner => inner.head.identifier?

theorem Node.namesOnOneLine_iff {node : Node Context} :
    node.NamesOnOneLine ↔ Text.totalLineFeeds node.displayedNames = 0 := by
  rw [Text.totalLineFeeds_eq_zero_iff, NamesOnOneLine, displayedNames]
  simp only [List.mem_filterMap]
  constructor
  · rintro hnames name ⟨inner, member, hname⟩
    exact hnames inner member name hname
  · intro hnames inner member name hname
    exact hnames name ⟨inner, member, hname⟩

namespace Head

theorem lineFeeds_label (kind : Kind) : Text.lineFeeds kind.label = 0 :=
  Text.lineFeeds_eq_zero_iff.mpr kind.lineFeed_not_mem_label

theorem payload?_eq_of_identifier? {head : Head} {name : String}
    (hname : head.identifier? = some name) : head.payload? = some name := by
  cases head with
  | program | stringLiteral | intLiteral | boolLiteral | noExpr | unary | binary | block
  | conditional | loop | typeCase => cases hname
  | _ => exact hname

/-- A payload has the line feeds of the identifier that it is, and a literal has none. -/
theorem lineFeeds_payload (head : Head) :
    Text.totalLineFeeds head.payload?.toList = Text.totalLineFeeds head.identifier?.toList := by
  cases hidentifier : head.identifier? with
  | some name => rw [payload?_eq_of_identifier? hidentifier]
  | none =>
      have hnone : ∀ name ∈ head.identifier?, '\n' ∉ name.toList := by simp [hidentifier]
      have hpayload := lineFeed_not_mem_payload hnone
      apply Text.totalLineFeeds_eq_zero_iff.mpr
      intro payload member
      exact hpayload payload (Option.mem_toList.mp member)

/-- Only its identifier brings line feeds into the text of a head. -/
theorem lineFeeds_text (head : Head) :
    Text.lineFeeds head.text = Text.totalLineFeeds head.identifier?.toList := by
  have hblank : Text.lineFeeds " " = 0 := rfl
  rw [← lineFeeds_payload, text]
  cases head.payload? <;> simp [lineFeeds_label, hblank]

end Head

namespace Printer

section Indents

variable {indent : String} (hindent : IsIndent indent)
include hindent

theorem lineFeeds_lineOnLevel (level : Nat × Head) :
    Text.lineFeeds (lineOnLevel indent level) =
      Text.totalLineFeeds level.2.identifier?.toList := by
  have hindents : Text.lineFeeds (indents indent level.1) = 0 :=
    Text.lineFeeds_eq_zero_iff.mpr (lineFeed_not_mem_indents hindent level.1)
  rw [lineOnLevel, Text.lineFeeds_append, hindents, Head.lineFeeds_text, Nat.zero_add]

theorem totalLineFeeds_lineOnLevel (levels : List (Nat × Head)) :
    Text.totalLineFeeds (levels.map (lineOnLevel indent)) =
      Text.totalLineFeeds (levels.filterMap fun level => level.2.identifier?) := by
  induction levels with
  | nil => rfl
  | cons level rest ih =>
      rw [List.map_cons, Text.totalLineFeeds_cons, ih, lineFeeds_lineOnLevel hindent,
        List.filterMap_cons]
      cases level.2.identifier? <;> simp

/-- The lines of a tree have one line feed for each node and those of its names. -/
theorem lineFeeds_lines (depth : Nat) (node : Node Context) :
    Text.lineFeeds (lines indent depth node.occurrences) =
      node.size + Text.totalLineFeeds node.displayedNames := by
  have hnames : node.displayedNames =
      (node.levels depth).filterMap fun level => level.2.identifier? := by
    rw [Node.displayedNames, ← Node.map_node_occurrences, Node.levels, List.filterMap_map,
      List.filterMap_map]
    rfl
  rw [lines_eq_ofLines, Text.lineFeeds_ofLines, totalLineFeeds_lineOnLevel hindent, ← hnames,
    List.length_map, Node.length_levels]

/-- The lines of a tree are as many lines as the tree has nodes exactly when its
names stand on one line. -/
theorem lines_eq_ofLines_iff (depth : Nat) (node : Node Context) :
    (∃ parts : List String, parts.length = node.size ∧ (∀ part ∈ parts, '\n' ∉ part.toList) ∧
        lines indent depth node.occurrences = Text.ofLines parts) ↔ node.NamesOnOneLine := by
  constructor
  · rintro ⟨parts, hlength, hparts, htext⟩
    have hfeeds := lineFeeds_lines hindent depth node
    rw [htext, Text.lineFeeds_ofLines, hlength, Text.totalLineFeeds_eq_zero_iff.mpr hparts]
      at hfeeds
    exact Node.namesOnOneLine_iff.mpr (Nat.add_left_cancel hfeeds).symm
  · intro hnames
    refine ⟨(node.levels depth).map (lineOnLevel indent), ?_,
      lineFeed_not_mem_lineOnLevel hindent hnames depth, lines_eq_ofLines indent depth node⟩
    rw [List.length_map, Node.length_levels]

end Indents

/-! ## Dumps as texts -/

theorem isIndent_defaultIndent : IsIndent defaultIndent := by
  constructor
  · decide
  · simp [defaultIndent, isIndenting]

/-- Bytes that were written for a text are read as this text. -/
theorem fromUTF8?_toUTF8 (text : String) : String.fromUTF8? text.toUTF8 = some text :=
  dif_pos text.isValidUTF8

/-- A well-shaped tree is dumped as the lines of its nodes. -/
theorem dump_of_wellShaped {root : Node Context} (shaped : root.WellShaped) :
    (dump root).1 = .ok (lines defaultIndent 0 root.occurrences) := by
  have hfits : ∀ count, Sink.unlimited.Fits count := Sink.fits_of_unlimited rfl
  have hstored : ∀ text : String,
      (Sink.unlimited.storing text.toUTF8).stored = text.toUTF8 := fun _ => ByteArray.empty_append
  simp only [dump, print, create, dispatch_of_fits shaped (hfits _), hstored, fromUTF8?_toUTF8]

/-- A tree with a malformed node has no dump, and the first such node is reported. -/
theorem dump_of_malformed {root : Node Context} (malformed : ¬ root.WellShaped) :
    ∃ defect, Node.firstDefect? root.preorder = some defect ∧
      (dump root).1 = .error (.malformed defect) := by
  have hfits : ∀ count, Sink.unlimited.Fits count := Sink.fits_of_unlimited rfl
  obtain ⟨first, later, defect, hsplit, hdefect, hdispatch⟩ :=
    (dispatch_outcome root Sink.unlimited 0 defaultIndent
      (#[].push (.printerCreated defaultIndent))).2.1 (hfits _) malformed
  refine ⟨defect, ?_, ?_⟩
  · have hsound : Node.firstDefect? (root.soundOccurrences.map Occurrence.node) = none := by
      apply Node.firstDefect?_eq_none_iff.mpr
      intro node member
      obtain ⟨occurrence, hoccurrence, rfl⟩ := List.mem_map.mp member
      exact Node.defect?_of_mem_soundOccurrences hoccurrence
    rw [← Node.map_node_occurrences, hsplit, List.map_append, Node.firstDefect?_append, hsound,
      List.map_cons, Node.firstDefect?, List.findSome?_cons, hdefect]
    rfl
  · simp only [dump, print, create, hdispatch]

/-- A tree has a dump as a text exactly when it is well-shaped; the first malformed
node of any other tree is reported.  The dump has one line feed for every node
of the tree besides those inside the displayed identifiers, whatever the string
literals hold, and it consists of one line per node exactly when no displayed
identifier holds a line feed. -/
theorem dump_lineFeeds (root : Node Context) :
    (root.WellShaped →
      ∃ text, (dump root).1 = .ok text ∧
        Text.lineFeeds text = root.count + Text.totalLineFeeds root.displayedNames ∧
        ((∃ parts : List String, parts.length = root.count ∧
            (∀ part ∈ parts, '\n' ∉ part.toList) ∧ text = Text.ofLines parts) ↔
          ∀ name ∈ root.displayedNames, '\n' ∉ name.toList)) ∧
    (¬ root.WellShaped →
      ∃ defect, Node.firstDefect? root.preorder = some defect ∧
        (dump root).1 = .error (.malformed defect)) := by
  constructor
  · intro shaped
    refine ⟨_, dump_of_wellShaped shaped, ?_, ?_⟩
    · rw [lineFeeds_lines isIndent_defaultIndent, Node.count_eq_size]
    · rw [Node.count_eq_size, lines_eq_ofLines_iff isIndent_defaultIndent,
        Node.namesOnOneLine_iff, Text.totalLineFeeds_eq_zero_iff]
  · exact dump_of_malformed

end Printer

end CoolTree
