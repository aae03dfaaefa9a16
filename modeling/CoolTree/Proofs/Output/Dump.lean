import CoolTree.Output.Printer
import CoolTree.Proofs.Output.Room
import CoolTree.Proofs.Syntax.WellShaped
import CoolTree.Proofs.Walk.Recursion

/-!
# What a dump leaves behind

Dumping a tree prints its occurrences one by one in preorder, each on a line at
the depth of the printer plus its own depth, and stops at the first that is
malformed or that the sink refuses.  The depth at which a printer is left is
then the depth of that occurrence; a dump that reaches its end restores the
depth it began with.
-/

namespace CoolTree

/-- Where a dump has been stopped: why, and at which depth. -/
structure Halt where
  stop : Stop OutputError
  depth : Nat

variable {Context : Type}

namespace Printer

/-- The line of an occurrence in a dump that began at some depth. -/
def line (indent : String) (depth : Nat) (occurrence : Occurrence Context) : String :=
  String.join (List.replicate (depth + occurrence.depth) indent) ++
    (occurrence.node.text ++ "\n")

def lines (indent : String) (depth : Nat) (occurrences : List (Occurrence Context)) : String :=
  String.join (occurrences.map (line indent depth))

def printAt (indent : String) (depth : Nat) (occurrence : Occurrence Context) :
    EStateM Halt Sink Unit :=
  match occurrence.node.defect? with
  | some defect => throw ⟨.malformed defect, depth + occurrence.depth⟩
  | none =>
      EStateM.adaptExcept
        (fun cause => ⟨.failed (.write occurrence.node.kind cause), depth + occurrence.depth⟩)
        (Sink.writeText (line indent depth occurrence))

/-- A printer after some occurrences have been printed from some depth on. -/
def leftBehind (indent : String) (depth : Nat) (log : Log) (entered : Nat) :
    EStateM.Result Halt Sink Unit → EStateM.Result (Stop OutputError) (Journal Printer) Nat
  | .ok () sink => .ok entered ⟨⟨sink, depth, indent⟩, log⟩
  | .error halt sink => .error halt.stop ⟨⟨sink, halt.depth, indent⟩, log⟩

theorem join_pieces (node : Node Context) : String.join (pieces node) = node.text ++ "\n" := by
  rw [pieces, Node.text, Head.text, Node.payload?, Node.kind]
  cases node.head.payload? <;> simp [String.join_cons, String.append_assoc]

/-- The many pieces of a line are written like the line. -/
theorem writeLine_eq (indent : String) (depth : Nat) (occurrence : Occurrence Context) :
    writeLine indent (depth + occurrence.depth) occurrence.node =
      Sink.writeText (line indent depth occurrence) := by
  rw [writeLine, Sink.forM_writeText, Sink.forM_writeText, join_pieces]
  simp only [Sink.writeText, line, String.toUTF8_eq_toByteArray, String.toByteArray_append]
  exact Sink.write_append _ _

theorem printAt_under (indent : String) (depth position : Nat)
    (occurrence : Occurrence Context) :
    printAt indent depth (occurrence.under position) = printAt indent (depth + 1) occurrence := by
  have hdepth : depth + (occurrence.under position).depth = depth + 1 + occurrence.depth := by
    rw [Occurrence.depth_under]
    omega
  rw [printAt, printAt, line, line, hdepth]
  rfl

/-! ## The recursion as a list of printed occurrences -/

theorem noting_pre (node : Node Context) (sink : Sink) (depth : Nat) (indent : String)
    (log : Log) :
    hooks.visitor.noting.pre node ⟨⟨sink, depth, indent⟩, log⟩ =
      match Sink.writeText (line indent depth ⟨[], node⟩) sink with
      | .ok () sink => .ok false ⟨⟨sink, depth + 1, indent⟩, log⟩
      | .error cause sink =>
          .error (.failed (.write node.kind cause)) ⟨⟨sink, depth, indent⟩, log⟩ := by
  have hpre : hooks.visitor.pre node = Action.ofState (enter node) := rfl
  have hline := writeLine_eq indent depth ⟨[], node⟩
  simp only [Visitor.noting, hpre, bind, EStateM.bind, Action.ofState, enter, ← hline,
    Occurrence.depth, List.length_nil, Nat.add_zero]
  cases writeLine indent depth node sink <;> rfl

theorem printAt_of_malformed {indent : String} {depth : Nat} {occurrence : Occurrence Context}
    {defect : Defect} (hdefect : occurrence.node.defect? = some defect) (sink : Sink) :
    printAt indent depth occurrence sink =
      .error ⟨.malformed defect, depth + occurrence.depth⟩ sink := by
  rw [printAt, hdefect]
  rfl

theorem printAt_of_shaped {indent : String} {depth : Nat} {occurrence : Occurrence Context}
    (hdefect : occurrence.node.defect? = none) (sink : Sink) :
    printAt indent depth occurrence sink =
      match Sink.writeText (line indent depth occurrence) sink with
      | .ok () sink => .ok () sink
      | .error cause sink =>
          .error ⟨.failed (.write occurrence.node.kind cause), depth + occurrence.depth⟩ sink := by
  rw [printAt, hdefect]
  simp only [EStateM.adaptExcept]
  cases Sink.writeText (line indent depth occurrence) sink <;> rfl

theorem descendAll_eq {children : List (Node Context)} {indent : String} {log : Log}
    (each : ∀ child ∈ children, ∀ entered sink depth,
      hooks.visitor.noting.descend child entered ⟨⟨sink, depth, indent⟩, log⟩ =
        leftBehind indent depth log (entered + child.size)
          (forM child.occurrences (printAt indent depth) sink))
    (position entered : Nat) (sink : Sink) (depth : Nat) :
    hooks.visitor.noting.descendAll children entered ⟨⟨sink, depth + 1, indent⟩, log⟩ =
      leftBehind indent (depth + 1) log (entered + Node.totalSize children)
        (forM (Node.occurrencesFrom position children) (printAt indent depth) sink) := by
  induction children generalizing position entered sink with
  | nil =>
      rw [Visitor.descendAll, Node.occurrencesFrom]
      rfl
  | cons child rest ih =>
      rw [Visitor.descendAll, Node.occurrencesFrom, List.forM_append, List.forM_map,
        Node.totalSize_cons, ← Nat.add_assoc]
      simp only [printAt_under, bind, EStateM.bind, each child List.mem_cons_self]
      cases forM child.occurrences (printAt indent (depth + 1)) sink with
      | ok _ written =>
          exact ih (fun other member => each other (List.mem_cons_of_mem child member))
            (position + 1) (entered + child.size) written
      | error halt written => rfl

/-- Dumping a tree prints its occurrences in preorder.  When all are printed,
the depth is what it was; otherwise it is that of the occurrence that stopped
the dump. -/
theorem descend_eq (node : Node Context) (entered : Nat) (sink : Sink) (depth : Nat)
    (indent : String) (log : Log) :
    hooks.visitor.noting.descend node entered ⟨⟨sink, depth, indent⟩, log⟩ =
      leftBehind indent depth log (entered + node.size)
        (forM node.occurrences (printAt indent depth) sink) := by
  induction node using Node.induction generalizing entered sink depth with
  | step node ih =>
      have hpre := noting_pre node sink depth indent log
      rw [Node.occurrences, List.forM_cons]
      simp only [bind, EStateM.bind]
      cases hdefect : node.defect? with
      | some defect =>
          rw [Visitor.descend_of_malformed hdefect, printAt_of_malformed hdefect]
          rfl
      | none =>
          rw [printAt_of_shaped hdefect]
          cases hwrite : Sink.writeText (line indent depth ⟨[], node⟩) sink with
          | error cause cut =>
              rw [hwrite] at hpre
              rw [Visitor.descend_of_stopped hdefect hpre]
              rfl
          | ok _ written =>
              rw [hwrite] at hpre
              rw [Visitor.descend_of_entered hdefect hpre, node.size_eq, ← Nat.add_assoc]
              simp only [bind, EStateM.bind, descendAll_eq ih 0]
              cases forM (Node.occurrencesFrom 0 node.children) (printAt indent depth) written with
              | error halt cut => rfl
              | ok _ written => rfl

/-! ## Where the room ends -/

@[simp]
theorem lines_nil (indent : String) (depth : Nat) :
    lines indent depth ([] : List (Occurrence Context)) = "" := rfl

theorem toUTF8_lines_cons (indent : String) (depth : Nat) (occurrence : Occurrence Context)
    (rest : List (Occurrence Context)) :
    (lines indent depth (occurrence :: rest)).toUTF8 =
      (line indent depth occurrence).toUTF8 ++ (lines indent depth rest).toUTF8 := by
  simp [lines, String.join_cons]

theorem forM_printAt_of_fits {printed : List (Occurrence Context)} {indent : String}
    {depth : Nat} {sink : Sink}
    (sound : ∀ occurrence ∈ printed, occurrence.node.defect? = none)
    (hfits : sink.Fits (lines indent depth printed).toUTF8.size) :
    forM printed (printAt indent depth) sink =
      .ok () (sink.storing (lines indent depth printed).toUTF8) := by
  induction printed generalizing sink with
  | nil => simp [pure, EStateM.pure]
  | cons occurrence rest ih =>
      rw [toUTF8_lines_cons, ByteArray.size_append] at hfits
      have hline : sink.Fits (line indent depth occurrence).toUTF8.size := by
        intro room hroom
        have hboth := hfits room hroom
        omega
      have hrest := (Sink.fits_storing_iff hline).mpr hfits
      rw [List.forM_cons, toUTF8_lines_cons]
      simp only [bind, EStateM.bind, printAt_of_shaped (sound occurrence List.mem_cons_self),
        Sink.writeText, Sink.write_of_fits hline]
      rw [ih (fun other member => sound other (List.mem_cons_of_mem occurrence member)) hrest,
        Sink.storing_storing]

/-- When the lines do not fit, the first line that does not fit is cut and stops
the dump. -/
theorem forM_printAt_of_full {printed : List (Occurrence Context)} {indent : String}
    {depth room : Nat} {sink : Sink} (rest : List (Occurrence Context))
    (sound : ∀ occurrence ∈ printed, occurrence.node.defect? = none)
    (hroom : sink.room? = some room)
    (hfull : room < (lines indent depth printed).toUTF8.size) :
    ∃ earlier failing later, printed = earlier ++ failing :: later ∧
      (lines indent depth earlier).toUTF8.size ≤ room ∧
      room < (lines indent depth (earlier ++ [failing])).toUTF8.size ∧
      forM (printed ++ rest) (printAt indent depth) sink =
        .error ⟨.failed (.write failing.node.kind sink.refusal), depth + failing.depth⟩
          (sink.storing ((lines indent depth printed).toUTF8.extract 0 room)) := by
  induction printed generalizing room sink with
  | nil => simp at hfull
  | cons occurrence others ih =>
      rw [toUTF8_lines_cons, ByteArray.size_append] at hfull
      rw [List.cons_append, List.forM_cons]
      simp only [bind, EStateM.bind, printAt_of_shaped (sound occurrence List.mem_cons_self),
        Sink.writeText]
      by_cases hline : room < (line indent depth occurrence).toUTF8.size
      · refine ⟨[], occurrence, others, rfl, ?_, ?_, ?_⟩
        · simp
        · rw [List.nil_append, toUTF8_lines_cons, ByteArray.size_append]
          omega
        · rw [Sink.write_of_full hroom hline, toUTF8_lines_cons,
            Sink.extract_append_of_le_size (Nat.le_of_lt hline)]
      · have hfits : sink.Fits (line indent depth occurrence).toUTF8.size := by
          intro other hother
          rw [hroom] at hother
          obtain rfl := Option.some.inj hother
          exact Nat.le_of_not_lt hline
        have hleft : (sink.storing (line indent depth occurrence).toUTF8).room? =
            some (room - (line indent depth occurrence).toUTF8.size) := by
          rw [Sink.room?_storing, hroom]
          rfl
        obtain ⟨earlier, failing, later, rfl, hearlier, hfailing, hstop⟩ :=
          ih (fun other member => sound other (List.mem_cons_of_mem occurrence member)) hleft
            (by omega)
        refine ⟨occurrence :: earlier, failing, later, rfl, ?_, ?_, ?_⟩
        · rw [toUTF8_lines_cons, ByteArray.size_append]
          omega
        · rw [List.cons_append, toUTF8_lines_cons, ByteArray.size_append]
          omega
        · rw [Sink.write_of_fits hfits]
          simp only [hstop, Sink.storing_storing, Sink.refusal_storing]
          rw [toUTF8_lines_cons, Sink.extract_append_of_size_le (Nat.le_of_not_lt hline)]

/-! ## Whole dumps -/

theorem dispatch_eq (root : Node Context) (sink : Sink) (depth : Nat) (indent : String)
    (log : Log) :
    dispatch root ⟨⟨sink, depth, indent⟩, log⟩ =
      match forM root.occurrences (printAt indent depth) sink with
      | .ok () sink =>
          .ok () ⟨⟨sink, depth, indent⟩,
            (log.push (.walking root.kind)).push (.walked root.kind root.size)⟩
      | .error halt sink =>
          .error halt.stop ⟨⟨sink, halt.depth, indent⟩, log.push (.walking root.kind)⟩ := by
  rw [dispatch, Visitor.walk_eq_walkRecursively, Visitor.walkRecursively]
  simp only [bind, EStateM.bind, Action.note, descend_eq, Nat.zero_add]
  cases forM root.occurrences (printAt indent depth) sink <;> rfl

/-- What a dump stores, how it ends and at which depth it leaves the printer,
for every tree, indent, depth and sink.  Its text consists of the lines before
the first malformed node.  If the text fits, all of it is stored: a well-shaped
tree then ends well at the depth of the beginning, and another tree stops at its
first malformed node and at the depth of that node.  If the text does not fit,
as many of its bytes are stored as there is room for, and the dump fails for the
node whose line holds the first byte left out, at the depth of that node. -/
theorem dispatch_outcome (root : Node Context) (sink : Sink) (depth : Nat) (indent : String)
    (log : Log) :
    let printed := root.soundOccurrences
    let text := (lines indent depth printed).toUTF8
    let started := log.push (.walking root.kind)
    (sink.Fits text.size → root.WellShaped →
      dispatch root ⟨⟨sink, depth, indent⟩, log⟩ =
        .ok () ⟨⟨sink.storing text, depth, indent⟩,
          started.push (.walked root.kind root.size)⟩) ∧
    (sink.Fits text.size → ¬ root.WellShaped →
      ∃ malformed later defect, root.occurrences = printed ++ malformed :: later ∧
        malformed.node.defect? = some defect ∧
        dispatch root ⟨⟨sink, depth, indent⟩, log⟩ =
          .error (.malformed defect)
            ⟨⟨sink.storing text, depth + malformed.depth, indent⟩, started⟩) ∧
    (∀ room, sink.room? = some room → room < text.size →
      ∃ earlier failing later, printed = earlier ++ failing :: later ∧
        (lines indent depth earlier).toUTF8.size ≤ room ∧
        room < (lines indent depth (earlier ++ [failing])).toUTF8.size ∧
        dispatch root ⟨⟨sink, depth, indent⟩, log⟩ =
          .error (.failed (.write failing.node.kind sink.refusal))
            ⟨⟨sink.storing (text.extract 0 room), depth + failing.depth, indent⟩, started⟩) := by
  intro printed text started
  have sound : ∀ occurrence ∈ printed, occurrence.node.defect? = none :=
    fun _ member => Node.defect?_of_mem_soundOccurrences member
  refine ⟨?_, ?_, ?_⟩
  · intro hfits shaped
    have hall : root.occurrences = printed :=
      (Node.soundOccurrences_of_wellShaped shaped).symm
    rw [dispatch_eq, hall, forM_printAt_of_fits sound hfits]
  · intro hfits malformed
    obtain ⟨first, later, defect, hsplit, hdefect⟩ := Node.exists_first_malformed malformed
    refine ⟨first, later, defect, hsplit, hdefect, ?_⟩
    rw [dispatch_eq, hsplit, List.forM_append, List.forM_cons]
    simp only [bind, EStateM.bind]
    rw [forM_printAt_of_fits sound hfits]
    simp only [printAt_of_malformed hdefect]
    rfl
  · intro room hroom hfull
    have hsplit : printed ++ root.occurrences.dropWhile Occurrence.isSound = root.occurrences :=
      List.takeWhile_append_dropWhile
    obtain ⟨earlier, failing, later, hprinted, hearlier, hfailing, hstop⟩ :=
      forM_printAt_of_full (root.occurrences.dropWhile Occurrence.isSound) sound hroom hfull
    refine ⟨earlier, failing, later, hprinted, hearlier, hfailing, ?_⟩
    rw [dispatch_eq, ← hsplit, hstop]

end Printer

end CoolTree
