import CoolTree.Proofs.Output.Dump
import CoolTree.Proofs.Walk.Observation
import CoolTree.Proofs.Walk.Watching

/-!
# The life of a printer

A printer can dump one tree after the other, and goes on when a dump has failed
or met a malformed node.  Its depth is the number of nodes that are open: those
of the present dump, and those that stopped dumps have left open.  So within a
dump the depth never falls below where the dump began, and every line has one
more indent for each node that is open from before.
-/

namespace CoolTree

variable {Context : Type}

/-- A dump in the life of a printer, with the limit that the sink is given for it. -/
structure Job (Context : Type) where
  limit? : Option Nat
  tree : Node Context

/-- The call leaves the depth no lower than a start, and a post hook has a level
to come back from. -/
structure Sighting.StaysAbove (start : Nat) (sighting : Sighting Context Printer) : Prop where
  before : start ≤ sighting.before.depth
  after : start ≤ sighting.after.depth
  post : sighting.phase = .post → sighting.after.depth + 1 = sighting.before.depth

namespace Printer

/-! ## The depth at every moment -/

/-- The printer is some levels deeper than at the start, and has not been above it. -/
structure IsDeeper (start levels : Nat) (watched : Watched Context Printer) : Prop where
  depth : watched.state.depth = start + levels
  seen : ∀ sighting ∈ watched.sightings, sighting.StaysAbove start

/-- What is seen of a call joins what has been seen. -/
theorem IsDeeper.forall_seen {start levels : Nat} {watched : Watched Context Printer}
    (deeper : IsDeeper start levels watched) {sighting : Sighting Context Printer}
    (hsighting : sighting.StaysAbove start) :
    ∀ seen ∈ watched.sightings ++ [sighting], seen.StaysAbove start := by
  intro seen member
  rcases List.mem_append.mp member with earlier | latest
  · exact deeper.seen seen earlier
  · rwa [List.mem_singleton.mp latest]

/-- A call that moves the depth between levels is seen to stay above the start. -/
theorem leads_watched {Answer : Type} {start levels : Nat} {phase : Phase} (node : Node Context)
    {action : Action Printer OutputError Answer} (reached : Answer → Nat)
    (haction : Leads (fun journal => journal.state.depth = start + levels) action
      (fun answer journal => journal.state.depth = start + reached answer)
      fun journal => start ≤ journal.state.depth ∧ phase ≠ .post)
    (hpost : ∀ answer, phase = .post → reached answer + 1 = levels) :
    Leads (fun journal => IsDeeper start levels journal.state)
      (Action.watched phase node action)
      (fun answer journal => IsDeeper start (reached answer) journal.state)
      fun journal => ∀ sighting ∈ journal.state.sightings, sighting.StaysAbove start := by
  intro journal deeper
  have hdepth : journal.state.state.depth = start + levels := deeper.depth
  have hcall := haction journal.unwatched hdepth
  rw [Action.watched]
  cases hresult : action journal.unwatched with
  | ok answer after =>
      rw [hresult] at hcall
      dsimp only at hcall
      refine ⟨hcall, deeper.forall_seen ⟨?_, ?_, ?_⟩⟩
      · dsimp only
        omega
      · dsimp only
        omega
      · intro hphase
        have hlevels := hpost answer hphase
        dsimp only
        omega
  | error stop after =>
      rw [hresult] at hcall
      refine deeper.forall_seen ⟨?_, hcall.1, fun hphase => absurd hphase hcall.2⟩
      dsimp only
      omega

theorem leads_pre (start levels : Nat) (node : Node Context) :
    Leads (fun journal => journal.state.depth = start + levels) (hooks.visitor.pre node)
      (fun handled journal => handled = false ∧ journal.state.depth = start + (levels + 1))
      fun journal => journal.state.depth = start + levels := by
  intro journal hdepth
  have hpre : hooks.visitor.pre node = Action.ofState (enter node) := rfl
  simp only [hpre, Action.ofState, enter]
  cases writeLine journal.state.indent journal.state.depth node journal.state.sink with
  | ok answer sink => exact ⟨rfl, congrArg (· + 1) hdepth⟩
  | error cause sink => exact hdepth

/-- The hooks of a printer go down a level for every node that is opened, and
come back when it is closed. -/
theorem keeps_isDeeper (start : Nat) :
    (@hooks Context).visitor.watched.Keeps
      (fun opened _ journal => IsDeeper start opened.length journal.state)
      fun journal => ∀ sighting ∈ journal.state.sightings, sighting.StaysAbove start where
  stop _ _ _ deeper := deeper.seen
  pre node opened entered := by
    apply leads_watched node fun handled : Bool =>
      (if handled then opened else node :: opened).length
    · intro journal hdepth
      have hpre := leads_pre start opened.length node journal hdepth
      cases hresult : hooks.visitor.pre node journal with
      | ok handled after =>
          rw [hresult] at hpre
          obtain ⟨rfl, hafter⟩ := hpre
          exact hafter
      | error stop after =>
          rw [hresult] at hpre
          exact ⟨hpre ▸ Nat.le_add_right start _, nofun⟩
    · exact fun _ => nofun
  leave node opened entered := by
    -- The visit hook leaves the depth alone; the level is given back by the post hook.
    have hvisit : Leads (fun journal => journal.state.depth = start + (opened.length + 1))
        (hooks.visitor.visit node)
        (fun _ journal => journal.state.depth = start + (opened.length + 1))
        fun journal => start ≤ journal.state.depth ∧ Phase.visit ≠ .post :=
      fun _ hdepth => hdepth
    have hpost : Leads (fun journal => journal.state.depth = start + (opened.length + 1))
        (hooks.visitor.post node) (fun _ journal => journal.state.depth = start + opened.length)
        fun journal => start ≤ journal.state.depth ∧ Phase.post ≠ .post :=
      fun _ hdepth => congrArg (· - 1) hdepth
    exact (leads_watched node _ hvisit fun _ => nofun).bind fun _ =>
      leads_watched node _ hpost fun _ _ => rfl

/-- In a dump no hook call brings the depth below where it began. -/
theorem staysAbove_of_mem_sightings (tree : Node Context) (printer : Printer) (log : Log)
    {sighting : Sighting Context Printer}
    (member : sighting ∈
      (memoryAfter (hooks.visitor.watched.walk tree ⟨⟨printer, []⟩, log⟩)).state.sightings) :
    sighting.StaysAbove printer.depth := by
  have hwalk := Visitor.Keeps.walk (fun opened => IsDeeper printer.depth opened.length)
    (fun watched => ∀ sighting ∈ watched.sightings, sighting.StaysAbove printer.depth)
    (keeps_isDeeper printer.depth) tree
  have hbegin : IsDeeper printer.depth 0 (⟨printer, []⟩ : Watched Context Printer) := {
    depth := rfl
    seen := by simp }
  have hafter := hwalk ⟨⟨printer, []⟩, log⟩ hbegin
  cases hresult : hooks.visitor.watched.walk tree ⟨⟨printer, []⟩, log⟩ with
  | ok answer journal =>
      rw [hresult] at hafter member
      exact hafter.seen sighting member
  | error stop journal =>
      rw [hresult] at hafter member
      exact hafter sighting member

/-! ## Where a dump stops -/

/-- The first of some occurrences that is not printed whole. -/
def halt? (indent : String) (depth : Nat) :
    List (Occurrence Context) → Sink → Option (Occurrence Context)
  | [], _ => none
  | occurrence :: rest, sink =>
      match printAt indent depth occurrence sink with
      | .ok () sink => halt? indent depth rest sink
      | .error _ _ => some occurrence

/-- A dump of some occurrences stops at a place and leaves a sink: the lines
before are stored and a part of the line there, which is none of it when the node
is malformed and lacks something when the sink refuses the rest. -/
def StopsAt (indent : String) (depth : Nat) (occurrences : List (Occurrence Context))
    (sink : Sink) (place : Occurrence Context) (stop : Stop OutputError) (after : Sink) : Prop :=
  ∃ earlier later part lacking, occurrences = earlier ++ place :: later ∧
    (line indent depth place).toUTF8 = part ++ lacking ∧
    after = sink.storing ((lines indent depth earlier).toUTF8 ++ part) ∧
    ((∃ defect, place.node.defect? = some defect ∧ stop = .malformed defect ∧
        part = ByteArray.empty) ∨
      (place.node.defect? = none ∧ stop = .failed (.write place.node.kind sink.refusal) ∧
        0 < lacking.size))

/-- A dump that goes on behind an occurrence stops where the rest of it does. -/
theorem StopsAt.cons {indent : String} {depth : Nat} {occurrence place : Occurrence Context}
    {rest : List (Occurrence Context)} {sink after : Sink} {stop : Stop OutputError}
    (hrest : StopsAt indent depth rest (sink.storing (line indent depth occurrence).toUTF8) place
      stop after) :
    StopsAt indent depth (occurrence :: rest) sink place stop after := by
  obtain ⟨earlier, later, part, lacking, rfl, hline, rfl, hstop⟩ := hrest
  refine ⟨occurrence :: earlier, later, part, lacking, rfl, hline, ?_, hstop⟩
  rw [toUTF8_lines_cons, Sink.storing_storing, ByteArray.append_assoc]

/-- What a stopped dump stores is a beginning of all the lines. -/
theorem StopsAt.stored_eq {indent : String} {depth : Nat} {occurrences : List (Occurrence Context)}
    {sink after : Sink} {place : Occurrence Context} {stop : Stop OutputError}
    (hstops : StopsAt indent depth occurrences sink place stop after) :
    ∃ written lacking, (lines indent depth occurrences).toUTF8 = written ++ lacking ∧
      after.stored = sink.stored ++ written := by
  obtain ⟨earlier, later, part, lacking, rfl, hline, rfl, -⟩ := hstops
  refine ⟨(lines indent depth earlier).toUTF8 ++ part,
    lacking ++ (lines indent depth later).toUTF8, ?_, rfl⟩
  have hlines : (lines indent depth (earlier ++ place :: later)).toUTF8 =
      (lines indent depth earlier).toUTF8 ++
        ((line indent depth place).toUTF8 ++ (lines indent depth later).toUTF8) := by
    simp [lines, String.join_append, String.join_cons]
  rw [hlines, hline]
  simp only [ByteArray.append_assoc]

/-- The line of an occurrence is stored whole, or the dump stops there. -/
theorem printAt_cases (indent : String) (depth : Nat) (occurrence : Occurrence Context)
    (rest : List (Occurrence Context)) (sink : Sink) :
    (occurrence.node.defect? = none ∧ printAt indent depth occurrence sink =
        .ok () (sink.storing (line indent depth occurrence).toUTF8)) ∨
      ∃ stop after, printAt indent depth occurrence sink =
          .error ⟨stop, depth + occurrence.depth⟩ after ∧
        StopsAt indent depth (occurrence :: rest) sink occurrence stop after := by
  cases hdefect : occurrence.node.defect? with
  | some defect =>
      right
      refine ⟨.malformed defect, sink, printAt_of_malformed hdefect sink, [], rest,
        ByteArray.empty, (line indent depth occurrence).toUTF8, rfl, by simp, by simp, ?_⟩
      exact Or.inl ⟨defect, hdefect, rfl, rfl⟩
  | none =>
      have hprint : printAt indent depth occurrence sink = _ := printAt_of_shaped hdefect sink
      by_cases hfits : sink.Fits (line indent depth occurrence).toUTF8.size
      · left
        rw [Sink.writeText, Sink.write_of_fits hfits] at hprint
        exact ⟨rfl, hprint⟩
      · right
        obtain ⟨room, hroom, hfull⟩ := Sink.not_fits_iff.mp hfits
        rw [Sink.writeText, Sink.write_of_full hroom hfull] at hprint
        have hsplit := ByteArray.extract_eq_extract_append_extract
          (a := (line indent depth occurrence).toUTF8) room (Nat.zero_le room) hfull.le
        rw [ByteArray.extract_zero_size] at hsplit
        refine ⟨_, _, hprint, [], rest, _, _, rfl, hsplit, by simp, Or.inr ⟨hdefect, rfl, ?_⟩⟩
        rw [ByteArray.size_extract]
        omega

/-- Printing occurrences stores all their lines, or stops at the first one that
is not printed whole. -/
theorem forM_printAt_cases (indent : String) (depth : Nat)
    (occurrences : List (Occurrence Context)) (sink : Sink) :
    (halt? indent depth occurrences sink = none ∧
        (∀ occurrence ∈ occurrences, occurrence.node.defect? = none) ∧
        forM occurrences (printAt indent depth) sink =
          .ok () (sink.storing (lines indent depth occurrences).toUTF8)) ∨
      ∃ place stop after, halt? indent depth occurrences sink = some place ∧
        StopsAt indent depth occurrences sink place stop after ∧
        forM occurrences (printAt indent depth) sink =
          .error ⟨stop, depth + place.depth⟩ after := by
  -- What follows a line is printed into the sink that has the line already.
  induction occurrences generalizing sink with
  | nil => simp [halt?, pure, EStateM.pure]
  | cons occurrence rest ih =>
      rw [halt?, List.forM_cons]
      simp only [bind, EStateM.bind]
      rcases printAt_cases indent depth occurrence rest sink with
        ⟨hdefect, hprint⟩ | ⟨stop, after, hprint, hstops⟩
      · rw [hprint]
        rcases ih (sink.storing (line indent depth occurrence).toUTF8) with
          ⟨hhalt, sound, hforM⟩ | ⟨place, stop, after, hhalt, hstops, hforM⟩
        · refine Or.inl ⟨hhalt, List.forall_mem_cons.mpr ⟨hdefect, sound⟩, ?_⟩
          rw [toUTF8_lines_cons, ← Sink.storing_storing]
          exact hforM
        · exact Or.inr ⟨place, stop, after, hhalt, hstops.cons, hforM⟩
      · rw [hprint]
        exact Or.inr ⟨occurrence, stop, after, rfl, hstops, rfl⟩

/-! ## One dump after the other -/

def take (job : Job Context) : Action Printer OutputError Unit := do
  limitTo job.limit?
  dispatch job.tree

/-- The printer after some jobs, whether they ended well or not. -/
def afterJobs (jobs : List (Job Context)) (journal : Journal Printer) : Journal Printer :=
  jobs.foldl (fun journal job => memoryAfter (take job journal)) journal

@[simp]
theorem afterJobs_cons (job : Job Context) (later : List (Job Context))
    (journal : Journal Printer) :
    afterJobs (job :: later) journal = afterJobs later (memoryAfter (take job journal)) := rfl

def stop? (job : Job Context) (printer : Printer) : Option (Occurrence Context) :=
  halt? printer.indent printer.depth job.tree.occurrences (printer.sink.limitTo job.limit?)

/-- The places that stop some jobs, one for each that does not end well. -/
def stops : List (Job Context) → Journal Printer → List (Occurrence Context)
  | [], _ => []
  | job :: later, journal =>
      (stop? job journal.state).toList ++ stops later (memoryAfter (take job journal))

/-- What the dump of a tree stores with a new printer that has room for it. -/
def printedAlone (indent : String) (tree : Node Context) : ByteArray :=
  (memoryAfter (dispatch tree (create Sink.unlimited indent #[]))).state.sink.stored

/-- A job dumps the whole of its tree at the depth that the printer has, or it is
stopped at a place and leaves the printer at the depth of that. -/
theorem take_cases (job : Job Context) (journal : Journal Printer) :
    (∃ log, stop? job journal.state = none ∧
        (∀ occurrence ∈ job.tree.occurrences, occurrence.node.defect? = none) ∧
        take job journal = .ok ()
          ⟨⟨(journal.state.sink.limitTo job.limit?).storing
            (lines journal.state.indent journal.state.depth job.tree.occurrences).toUTF8,
            journal.state.depth, journal.state.indent⟩, log⟩) ∨
      ∃ place stop after log, stop? job journal.state = some place ∧
        StopsAt journal.state.indent journal.state.depth job.tree.occurrences
          (journal.state.sink.limitTo job.limit?) place stop after ∧
        take job journal = .error stop
          ⟨⟨after, journal.state.depth + place.depth, journal.state.indent⟩, log⟩ := by
  obtain ⟨⟨sink, depth, indent⟩, log⟩ := journal
  have htake : take job ⟨⟨sink, depth, indent⟩, log⟩ =
      dispatch job.tree ⟨⟨sink.limitTo job.limit?, depth, indent⟩, log⟩ := rfl
  rw [htake, dispatch_eq]
  rcases forM_printAt_cases indent depth job.tree.occurrences (sink.limitTo job.limit?) with
    ⟨hhalt, sound, hforM⟩ | ⟨place, stop, after, hhalt, hstops, hforM⟩
  · rw [hforM]
    exact Or.inl ⟨_, hhalt, sound, rfl⟩
  · rw [hforM]
    exact Or.inr ⟨place, stop, after, _, hhalt, hstops, rfl⟩

/-- A job keeps the indent, and when it is stopped, the ancestors of the place
stay open. -/
theorem state_take (job : Job Context) (journal : Journal Printer) :
    ∃ sink, (memoryAfter (take job journal)).state =
      { journal.state with
        sink
        depth := journal.state.depth + (stop? job journal.state).elim 0 Occurrence.depth } := by
  rcases take_cases job journal with
    ⟨log, hstop, -, htake⟩ | ⟨place, stop, after, log, hstop, -, htake⟩
  · rw [hstop, htake]
    exact ⟨_, rfl⟩
  · rw [hstop, htake]
    exact ⟨after, rfl⟩

/-- Jobs keep the indent, and the depth grows by what stopped jobs leave open. -/
theorem state_afterJobs (jobs : List (Job Context)) (journal : Journal Printer) :
    ∃ sink, (afterJobs jobs journal).state =
      { journal.state with
        sink
        depth := journal.state.depth +
          (stops jobs journal).foldr (fun place total => place.depth + total) 0 } := by
  induction jobs generalizing journal with
  | nil => exact ⟨journal.state.sink, rfl⟩
  | cons job later ih =>
      obtain ⟨between, htake⟩ := state_take job journal
      obtain ⟨sink, hlater⟩ := ih (memoryAfter (take job journal))
      refine ⟨sink, ?_⟩
      rw [afterJobs_cons, hlater, htake, stops]
      cases stop? job journal.state with
      | none => rfl
      | some place => simp [Nat.add_assoc]

theorem printedAlone_eq {tree : Node Context}
    (sound : ∀ occurrence ∈ tree.occurrences, occurrence.node.defect? = none) (indent : String) :
    printedAlone indent tree = (lines indent 0 tree.occurrences).toUTF8 := by
  rw [printedAlone, create, dispatch_eq,
    forM_printAt_of_fits sound (Sink.fits_of_unlimited rfl _)]
  exact ByteArray.empty_append

/-- Jobs that all end well store what is printed alone, if no node was open. -/
theorem stored_afterJobs {jobs : List (Job Context)} {journal : Journal Printer}
    (hdepth : journal.state.depth = 0) (hstops : stops jobs journal = []) :
    (afterJobs jobs journal).state.sink.stored = journal.state.sink.stored ++
      jobs.foldr (fun job bytes => printedAlone journal.state.indent job.tree ++ bytes)
        ByteArray.empty := by
  induction jobs generalizing journal with
  | nil => simp [afterJobs]
  | cons job later ih =>
      obtain ⟨hnone, hlater⟩ := List.append_eq_nil_iff.mp hstops
      obtain ⟨log, -, sound, htake⟩ := (take_cases job journal).resolve_right (by
        rintro ⟨place, stop, after, log, hstop, -⟩
        simp [hstop] at hnone)
      have hbetween : (memoryAfter (take job journal)).state.depth = 0 := by
        rw [htake]
        exact hdepth
      rw [afterJobs_cons, ih hbetween hlater, htake, List.foldr_cons, printedAlone_eq sound,
        ← ByteArray.append_assoc, ← hdepth]
      rfl

/-- Every line of a dump that began deeper has so many more indents. -/
theorem line_eq_indented (indent : String) (depth : Nat) (occurrence : Occurrence Context) :
    line indent depth occurrence =
      String.join (List.replicate depth indent) ++ line indent 0 occurrence := by
  rw [line, line, Nat.zero_add, ← List.replicate_append_replicate, String.join_append,
    String.append_assoc]

/-- The life of a printer up to any of its dumps.  The depth that a dump begins
with is the number of nodes left open by the dumps before: for each of them that
was stopped, the ancestors of the place that stopped it.  During the dump the
depth is never below this, so post hooks always have a level to come back from.
The dump writes a beginning of the lines of its tree, each with so many more
indents.  It writes all of them and comes to its end, or it is stopped at a place
whose line it does not write whole.  As long as no dump has been stopped, the
sink has what the trees give when each is printed alone. -/
theorem life_outcome (sink : Sink) (indent : String) (log : Log) (past : List (Job Context))
    (job : Job Context) :
    let born := create sink indent log
    let reached := afterJobs past born
    let start := reached.state.depth
    let given := reached.state.sink.limitTo job.limit?
    let text := (lines indent start job.tree.occurrences).toUTF8
    let watched := hooks.visitor.watched.walk job.tree ⟨⟨⟨given, start, indent⟩, []⟩, reached.log⟩
    start = (stops past born).foldr (fun place total => place.depth + total) 0 ∧
      mapState Journal.unwatched watched = take job reached ∧
      (∀ sighting ∈ (memoryAfter watched).state.sightings, sighting.StaysAbove start) ∧
      (∀ occurrence : Occurrence Context, line indent start occurrence =
        String.join (List.replicate start indent) ++ line indent 0 occurrence) ∧
      (∃ written lacking, text = written ++ lacking ∧
        (memoryAfter (take job reached)).state.sink.stored =
          reached.state.sink.stored ++ written) ∧
      ((∃ log, stop? job reached.state = none ∧
          take job reached = .ok () ⟨⟨given.storing text, start, indent⟩, log⟩) ∨
        ∃ place stop after log, stop? job reached.state = some place ∧
          StopsAt indent start job.tree.occurrences given place stop after ∧
          take job reached = .error stop ⟨⟨after, start + place.depth, indent⟩, log⟩) ∧
      (stops past born = [] → reached.state.sink.stored = sink.stored ++
        past.foldr (fun job bytes => printedAlone indent job.tree ++ bytes) ByteArray.empty) := by
  intro born reached start given text watched
  obtain ⟨between, hreached⟩ := state_afterJobs past born
  have hindent : reached.state.indent = indent := congrArg Printer.indent hreached
  have hstart : start = (stops past born).foldr (fun place total => place.depth + total) 0 :=
    (congrArg Printer.depth hreached).trans (Nat.zero_add _)
  have hborn : born.state.depth = 0 := rfl
  have htake : take job reached =
      dispatch job.tree ⟨⟨given, start, indent⟩, reached.log⟩ := by
    rw [← hindent]
    rfl
  have hcases := take_cases job reached
  rw [hindent] at hcases
  refine ⟨hstart, ?_, ?_, line_eq_indented indent start, ?_, ?_, stored_afterJobs hborn⟩
  · exact (hooks.visitor.walk_watched_follows job.tree _).trans htake.symm
  · exact fun _ member =>
      staysAbove_of_mem_sightings job.tree ⟨given, start, indent⟩ reached.log member
  · rcases hcases with ⟨log, -, -, htake⟩ | ⟨place, stop, after, log, -, hstops, htake⟩
    · rw [htake]
      exact ⟨text, ByteArray.empty, ByteArray.append_empty.symm, rfl⟩
    · rw [htake]
      exact hstops.stored_eq
  · rcases hcases with ⟨log, hstop, -, htake⟩ | hstopped
    · exact Or.inl ⟨log, hstop, htake⟩
    · exact Or.inr hstopped

end Printer

end CoolTree
