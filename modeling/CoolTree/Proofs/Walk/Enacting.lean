import CoolTree.Proofs.Walk.Observation
import CoolTree.Proofs.Walk.Schedule
import CoolTree.Proofs.Walk.Watching

/-!
# Walks that enact their schedule

A visitor that never handles a node leaves nothing of the schedule out: its walk
enacts the moments of the schedule one after the other, until a hook stops it or
a malformed node is to be entered.  So an assertion about the calls made so far
and the state of the visitor that every call keeps holds at every moment of the
walk.
-/

namespace CoolTree

variable {Context State Failure Memory Answer : Type}

namespace Visitor

def Unhandling (visitor : Visitor Context (EStateM (Stop Failure) Memory)) : Prop :=
  ∀ node memory next, visitor.pre node memory ≠ .ok true next

/-- What a walk does at a moment of its schedule: it calls the hook, and before a
pre hook it checks the shape of the node. -/
def enact (visitor : Visitor Context (EStateM (Stop Failure) Memory)) (moment : Moment Context) :
    EStateM (Stop Failure) Memory Unit :=
  match moment.phase with
  | .pre =>
      match moment.occurrence.node.defect? with
      | some defect => throw (.malformed defect)
      | none => do
          let _ ← visitor.pre moment.occurrence.node
          return
  | .visit => visitor.visit moment.occurrence.node
  | .post => visitor.post moment.occurrence.node

section Enacting

variable {visitor : Visitor Context (EStateM (Stop Failure) Memory)}

theorem enact_under (visitor : Visitor Context (EStateM (Stop Failure) Memory)) (position : Nat)
    (moment : Moment Context) : visitor.enact (moment.under position) = visitor.enact moment := rfl

theorem enact_pre {place : Occurrence Context} (hdefect : place.node.defect? = none) :
    visitor.enact ⟨.pre, place⟩ = (do let _ ← visitor.pre place.node; return) := by
  simp only [enact, hdefect]

theorem enact_of_malformed {place : Occurrence Context} {defect : Defect}
    (hdefect : place.node.defect? = some defect) :
    visitor.enact ⟨.pre, place⟩ = throw (.malformed defect) := by
  simp only [enact, hdefect]

theorem descendAll_eq_forM {children : List (Node Context)}
    (each : ∀ child ∈ children, ∀ entered,
      visitor.descend child entered = (do
        forM child.schedule visitor.enact
        return entered + child.size))
    (start entered : Nat) :
    visitor.descendAll children entered = (do
      forM (Node.scheduleFrom start children) visitor.enact
      return entered + Node.totalSize children) := by
  induction children generalizing start entered with
  | nil =>
      rw [descendAll, Node.scheduleFrom]
      rfl
  | cons child rest ih =>
      rw [descendAll, Node.scheduleFrom, List.forM_append, List.forM_map,
        each child List.mem_cons_self, Node.totalSize_cons]
      simp only [bind_assoc, pure_bind, enact_under, ← Nat.add_assoc]
      apply bind_congr
      intro _
      exact ih (fun other member => each other (List.mem_cons_of_mem child member)) _ _

/-- A visitor that handles no node enacts the schedule of the tree. -/
theorem descend_eq_forM (hunhandling : visitor.Unhandling) (node : Node Context)
    (entered : Nat) :
    visitor.descend node entered = (do
      forM node.schedule visitor.enact
      return entered + node.size) := by
  induction node using Node.induction generalizing entered with
  | step node ih =>
      funext memory
      rw [Node.schedule, List.forM_cons, List.forM_append, node.size_eq, ← Nat.add_assoc]
      cases hdefect : node.defect? with
      | some defect =>
          rw [descend_of_malformed hdefect, enact_of_malformed hdefect]
          rfl
      | none =>
          cases hpre : visitor.pre node memory with
          | error stop next =>
              rw [descend_of_stopped hdefect hpre, enact_pre hdefect]
              simp only [bind, EStateM.bind, hpre]
          | ok handled next =>
              cases handled with
              | true => exact absurd hpre (hunhandling node memory next)
              | false =>
                  have hentered : ∀ rest : EStateM (Stop Failure) Memory Nat,
                      (do visitor.enact ⟨.pre, ⟨[], node⟩⟩; rest) memory = rest next := by
                    intro rest
                    rw [enact_pre hdefect]
                    simp only [bind, EStateM.bind, hpre]
                    rfl
                  have hlast : forM [⟨.visit, ⟨[], node⟩⟩, ⟨.post, ⟨[], node⟩⟩] visitor.enact =
                      (do visitor.visit node; visitor.post node) := by
                    simp [enact]
                  rw [descend_of_entered hdefect hpre, descendAll_eq_forM ih 0]
                  simp only [bind_assoc, pure_bind, hlast, hentered]

/-! ## Assertions that every call keeps -/

/-- The calls that a walk has made when it ends: the whole schedule if it ended
well, or else those before a malformed node was to be entered. -/
def HasMade (root : Node Context) (made : List (Moment Context)) :
    EStateM.Result (Stop Failure) Memory Answer → Prop
  | .ok _ _ => made = root.schedule
  | .error stop _ => ∃ place later defect, root.schedule = made ++ ⟨.pre, place⟩ :: later ∧
      place.node.defect? = some defect ∧ stop = .malformed defect

/-- The calls made are the beginning of the schedule. -/
theorem HasMade.exists_rest {root : Node Context} {made : List (Moment Context)}
    {result : EStateM.Result (Stop Failure) Memory Answer} (hmade : HasMade root made result) :
    ∃ rest, root.schedule = made ++ rest := by
  cases result with
  | ok answer memory => exact ⟨[], by rw [List.append_nil, hmade]⟩
  | error stop memory =>
      obtain ⟨place, later, defect, hsplit, -⟩ := hmade
      exact ⟨_, hsplit⟩

theorem HasMade.eq_schedule {root : Node Context} {made : List (Moment Context)}
    {result : EStateM.Result (Stop Failure) Memory Answer} {answer : Answer}
    (hmade : HasMade root made result) (hended : outcome result = .ok answer) :
    made = root.schedule := by
  cases result with
  | ok answer memory => exact hmade
  | error stop memory => cases hended

/-- Every call of the schedule that no defect prevents comes to its end and keeps
an assertion about the calls made so far. -/
def Enacts (visitor : Visitor Context (EStateM (Stop Failure) Memory)) (root : Node Context)
    (inside : List (Moment Context) → Memory → Prop) : Prop :=
  ∀ past moment later memory, root.schedule = past ++ moment :: later → inside past memory →
    (moment.phase = .pre → moment.occurrence.node.defect? = none) →
      ∃ next, visitor.enact moment memory = .ok () next ∧ inside (past ++ [moment]) next

theorem Enacts.forM {root : Node Context} {inside : List (Moment Context) → Memory → Prop}
    (enacts : visitor.Enacts root inside) {past later : List (Moment Context)} {memory : Memory}
    (hsplit : root.schedule = past ++ later) (holds : inside past memory) :
    ∃ made, HasMade root made (forM later visitor.enact memory) ∧
      inside made (memoryAfter (forM later visitor.enact memory)) := by
  induction later generalizing past memory with
  | nil =>
      rw [List.append_nil] at hsplit
      exact ⟨past, hsplit.symm, holds⟩
  | cons moment later ih =>
      rw [List.forM_cons]
      simp only [bind, EStateM.bind]
      by_cases hright : moment.phase = .pre → moment.occurrence.node.defect? = none
      · obtain ⟨next, henact, hnext⟩ := enacts past moment later memory hsplit holds hright
        rw [henact]
        exact ih (by rw [hsplit, List.append_cons]) hnext
      · -- The walk stops before this moment, which has not been enacted then.
        obtain ⟨phase, place⟩ := moment
        obtain ⟨rfl, hdefect⟩ := Classical.not_imp.mp hright
        obtain ⟨defect, hdefect⟩ := Option.ne_none_iff_exists'.mp hdefect
        rw [enact_of_malformed hdefect]
        exact ⟨past, ⟨place, later, defect, hsplit, hdefect, rfl⟩, holds⟩

end Enacting

variable {visitor : Visitor Context (Action State Failure)} {root : Node Context}

theorem Unhandling.noting_eq (hunhandling : visitor.Unhandling) : visitor.noting = visitor := by
  have hpre : visitor.noting.pre = visitor.pre := by
    funext node memory
    simp only [noting, bind, EStateM.bind]
    cases hpre : visitor.pre node memory with
    | error stop next => rfl
    | ok handled next =>
        cases handled with
        | true => exact absurd hpre (hunhandling node memory next)
        | false => rfl
  calc
    visitor.noting = { visitor with pre := visitor.noting.pre } := rfl
    _ = visitor := by rw [hpre]

/-- What holds at the start of a walk and is kept by every call holds in the end. -/
theorem Enacts.walk {inside : List (Moment Context) → State → Prop}
    (enacts : visitor.Enacts root fun past journal => inside past journal.state)
    (hunhandling : visitor.Unhandling) {state : State} (hstart : inside [] state) (log : Log) :
    ∃ made, HasMade root made (visitor.walk root ⟨state, log⟩) ∧
      inside made (memoryAfter (visitor.walk root ⟨state, log⟩)).state := by
  set start : Journal State := ⟨state, log.push (.walking root.kind)⟩
  have hinside : inside [] start.state := hstart
  obtain ⟨made, hmade, holds⟩ := enacts.forM rfl hinside
  refine ⟨made, ?_⟩
  rw [walk_eq_walkRecursively, walkRecursively, hunhandling.noting_eq,
    descend_eq_forM hunhandling]
  simp only [bind, EStateM.bind, Action.note]
  cases hresult : (ForM.forM root.schedule visitor.enact : Action State Failure Unit) start with
  | ok answer next =>
      rw [hresult] at hmade holds
      exact ⟨hmade, holds⟩
  | error stop next =>
      rw [hresult] at hmade holds
      exact ⟨hmade, holds⟩

end Visitor

/-! ## Watching a schedule -/

/-- A visitor has been seen at every call made so far, and an assertion has held
before and after each of them. -/
structure Watched.Shows (inside : List (Moment Context) → State → Prop)
    (made : List (Moment Context)) (watched : Watched Context State) : Prop where
  state : inside made watched.state
  length : watched.sightings.length = made.length
  sighting : ∀ past moment later, made = past ++ moment :: later →
    ∃ before after, inside past before ∧ inside (past ++ [moment]) after ∧
      watched.sightings[past.length]? =
        some ⟨moment.phase, moment.occurrence.node, before, after⟩

theorem Watched.Shows.nil {inside : List (Moment Context) → State → Prop} {state : State}
    (holds : inside [] state) :
    Watched.Shows inside [] (⟨state, []⟩ : Watched Context State) where
  state := holds
  length := rfl
  sighting := by simp

theorem Watched.Shows.concat {inside : List (Moment Context) → State → Prop}
    {past : List (Moment Context)} {watched : Watched Context State}
    (shows : Watched.Shows inside past watched) {moment : Moment Context} {after : State}
    (holds : inside (past ++ [moment]) after) :
    Watched.Shows inside (past ++ [moment]) ⟨after, watched.sightings ++
      [⟨moment.phase, moment.occurrence.node, watched.state, after⟩]⟩ where
  state := holds
  length := by simp [shows.length]
  sighting := by
    intro earlier call later hsplit
    rcases List.eq_nil_or_concat' later with rfl | ⟨rest, last, rfl⟩
    · obtain ⟨rfl, hlast⟩ := List.append_inj' hsplit rfl
      obtain rfl := List.singleton_inj.mp hlast
      refine ⟨watched.state, after, shows.state, holds, ?_⟩
      rw [← shows.length]
      simp
    · rw [← List.cons_append, ← List.append_assoc] at hsplit
      obtain ⟨hpast, -⟩ := List.append_inj' hsplit rfl
      obtain ⟨before, after, hbefore, hafter, hseen⟩ := shows.sighting earlier call rest hpast
      refine ⟨before, after, hbefore, hafter, ?_⟩
      rw [List.getElem?_append_left (List.getElem?_eq_some_iff.mp hseen).1, hseen]

namespace Visitor

variable {visitor : Visitor Context (Action State Failure)} {root : Node Context}

theorem Unhandling.watched (hunhandling : visitor.Unhandling) : visitor.watched.Unhandling := by
  intro node journal next hpre
  simp only [Visitor.watched, Action.watched] at hpre
  cases hresult : visitor.pre node journal.unwatched with
  | error stop after =>
      rw [hresult] at hpre
      cases hpre
  | ok handled after =>
      rw [hresult] at hpre
      cases hpre
      exact hunhandling node _ _ hresult

theorem enact_watched (visitor : Visitor Context (Action State Failure))
    {moment : Moment Context} {journal : Journal (Watched Context State)} {next : Journal State}
    (henact : visitor.enact moment journal.unwatched = .ok () next) :
    visitor.watched.enact moment journal =
      .ok () (journal.seeing moment.phase moment.occurrence.node next) := by
  obtain ⟨phase, place⟩ := moment
  cases phase with
  | pre =>
      cases hdefect : place.node.defect? with
      | some defect =>
          rw [enact_of_malformed hdefect] at henact
          cases henact
      | none =>
          rw [enact_pre hdefect] at henact ⊢
          simp only [Visitor.watched, bind, EStateM.bind, Action.watched] at henact ⊢
          cases hpre : visitor.pre place.node journal.unwatched with
          | error stop after =>
              rw [hpre] at henact
              cases henact
          | ok handled after =>
              rw [hpre] at henact
              cases henact
              rfl
  | visit =>
      simp only [enact, Visitor.watched, Action.watched] at henact ⊢
      rw [henact]
      rfl
  | post =>
      simp only [enact, Visitor.watched, Action.watched] at henact ⊢
      rw [henact]
      rfl

theorem Enacts.watched {inside : List (Moment Context) → State → Prop}
    (enacts : visitor.Enacts root fun past journal => inside past journal.state) :
    visitor.watched.Enacts root fun past journal => Watched.Shows inside past journal.state := by
  intro past moment later journal hsplit shows hright
  obtain ⟨next, henact, holds⟩ :=
    enacts past moment later journal.unwatched hsplit shows.state hright
  exact ⟨_, enact_watched visitor henact, shows.concat holds⟩

end Visitor

end CoolTree
