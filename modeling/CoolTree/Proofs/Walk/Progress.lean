import CoolTree.Proofs.Walk.Schedule

/-!
# Progress through a schedule

At every moment some of the places of a tree are open: they have been entered and not
yet left.  These are the places above the moment, whose paths are the proper prefixes
of its rank, so they lie on the way from the root to the place of the moment.  Of the
children of an open place those have been entered that stand before the next position
on this way.
-/

namespace CoolTree

variable {Context : Type}

/-! ## What lies before a moment -/

theorem lt_of_prefix_of_ne {path rank : List Nat} (hbelow : path <+: rank)
    (hne : path ≠ rank) : path < rank := by
  obtain ⟨tail, rfl⟩ := hbelow
  cases tail with
  | nil => exact absurd (List.append_nil path).symm hne
  | cons position tail =>
      have hless : path ++ [] < path ++ position :: tail :=
        List.append_left_lt (List.nil_lt_cons position tail)
      rwa [List.append_nil] at hless

/-- One position behind a path, the proper prefixes are the prefixes of the path. -/
theorem properPrefix_concat_iff {prior path : List Nat} {position : Nat} :
    (prior <+: path ++ [position] ∧ prior ≠ path ++ [position]) ↔ prior <+: path := by
  rw [List.prefix_concat_iff]
  constructor
  · rintro ⟨heq | hbelow, hne⟩
    · exact absurd heq hne
    · exact hbelow
  · intro hbelow
    refine ⟨Or.inr hbelow, ?_⟩
    rintro rfl
    have hlength := hbelow.length_le
    rw [List.length_append, List.length_singleton] at hlength
    omega

/-- The last call at a place comes behind all others at the place and below it. -/
theorem not_post_lt_rank {root : Node Context} {place : Occurrence Context}
    {moment : Moment Context} (hplace : place ∈ root.occurrences)
    (hmoment : moment.occurrence ∈ root.occurrences) (hbelow : place.path <+: moment.rank)
    (hne : place.path ≠ moment.rank) :
    ¬ place.path ++ [place.node.children.length + 1] < moment.rank := by
  by_cases hphase : moment.phase = .pre
  · obtain ⟨phase, reached⟩ := moment
    obtain rfl : phase = .pre := hphase
    rw [Moment.rank_pre] at hbelow ⊢
    rw [← List.append_nil reached.path]
    exact not_lt_of_below hplace hmoment hbelow (Nat.le_succ _) fun _ => List.not_lt_nil _
  · obtain ⟨position, -, hposition, hrank⟩ := Moment.exists_rank_eq hphase
    rw [hrank] at hbelow hne ⊢
    apply not_lt_of_below hplace hmoment (properPrefix_concat_iff.mp ⟨hbelow, hne⟩) (Nat.le_succ _)
    intro hpath
    obtain rfl := List.inj_on_of_nodup_map root.nodup_paths hmoment hplace hpath
    simpa [List.cons_lt_cons_iff] using hposition

def hasPassed (past : List (Moment Context)) (phase : Phase) (path : List Nat) : Bool :=
  past.any fun moment => moment.phase = phase ∧ moment.occurrence.path = path

section Before

variable {root : Node Context} {past later : List (Moment Context)} {moment : Moment Context}

theorem mem_schedule_of_split (hsplit : root.schedule = past ++ moment :: later) :
    moment ∈ root.schedule := by
  rw [hsplit]
  exact List.mem_append_right past List.mem_cons_self

/-- A place of the tree has passed a call before a moment, if this call is of
smaller rank. -/
theorem hasPassed_iff (hsplit : root.schedule = past ++ moment :: later)
    {place : Occurrence Context} (member : place ∈ root.occurrences) (phase : Phase) :
    hasPassed past phase place.path = true ↔ (Moment.mk phase place).rank < moment.rank := by
  have hpast := mem_before_iff (hsplit ▸ root.pairwise_rank_schedule)
    (hsplit ▸ (root.mem_schedule ⟨phase, place⟩).mpr member)
  rw [← hpast, hasPassed, List.any_eq_true]
  constructor
  · rintro ⟨other, hother, hcall⟩
    obtain ⟨rfl, hpath⟩ := of_decide_eq_true hcall
    have hplace : other.occurrence ∈ root.occurrences := by
      rw [← root.mem_schedule, hsplit]
      exact List.mem_append_left _ hother
    rw [← List.inj_on_of_nodup_map root.nodup_paths hplace member hpath]
    exact hother
  · intro hcall
    exact ⟨_, hcall, decide_eq_true ⟨rfl, rfl⟩⟩

/-- The places entered and not left before a moment are those above it. -/
theorem isOpen_iff (hsplit : root.schedule = past ++ moment :: later)
    {place : Occurrence Context} (member : place ∈ root.occurrences) :
    (hasPassed past .pre place.path = true ∧ ¬ hasPassed past .post place.path = true) ↔
      place.path <+: moment.rank ∧ place.path ≠ moment.rank := by
  rw [hasPassed_iff hsplit member, hasPassed_iff hsplit member, Moment.rank_pre, Moment.rank_post]
  constructor
  · rintro ⟨hentered, hleft⟩
    refine ⟨?_, fun heq => List.lt_irrefl moment.rank (heq ▸ hentered)⟩
    by_contra hapart
    exact hleft (append_lt_of_apart hentered hapart _)
  · rintro ⟨hbelow, hne⟩
    have hmoment := (root.mem_schedule moment).mp (mem_schedule_of_split hsplit)
    exact ⟨lt_of_prefix_of_ne hbelow hne, not_post_lt_rank member hmoment hbelow hne⟩

/-- Of the children of a place above a moment, those have been entered that stand
before the next position on the way to it. -/
theorem hasPassed_child_iff (hsplit : root.schedule = past ++ moment :: later)
    {place : Occurrence Context} (member : place ∈ root.occurrences) {position : Nat}
    (hrank : moment.rank = place.path ++ [position]) {index : Nat} {child : Node Context}
    (hchild : place.node.children[index]? = some child) :
    hasPassed past .pre (place.path ++ [index]) = true ↔ index < position := by
  have hless := hasPassed_iff hsplit (Node.child_mem_occurrences member hchild) .pre
  rw [hless, Moment.rank_pre, hrank, append_lt_append_left_iff]
  simp [List.cons_lt_cons_iff]

/-- Before a place is entered, none of its children has been. -/
theorem not_hasPassed_child {place : Occurrence Context}
    (hsplit : root.schedule = past ++ ⟨.pre, place⟩ :: later) {index : Nat}
    {child : Node Context} (hchild : place.node.children[index]? = some child) :
    ¬ hasPassed past .pre (place.path ++ [index]) = true := by
  have member := (root.mem_schedule _).mp (mem_schedule_of_split hsplit)
  rw [hasPassed_iff hsplit (Node.child_mem_occurrences member hchild), Moment.rank_pre,
    Moment.rank_pre]
  exact (List.prefix_append place.path [index]).le

theorem hasPassed_concat (past : List (Moment Context)) (moment : Moment Context) (phase : Phase)
    (path : List Nat) :
    hasPassed (past ++ [moment]) phase path = true ↔
      hasPassed past phase path = true ∨
        moment.phase = phase ∧ moment.occurrence.path = path := by
  simp [hasPassed]

end Before

/-! ## Preorder numbers -/

namespace Node

/-- A place has as its number how many places have been entered before it. -/
theorem getElem?_occurrences_of_split {root : Node Context} {past later : List (Moment Context)}
    {place : Occurrence Context} (hsplit : root.schedule = past ++ ⟨.pre, place⟩ :: later) :
    root.occurrences[past.countP fun moment => moment.phase = .pre]? = some place := by
  rw [← filter_pre_schedule, hsplit, List.filter_append, List.map_append,
    List.filter_cons_of_pos (by rfl), List.map_cons, List.countP_eq_length_filter,
    ← List.length_map Moment.occurrence, List.getElem?_append_right le_rfl, Nat.sub_self]
  rfl

/-! ## The places above a rank -/

/-- The places whose paths are proper prefixes of a rank, with their numbers. -/
def placesAbove (root : Node Context) (rank : List Nat) : List (Occurrence Context × Nat) :=
  root.occurrences.zipIdx.filter fun entry => entry.1.path <+: rank ∧ entry.1.path ≠ rank

theorem placesAbove_nil (root : Node Context) : root.placesAbove [] = [] := by
  rw [placesAbove, List.filter_eq_nil_iff]
  simp

/-- A place is the last one above what lies below it. -/
theorem placesAbove_concat {root : Node Context} {place : Occurrence Context} {number : Nat}
    (hplace : root.occurrences[number]? = some place) (position : Nat) :
    root.placesAbove (place.path ++ [position]) =
      root.placesAbove place.path ++ [(place, number)] := by
  obtain ⟨hnumber, hget⟩ := List.getElem?_eq_some_iff.mp hplace
  obtain ⟨before, after, hsplit, rfl⟩ : ∃ before after,
      root.occurrences = before ++ place :: after ∧ before.length = number := by
    refine ⟨root.occurrences.take number, root.occurrences.drop (number + 1), ?_, ?_⟩
    · rw [← hget, List.getElem_cons_drop, List.take_append_drop]
    · exact List.length_take_of_le hnumber.le
  have hsorted := root.pairwise_path_occurrences
  rw [hsplit, List.pairwise_append, List.pairwise_cons] at hsorted
  obtain ⟨-, ⟨hafter, -⟩, hbefore⟩ := hsorted
  have hbehind : ∀ keep : Occurrence Context × Nat → Bool,
      (∀ entry, keep entry → entry.1.path <+: place.path) →
        (after.zipIdx (0 + before.length + 1)).filter keep = [] := by
    intro keep hkeep
    apply List.filter_eq_nil_iff.mpr
    intro entry member hkept
    exact (hkeep entry hkept).le (hafter entry.1 (List.fst_mem_of_mem_zipIdx member))
  have hahead : ∀ entry ∈ before.zipIdx, entry.1.path ≠ place.path := by
    intro entry member heq
    have hless := hbefore entry.1 (List.fst_mem_of_mem_zipIdx member) place List.mem_cons_self
    exact List.lt_irrefl place.path (heq ▸ hless)
  simp only [placesAbove, properPrefix_concat_iff, hsplit]
  rw [List.zipIdx_append, List.zipIdx_cons, List.filter_append, List.filter_append,
    List.filter_cons_of_pos (by simp), List.filter_cons_of_neg (by simp),
    hbehind _ (by simp), hbehind _ (by simp +contextual), List.append_nil, Nat.zero_add]
  congr 1
  apply List.filter_congr
  intro entry member
  simp [hahead entry member]

/-- The places above a path are those on the way to it, from the root on. -/
theorem map_path_placesAbove {root node : Node Context} {path : List Nat}
    (member : ⟨path, node⟩ ∈ root.occurrences) :
    (root.placesAbove path).map (fun entry => entry.1.path) ++ [path] = path.inits := by
  induction path using List.reverseRecOn generalizing node with
  | nil => simp [placesAbove_nil]
  | append_singleton path position ih =>
      obtain ⟨parent, hparent, -⟩ := exists_parent member
      obtain ⟨number, hnumber⟩ := List.mem_iff_getElem?.mp hparent
      rw [placesAbove_concat hnumber, List.map_append, List.map_singleton, ih hparent,
        List.inits_append]
      simp

/-! ## The open places -/

/-- The places entered and not left by some calls, with their numbers. -/
def openPlaces (root : Node Context) (past : List (Moment Context)) :
    List (Occurrence Context × Nat) :=
  root.occurrences.zipIdx.filter fun entry =>
    hasPassed past .pre entry.1.path ∧ ¬ hasPassed past .post entry.1.path

section Opening

variable {root : Node Context} {past later : List (Moment Context)} {place : Occurrence Context}
  {number : Nat}

/-- Before a moment, the places above it are open. -/
theorem openPlaces_eq {moment : Moment Context}
    (hsplit : root.schedule = past ++ moment :: later) :
    root.openPlaces past = root.placesAbove moment.rank := by
  apply List.filter_congr
  intro entry member
  exact decide_eq_decide.mpr (isOpen_iff hsplit (List.fst_mem_of_mem_zipIdx member))

/-- To enter a place opens it. -/
theorem openPlaces_entered (hsplit : root.schedule = past ++ ⟨.pre, place⟩ :: later)
    (hplace : root.occurrences[number]? = some place) :
    root.openPlaces (past ++ [⟨.pre, place⟩]) = root.openPlaces past ++ [(place, number)] := by
  rw [openPlaces_eq hsplit, Moment.rank_pre, ← placesAbove_concat hplace 0]
  apply List.filter_congr
  intro entry member
  apply decide_eq_decide.mpr
  have hentry := List.fst_mem_of_mem_zipIdx member
  have hopen := isOpen_iff hsplit hentry
  rw [properPrefix_concat_iff, hasPassed_concat, hasPassed_concat]
  rw [Moment.rank_pre] at hopen
  by_cases hpath : entry.1.path = place.path
  · have hleft : ¬ hasPassed past .post entry.1.path = true := by
      rw [hasPassed_iff hsplit hentry, Moment.rank_post, Moment.rank_pre, hpath]
      exact (List.prefix_append place.path _).le
    simp [hpath, hpath ▸ hleft]
  · simpa [hpath, Ne.symm hpath] using hopen

/-- The visit hook opens and closes nothing. -/
theorem openPlaces_visited (root : Node Context) (past : List (Moment Context))
    (place : Occurrence Context) :
    root.openPlaces (past ++ [⟨.visit, place⟩]) = root.openPlaces past := by
  simp [openPlaces, hasPassed]

/-- To leave a place closes it, and it is the last open one then. -/
theorem openPlaces_left (hsplit : root.schedule = past ++ ⟨.post, place⟩ :: later)
    (hplace : root.occurrences[number]? = some place) :
    root.openPlaces past = root.openPlaces (past ++ [⟨.post, place⟩]) ++ [(place, number)] := by
  rw [openPlaces_eq hsplit, Moment.rank_post, placesAbove_concat hplace]
  congr 1
  apply List.filter_congr
  intro entry member
  apply decide_eq_decide.mpr
  have hopen := isOpen_iff hsplit (List.fst_mem_of_mem_zipIdx member)
  rw [Moment.rank_post, properPrefix_concat_iff] at hopen
  rw [hasPassed_concat, hasPassed_concat, ← hopen]
  simp only [reduceCtorEq, false_and, or_false, true_and, not_or, and_assoc]
  simp only [ne_eq, eq_comm]

/-- After the whole schedule nothing is open. -/
theorem openPlaces_schedule (root : Node Context) : root.openPlaces root.schedule = [] := by
  apply List.filter_eq_nil_iff.mpr
  intro entry member hopen
  refine (of_decide_eq_true hopen).2 (List.any_eq_true.mpr ⟨⟨.post, entry.1⟩, ?_, ?_⟩)
  · exact (root.mem_schedule _).mpr (List.fst_mem_of_mem_zipIdx member)
  · exact decide_eq_true ⟨rfl, rfl⟩

end Opening

end Node

end CoolTree
