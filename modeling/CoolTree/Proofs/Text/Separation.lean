/-!
# Telling joined texts apart

Texts that are written one behind the other are read back when each of them
shows where it ends.  A mark that does not occur in a text shows its end, and so
does a code in which no word begins another one.  Lines that hold no line feed
are such a code when each is ended by one.
-/

namespace CoolTree.Text

variable {Letter Symbol : Type}

/-- A mark ends what stands before its first occurrence. -/
theorem eq_of_append_mark_eq {mark : Letter} {left right leftRest rightRest : List Letter}
    (hleft : mark ∉ left) (hright : mark ∉ right)
    (heq : left ++ mark :: leftRest = right ++ mark :: rightRest) :
    left = right ∧ leftRest = rightRest := by
  induction left generalizing right with
  | nil =>
      cases right with
      | nil => exact ⟨rfl, (List.cons.inj heq).2⟩
      | cons letter _ =>
          obtain rfl : mark = letter := (List.cons.inj heq).1
          exact absurd List.mem_cons_self hright
  | cons letter others ih =>
      cases right with
      | nil =>
          obtain rfl : letter = mark := (List.cons.inj heq).1
          exact absurd List.mem_cons_self hleft
      | cons _ _ =>
          obtain ⟨rfl, hbehind⟩ := List.cons.inj heq
          rw [List.mem_cons, not_or] at hleft hright
          obtain ⟨rfl, hrest⟩ := ih hleft.2 hright.2 hbehind
          exact ⟨rfl, hrest⟩

/-- The code of a valid symbol tells the symbol, whatever is written behind it. -/
def TellsApart (valid : Symbol → Prop) (code : Symbol → List Letter) : Prop :=
  ∀ left right leftRest rightRest, valid left → valid right →
    code left ++ leftRest = code right ++ rightRest → left = right

/-- Valid symbols written one behind the other are read back. -/
theorem TellsApart.eq_of_flatMap_eq {valid : Symbol → Prop} {code : Symbol → List Letter}
    (htells : TellsApart valid code) (hcode : ∀ symbol, code symbol ≠ [])
    {left right : List Symbol} (hleft : ∀ symbol ∈ left, valid symbol)
    (hright : ∀ symbol ∈ right, valid symbol)
    (heq : left.flatMap code = right.flatMap code) : left = right := by
  induction left generalizing right with
  | nil =>
      cases right with
      | nil => rfl
      | cons symbol _ =>
          rw [List.flatMap_nil, List.flatMap_cons] at heq
          exact absurd (List.append_eq_nil_iff.mp heq.symm).1 (hcode symbol)
  | cons symbol others ih =>
      cases right with
      | nil =>
          rw [List.flatMap_nil, List.flatMap_cons] at heq
          exact absurd (List.append_eq_nil_iff.mp heq).1 (hcode symbol)
      | cons other rest =>
          rw [List.forall_mem_cons] at hleft hright
          rw [List.flatMap_cons, List.flatMap_cons] at heq
          obtain rfl : symbol = other := htells _ _ _ _ hleft.1 hright.1 heq
          rw [ih hleft.2 hright.2 (List.append_cancel_left heq)]

def ofLines (lines : List String) : String :=
  String.join (lines.map fun line => line ++ "\n")

theorem toList_ofLines (lines : List String) :
    (ofLines lines).toList = lines.flatMap fun line => line.toList ++ ['\n'] := by
  rw [ofLines, String.toList_join, List.flatMap_map]
  simp

theorem ofLines_cons (line : String) (lines : List String) :
    ofLines (line :: lines) = line ++ "\n" ++ ofLines lines := by
  rw [ofLines, List.map_cons, String.join_cons, ofLines]

theorem ofLines_append (left right : List String) :
    ofLines (left ++ right) = ofLines left ++ ofLines right := by
  apply String.toList_inj.mp
  rw [String.toList_append, toList_ofLines, toList_ofLines, toList_ofLines, List.flatMap_append]

/-- A line without a line feed is ended by the first line feed behind it. -/
theorem tellsApart_line :
    TellsApart (fun line : String => '\n' ∉ line.toList) fun line => line.toList ++ ['\n'] := by
  intro left right leftRest rightRest hleft hright heq
  rw [List.append_assoc, List.append_assoc] at heq
  exact String.toList_inj.mp (eq_of_append_mark_eq hleft hright heq).1

/-- Lines without line feeds are read back from their text. -/
theorem eq_of_ofLines_eq {left right : List String}
    (hleft : ∀ line ∈ left, '\n' ∉ line.toList) (hright : ∀ line ∈ right, '\n' ∉ line.toList)
    (heq : ofLines left = ofLines right) : left = right := by
  apply tellsApart_line.eq_of_flatMap_eq (fun line => by simp) hleft hright
  rw [← toList_ofLines, ← toList_ofLines, heq]

/-! ## Line feeds -/

def lineFeeds (text : String) : Nat :=
  text.toList.count '\n'

def totalLineFeeds (texts : List String) : Nat :=
  texts.foldr (fun text total => lineFeeds text + total) 0

@[simp]
theorem totalLineFeeds_nil : totalLineFeeds [] = 0 := rfl

@[simp]
theorem totalLineFeeds_cons (text : String) (texts : List String) :
    totalLineFeeds (text :: texts) = lineFeeds text + totalLineFeeds texts := rfl

@[simp]
theorem lineFeeds_append (left right : String) :
    lineFeeds (left ++ right) = lineFeeds left + lineFeeds right := by
  rw [lineFeeds, String.toList_append, List.count_append, lineFeeds, lineFeeds]

theorem lineFeeds_eq_zero_iff {text : String} : lineFeeds text = 0 ↔ '\n' ∉ text.toList :=
  List.count_eq_zero

theorem totalLineFeeds_eq_zero_iff {texts : List String} :
    totalLineFeeds texts = 0 ↔ ∀ text ∈ texts, '\n' ∉ text.toList := by
  induction texts with
  | nil => simp
  | cons text rest ih =>
      rw [totalLineFeeds_cons, Nat.add_eq_zero_iff, ih, lineFeeds_eq_zero_iff, List.forall_mem_cons]

/-- Beside the line feeds inside the lines there is one at the end of each. -/
theorem lineFeeds_ofLines (lines : List String) :
    lineFeeds (ofLines lines) = lines.length + totalLineFeeds lines := by
  induction lines with
  | nil => rfl
  | cons line rest ih =>
      have hfeed : lineFeeds "\n" = 1 := rfl
      rw [ofLines_cons, lineFeeds_append, lineFeeds_append, ih, hfeed, List.length_cons,
        totalLineFeeds_cons]
      omega

end CoolTree.Text
