import CoolTree.Context.Mapping

/-!
# Relabelling trees

Trees whose contexts are integers can be relabelled in five ways, each with a
number of its own to start from: by counting the contexts, by adding to them,
by their running sum, by texts that show a count and the context, or by nothing
at all.
-/

namespace CoolTree

inductive Relabelling where
  /-- The start, the start plus one, and so on. -/
  | number
  /-- The context plus the start. -/
  | add
  /-- The start plus the sum of all contexts met so far, this one included. -/
  | sum
  /-- A count from the start on, a colon and the context. -/
  | text
  /-- No information. -/
  | unit
deriving DecidableEq, Inhabited

inductive RelabelledTree where
  | numbered (tree : Node Int)
  | texted (tree : Node String)
  | stripped (tree : Node Unit)

namespace Relabelling

/-- The state of a relabelling: the contexts it has met and its running number. -/
structure Progress where
  met : Array Int
  running : Int
deriving DecidableEq

/-- Maps a context by a function of the running number and the context, which
gives the image and the next running number. -/
def meeting {Image : Type} (next : Int → Int → Image × Int) (context : Int) :
    StateM Progress Image := fun ⟨met, running⟩ =>
  let (image, running) := next running context
  (image, ⟨met.push context, running⟩)

def relabel (relabelling : Relabelling) (start : Int) (tree : Node Int) :
    RelabelledTree × Array Int :=
  match relabelling with
  | number => integers fun running _ => (running, running + 1)
  | add => integers fun running context => (context + running, running)
  | sum => integers fun running context => (running + context, running + context)
  | text =>
      let (image, progress) := tree.mapContext (meeting fun running context =>
        (running.repr ++ ":" ++ context.repr, running + 1)) ⟨#[], start⟩
      (.texted image, progress.met)
  | unit =>
      let (image, progress) := tree.mapContext
        (meeting fun running _ => ((), running)) ⟨#[], start⟩
      (.stripped image, progress.met)
where
  integers (next : Int → Int → Int × Int) : RelabelledTree × Array Int :=
    let (image, progress) := tree.mapContext (meeting next) ⟨#[], start⟩
    (.numbered image, progress.met)

/-- Relabels a tree several times.  A relabelling by integers is the start of
the next one; the others leave the tree for the next one as it was. -/
def relabelAll : List (Relabelling × Int) → Node Int → List (RelabelledTree × Array Int)
  | [], _ => []
  | (relabelling, start) :: others, tree =>
      let relabelled := relabelling.relabel start tree
      let next := match relabelled.1 with
        | .numbered image => image
        | .texted _ | .stripped _ => tree
      relabelled :: relabelAll others next

end Relabelling

end CoolTree
