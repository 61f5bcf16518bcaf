import Schemata.Text.Lines

/-!
# Line Differences

What has to be taken out of one text, and what put in, to get another, line
by line. A script is found by divide and conquer: equal lines at both ends
are kept, and in between the search from both sides meets in a middle snake
that splits the problem in two. The script is then compacted by moving
deletions and insertions up and down over equal lines, so that neighbouring
ones become one.

The steps of a script hold lines, not positions, so every rearrangement is a
rearrangement of lists. Searches are bounded by fuel; where it runs out the
script is still one that leads from the old lines to the new ones.

## Main definitions

* `Step`: Some lines that are kept, deleted or inserted.
* `middleSnake?`: Where the searches from both sides meet.
* `script`: The steps from old to new lines.
* `compact`: The script with its edits moved together.
* `diff`: The marked lines.
-/

namespace Schemata

namespace LineDiff

/-- What happens to some lines. -/
inductive Mark where
  | keep
  | delete
  | insert
  deriving DecidableEq, Repr

/-- A run of lines to which the same happens. -/
structure Step where
  mark : Mark
  lines : List String
  deriving DecidableEq, Repr

/-! ### Finding a script -/

/-- The number of equal items at the front of two lists. -/
def commonFront : List String → List String → Nat
  | a :: as, b :: bs => if a = b then commonFront as bs + 1 else 0
  | _, _ => 0

/-- The number of equal items at the end of two lists. -/
def commonBack (as bs : List String) : Nat :=
  commonFront as.reverse bs.reverse

/-- The furthest points of a search, by diagonal. Diagonals run from `-offset` upwards. -/
structure Frontier where
  offset : Nat
  reach : Array Int

namespace Frontier

/-- No point has been reached on any of the diagonals up to a distance. -/
def start (distance : Nat) : Frontier :=
  ⟨distance, Array.replicate (2 * distance + 1) 0⟩

/-- The furthest point on a diagonal. -/
def point (frontier : Frontier) (diagonal : Int) : Int :=
  frontier.reach.getD (diagonal + frontier.offset).toNat 0

/-- Record the furthest point on a diagonal. -/
def set (frontier : Frontier) (diagonal x : Int) : Frontier :=
  { frontier with
    reach := frontier.reach.setIfInBounds (diagonal + frontier.offset).toNat x }

/-- The point from which a search of `d` edits enters a diagonal. -/
def entry (frontier : Frontier) (d k : Int) : Int :=
  if k = -d ∨ (k ≠ d ∧ frontier.point (k - 1) < frontier.point (k + 1)) then frontier.point (k + 1)
  else frontier.point (k - 1) + 1

end Frontier

/-- One problem: the lines, read from the front by one search and from the back by the
    other. -/
structure Problem where
  old : Array String
  new : Array String

namespace Problem

/-- The number of equal lines from a point on, at most `fuel` of them. -/
def run (problem : Problem) : (fuel : Nat) → (x y : Int) → Nat
  | 0, _, _ => 0
  | fuel + 1, x, y =>
    if 0 ≤ x ∧ 0 ≤ y then
      match problem.old[x.toNat]?, problem.new[y.toNat]? with
      | some a, some b => if a = b then problem.run fuel (x + 1) (y + 1) + 1 else 0
      | _, _ => 0
    else 0

/-- The problem with both lists turned around. -/
def reversed (problem : Problem) : Problem :=
  ⟨problem.old.reverse, problem.new.reverse⟩

/-- The difference of the lengths. -/
def delta (problem : Problem) : Int :=
  (problem.old.size : Int) - problem.new.size

end Problem

/-- The two searches, and the point where they have met. -/
structure Search where
  forward : Frontier
  backward : Frontier
  found : Option (Int × Int)

/-- Move the forward search of `d` edits along a diagonal. -/
def stepForward (problem : Problem) (d : Int) (search : Search) (k : Int) : Search :=
  if search.found.isSome then search
  else
    let x := search.forward.entry d k
    let past := x + problem.run problem.old.size x (x - k)
    let forward := search.forward.set k past
    let delta := problem.delta
    -- The two searches can meet on diagonals of this
    -- search only if the lengths differ by an odd number.
    let meets := delta % 2 ≠ 0 ∧ (k - delta).natAbs ≤ d - 1 ∧
      (problem.old.size : Int) ≤ past + search.backward.point (delta - k)
    { search with forward := forward, found := if meets then some (x, x - k) else none }

/-- Move the backward search of `d` edits along a diagonal. -/
def stepBackward (problem reversed : Problem) (d : Int) (search : Search) (k : Int) : Search :=
  if search.found.isSome then search
  else
    let x := search.backward.entry d k
    let length := reversed.run problem.old.size x (x - k)
    let past := x + length
    let backward := search.backward.set k past
    let delta := problem.delta
    let meets := delta % 2 = 0 ∧ (k - delta).natAbs ≤ d ∧
      (problem.old.size : Int) ≤ past + search.forward.point (delta - k)
    { search with
      backward := backward,
      found :=
        if meets then
          some ((problem.old.size : Int) - past, (problem.new.size : Int) - (past - k))
        else none }

/-- The diagonals of a search of `d` edits, from the highest down. -/
def diagonals (d : Nat) : List Int :=
  (List.range (d + 1)).map fun (i : Nat) => (d : Int) - 2 * i

/-- Search with more and more edits, from `d` on. -/
def searchFrom (problem reversed : Problem) : (fuel d : Nat) → Search → Option (Int × Int)
  | 0, _, _ => none
  | fuel + 1, d, search =>
    -- A point that has been found stays: the steps behind it do nothing.
    let search := (diagonals d).foldl (stepForward problem d) search
    let search := (diagonals d).foldl (stepBackward problem reversed d) search
    match search.found with
    | some point => some point
    | none => searchFrom problem reversed fuel (d + 1) search

/-- The point where the searches from both ends meet. -/
def middleSnake? (old new : List String) : Option (Nat × Nat) :=
  let problem : Problem := ⟨old.toArray, new.toArray⟩
  let bound := (old.length + new.length + 1) / 2 + 1
  let start := Frontier.start (bound + 1)
  (searchFrom problem problem.reversed bound 0 ⟨start, start, none⟩).map fun (x, y) =>
    (x.toNat, y.toNat)

/-- A run of lines as a step; no step for no lines. -/
def stepOf (mark : Mark) (lines : List String) : List Step :=
  if lines = [] then [] else [⟨mark, lines⟩]

/-- The steps from old to new lines. Half of the fuel goes to either side of the middle. -/
def conquer : (fuel : Nat) → (old new : List String) → List Step
  | 0, old, new => stepOf .delete old ++ stepOf .insert new
  | fuel + 1, old, new =>
    let front := commonFront old new
    let oldRest := old.drop front
    let newRest := new.drop front
    let back := commonBack oldRest newRest
    let oldMiddle := oldRest.take (oldRest.length - back)
    let newMiddle := newRest.take (newRest.length - back)
    let middle :=
      -- Both are gone, or one is all that is left.
      if oldMiddle = [] ∨ newMiddle = [] then
        stepOf .delete oldMiddle ++ stepOf .insert newMiddle
      else
        match middleSnake? oldMiddle newMiddle with
        | some (x, y) =>
          conquer fuel (oldMiddle.take x) (newMiddle.take y) ++
            conquer fuel (oldMiddle.drop x) (newMiddle.drop y)
        | none => stepOf .delete oldMiddle ++ stepOf .insert newMiddle
    stepOf .keep (old.take front) ++ middle ++
      stepOf .keep (oldRest.drop (oldRest.length - back))

/-- The steps from old to new lines. -/
def script (old new : List String) : List Step :=
  conquer (old.length + new.length + 1) old new

/-! ### Compaction -/

/-- A script opened at one of its steps; those before it are reversed. -/
structure Zipper where
  before : List Step
  focus : Step
  after : List Step

/-- Put lines that are kept in front of the steps behind. -/
def pushKept (lines : List String) (after : List Step) : List Step :=
  match after with
  | ⟨.keep, kept⟩ :: rest => ⟨.keep, lines ++ kept⟩ :: rest
  | _ => ⟨.keep, lines⟩ :: after

/-- Put lines that are kept behind the steps before, which are reversed. -/
def pushKeptBefore (lines : List String) (before : List Step) : List Step :=
  match before with
  | ⟨.keep, kept⟩ :: rest => ⟨.keep, kept ++ lines⟩ :: rest
  | _ => ⟨.keep, lines⟩ :: before

/-- The lines that an edit puts into the new text; a deletion puts none. -/
def inserted (step : Step) : List String :=
  if step.mark = .insert then step.lines else []

/-- Move the edit in focus up: over kept lines that end as it ends, past an edit of the
    other kind, and into an edit of its own kind. -/
def shiftUp : (fuel : Nat) → Zipper → Zipper
  | 0, z => z
  | fuel + 1, z =>
    match z.before with
    | [] => z
    | previous :: before =>
      if previous.mark = .keep then
        let common := commonBack previous.lines (inserted z.focus)
        if common = 0 then
          -- Only an insertion moves over kept lines. Kept lines that are used up are dropped.
          if previous.lines = [] then shiftUp fuel { z with before := before } else z
        else
          -- The edit takes in the lines above it and leaves as many of its own below.
          let kept := previous.lines.take (previous.lines.length - common)
          let turned := previous.lines.drop (previous.lines.length - common)
          let front := z.focus.lines.take (z.focus.lines.length - common)
          shiftUp fuel
            ⟨stepOf .keep kept ++ before, { z.focus with lines := turned ++ front },
              pushKept turned z.after⟩
      else if previous.mark = z.focus.mark then
        shiftUp fuel ⟨before, { z.focus with lines := previous.lines ++ z.focus.lines }, z.after⟩
      else shiftUp fuel ⟨before, z.focus, previous :: z.after⟩

/-- Move the edit in focus down; the mirror image of `shiftUp`. -/
def shiftDown : (fuel : Nat) → Zipper → Zipper
  | 0, z => z
  | fuel + 1, z =>
    match z.after with
    | [] => z
    | next :: after =>
      if next.mark = .keep then
        let common := commonFront next.lines (inserted z.focus)
        if common = 0 then
          if next.lines = [] then shiftDown fuel { z with after := after } else z
        else
          let turned := next.lines.take common
          let kept := next.lines.drop common
          let back := z.focus.lines.drop common
          shiftDown fuel
            ⟨pushKeptBefore turned z.before, { z.focus with lines := back ++ turned },
              stepOf .keep kept ++ after⟩
      else if next.mark = z.focus.mark then
        shiftDown fuel ⟨z.before, { z.focus with lines := z.focus.lines ++ next.lines }, after⟩
      else shiftDown fuel ⟨next :: z.before, z.focus, after⟩

/-- Move every edit of one kind up and then down, from the front of the script. -/
def compactMark (mark : Mark) (reach : Nat) :
    (fuel : Nat) → (before after : List Step) → List Step
  | 0, before, after => before.reverse ++ after
  | _ + 1, before, [] => before.reverse
  | fuel + 1, before, step :: after =>
    if step.mark = mark then
      let z := shiftDown reach (shiftUp reach ⟨before, step, after⟩)
      compactMark mark reach fuel (z.focus :: z.before) z.after
    else compactMark mark reach fuel (step :: before) after

/-- The number of lines and steps of a script. -/
def weight (steps : List Step) : Nat :=
  steps.foldl (fun total step => total + step.lines.length + 1) 0

/-- The script with its deletions, and then its insertions, moved together. -/
def compact (steps : List Step) : List Step :=
  let reach := 2 * weight steps + 2
  let steps := compactMark .delete reach (reach * reach) [] steps
  compactMark .insert reach (reach * reach) [] steps

/-! ### Marked lines -/

/-- The marked lines of a script. Between kept lines all deletions come before all
    insertions; `deleted` and `added` hold those met since the last kept line. -/
def markedLines (deleted added : List String) : List Step → List (Mark × String)
  | [] => deleted.map (.delete, ·) ++ added.map (.insert, ·)
  | ⟨.delete, lines⟩ :: rest => markedLines (deleted ++ lines) added rest
  | ⟨.insert, lines⟩ :: rest => markedLines deleted (added ++ lines) rest
  | ⟨.keep, lines⟩ :: rest =>
    deleted.map (.delete, ·) ++ added.map (.insert, ·) ++ lines.map (.keep, ·) ++
      markedLines [] [] rest

/-- The sign of a mark. -/
def Mark.sign : Mark → String
  | .keep => " "
  | .delete => "-"
  | .insert => "+"

/-- A marked line as text, with a line feed if the line has no end of its own. -/
def lineText (line : Mark × String) : String :=
  line.1.sign ++ line.2 ++ if Text.isTerminated line.2 then "" else "\n"

/-- The marked lines that lead from one list of lines to another. -/
def marked (old new : List String) : List (Mark × String) :=
  markedLines [] [] (compact (script old new))

end LineDiff

/-- The differences of two texts, line by line. -/
def diff (before after : String) : String :=
  String.join
    ((LineDiff.marked (Text.splitLines before) (Text.splitLines after)).map LineDiff.lineText)

end Schemata
