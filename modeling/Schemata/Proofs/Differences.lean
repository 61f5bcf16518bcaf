import Schemata.LineDiff
import Schemata.Proofs.Text.Endings

/-!
# Nothing Is Lost

The differences of two texts have both texts in them: what is kept or deleted
is the old one, and what is kept or inserted the new one.

How good a script is depends on the search for it, but that it is a script
does not. Wherever the search says that the problem is to be split, the two
parts make up the whole, and an answer that cannot be used only leads to a
script with more edits. So nothing is asked of `middleSnake?` here.

A script means two lists of lines, the one without its insertions and the one
without its deletions. Compaction rewrites a script at one place, and none of
the rewrites changes what it means: an edit takes in another one of its kind,
trades places with one of the other kind, and moves over kept lines by as many
lines as it has in common with them.

What is printed can be read back as every line has its sign in front. The sign
is not a line feed, so that a carriage return at the end of a line stays what
it is.

## Main definitions

* `LineDiff.without`: What a script means to one of the sides.
* `LineDiff.LeadsTo`: The script leads from old to new lines.
* `LineDiff.Zipper.steps`, `LineDiff.Zipper.Same`: What is opened, and that it means the same.
* `LineDiff.remaining`: The marked lines of one of the sides.
* `LineDiff.Mark.signChar`, `LineDiff.lineChars`: The characters that are printed.

## Theorems

* `LineDiff.leadsTo_conquer`: The search comes up with a script from old to new lines.
* `LineDiff.same_shiftUp`, `LineDiff.same_shiftDown`: Moving an edit does not change what a
  script means.
* `LineDiff.LeadsTo.compact`: Compaction keeps where a script leads from and to.
* `LineDiff.remaining_marked`: Marked lines have the old and the new lines in them.
* `diff_loses_nothing`: Both texts can be read off their differences.
-/

namespace Schemata

namespace LineDiff

/-- The lines of a script without those of one kind. -/
def without (absent : Mark) (steps : List Step) : List String :=
  steps.flatMap fun step => if step.mark = absent then [] else step.lines

/-- The script has the old lines in it where nothing is inserted, and the new ones where nothing
    is deleted. -/
structure LeadsTo (old new : List String) (steps : List Step) : Prop where
  old_eq : without .insert steps = old
  new_eq : without .delete steps = new

/-- The script that is opened. -/
def Zipper.steps (z : Zipper) : List Step :=
  z.before.reverse ++ z.focus :: z.after

/-- Two scripts that are opened mean the same, and at edits of the same kind. -/
structure Zipper.Same (z z' : Zipper) : Prop where
  mark_eq : z'.focus.mark = z.focus.mark
  without_eq : ∀ absent, absent ≠ .keep → without absent z'.steps = without absent z.steps

/-- Marked lines without those of one kind. -/
def remaining (absent : Mark) (lines : List (Mark × String)) : List String :=
  lines.filterMap fun line => if line.1 = absent then none else some line.2

/-- The character of a sign. -/
def Mark.signChar : Mark → Char
  | .keep => ' '
  | .delete => '-'
  | .insert => '+'

/-- The characters of a marked line. -/
def lineChars (line : Mark × String) : List Char :=
  line.1.signChar :: (Text.ended line.2).toList

/-! ### Scripts -/

section

variable (absent : Mark)

theorem without_cons (step : Step) (steps : List Step) :
    without absent (step :: steps) =
      (if step.mark = absent then [] else step.lines) ++ without absent steps :=
  List.flatMap_cons

theorem without_append (front back : List Step) :
    without absent (front ++ back) = without absent front ++ without absent back :=
  List.flatMap_append

theorem without_stepOf (mark : Mark) (lines : List String) :
    without absent (stepOf mark lines) = if mark = absent then [] else lines := by
  rw [stepOf]
  split
  · next hnil => rw [hnil, ite_self]; rfl
  · rw [without, List.flatMap_singleton]

/-- Edits of one kind are one edit. -/
theorem without_merge (mark : Mark) (as bs : List String) (steps : List Step) :
    without absent (⟨mark, as⟩ :: ⟨mark, bs⟩ :: steps) =
      without absent (⟨mark, as ++ bs⟩ :: steps) := by
  rw [without_cons, without_cons, without_cons]
  split
  · rfl
  · rw [List.append_assoc]

end

theorem LeadsTo.append {old new old' new' : List String} {steps steps' : List Step}
    (h : LeadsTo old new steps) (h' : LeadsTo old' new' steps') :
    LeadsTo (old ++ old') (new ++ new') (steps ++ steps') := by
  constructor
  · rw [without_append, h.old_eq, h'.old_eq]
  · rw [without_append, h.new_eq, h'.new_eq]

theorem leadsTo_keep (lines : List String) : LeadsTo lines lines (stepOf .keep lines) :=
  ⟨without_stepOf .insert .keep lines, without_stepOf .delete .keep lines⟩

/-- Everything can be replaced. -/
theorem leadsTo_replace (old new : List String) :
    LeadsTo old new (stepOf .delete old ++ stepOf .insert new) := by
  constructor
  · rw [without_append, without_stepOf, without_stepOf]
    exact List.append_nil old
  · rw [without_append, without_stepOf, without_stepOf]
    exact List.nil_append new

/-! ### Finding a script -/

theorem take_commonFront (as bs : List String) :
    as.take (commonFront as bs) = bs.take (commonFront as bs) := by
  induction as, bs using commonFront.induct with
  | case1 a as bs ih =>
      rw [commonFront, if_pos rfl, List.take_succ_cons, List.take_succ_cons, ih]
  | case2 a as b bs hne => rw [commonFront, if_neg hne, List.take_zero, List.take_zero]
  | case3 as bs h =>
      have hnone : commonFront as bs = 0 := by
        rw [commonFront]
        exact h
      rw [hnone, List.take_zero, List.take_zero]

theorem drop_commonBack (as bs : List String) :
    as.drop (as.length - commonBack as bs) = bs.drop (bs.length - commonBack as bs) := by
  have hfront := congrArg List.reverse (take_commonFront as.reverse bs.reverse)
  rw [List.reverse_take, List.reverse_take, List.reverse_reverse, List.reverse_reverse,
    List.length_reverse, List.length_reverse] at hfront
  exact hfront

section

variable {old new : List String} {steps steps' : List Step}

/-- Both sides of a place are dealt with on their own. -/
theorem LeadsTo.cut (i j : Nat) (h : LeadsTo (old.take i) (new.take j) steps)
    (h' : LeadsTo (old.drop i) (new.drop j) steps') : LeadsTo old new (steps ++ steps') := by
  have hwhole := h.append h'
  rwa [List.take_append_drop, List.take_append_drop] at hwhole

/-- Equal lines at the front are kept. -/
theorem LeadsTo.behind (front : Nat) (hfront : old.take front = new.take front)
    (h : LeadsTo (old.drop front) (new.drop front) steps) :
    LeadsTo old new (stepOf .keep (old.take front) ++ steps) := by
  refine .cut front front ?_ h
  rw [← hfront]
  exact leadsTo_keep _

/-- Equal lines at the end are kept. -/
theorem LeadsTo.before (i j : Nat) (hback : old.drop i = new.drop j)
    (h : LeadsTo (old.take i) (new.take j) steps) :
    LeadsTo old new (steps ++ stepOf .keep (old.drop i)) := by
  refine .cut i j h ?_
  rw [← hback]
  exact leadsTo_keep _

end

/-- Wherever the problem is split, the script leads from the old to the new lines. -/
theorem leadsTo_conquer (fuel : Nat) (old new : List String) :
    LeadsTo old new (conquer fuel old new) := by
  induction fuel generalizing old new with
  | zero => exact leadsTo_replace old new
  | succ fuel ih =>
      -- Front and back are kept. Whatever is made of the middle leads from one to the other.
      rw [conquer, List.append_assoc]
      refine .behind _ (take_commonFront old new) (.before _ _ (drop_commonBack _ _) ?_)
      split
      · exact leadsTo_replace _ _
      · split
        · exact .cut _ _ (ih _ _) (ih _ _)
        · exact leadsTo_replace _ _

/-- The search comes up with a script from the old to the new lines. -/
theorem leadsTo_script (old new : List String) : LeadsTo old new (script old new) :=
  leadsTo_conquer _ old new

/-! ### Rewriting a script -/

section

variable (absent : Mark) (ha : absent ≠ .keep)
include ha

theorem without_keep (lines : List String) (steps : List Step) :
    without absent (⟨.keep, lines⟩ :: steps) = lines ++ without absent steps := by
  rw [without_cons, if_neg (Ne.symm ha)]

theorem without_pushKept (lines : List String) (after : List Step) :
    without absent (pushKept lines after) = lines ++ without absent after := by
  unfold pushKept
  split
  · next kept rest =>
      rw [without_keep absent ha, without_keep absent ha, List.append_assoc]
  · rw [without_keep absent ha]

theorem without_pushKeptBefore (lines : List String) (before : List Step) :
    without absent (pushKeptBefore lines before).reverse =
      without absent before.reverse ++ lines := by
  unfold pushKeptBefore
  split
  · next kept rest =>
      rw [List.reverse_cons, List.reverse_cons, without_append, without_append,
        without_keep absent ha, without_keep absent ha, List.append_assoc, List.append_assoc,
        List.append_assoc]
      exact congrArg _ (congrArg _ (List.append_nil lines))
  · rw [List.reverse_cons, without_append, without_keep absent ha]
    exact congrArg _ (List.append_nil lines)

/-- Edits of different kinds can trade places. -/
theorem without_swap (a b : Step) (steps : List Step) (hab : a.mark ≠ b.mark)
    (hka : a.mark ≠ .keep) (hkb : b.mark ≠ .keep) :
    without absent (a :: b :: steps) = without absent (b :: a :: steps) := by
  rw [without_cons, without_cons, without_cons, without_cons]
  -- One of the two is of the kind that is left out.
  have hone : a.mark = absent ∨ b.mark = absent := by
    revert hab hka hkb ha
    cases a.mark <;> cases b.mark <;> cases absent <;> decide
  rcases hone with h | h
  · rw [if_pos h, List.nil_append, List.nil_append]
  · rw [if_pos h, List.nil_append, List.nil_append]

/-- A step moves over kept lines that it ends in, or begins with on the other side. -/
theorem without_turn (turned rest : List String) (mark : Mark) (steps : List Step) :
    without absent (⟨mark, turned ++ rest⟩ :: ⟨.keep, turned⟩ :: steps) =
      turned ++ without absent (⟨mark, rest ++ turned⟩ :: steps) := by
  rw [without_cons, without_keep absent ha, without_cons]
  split
  · rfl
  · rw [List.append_assoc, List.append_assoc]

end

theorem Zipper.Same.refl (z : Zipper) : z.Same z :=
  ⟨rfl, fun _ _ => rfl⟩

theorem Zipper.Same.symm {z z' : Zipper} (h : z.Same z') : z'.Same z :=
  ⟨h.mark_eq.symm, fun absent ha => (h.without_eq absent ha).symm⟩

theorem Zipper.Same.trans {z z' z'' : Zipper} (h : z.Same z') (h' : z'.Same z'') : z.Same z'' :=
  ⟨h'.mark_eq.trans h.mark_eq, fun absent ha =>
    (h'.without_eq absent ha).trans (h.without_eq absent ha)⟩

/-- What stands in front of the edit and behind it, taken apart. -/
theorem Zipper.without_steps (absent : Mark) (before after : List Step) (focus : Step) :
    without absent (Zipper.mk before focus after).steps =
      without absent before.reverse ++ without absent (focus :: after) :=
  without_append absent _ _

theorem Zipper.without_steps_cons (absent : Mark) (before after : List Step)
    (focus previous : Step) :
    without absent (Zipper.mk (previous :: before) focus after).steps =
      without absent before.reverse ++ without absent (previous :: focus :: after) := by
  rw [Zipper.without_steps, List.reverse_cons, without_append, List.append_assoc,
    ← without_append, List.singleton_append]

/-! ### One move of an edit -/

section

variable (before after : List Step)

/-- Where no lines are kept there is nothing to move over. -/
theorem same_skipUp (focus : Step) :
    (Zipper.mk (⟨.keep, []⟩ :: before) focus after).Same ⟨before, focus, after⟩ := by
  refine ⟨rfl, fun absent ha => ?_⟩
  rw [Zipper.without_steps, Zipper.without_steps_cons, without_keep absent ha, List.nil_append]

theorem same_skipDown (focus : Step) :
    (Zipper.mk before focus (⟨.keep, []⟩ :: after)).Same ⟨before, focus, after⟩ := by
  refine ⟨rfl, fun absent ha => ?_⟩
  rw [Zipper.without_steps, Zipper.without_steps, without_cons, without_cons,
    without_keep absent ha, List.nil_append]

/-- An edit takes in one of its own kind. -/
theorem same_mergeUp (mark : Mark) (lines lines' : List String) :
    (Zipper.mk (⟨mark, lines'⟩ :: before) ⟨mark, lines⟩ after).Same
      ⟨before, ⟨mark, lines' ++ lines⟩, after⟩ := by
  refine ⟨rfl, fun absent _ => ?_⟩
  rw [Zipper.without_steps, Zipper.without_steps_cons, without_merge]

theorem same_mergeDown (mark : Mark) (lines lines' : List String) :
    (Zipper.mk before ⟨mark, lines⟩ (⟨mark, lines'⟩ :: after)).Same
      ⟨before, ⟨mark, lines ++ lines'⟩, after⟩ := by
  refine ⟨rfl, fun absent _ => ?_⟩
  rw [Zipper.without_steps, Zipper.without_steps, without_merge]

/-- An edit goes past one of the other kind. -/
theorem same_pass (other focus : Step) (hne : other.mark ≠ focus.mark) (ho : other.mark ≠ .keep)
    (hf : focus.mark ≠ .keep) :
    (Zipper.mk (other :: before) focus after).Same ⟨before, focus, other :: after⟩ := by
  refine ⟨rfl, fun absent ha => ?_⟩
  rw [Zipper.without_steps, Zipper.without_steps_cons, without_swap absent ha other focus after
    hne ho hf]

/-- Over lines that it has in common with the kept ones an edit is turned. -/
theorem same_turnUp (kept front turned : List String) (mark : Mark) :
    (Zipper.mk (⟨.keep, kept ++ turned⟩ :: before) ⟨mark, front ++ turned⟩ after).Same
      ⟨stepOf .keep kept ++ before, ⟨mark, turned ++ front⟩, pushKept turned after⟩ := by
  refine ⟨rfl, fun absent ha => ?_⟩
  have hpush : without absent (⟨mark, turned ++ front⟩ :: pushKept turned after) =
      without absent (⟨mark, turned ++ front⟩ :: ⟨.keep, turned⟩ :: after) := by
    rw [without_cons, without_pushKept absent ha, without_cons, without_keep absent ha]
  -- The kept lines in front are dropped from the list of steps if there are none.
  have hkept : without absent (stepOf .keep kept ++ before).reverse =
      without absent before.reverse ++ kept := by
    have hstep : (stepOf .keep kept).reverse = stepOf .keep kept := by
      rw [stepOf]
      split <;> rfl
    rw [List.reverse_append, without_append, hstep, without_stepOf, if_neg (Ne.symm ha)]
  rw [Zipper.without_steps, Zipper.without_steps_cons, hkept, hpush, without_turn absent ha,
    without_keep absent ha, List.append_assoc, List.append_assoc]

theorem same_turnDown (kept back turned : List String) (mark : Mark) :
    (Zipper.mk before ⟨mark, turned ++ back⟩ (⟨.keep, turned ++ kept⟩ :: after)).Same
      ⟨pushKeptBefore turned before, ⟨mark, back ++ turned⟩, stepOf .keep kept ++ after⟩ := by
  refine ⟨rfl, fun absent ha => ?_⟩
  have hkept : without absent (⟨.keep, turned ++ kept⟩ :: after) =
      without absent (⟨.keep, turned⟩ :: (stepOf .keep kept ++ after)) := by
    rw [without_keep absent ha, without_keep absent ha, without_append, without_stepOf,
      if_neg (Ne.symm ha), List.append_assoc]
  have hturn := without_turn absent ha turned back mark (stepOf .keep kept ++ after)
  rw [without_cons, ← hkept, ← without_cons] at hturn
  rw [Zipper.without_steps, Zipper.without_steps, without_pushKeptBefore absent ha, hturn,
    List.append_assoc]

/-- The lines at the end of the kept ones are those at the end of the edit. -/
theorem same_commonBack (kept lines : List String) (mark : Mark) :
    (Zipper.mk (⟨.keep, kept⟩ :: before) ⟨mark, lines⟩ after).Same
      ⟨stepOf .keep (kept.take (kept.length - commonBack kept lines)) ++ before,
        ⟨mark, kept.drop (kept.length - commonBack kept lines) ++
          lines.take (lines.length - commonBack kept lines)⟩,
        pushKept (kept.drop (kept.length - commonBack kept lines)) after⟩ := by
  have hturn := same_turnUp before after (kept.take (kept.length - commonBack kept lines))
    (lines.take (lines.length - commonBack kept lines))
    (kept.drop (kept.length - commonBack kept lines)) mark
  have hturned := drop_commonBack kept lines
  rwa [List.take_append_drop, hturned, List.take_append_drop, ← hturned] at hturn

/-- The lines at the beginning of the kept ones are those at the beginning of the edit. -/
theorem same_commonFront (kept lines : List String) (mark : Mark) :
    (Zipper.mk before ⟨mark, lines⟩ (⟨.keep, kept⟩ :: after)).Same
      ⟨pushKeptBefore (kept.take (commonFront kept lines)) before,
        ⟨mark, lines.drop (commonFront kept lines) ++ kept.take (commonFront kept lines)⟩,
        stepOf .keep (kept.drop (commonFront kept lines)) ++ after⟩ := by
  have hturn := same_turnDown before after (kept.drop (commonFront kept lines))
    (lines.drop (commonFront kept lines)) (kept.take (commonFront kept lines)) mark
  have hturned := take_commonFront kept lines
  rwa [List.take_append_drop, hturned, List.take_append_drop, ← hturned] at hturn

end

/-! ### All moves -/

/-- Only an insertion has lines in common with the kept ones. -/
theorem inserted_eq (step : Step) (h : inserted step ≠ []) : inserted step = step.lines := by
  rw [inserted] at *
  split
  · rfl
  · next hm => exact absurd (if_neg hm) h

theorem commonBack_nil (lines : List String) : commonBack lines [] = 0 := by
  rw [commonBack, List.reverse_nil]
  cases lines.reverse <;> rfl

theorem commonFront_nil (lines : List String) : commonFront lines [] = 0 := by
  cases lines <;> rfl

/-- Moving an edit up does not change what the script means. -/
theorem same_shiftUp (fuel : Nat) (z : Zipper) (hz : z.focus.mark ≠ .keep) :
    z.Same (shiftUp fuel z) := by
  -- One case for each move: past an empty step, past common lines, into an edit of its kind, or
  -- past one of the other kind.
  induction fuel generalizing z with
  | zero => exact .refl z
  | succ fuel ih =>
      rcases z with ⟨before, ⟨mark, lines⟩, after⟩
      have hmark : mark ≠ .keep := hz
      cases before with
      | nil => exact .refl _
      | cons previous before =>
          rcases previous with ⟨mark', lines'⟩
          simp only [shiftUp]
          split
          · next hkeep =>
              subst hkeep
              split
              · split
                · next hempty =>
                    subst hempty
                    exact (same_skipUp before after _).trans (ih _ hmark)
                · exact .refl _
              · next hcommon =>
                  have hlines := inserted_eq ⟨mark, lines⟩ fun hnil =>
                    hcommon (hnil ▸ commonBack_nil lines')
                  rw [hlines]
                  exact (same_commonBack before after lines' lines mark).trans (ih _ hmark)
          · next hedit =>
              split
              · next hsame =>
                  subst hsame
                  exact (same_mergeUp before after _ lines lines').trans (ih _ hmark)
              · next hother =>
                  exact (same_pass before after _ _ hother hedit hmark).trans (ih _ hmark)

/-- Moving an edit down does not change what the script means. -/
theorem same_shiftDown (fuel : Nat) (z : Zipper) (hz : z.focus.mark ≠ .keep) :
    z.Same (shiftDown fuel z) := by
  induction fuel generalizing z with
  | zero => exact .refl z
  | succ fuel ih =>
      rcases z with ⟨before, ⟨mark, lines⟩, after⟩
      have hmark : mark ≠ .keep := hz
      cases after with
      | nil => exact .refl _
      | cons next after =>
          rcases next with ⟨mark', lines'⟩
          simp only [shiftDown]
          split
          · next hkeep =>
              subst hkeep
              split
              · split
                · next hempty =>
                    subst hempty
                    exact (same_skipDown before after _).trans (ih _ hmark)
                · exact .refl _
              · next hcommon =>
                  have hlines := inserted_eq ⟨mark, lines⟩ fun hnil =>
                    hcommon (hnil ▸ commonFront_nil lines')
                  rw [hlines]
                  exact (same_commonFront before after lines' lines mark).trans (ih _ hmark)
          · next hedit =>
              split
              · next hsame =>
                  subst hsame
                  exact (same_mergeDown before after _ lines lines').trans (ih _ hmark)
              · next hother =>
                  -- To go past it downwards takes back going past it upwards.
                  exact (same_pass before after _ _ hother hedit hmark).symm.trans (ih _ hmark)

/-- Moving all edits of one kind does not change what the script means. -/
theorem without_compactMark (absent mark : Mark) (ha : absent ≠ .keep) (hm : mark ≠ .keep)
    (reach fuel : Nat) (before after : List Step) :
    without absent (compactMark mark reach fuel before after) =
      without absent (before.reverse ++ after) := by
  induction fuel generalizing before after with
  | zero => rfl
  | succ fuel ih =>
      cases after with
      | nil => rw [compactMark, List.append_nil]
      | cons step after =>
          rw [compactMark]
          split
          · next hstep =>
              have hstep' : step.mark ≠ .keep := hstep ▸ hm
              -- An edit is moved up and then down, and its mark stays what it was.
              have hup := same_shiftUp reach ⟨before, step, after⟩ hstep'
              have hdown := same_shiftDown reach _ (hup.mark_eq ▸ hstep')
              rw [ih, List.reverse_cons, List.append_assoc, List.singleton_append]
              exact (hup.trans hdown).without_eq absent ha
          · rw [ih, List.reverse_cons, List.append_assoc, List.singleton_append]

/-- Compaction keeps where a script leads from and to. -/
theorem LeadsTo.compact {old new : List String} {steps : List Step} (h : LeadsTo old new steps) :
    LeadsTo old new (compact steps) := by
  have hsame : ∀ absent, absent ≠ .keep →
      without absent (LineDiff.compact steps) = without absent steps := by
    intro absent ha
    rw [LineDiff.compact, without_compactMark absent .insert ha nofun, List.reverse_nil,
      List.nil_append, without_compactMark absent .delete ha nofun]
    rfl
  exact ⟨(hsame .insert nofun).trans h.old_eq, (hsame .delete nofun).trans h.new_eq⟩

/-! ### Marked lines -/

theorem remaining_append (absent : Mark) (front back : List (Mark × String)) :
    remaining absent (front ++ back) = remaining absent front ++ remaining absent back :=
  List.filterMap_append

theorem remaining_map (absent mark : Mark) (lines : List String) :
    remaining absent (lines.map (mark, ·)) = if mark = absent then [] else lines := by
  rw [remaining, List.filterMap_map]
  split
  · next h => exact List.filterMap_eq_nil_iff.mpr fun line _ => if_pos h
  · next h => exact (List.filterMap_congr fun line _ => if_neg h).trans List.filterMap_some

/-- The lines that wait for the next kept one come first, those of one side on each. -/
theorem remaining_markedLines (absent : Mark) (ha : absent ≠ .keep) (deleted added : List String)
    (steps : List Step) : remaining absent (markedLines deleted added steps) =
      (if Mark.delete = absent then [] else deleted) ++
        (if Mark.insert = absent then [] else added) ++ without absent steps := by
  -- Lines wait on both sides until a kept step comes, and are put out before it.
  induction deleted, added, steps using markedLines.induct with
  | case1 deleted added =>
      rw [markedLines, remaining_append, remaining_map, remaining_map]
      exact (List.append_nil _).symm
  | case2 deleted added lines rest ih =>
      rw [markedLines, ih, without_cons]
      cases absent with
      | keep => exact absurd rfl ha
      | delete => rfl
      | insert => simp
  | case3 deleted added lines rest ih =>
      rw [markedLines, ih, without_cons]
      cases absent with
      | keep => exact absurd rfl ha
      | delete => simp
      | insert => rfl
  | case4 deleted added lines rest ih =>
      rw [markedLines, remaining_append, remaining_append, remaining_append, remaining_map,
        remaining_map, remaining_map, ih, without_keep absent ha, if_neg (Ne.symm ha), ite_self,
        ite_self, List.nil_append, List.nil_append, List.append_assoc]

/-- Marked lines have the old and the new lines in them. -/
theorem remaining_marked (old new : List String) :
    remaining .insert (marked old new) = old ∧ remaining .delete (marked old new) = new := by
  have h := (leadsTo_script old new).compact
  constructor
  · rw [marked, remaining_markedLines .insert nofun, h.old_eq, ite_self, ite_self]
    rfl
  · rw [marked, remaining_markedLines .delete nofun, h.new_eq, ite_self, ite_self]
    rfl

theorem mem_of_marked (old new : List String) (line : Mark × String)
    (hm : line ∈ marked old new) : line.2 ∈ old ∨ line.2 ∈ new := by
  have hr := remaining_marked old new
  by_cases h : line.1 = .insert
  · rw [← hr.2]
    exact Or.inr (List.mem_filterMap.mpr ⟨line, hm, if_neg (h ▸ nofun)⟩)
  · rw [← hr.1]
    exact Or.inl (List.mem_filterMap.mpr ⟨line, hm, if_neg h⟩)

/-! ### What is printed -/

theorem Mark.sign_eq (mark : Mark) : mark.sign = String.ofList [mark.signChar] := by
  cases mark <;> rfl

/-- A line that is not empty is printed behind its sign, with its end. -/
theorem lineText_eq (line : Mark × String) (h : line.2 ≠ "") :
    lineText line = String.ofList (lineChars line) := by
  rw [lineChars, ← List.singleton_append, String.ofList_append, String.ofList_toList,
    ← Mark.sign_eq, lineText, Text.ended, String.append_assoc]
  by_cases hterm : Text.isTerminated line.2 = true
  · rw [if_pos hterm, if_pos (Or.inr hterm), String.append_empty]
  · rw [if_neg hterm, if_neg (not_or.mpr ⟨h, hterm⟩)]

/-- Signs are no breaks, so that every printed line is one line. -/
theorem endedLine_lineChars (line : Mark × String)
    (h : Text.EndedLine (Text.ended line.2).toList) : Text.EndedLine (lineChars line) := by
  rcases h with ⟨body, ending, he, hbody, hend⟩
  refine ⟨line.1.signChar :: body, ending, ?_, List.forall_mem_cons.mpr ⟨?_, hbody⟩, hend⟩
  · rw [lineChars, he, List.cons_append]
  · cases line.1 <;> decide

end LineDiff

section

open LineDiff

/-- The lines of what is printed are the printed lines. -/
theorem splitLines_diff (before after : String) : Text.splitLines (diff before after) =
    (marked (Text.splitLines before) (Text.splitLines after)).map
      (String.ofList ∘ lineChars) := by
  -- Every line is one of the two texts, and is ended if it was not.
  have hline : ∀ line ∈ marked (Text.splitLines before) (Text.splitLines after),
      line.2 ≠ "" ∧ Text.EndedLine (Text.ended line.2).toList := fun line hm =>
    (mem_of_marked _ _ line hm).elim (Text.endedLine_of_mem before _)
      (Text.endedLine_of_mem after _)
  have htexts : (marked (Text.splitLines before) (Text.splitLines after)).map lineText =
      ((marked (Text.splitLines before) (Text.splitLines after)).map lineChars).map
        String.ofList := by
    rw [List.map_map]
    exact List.map_congr_left fun line hm => lineText_eq line (hline line hm).1
  rw [diff, htexts, Text.splitLines_join, List.map_map]
  · exact List.forall_mem_map.mpr fun line hm => endedLine_lineChars line (hline line hm).2
  · refine List.forall_mem_map.mpr fun line _ => ?_
    rw [lineChars, List.head?_cons]
    cases line.1 <;> decide

/-- The lines behind the signs of one side are the lines of that side. -/
theorem linesBehind_diff (before after : String) (absent : Mark) (signs : List Char)
    (hs : ∀ mark : Mark, mark.signChar ∈ signs ↔ mark ≠ absent) :
    Text.linesBehind signs (diff before after) =
      (remaining absent (marked (Text.splitLines before) (Text.splitLines after))).map
        Text.ended := by
  rw [Text.linesBehind, splitLines_diff, remaining, List.filterMap_map, List.map_filterMap]
  refine List.filterMap_congr fun line _ => ?_
  rw [Function.comp_apply, Function.comp_apply, String.toList_ofList, lineChars]
  simp only [hs]
  by_cases h : line.1 = absent
  · rw [if_pos h, if_neg (not_not.mpr h)]
    rfl
  · rw [if_neg h, if_pos h, String.ofList_toList]
    rfl

/-- Every line of the differences has a sign in front. Those that are kept or deleted are the
    lines of the old text, and those that are kept or inserted the lines of the new one, where
    the last line of a text is ended if it is not. -/
theorem diff_loses_nothing (before after : String) :
    (∀ line ∈ Text.splitLines (diff before after), ∃ sign ∈ ['-', '+', ' '],
      line.toList.head? = some sign) ∧
    Text.linesBehind ['-', ' '] (diff before after) = Text.splitLines (Text.ended before) ∧
    Text.linesBehind ['+', ' '] (diff before after) = Text.splitLines (Text.ended after) ∧
    String.join (Text.linesBehind ['-', ' '] (diff before after)) = Text.ended before ∧
    String.join (Text.linesBehind ['+', ' '] (diff before after)) = Text.ended after := by
  -- Without the inserted lines the old text is left, and without the deleted ones the new text.
  have hold : Text.linesBehind ['-', ' '] (diff before after) =
      Text.splitLines (Text.ended before) := by
    rw [linesBehind_diff before after .insert _ fun mark => by cases mark <;> decide,
      (remaining_marked _ _).1, Text.splitLines_ended]
  have hnew : Text.linesBehind ['+', ' '] (diff before after) =
      Text.splitLines (Text.ended after) := by
    rw [linesBehind_diff before after .delete _ fun mark => by cases mark <;> decide,
      (remaining_marked _ _).2, Text.splitLines_ended]
  refine ⟨fun line hm => ?_, hold, hnew, ?_, ?_⟩
  · rw [splitLines_diff, List.mem_map] at hm
    rcases hm with ⟨⟨mark, text⟩, -, rfl⟩
    refine ⟨mark.signChar, ?_, ?_⟩
    · cases mark <;> decide
    · rw [Function.comp_apply, String.toList_ofList, lineChars, List.head?_cons]
  · rw [hold, Text.join_splitLines]
  · rw [hnew, Text.join_splitLines]

end

end Schemata
