import Schemata.Proofs.Text.Lines

/-!
# Where Lines End

What a text is made of, and how texts are put together from lines.

A text is its lines one behind the other, and all but the last of them are
ended. To end the text is to end its last line, so a text and the same text
ended have the same lines otherwise. Lines that are put one behind the other
are told apart again, as long as none of them begins with a line feed: that
would go with a carriage return in front of it.

## Main definitions

* `Text.ended`: A text with the end of its last line.
* `Text.EndedLine`: The characters of a line, with its end.
* `Text.linesBehind`: The lines of a text that have some sign in front.

## Theorems

* `Text.splitChars_lines`: The lines are all there is, and all but the last one are ended.
* `Text.join_splitLines`: A text is its lines one behind the other.
* `Text.splitLines_ended`: Ending a text ends its last line.
* `Text.splitLines_join`: Lines that are put together are told apart again.
-/

namespace Schemata

namespace Text

/-- The text, with a line feed at its end unless it ends in a break or is empty. -/
def ended (text : String) : String :=
  if text = "" ∨ isTerminated text = true then text else text ++ "\n"

/-- Characters without breaks, and then what ends a line. -/
def EndedLine (line : List Char) : Prop :=
  ∃ body ending, line = body ++ ending ∧ (∀ c ∈ body, ¬ IsBreak c) ∧
    (ending = ['\n'] ∨ ending = ['\r', '\n'] ∨ ending = ['\r'])

/-- The lines of a text that start with one of some signs, without it. -/
def linesBehind (signs : List Char) (text : String) : List String :=
  (splitLines text).filterMap fun line =>
    match line.toList with
    | [] => none
    | sign :: rest => if sign ∈ signs then some (String.ofList rest) else none

/-! ### The lines of a text -/

/-- The lines are all there is, and all but the last one are ended. -/
theorem splitChars_lines (current cs : List Char) (h : ∀ c ∈ current, ¬ IsBreak c) :
    ∃ lines last, splitChars current cs = lines ++ (if last = [] then [] else [last]) ∧
      current.reverse ++ cs = lines.flatten ++ last ∧
      (∀ line ∈ lines, EndedLine line) ∧ ∀ c ∈ last, ¬ IsBreak c := by
  have hbody : ∀ c ∈ current.reverse, ¬ IsBreak c := fun c hc => h c (List.mem_reverse.mp hc)
  -- Along the recursion: what was read of the line so far has no break in it.
  induction current, cs using splitChars.induct with
  | case1 => exact ⟨[], [], rfl, rfl, List.forall_mem_nil _, h⟩
  | case2 current hne =>
      refine ⟨[], current.reverse, ?_, ?_, List.forall_mem_nil _, hbody⟩
      · rw [splitChars, if_neg hne, if_neg (mt List.reverse_eq_nil_iff.mp hne), List.nil_append]
      · rw [List.append_nil, List.flatten_nil, List.nil_append]
  -- Both characters end one line.
  | case3 current rest ih =>
      rcases ih (List.forall_mem_nil _) (List.forall_mem_nil _) with ⟨lines, last, hs, hj, hl, ho⟩
      refine ⟨(current.reverse ++ ['\r', '\n']) :: lines, last, ?_, ?_, ?_, ho⟩
      · rw [splitChars, hs, List.reverse_cons, List.reverse_cons, List.append_assoc,
          List.singleton_append, List.cons_append]
      · rw [List.flatten_cons, List.append_assoc, ← hj, List.reverse_nil, List.nil_append,
          List.append_assoc]
        rfl
      · exact List.forall_mem_cons.mpr ⟨⟨_, _, rfl, hbody, Or.inr (Or.inl rfl)⟩, hl⟩
  -- One of them ends it alone, as they are not met together.
  | case4 current c rest hnot hc ih =>
      rcases ih (List.forall_mem_nil _) (List.forall_mem_nil _) with ⟨lines, last, hs, hj, hl, ho⟩
      have hhead : c = '\r' → rest.head? ≠ some '\n' := by
        intro hr hh
        rcases List.head?_eq_some_iff.mp hh with ⟨rest', hrest⟩
        exact hnot rest' hr hrest
      refine ⟨(current.reverse ++ [c]) :: lines, last, ?_, ?_, ?_, ho⟩
      · rw [splitChars_of_break c hc hhead, hs, List.reverse_cons, List.cons_append]
      · rw [List.flatten_cons, List.append_assoc, ← hj, List.reverse_nil, List.nil_append,
          List.append_assoc, List.singleton_append]
      · refine List.forall_mem_cons.mpr ⟨⟨_, _, rfl, hbody, ?_⟩, hl⟩
        rcases hc with rfl | rfl
        · exact Or.inl rfl
        · exact Or.inr (Or.inr rfl)
  | case5 current c rest _ hc ih =>
      have hcs : ∀ d ∈ c :: current, ¬ IsBreak d := List.forall_mem_cons.mpr ⟨hc, h⟩
      rcases ih hcs (fun d hd => hcs d (List.mem_reverse.mp hd)) with ⟨lines, last, hs, hj, hl, ho⟩
      refine ⟨lines, last, ?_, ?_, hl, ho⟩
      · rw [splitChars_of_not_break c hc, hs]
      · rw [← hj, List.reverse_cons, List.append_assoc, List.singleton_append]

/-- The lines of a text: those that are ended, and what is left behind them. -/
theorem splitLines_lines (text : String) : ∃ lines last,
    splitLines text = (lines ++ if last = [] then [] else [last]).map String.ofList ∧
      text.toList = lines.flatten ++ last ∧
      (∀ line ∈ lines, EndedLine line) ∧ ∀ c ∈ last, ¬ IsBreak c := by
  rcases splitChars_lines [] text.toList (List.forall_mem_nil _) with
    ⟨lines, last, hs, hj, hl, ho⟩
  exact ⟨lines, last, congrArg (List.map String.ofList) hs, hj, hl, ho⟩

theorem join_map_ofList (lines : List (List Char)) :
    String.join (lines.map String.ofList) = String.ofList lines.flatten := by
  refine String.toList_injective ?_
  rw [String.toList_ofList, String.toList_join, List.flatMap_map, List.flatten_eq_flatMap]
  exact List.flatMap_congr fun line _ => String.toList_ofList

/-- A text is its lines one behind the other. -/
theorem join_splitLines (text : String) : String.join (splitLines text) = text := by
  rcases splitLines_lines text with ⟨lines, last, hs, hj, -, -⟩
  have hlast : (if last = [] then [] else [last]).flatten = last := by
    split
    · next hnil => rw [hnil, List.flatten_nil]
    · rw [List.flatten_singleton]
  rw [hs, join_map_ofList, List.flatten_append, hlast, ← hj, String.ofList_toList]

/-! ### Ends of lines -/

theorem EndedLine.ne_nil {line : List Char} (h : EndedLine line) : line ≠ [] := by
  rcases h with ⟨body, ending, rfl, -, rfl | rfl | rfl⟩ <;>
    exact List.append_ne_nil_of_right_ne_nil _ (List.cons_ne_nil _ _)

/-- What ends in an ended line is terminated. -/
theorem isTerminated_of_endedLine (front line : List Char) (h : EndedLine line) :
    isTerminated (String.ofList (front ++ line)) = true := by
  rcases h with ⟨body, ending, rfl, -, rfl | rfl | rfl⟩ <;>
    · rw [isTerminated, String.toList_ofList, List.getLast?_append, List.getLast?_append]
      rfl

/-- What ends in a character that is no break is not terminated. -/
theorem not_isTerminated_of_oneLine (front last : List Char) (hne : last ≠ [])
    (h : ∀ c ∈ last, ¬ IsBreak c) : ¬ isTerminated (String.ofList (front ++ last)) = true := by
  have hb := h _ (List.getLast_mem hne)
  rw [isTerminated, String.toList_ofList, List.getLast?_append,
    List.getLast?_eq_getLast_of_ne_nil hne, Option.some_or, Option.any_some, Bool.or_eq_true,
    beq_iff_eq, beq_iff_eq]
  exact hb

theorem ended_of_endedLine (front line : List Char) (h : EndedLine line) :
    ended (String.ofList (front ++ line)) = String.ofList (front ++ line) :=
  if_pos (Or.inr (isTerminated_of_endedLine front line h))

theorem ended_of_oneLine (front last : List Char) (hne : last ≠ [])
    (h : ∀ c ∈ last, ¬ IsBreak c) :
    ended (String.ofList (front ++ last)) = String.ofList (front ++ last ++ ['\n']) := by
  have hempty : String.ofList (front ++ last) ≠ "" := by
    rw [ne_eq, String.ofList_eq_empty_iff]
    exact List.append_ne_nil_of_right_ne_nil _ hne
  rw [ended, if_neg (not_or.mpr ⟨hempty, not_isTerminated_of_oneLine front last hne h⟩)]
  exact String.ofList_append.symm

/-- Ended lines stay as they are. -/
theorem map_ended_of_endedLine (lines : List (List Char)) (h : ∀ line ∈ lines, EndedLine line) :
    (lines.map String.ofList).map ended = lines.map String.ofList := by
  rw [List.map_map]
  exact List.map_congr_left fun line hm => ended_of_endedLine [] line (h line hm)

/-- Ending a text ends its last line. -/
theorem splitLines_ended (text : String) :
    splitLines (ended text) = (splitLines text).map ended := by
  rcases splitChars_lines [] text.toList (List.forall_mem_nil _) with
    ⟨lines, last, hs, hj, hl, ho⟩
  rw [List.reverse_nil, List.nil_append] at hj
  have htext : text = String.ofList (lines.flatten ++ last) := by rw [← hj, String.ofList_toList]
  rcases List.eq_nil_or_concat' last with rfl | ⟨front, c, rfl⟩
  · -- There is nothing to be ended.
    have hsame : ended text = text := by
      rcases List.eq_nil_or_concat' lines with rfl | ⟨front, line, rfl⟩
      · rw [htext]
        rfl
      · rw [List.forall_mem_append, List.forall_mem_singleton] at hl
        rw [htext, List.append_nil, List.flatten_append, List.flatten_singleton]
        exact ended_of_endedLine _ line hl.2
    rw [if_pos rfl, List.append_nil] at hs
    rw [hsame, splitLines, hs, map_ended_of_endedLine lines hl]
  · -- The last line is the one that gets the line feed.
    have hne : front ++ [c] ≠ [] := List.append_ne_nil_of_right_ne_nil _ (List.cons_ne_nil _ _)
    rcases exists_splitChars_concat [] (lines.flatten ++ front) c
      (ho c (List.mem_append_right _ (List.mem_singleton_self _))) with ⟨lines', line', h, h'⟩
    rw [List.append_assoc, ← hj, hs, if_neg hne] at h
    rcases List.append_singleton_inj.mp h with ⟨rfl, rfl⟩
    have hended : (ended text).toList = lines.flatten ++ front ++ [c] ++ ['\n'] := by
      rw [htext, ended_of_oneLine _ _ hne ho, String.toList_ofList, List.append_assoc _ front]
    have hlast : ended (String.ofList (front ++ [c])) = String.ofList (front ++ [c] ++ ['\n']) :=
      ended_of_oneLine [] _ hne ho
    rw [splitLines, hended, h', splitLines, hs, if_neg hne, List.map_append, List.map_append,
      List.map_append, map_ended_of_endedLine lines hl, List.map_singleton, List.map_singleton,
      List.map_singleton, hlast]

/-- A line of a text is not empty, and has its end once it is ended. -/
theorem endedLine_of_mem (text line : String) (hm : line ∈ splitLines text) :
    line ≠ "" ∧ EndedLine (ended line).toList := by
  rcases splitLines_lines text with ⟨lines, last, hs, -, hl, ho⟩
  rw [hs, List.mem_map] at hm
  rcases hm with ⟨cs, hcs, rfl⟩
  rcases List.mem_append.mp hcs with hcs | hcs
  · -- One of the lines in front, which has its end.
    have hended : ended (String.ofList cs) = String.ofList cs :=
      ended_of_endedLine [] cs (hl cs hcs)
    rw [hended, String.toList_ofList]
    exact ⟨mt String.ofList_eq_empty_iff.mp (hl cs hcs).ne_nil, hl cs hcs⟩
  · -- The last one, which gets its end, if there is one.
    by_cases hlast : last = []
    · rw [if_pos hlast] at hcs
      exact absurd hcs List.not_mem_nil
    · rw [if_neg hlast, List.mem_singleton] at hcs
      have hended : ended (String.ofList last) = String.ofList (last ++ ['\n']) :=
        ended_of_oneLine [] last hlast ho
      rw [hcs, hended, String.toList_ofList]
      exact ⟨mt String.ofList_eq_empty_iff.mp hlast, last, ['\n'], rfl, ho, Or.inl rfl⟩

/-! ### Lines put together -/

/-- Behind an ended line the lines of the rest come, unless the rest begins with a line feed. -/
theorem splitChars_endedLine (line cs : List Char) (h : EndedLine line)
    (hcs : cs.head? ≠ some '\n') : splitChars [] (line ++ cs) = line :: splitChars [] cs := by
  rcases h with ⟨body, ending, rfl, hbody, hend⟩
  rw [List.append_assoc, splitChars_of_oneLine [] body _ hbody, List.append_nil]
  rcases hend with rfl | rfl | rfl
  · rw [List.singleton_append, splitChars_feed, List.reverse_cons, List.reverse_reverse]
  · rw [List.cons_append, List.singleton_append, splitChars, List.reverse_cons, List.reverse_cons,
      List.reverse_reverse, List.append_assoc, List.singleton_append]
  · rw [List.singleton_append, splitChars_of_break _ (Or.inr rfl) fun _ => hcs,
      List.reverse_cons, List.reverse_reverse]

/-- Lines that are put together are told apart again. -/
theorem splitLines_join (lines : List (List Char)) (h : ∀ line ∈ lines, EndedLine line)
    (hh : ∀ line ∈ lines, line.head? ≠ some '\n') :
    splitLines (String.join (lines.map String.ofList)) = lines.map String.ofList := by
  rw [join_map_ofList, splitLines, String.toList_ofList]
  congr 1
  induction lines with
  | nil => rfl
  | cons line lines ih =>
      rw [List.forall_mem_cons] at h hh
      -- The line behind does not begin with a line feed, which could belong to the end of this one.
      have hhead : lines.flatten.head? ≠ some '\n' := by
        cases lines with
        | nil => exact (Option.some_ne_none _).symm
        | cons next lines =>
            have hne := (h.2 next List.mem_cons_self).ne_nil
            rw [List.flatten_cons, List.head?_append_of_ne_nil _ hne]
            exact hh.2 next List.mem_cons_self
      rw [List.flatten_cons, splitChars_endedLine line _ h.1 hhead, ih h.2 hh.2]

end Text

end Schemata
