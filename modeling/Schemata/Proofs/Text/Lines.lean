import Schemata.Text.Lines
import Mathlib.Data.List.Basic

/-!
# Where Lines Start

What stands in front of the lines of a text.

A lead is put in front of every line of a text by putting it in front of the
parts that the text is made of. That works as long as no part breaks into lines
of its own: what such a part goes on with has nothing in front of it.
`continuation` is what a part goes on with once it stands in a line.

A line feed ends a line wherever it stands, but a carriage return leaves that
to a line feed behind it. So a part that ends in a carriage return goes on
with nothing, if it is the last one of its line.

## Main definitions

* `Text.IsBreak`, `Text.OneLine`: Characters that end lines, and texts without.
* `Text.Breaks`: A text that does not stay on one line.
* `Text.Led`: Every line of a text starts with a lead.
* `Text.continuation`: The lines that a part of a line goes on with.

## Theorems

* `Text.splitChars_append`: Behind a line feed a new line starts.
* `Text.led_join_iff`: The lines of parts that are joined by line feeds.
* `Text.led_line_iff`: The lines of a part behind its lead.
* `Text.exists_lead_of_breaks`: A part that breaks goes on without some lead.
-/

namespace Schemata

namespace Text

/-- The character ends a line. -/
def IsBreak (c : Char) : Prop :=
  c = '\n' ∨ c = '\r'

instance (c : Char) : Decidable (IsBreak c) :=
  inferInstanceAs (Decidable (_ ∨ _))

/-- No character of the text ends a line. -/
def OneLine (text : String) : Prop :=
  ∀ c ∈ text.toList, ¬ IsBreak c

-- The characters of the text are gone through, not all characters that there are.
instance (text : String) : Decidable (OneLine text) :=
  List.decidableBAll (¬ IsBreak ·) text.toList

/-- The text has a line feed, or a carriage return and something behind it. -/
def Breaks (text : String) : Prop :=
  ∃ front c back, text.toList = front ++ c :: back ∧ (c = '\n' ∨ c = '\r' ∧ back ≠ [])

/-- Every line of the text starts with the lead. -/
def Led (lead text : String) : Prop :=
  ∀ line ∈ splitLines text, lead.toList <+: line.toList

instance (lead text : String) : Decidable (Led lead text) :=
  List.decidableBAll (fun line : String => lead.toList <+: line.toList) (splitLines text)

/-- The lines that a text goes on with behind its first one, where it is the end of a line. -/
def continuation (text : String) : List String :=
  (splitLines (text ++ "\n")).tail

/-! ### Texts on one line -/

theorem oneLine_append {a b : String} : OneLine (a ++ b) ↔ OneLine a ∧ OneLine b := by
  rw [OneLine, String.toList_append, List.forall_mem_append]
  exact Iff.rfl

theorem oneLine_ofList (cs : List Char) (h : ∀ c ∈ cs, ¬ IsBreak c) :
    OneLine (String.ofList cs) := by
  rw [OneLine, String.toList_ofList]
  exact h

theorem oneLine_intercalate {sep : String} {parts : List String} (hsep : OneLine sep)
    (h : ∀ part ∈ parts, OneLine part) : OneLine (String.intercalate sep parts) := by
  induction parts with
  | nil => exact fun c hc => absurd hc List.not_mem_nil
  | cons part parts ih =>
      rw [List.forall_mem_cons] at h
      cases parts with
      | nil =>
          rw [String.intercalate_singleton]
          exact h.1
      | cons next parts =>
          rw [String.intercalate_cons_cons, oneLine_append, oneLine_append]
          exact ⟨⟨h.1, hsep⟩, ih h.2⟩

/-- What is joined stands in the whole. -/
theorem infix_intercalate {sep : String} {parts : List String} {part : String}
    (hm : part ∈ parts) : part.toList <:+: (String.intercalate sep parts).toList := by
  induction parts with
  | nil => exact absurd hm List.not_mem_nil
  | cons first parts ih =>
      cases parts with
      | nil =>
          have he : String.intercalate sep [first] = part := by
            rw [String.intercalate_singleton, List.mem_singleton.mp hm]
          exact he ▸ List.infix_rfl
      | cons next parts =>
          rw [String.intercalate_cons_cons, String.toList_append, String.toList_append]
          rcases List.mem_cons.mp hm with rfl | hm
          · exact List.infix_append_of_infix_left List.infix_append_left
          · exact List.infix_append_of_infix_right (ih hm)

/-- Digits end no line. -/
theorem not_isBreak_of_isDigit (c : Char) (h : c.isDigit = true) : ¬ IsBreak c := by
  rintro (rfl | rfl) <;> exact absurd h (by decide)

theorem oneLine_toString (n : Nat) : OneLine (toString n) := by
  rw [Nat.toString_eq_ofList_toDigits]
  exact oneLine_ofList _ fun c hc => not_isBreak_of_isDigit c
    (Nat.isDigit_of_mem_toDigits (by decide) (Nat.le_refl 10) hc)

/-! ### Lines of characters -/

section

variable {current rest : List Char} (c : Char)

theorem splitChars_of_not_break (h : ¬ IsBreak c) :
    splitChars current (c :: rest) = splitChars (c :: current) rest := by
  rw [splitChars, if_neg (show ¬ (c = '\n' ∨ c = '\r') from h)]
  intro _ hc _
  exact h (Or.inr hc)

/-- A break ends the line, unless it is a carriage return with a line feed behind it. -/
theorem splitChars_of_break (h : IsBreak c) (hr : c = '\r' → rest.head? ≠ some '\n') :
    splitChars current (c :: rest) = (c :: current).reverse :: splitChars [] rest := by
  rw [splitChars, if_pos (show c = '\n' ∨ c = '\r' from h)]
  intro rest' hc hrest
  rw [hrest] at hr
  exact hr hc rfl

theorem splitChars_feed :
    splitChars current ('\n' :: rest) = ('\n' :: current).reverse :: splitChars [] rest :=
  splitChars_of_break '\n' (Or.inl rfl) fun h => absurd h (by decide)

end

/-- Where a line has been begun, its beginning is put in front of the first of the lines to
    come, and nothing else changes. -/
theorem exists_splitChars_eq (cs : List Char) (hcs : cs ≠ []) :
    ∃ line lines, ∀ current, splitChars current cs = (current.reverse ++ line) :: lines := by
  induction cs with
  | nil => exact absurd rfl hcs
  | cons c rest ih =>
      by_cases hc : IsBreak c
      · by_cases hr : c = '\r' → rest.head? ≠ some '\n'
        · refine ⟨[c], splitChars [] rest, fun current => ?_⟩
          rw [splitChars_of_break c hc hr, List.reverse_cons]
        · -- A carriage return and a line feed end the line together.
          simp only [ne_eq, Classical.not_imp, not_not] at hr
          rcases hr with ⟨rfl, hhead⟩
          rcases List.head?_eq_some_iff.mp hhead with ⟨rest', rfl⟩
          refine ⟨['\r', '\n'], splitChars [] rest', fun current => ?_⟩
          rw [splitChars, List.reverse_cons, List.reverse_cons, List.append_assoc,
            List.singleton_append]
      · by_cases hrest : rest = []
        · refine ⟨[c], [], fun current => ?_⟩
          rw [splitChars_of_not_break c hc, hrest, splitChars,
            if_neg (List.cons_ne_nil _ _), List.reverse_cons]
        · rcases ih hrest with ⟨line, lines, h⟩
          refine ⟨c :: line, lines, fun current => ?_⟩
          rw [splitChars_of_not_break c hc, h, List.reverse_cons, List.append_assoc,
            List.singleton_append]

/-- Characters that end no line are part of the line that has been begun. -/
theorem splitChars_of_oneLine (current front cs : List Char) (h : ∀ c ∈ front, ¬ IsBreak c) :
    splitChars current (front ++ cs) = splitChars (front.reverse ++ current) cs := by
  induction front generalizing current with
  | nil => rfl
  | cons c front ih =>
      rw [List.forall_mem_cons] at h
      rw [List.cons_append, splitChars_of_not_break c h.1, ih _ h.2, List.reverse_cons,
        List.append_assoc, List.singleton_append]

/-- Behind a line feed a new line starts. -/
theorem splitChars_append (current as bs : List Char) :
    splitChars current (as ++ '\n' :: bs) =
      splitChars current (as ++ ['\n']) ++ splitChars [] bs := by
  induction current, as using splitChars.induct with
  | case1 => rw [List.nil_append, List.nil_append, splitChars_feed, splitChars_feed]; rfl
  | case2 current _ => rw [List.nil_append, List.nil_append, splitChars_feed, splitChars_feed]; rfl
  | case3 current rest ih =>
      rw [List.cons_append, List.cons_append, List.cons_append, List.cons_append, splitChars,
        splitChars, ih, List.cons_append]
  | case4 current c rest hnot hc ih =>
      by_cases hend : c = '\r' ∧ rest = []
      · -- A carriage return at the end goes with the line feed.
        rw [hend.1, hend.2]
        rfl
      · have hhead : ∀ back, c = '\r' → (rest ++ '\n' :: back).head? ≠ some '\n' := by
          intro back hr hh
          cases rest with
          | nil => exact hend ⟨hr, rfl⟩
          | cons d rest => exact hnot rest hr (by rw [Option.some.inj hh])
        rw [List.cons_append, List.cons_append, splitChars_of_break c hc (hhead bs),
          splitChars_of_break c hc (hhead []), ih, List.cons_append]
  | case5 current c rest _ hc ih =>
      rw [List.cons_append, List.cons_append, splitChars_of_not_break c hc,
        splitChars_of_not_break c hc, ih]

/-- A line feed at the end is the end of the last line, if that has no other. -/
theorem exists_splitChars_concat (current as : List Char) (c : Char) (hc : ¬ IsBreak c) :
    ∃ lines line, splitChars current (as ++ [c]) = lines ++ [line] ∧
      splitChars current (as ++ [c] ++ ['\n']) = lines ++ [line ++ ['\n']] := by
  induction current, as using splitChars.induct with
  -- Nothing is left: the character begins the last line, and the line feed ends it.
  | case1 =>
      refine ⟨[], [c], ?_, ?_⟩
      · rw [List.nil_append, splitChars_of_not_break c hc]
        rfl
      · rw [List.nil_append, List.singleton_append, splitChars_of_not_break c hc,
          splitChars_feed]
        rfl
  | case2 current _ =>
      refine ⟨[], (c :: current).reverse, ?_, ?_⟩
      · rw [List.nil_append, splitChars_of_not_break c hc, splitChars,
          if_neg (List.cons_ne_nil _ _), List.nil_append]
      · rw [List.nil_append, List.singleton_append, splitChars_of_not_break c hc,
          splitChars_feed, List.reverse_cons, splitChars, if_pos rfl, List.nil_append]
  -- A carriage return and a line feed end a line together, in front of the last one.
  | case3 current rest ih =>
      rcases ih with ⟨lines, line, h, h'⟩
      refine ⟨('\n' :: '\r' :: current).reverse :: lines, line, ?_, ?_⟩
      · rw [List.cons_append, List.cons_append, splitChars, h, List.cons_append]
      · rw [List.cons_append, List.cons_append, List.cons_append, List.cons_append, splitChars, h',
          List.cons_append]
  | case4 current d rest hnot hd ih =>
      rcases ih with ⟨lines, line, h, h'⟩
      -- What is put behind does not make this break a pair of both.
      have hhead : ∀ back, d = '\r' → (rest ++ [c] ++ back).head? ≠ some '\n' := by
        intro back hr hh
        cases rest with
        | nil => exact hc (Or.inl (Option.some.inj hh))
        | cons d' rest => exact hnot rest hr (by rw [Option.some.inj hh])
      refine ⟨(d :: current).reverse :: lines, line, ?_, ?_⟩
      · have hplain := hhead []
        rw [List.append_nil] at hplain
        rw [List.cons_append, splitChars_of_break d hd hplain, h, List.cons_append]
      · rw [List.cons_append, List.cons_append, splitChars_of_break d hd (hhead ['\n']), h',
          List.cons_append]
  | case5 current d rest _ hd ih =>
      rcases ih with ⟨lines, line, h, h'⟩
      refine ⟨lines, line, ?_, ?_⟩
      · rw [List.cons_append, splitChars_of_not_break d hd, h]
      · rw [List.cons_append, List.cons_append, splitChars_of_not_break d hd, h']

/-! ### Leads -/

section

variable (lead : String)

theorem led_iff (text : String) :
    Led lead text ↔ ∀ cs ∈ splitChars [] text.toList, lead.toList <+: cs := by
  rw [Led, splitLines, List.forall_mem_map]
  simp only [String.toList_ofList]

theorem led_append_iff (a b : String) :
    Led lead (a ++ "\n" ++ b) ↔ Led lead (a ++ "\n") ∧ Led lead b := by
  have hfeed : "\n".toList = ['\n'] := rfl
  rw [led_iff, led_iff, led_iff, String.toList_append, String.toList_append, hfeed,
    List.append_assoc, List.singleton_append, splitChars_append, List.forall_mem_append]

/-- Whether the last line is ended does not matter. -/
theorem led_ended_iff (hlead : OneLine lead) (text : String) (c : Char)
    (hc : text.toList.getLast? = some c) (hb : ¬ IsBreak c) :
    Led lead text ↔ Led lead (text ++ "\n") := by
  rcases List.getLast?_eq_some_iff.mp hc with ⟨as, has⟩
  rcases exists_splitChars_concat [] as c hb with ⟨lines, line, h, h'⟩
  have hfeed : "\n".toList = ['\n'] := rfl
  -- The lead cannot reach as far as the line feed.
  have hline : lead.toList <+: line ↔ lead.toList <+: line ++ ['\n'] := by
    rw [List.prefix_concat_iff]
    refine ⟨Or.inr, fun hp => hp.resolve_left fun he => ?_⟩
    refine hlead '\n' ?_ (Or.inl rfl)
    rw [he]
    exact List.mem_append_right _ (List.mem_singleton_self _)
  rw [led_iff, led_iff, String.toList_append, hfeed, has, h, h', List.forall_mem_append,
    List.forall_mem_append, List.forall_mem_singleton, List.forall_mem_singleton, hline]

/-- Parts that are joined by line feeds have the lead in front of every line if each of them
    has. -/
theorem led_join_iff (hlead : OneLine lead) (parts : List String) (last : String) (c : Char)
    (hlast : parts.getLast? = some last) (hc : last.toList.getLast? = some c) (hb : ¬ IsBreak c) :
    Led lead (String.intercalate "\n" parts) ↔ ∀ part ∈ parts, Led lead (part ++ "\n") := by
  -- On the parts. Each but the last is ended by the line feed that joins it to the next.
  induction parts with
  | nil => exact nomatch hlast
  | cons part parts ih =>
      cases parts with
      | nil =>
          rw [List.getLast?_singleton, Option.some.injEq] at hlast
          rw [String.intercalate_singleton, List.forall_mem_singleton, hlast]
          exact led_ended_iff lead hlead last c hc hb
      | cons next parts =>
          rw [List.getLast?_cons_cons] at hlast
          rw [String.intercalate_cons_cons, led_append_iff, ih hlast,
            List.forall_mem_cons (a := part)]

/-- Behind its lead a part has the lead in front of every line if it goes on only with lines
    that have. -/
theorem led_line_iff (blanks text : String) (hlead : OneLine (lead ++ blanks)) :
    Led lead (lead ++ blanks ++ text ++ "\n") ↔
      ∀ line ∈ continuation text, lead.toList <+: line.toList := by
  have hfeed : "\n".toList = ['\n'] := rfl
  rcases exists_splitChars_eq (text ++ "\n").toList (by
    rw [String.toList_append, hfeed]
    exact List.append_ne_nil_of_right_ne_nil _ (List.cons_ne_nil _ _)) with ⟨line, lines, h⟩
  have hcont : continuation text = lines.map String.ofList := by
    rw [continuation, splitLines, h, List.map_cons, List.tail_cons]
  have hwhole : (lead ++ blanks ++ text ++ "\n").toList =
      (lead ++ blanks).toList ++ (text ++ "\n").toList := by
    rw [← String.toList_append, ← String.append_assoc]
  -- The first line begins with the lead by itself, so only the others are left.
  have hfirst : lead.toList <+: (lead ++ blanks).toList ++ line := by
    rw [String.toList_append, List.append_assoc]
    exact List.prefix_append _ _
  rw [led_iff, hwhole, splitChars_of_oneLine [] _ _ hlead, h, List.append_nil,
    List.reverse_reverse, hcont, List.forall_mem_map, List.forall_mem_cons]
  simp only [String.toList_ofList]
  exact ⟨fun hall => hall.2, fun hall => ⟨hfirst, hall⟩⟩

end

/-! ### Parts that break -/

/-- A text without breaks goes on with nothing. -/
theorem continuation_of_oneLine (text : String) (h : OneLine text) : continuation text = [] := by
  have hfeed : "\n".toList = ['\n'] := rfl
  rw [continuation, splitLines, String.toList_append, hfeed, splitChars_of_oneLine [] _ _ h,
    splitChars_feed]
  rfl

/-- There are no fewer lines where something stands in front. -/
theorem length_splitChars_le (current front cs : List Char) :
    (splitChars [] cs).length ≤ (splitChars current (front ++ cs)).length := by
  induction front generalizing current with
  | nil =>
      by_cases hcs : cs = []
      · rw [hcs, splitChars, if_pos rfl]
        exact Nat.zero_le _
      · rcases exists_splitChars_eq cs hcs with ⟨line, lines, h⟩
        have he : (splitChars [] cs).length = (splitChars current ([] ++ cs)).length := by
          rw [List.nil_append, h, h, List.length_cons, List.length_cons]
        exact Nat.le_of_eq he
  | cons c front ih =>
      rw [List.cons_append]
      by_cases hc : IsBreak c
      · by_cases hr : c = '\r' → (front ++ cs).head? ≠ some '\n'
        · rw [splitChars_of_break c hc hr, List.length_cons]
          exact Nat.le_succ_of_le (ih [])
        · -- The line feed would have ended a line by itself.
          simp only [ne_eq, Classical.not_imp, not_not] at hr
          rcases hr with ⟨rfl, hhead⟩
          rcases List.head?_eq_some_iff.mp hhead with ⟨rest, hrest⟩
          have hle := ih []
          rw [hrest, splitChars_feed, List.length_cons] at hle
          rw [hrest, splitChars, List.length_cons]
          exact hle
      · rw [splitChars_of_not_break c hc]
        exact ih (c :: current)

/-- What breaks does so wherever in a text it stands. -/
theorem Breaks.of_infix (text whole : String) (h : Breaks text)
    (hi : text.toList <:+: whole.toList) : Breaks whole := by
  rcases h with ⟨front, c, back, ht, hc⟩
  rcases hi with ⟨before, behind, hw⟩
  refine ⟨before ++ front, c, back ++ behind, ?_, ?_⟩
  · rw [← hw, ht, List.append_assoc, List.append_assoc, List.append_assoc, List.cons_append]
  · refine hc.imp_right fun hr => ⟨hr.1, ?_⟩
    exact List.append_ne_nil_of_left_ne_nil hr.2 _

theorem length_splitChars_pos (cs : List Char) (h : cs ≠ []) : 0 < (splitChars [] cs).length := by
  rcases exists_splitChars_eq cs h with ⟨line, lines, hl⟩
  rw [hl, List.length_cons]
  exact Nat.succ_pos _

theorem Breaks.continuation_ne_nil (text : String) (h : Breaks text) : continuation text ≠ [] := by
  rcases h with ⟨front, c, back, ht, hc⟩
  have hfeed : "\n".toList = ['\n'] := rfl
  have hend : ∀ cs : List Char, cs ++ ['\n'] ≠ [] := fun cs =>
    List.append_ne_nil_of_right_ne_nil _ (List.cons_ne_nil _ _)
  -- There is a line that the break ends, and one behind it.
  have htwo : 1 < (splitChars [] (c :: (back ++ ['\n']))).length := by
    rcases hc with rfl | ⟨rfl, hne⟩
    · rw [splitChars_feed, List.length_cons]
      exact Nat.succ_lt_succ (length_splitChars_pos _ (hend back))
    · cases back with
      | nil => exact absurd rfl hne
      | cons d back =>
          by_cases hd : d = '\n'
          · rw [hd, List.cons_append, splitChars, List.length_cons]
            exact Nat.succ_lt_succ (length_splitChars_pos _ (hend back))
          · have hhead : (d :: back ++ ['\n']).head? ≠ some '\n' := by
              intro hh
              exact hd (Option.some.inj hh)
            rw [splitChars_of_break _ (Or.inr rfl) fun _ => hhead, List.length_cons]
            exact Nat.succ_lt_succ (length_splitChars_pos _ (hend (d :: back)))
  have hle := length_splitChars_le [] front (c :: (back ++ ['\n']))
  intro hnil
  have hlen := congrArg List.length hnil
  rw [continuation, splitLines, String.toList_append, hfeed, ht, List.append_assoc,
    List.cons_append, List.length_tail, List.length_map, List.length_nil] at hlen
  omega

/-- A text that breaks goes on with a line that does not start with some lead. -/
theorem exists_lead_of_breaks (text : String) (h : Breaks text) : ∃ lead, OneLine lead ∧
    ∃ line ∈ continuation text, ¬ lead.toList <+: line.toList := by
  rcases List.exists_mem_of_ne_nil _ (h.continuation_ne_nil text) with ⟨line, hm⟩
  -- A lead that is longer than the line will do.
  refine ⟨String.ofList (List.replicate (line.toList.length + 1) '#'), ?_, line, hm, ?_⟩
  · intro c hc
    rw [String.toList_ofList, List.mem_replicate] at hc
    rw [hc.2]
    decide
  · intro hp
    have hle := hp.length_le
    rw [String.toList_ofList, List.length_replicate] at hle
    exact absurd hle (Nat.not_succ_le_self _)

end Text

end Schemata
