import Mathlib.Data.List.DropRight
import Schemata.Editing

/-!
# Paths as Texts

Which paths can be written down, and what becomes of a text that is read as one.

A text has its names between dots and may have blanks around each of them.
Reading it drops the blanks, so what is read has trimmed names without dots
(`FieldPath.Regular`), empty ones among them. The text of such a path begins and
ends with a name or with a dot. Nothing can be trimmed from it, and it is divided
where its names have been joined, so it is read as the same path again.

Not every list of names is a path that can be written. The one empty name has no
text of its own: nothing at all is the text of the root.

## Main definitions

* `Text.Trimmed`: No blank stands at either end.
* `FieldPath.Regular`: The paths that a text can say.

## Theorems

* `Text.trimChars_eq_self_iff`: What trimming leaves alone.
* `FieldPath.regular_parse`: What is read is regular.
* `FieldPath.trimChars_text`, `FieldPath.splitOn_text`: What is found in the text of
  a regular path.
* `FieldPath.parse_text_of_regular`: A regular path is read back.
* `FieldPath.texts_stable`: Paths and their texts.
-/

namespace Schemata

/-! ### Trimmed texts -/

namespace Text

/-- No blank stands at either end. -/
def Trimmed (cs : List Char) : Prop :=
  (∀ c ∈ cs.head?, isBlank c = false) ∧ ∀ c ∈ cs.getLast?, isBlank c = false

theorem trimmed_nil : Trimmed [] :=
  ⟨nofun, nofun⟩

/-- Trimming drops blanks in front, and then blanks at the end. -/
theorem trimChars_eq (cs : List Char) : trimChars cs = (skipBlanks cs).rdropWhile isBlank :=
  rfl

theorem head?_skipBlanks (cs : List Char) : ∀ c ∈ (skipBlanks cs).head?, isBlank c = false := by
  intro c hc
  have hhead := List.head?_dropWhile_not isBlank cs
  rw [skipBlanks, Option.mem_def] at hc
  rwa [hc] at hhead

theorem skipBlanks_of_head? (cs : List Char) (h : ∀ c ∈ cs.head?, isBlank c = false) :
    skipBlanks cs = cs := by
  rcases cs with _ | ⟨c, cs⟩
  · rfl
  · have hc : ¬ isBlank c = true := Bool.not_eq_true _ ▸ h c rfl
    rw [skipBlanks, List.dropWhile_cons_of_neg hc]

theorem trimmed_trimChars (cs : List Char) : Trimmed (trimChars cs) := by
  constructor
  · intro c hc
    -- What is left begins as it did before blanks were dropped at its end.
    rcases List.rdropWhile_prefix isBlank (skipBlanks cs) with ⟨dropped, hdropped⟩
    refine head?_skipBlanks cs c ?_
    rw [← hdropped, List.head?_append, ← trimChars_eq, Option.mem_def.mp hc]
    rfl
  · rw [trimChars, List.getLast?_reverse]
    exact head?_skipBlanks _

/-- Trimming leaves alone what has no blank at either end. -/
theorem trimChars_eq_self_iff (cs : List Char) : trimChars cs = cs ↔ Trimmed cs := by
  constructor
  · intro h
    rw [← h]
    exact trimmed_trimChars cs
  · rintro ⟨hhead, hlast⟩
    rw [← List.head?_reverse] at hlast
    rw [trimChars, skipBlanks_of_head? cs hhead, skipBlanks_of_head? cs.reverse hlast,
      List.reverse_reverse]

theorem trim_eq_self_iff (text : String) : trim text = text ↔ Trimmed text.toList := by
  rw [← trimChars_eq_self_iff, ← String.toList_inj, trim, String.toList_ofList]

/-- Nothing is left of blanks alone. -/
theorem trimChars_eq_nil_iff (cs : List Char) :
    trimChars cs = [] ↔ ∀ c ∈ cs, isBlank c = true := by
  rw [trimChars_eq, List.rdropWhile_eq_nil_iff, ← List.dropWhile_eq_nil_iff, skipBlanks,
    List.dropWhile_idempotent, List.dropWhile_eq_nil_iff]

theorem trimChars_subset (cs : List Char) : trimChars cs ⊆ cs :=
  List.Subset.trans (List.rdropWhile_prefix isBlank (skipBlanks cs)).subset
    (List.dropWhile_suffix isBlank).subset

end Text

/-! ### Names between dots -/

/-- What stands between two marks holds none. -/
theorem not_mem_of_mem_splitOn (mark : Char) (cs : List Char) :
    ∀ part ∈ cs.splitOn mark, mark ∉ part := by
  -- On the text. A mark begins a new part, and any other character goes to the first one.
  induction cs with
  | nil =>
      rw [List.splitOn_nil, List.forall_mem_singleton]
      exact List.not_mem_nil
  | cons c cs ih =>
      rw [List.splitOn_cons_eq_if_modifyHead]
      rcases hsplit : cs.splitOn mark with _ | ⟨first, rest⟩
      · exact absurd hsplit (List.splitOn_ne_nil mark cs)
      rw [hsplit, List.forall_mem_cons] at ih
      split
      · exact List.forall_mem_cons.mpr ⟨List.not_mem_nil, List.forall_mem_cons.mpr ih⟩
      · next hc =>
          refine List.forall_mem_cons.mpr ⟨fun hm => ?_, ih.2⟩
          rcases List.mem_cons.mp hm with rfl | hm
          · exact hc (beq_self_eq_true mark)
          · exact ih.1 hm

/-- Trimmed texts are trimmed when a dot stands between them, also if they are empty. -/
theorem trimmed_join (as bs : List Char) (ha : Text.Trimmed as) (hb : Text.Trimmed bs) :
    Text.Trimmed (as ++ '.' :: bs) := by
  have hdot : Text.isBlank '.' = false := by decide
  constructor
  · rcases as with _ | ⟨a, as⟩
    · exact fun c hc => Option.some.inj hc ▸ hdot
    · exact ha.1
  · rw [List.getLast?_append_cons]
    rcases bs with _ | ⟨b, bs⟩
    · exact fun c hc => Option.some.inj hc ▸ hdot
    · rw [List.getLast?_cons_cons]
      exact hb.2

theorem trimmed_intercalate (parts : List (List Char)) (h : ∀ part ∈ parts, Text.Trimmed part) :
    Text.Trimmed (['.'].intercalate parts) := by
  induction parts with
  | nil => exact Text.trimmed_nil
  | cons first rest ih =>
      rw [List.forall_mem_cons] at h
      rcases rest with _ | ⟨second, rest⟩
      · rw [List.intercalate_singleton]
        exact h.1
      · rw [List.intercalate_cons_cons, List.append_assoc]
        exact trimmed_join _ _ h.1 (ih h.2)

/-! ### Paths -/

namespace FieldPath

/-- The paths that a text can say. -/
structure Regular (path : FieldPath) : Prop where
  /-- The names are trimmed. -/
  trimmed : ∀ segment ∈ path.segments, Text.trim segment = segment
  /-- There are no dots in them. -/
  dotless : ∀ segment ∈ path.segments, '.' ∉ segment.toList
  /-- They are not one empty name. -/
  ne_empty : path.segments ≠ [""]

theorem parse_of_trimChars_eq_nil (text : String) (h : Text.trimChars text.toList = []) :
    parse text = root := by
  rw [parse, h]

theorem parse_of_trimChars_ne_nil (text : String) (h : Text.trimChars text.toList ≠ []) :
    parse text = ⟨((Text.trimChars text.toList).splitOn '.').map
      fun segment => String.ofList (Text.trimChars segment)⟩ := by
  unfold parse
  split
  · next hnil => exact absurd hnil h
  · rfl

/-- A text says the root exactly if it consists of blanks. -/
theorem parse_eq_root_iff (text : String) :
    parse text = root ↔ ∀ c ∈ text.toList, Text.isBlank c = true := by
  rw [← Text.trimChars_eq_nil_iff]
  refine ⟨fun h => ?_, parse_of_trimChars_eq_nil text⟩
  by_contra hne
  rw [parse_of_trimChars_ne_nil text hne, root, mk.injEq, List.map_eq_nil_iff] at h
  exact List.splitOn_ne_nil _ _ h

/-- What is read is regular. -/
theorem regular_parse (text : String) : (parse text).Regular := by
  by_cases hnil : Text.trimChars text.toList = []
  · rw [parse_of_trimChars_eq_nil text hnil]
    exact ⟨nofun, nofun, nofun⟩
  rw [parse_of_trimChars_ne_nil text hnil]
  constructor
  · intro segment hm
    rcases List.mem_map.mp hm with ⟨part, _, rfl⟩
    rw [Text.trim_eq_self_iff, String.toList_ofList]
    exact Text.trimmed_trimChars part
  · intro segment hm
    rcases List.mem_map.mp hm with ⟨part, hpart, rfl⟩
    rw [String.toList_ofList]
    exact fun hdot => not_mem_of_mem_splitOn '.' _ part hpart (Text.trimChars_subset part hdot)
  · intro hempty
    -- A single name is the whole text, and that is trimmed and not empty.
    rcases List.map_eq_singleton_iff.mp hempty with ⟨part, hsplit, hpart⟩
    have hwhole : ['.'].intercalate ((Text.trimChars text.toList).splitOn '.') =
        Text.trimChars text.toList := List.intercalate_splitOn '.'
    rw [hsplit, List.intercalate_singleton] at hwhole
    rw [hwhole, (Text.trimChars_eq_self_iff _).mpr (Text.trimmed_trimChars _),
      ← String.toList_inj, String.toList_ofList] at hpart
    exact hnil hpart

theorem toList_text (path : FieldPath) :
    path.text.toList = ['.'].intercalate (path.segments.map String.toList) :=
  String.toList_intercalate

section

variable (path : FieldPath) (h : path.Regular) (hne : path.segments ≠ [])

include h

/-- The text of a regular path begins and ends with a name or with a dot. -/
theorem trimChars_text : Text.trimChars path.text.toList = path.text.toList := by
  rw [Text.trimChars_eq_self_iff, toList_text]
  refine trimmed_intercalate _ (List.forall_mem_map.mpr fun segment hm => ?_)
  exact (Text.trim_eq_self_iff segment).mp (h.trimmed segment hm)

include hne

/-- The text is divided where names have been joined. -/
theorem splitOn_text : path.text.toList.splitOn '.' = path.segments.map String.toList := by
  rw [toList_text]
  exact List.splitOn_intercalate '.' (List.forall_mem_map.mpr h.dotless)
    fun hnil => hne (List.map_eq_nil_iff.mp hnil)

/-- Only the root and one empty name would have no text. -/
theorem text_ne_nil : path.text.toList ≠ [] := by
  intro hnil
  have hsplit := path.splitOn_text h hne
  rw [hnil, List.splitOn_nil, eq_comm, List.map_eq_singleton_iff] at hsplit
  rcases hsplit with ⟨segment, hone, hempty⟩
  rw [String.toList_inj.mp (hempty.trans String.toList_empty.symm)] at hone
  exact h.ne_empty hone

end

/-- A regular path is read back from its text. -/
theorem parse_text_of_regular (path : FieldPath) (h : path.Regular) : parse path.text = path := by
  by_cases hroot : path.segments = []
  · have hpath : path = root := congrArg mk hroot
    rw [hpath]
    rfl
  · have htrim := path.trimChars_text h
    have hne := path.text_ne_nil h hroot
    rw [parse_of_trimChars_ne_nil _ (htrim.symm ▸ hne), htrim, path.splitOn_text h hroot,
      List.map_map]
    exact congrArg mk ((List.map_congr_left h.trimmed).trans (List.map_id path.segments))

/-- Paths and their texts. A path that was read from a text is read again from its own. The paths
    that are read back are those of trimmed names without dots, one empty name excepted, and the
    path of no names is among them. Blanks alone say the root, and no other text does. -/
theorem texts_stable :
    (∀ text, parse (parse text).text = parse text) ∧
    (∀ path : FieldPath, parse path.text = path ↔ path.Regular) ∧
    ∀ text, parse text = root ↔ ∀ c ∈ text.toList, Text.isBlank c = true := by
  refine ⟨fun text => ?_, fun path => ⟨fun h => ?_, path.parse_text_of_regular⟩,
    parse_eq_root_iff⟩
  · exact parse_text_of_regular _ (regular_parse text)
  · rw [← h]
    exact regular_parse _

/-- Blanks are dropped around names but not within them, and empty names between dots are kept. A
    name with a dot in it is not read back, nor is one empty name alone. Blanks outside of ASCII
    say the root as well. -/
theorem texts_stable_spaced :
    parse " a .. b\u3000c " = ⟨["a", "", "b\u3000c"]⟩ ∧
      (parse " a .. b\u3000c ").text = "a..b\u3000c" ∧
      parse "a..b\u3000c" = ⟨["a", "", "b\u3000c"]⟩ ∧
      Regular ⟨["", ""]⟩ ∧ parse (text ⟨["", ""]⟩) = ⟨["", ""]⟩ ∧
      parse (text ⟨["a.b"]⟩) ≠ ⟨["a.b"]⟩ ∧
      parse (text ⟨[""]⟩) ≠ ⟨[""]⟩ ∧
      parse "\u2003\t" = root := by
  obtain ⟨hstable, hregular, hroot⟩ := texts_stable
  -- Evaluated are the parse and its text, and the rest follows from the general statement.
  have hread : parse " a .. b\u3000c " = ⟨["a", "", "b\u3000c"]⟩ := by decide +kernel
  have hagain := hstable " a .. b\u3000c "
  have htext : text ⟨["a", "", "b\u3000c"]⟩ = "a..b\u3000c" := by decide +kernel
  rw [hread, htext] at hagain
  have hempty : Regular ⟨["", ""]⟩ := ⟨by decide +kernel, by decide, by decide⟩
  refine ⟨hread, hread ▸ htext, hagain, hempty, (hregular _).mpr hempty,
    fun h => ?_, fun h => ?_, (hroot _).mpr (List.all_eq_true.mp rfl)⟩
  · exact absurd (((hregular _).mp h).dotless "a.b" (by decide)) (by decide)
  · exact ((hregular _).mp h).ne_empty rfl

end FieldPath

end Schemata
