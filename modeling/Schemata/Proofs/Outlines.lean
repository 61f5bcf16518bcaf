import Schemata.Outline
import Schemata.Proofs.Avro.Walk
import Schemata.Proofs.Registry.Counterparts

/-!
# Outlines of Equal Graphs

Graphs that agree are shown alike, but for how their defaults are written.

Like an export an outline remembers the structs that it has met, so it is
compared with another one as the two run: line by line, and with lists of
structs that match one by one. Fields are shown in the order of their names,
and `forall₂_mergeSort` says that to sort two lists by what matching elements
have in common keeps them matched.

Equal defaults may be different texts, as zero has two signs. So it is a
parameter what is known of the defaults of matching fields. If they are known
to be the same documents, the lines are the same but for lines that show such
defaults; if they are known to be the same texts, the lines are equal.

## Main definitions

* `Line.Alike`: The same line, or lines that show related defaults.
* `TextsAlike`: Texts made of such lines.
* `Outline.Mirrors`: Two outlines run alike on types that match.

## Theorems

* `forall₂_mergeSort`: Sorting keeps lists matched.
* `Outline.mirrors_typeLinesAt`: Outlines of matching types run alike.
* `Registry.alike_outline`: Types that match are shown alike.
* `Registry.alike_render?`: So are their texts.
-/

namespace Schemata

/-- Sorting by what matching elements have in common keeps lists matched. -/
theorem forall₂_mergeSort {α β : Type} {R : α → β → Prop} {le : α → α → Bool} {le' : β → β → Bool}
    (hle : ∀ a a' b b', R a b → R a' b' → le a a' = le' b b') (as : List α) (bs : List β)
    (h : List.Forall₂ R as bs) : List.Forall₂ R (as.mergeSort le) (bs.mergeSort le') := by
  rcases List.forall₂_iff_zip.mp h with ⟨hlen, hzip⟩
  have hfst : (as.zip bs).map Prod.fst = as := List.map_fst_zip (Nat.le_of_eq hlen)
  have hsnd : (as.zip bs).map Prod.snd = bs := List.map_snd_zip (Nat.le_of_eq hlen.symm)
  -- Both lists are sorted by sorting the pairs, and pairs stay together.
  have hleft : ((as.zip bs).mergeSort fun p q => le p.1 q.1).map Prod.fst = as.mergeSort le := by
    conv_rhs => rw [← hfst]
    exact List.map_mergeSort fun p _ q _ => rfl
  have hright : ((as.zip bs).mergeSort fun p q => le p.1 q.1).map Prod.snd = bs.mergeSort le' := by
    conv_rhs => rw [← hsnd]
    exact List.map_mergeSort fun p hp q hq => hle p.1 q.1 p.2 q.2 (hzip hp) (hzip hq)
  rw [← hleft, ← hright, List.forall₂_map_left_iff, List.forall₂_map_right_iff, List.forall₂_same]
  exact fun p hp => hzip (List.mem_mergeSort.mp hp)

theorem Default.isPresent_eq_of_same (a b : Default) (h : a.same b = true) :
    a.isPresent = b.isPresent := by
  cases a <;> cases b <;> first | rfl | exact absurd h Bool.false_ne_true

/-- The same line, or lines of one level that show related defaults. -/
inductive Line.Alike (defaults : Default → Default → Prop) : Line → Line → Prop
  | same (line : Line) : Alike defaults line line
  | default (level : Nat) (a b : Default) (h : defaults a b) :
      Alike defaults ⟨level, "Default: " ++ a.text⟩ ⟨level, "Default: " ++ b.text⟩

/-- Texts made of lines that are the same, or that show related defaults. -/
def TextsAlike (defaults : Default → Default → Prop) (indent : Nat) (lead text text' : String) :
    Prop :=
  ∃ lines lines', List.Forall₂ (Line.Alike defaults) lines lines' ∧
    text = String.intercalate "\n" (lines.map (·.render lead indent)) ∧
    text' = String.intercalate "\n" (lines'.map (·.render lead indent))

namespace Outline

section

variable {defaults : Default → Default → Prop}

theorem alike_refl {lines : List Line} : List.Forall₂ (Line.Alike defaults) lines lines :=
  List.forall₂_same.mpr fun line _ => .same line

theorem alike_append {as bs cs ds : List Line} (h : List.Forall₂ (Line.Alike defaults) as bs)
    (h' : List.Forall₂ (Line.Alike defaults) cs ds) :
    List.Forall₂ (Line.Alike defaults) (as ++ cs) (bs ++ ds) :=
  List.rel_append h h'

theorem alike_defaultLine {level : Nat} {a b : Default} (hs : a.same b = true)
    (h : defaults a b) :
    List.Forall₂ (Line.Alike defaults) (defaultLine level a) (defaultLine level b) := by
  unfold defaultLine
  rw [← Default.isPresent_eq_of_same a b hs]
  split
  · exact .cons (.default level a b h) .nil
  · exact .nil

/-- Where related defaults are the same texts, lines that are alike are equal. -/
theorem eq_of_alike (ht : ∀ a b, defaults a b → a.text = b.text) {as bs : List Line}
    (h : List.Forall₂ (Line.Alike defaults) as bs) : as = bs := by
  induction h with
  | nil => rfl
  | cons hab _ ih =>
      cases hab with
      | same line => rw [ih]
      | default level a b hd => rw [ih, ht a b hd]

end

section

variable (left right : Registry) (rel : Nat → Nat → Prop) (defaults : Default → Default → Prop)

/-- The structs that are shown, as handles. -/
def handles (shown : Shown) : List Handle :=
  shown.map .struct

theorem mem_handles_iff (shown : Shown) (i : Nat) : .struct i ∈ handles shown ↔ i ∈ shown := by
  simp only [handles, List.mem_map, Handle.struct.injEq, exists_eq_right]

/-- The lines are alike, and the structs shown since match. -/
structure RunsAlike (shown shown' : Shown) (x y : List Line × Shown) : Prop where
  lines : List.Forall₂ (Line.Alike defaults) x.1 y.1
  shown : Registry.Continues left right rel (handles shown) (handles shown') (handles x.2)
    (handles y.2)

/-- The outlines run alike on types that match, as long as no more than so many structs are
    left to be shown on either side. -/
def Mirrors (n n' : Nat) (lines lines' : Shown → Nat → Ty → List Line × Shown) : Prop :=
  ∀ level s t shown shown', Registry.Matched left right rel s t →
    List.Forall₂ (Registry.HandlesMatch left right rel) (handles shown) (handles shown') →
    Avro.unwritten left (handles shown) ≤ n → Avro.unwritten right (handles shown') ≤ n' →
    RunsAlike left right rel defaults shown shown' (lines shown level s) (lines' shown' level t)

theorem mirrors_mono (m m' n n' : Nat) (lines lines' : Shown → Nat → Ty → List Line × Shown)
    (hm : m ≤ n) (hm' : m' ≤ n') (h : Mirrors left right rel defaults n n' lines lines') :
    Mirrors left right rel defaults m m' lines lines' :=
  fun level s t shown shown' hst hs hu hu' =>
    h level s t shown shown' hst hs (Nat.le_trans hu hm) (Nat.le_trans hu' hm')

/-- The fields agree, their types match, and their defaults are related. -/
structure FieldsAlike (a b : Field) : Prop where
  agrees : a.Agrees b
  types : Registry.Matched left right rel a.type b.type
  default : defaults a.default b.default

theorem runsAlike_fieldLines {n n' : Nat} (lines lines' : Shown → Nat → Ty → List Line × Shown)
    (hlines : Mirrors left right rel defaults n n' lines lines') (level : Nat)
    {as bs : List Field} (h : List.Forall₂ (FieldsAlike left right rel defaults) as bs)
    {shown shown' : Shown}
    (hs : List.Forall₂ (Registry.HandlesMatch left right rel) (handles shown) (handles shown'))
    (hu : Avro.unwritten left (handles shown) ≤ n)
    (hu' : Avro.unwritten right (handles shown') ≤ n') :
    RunsAlike left right rel defaults shown shown' (fieldLines lines level shown as)
      (fieldLines lines' level shown' bs) := by
  induction h generalizing shown shown' with
  | nil => exact ⟨.nil, .refl left right rel hs⟩
  | @cons a b as bs hab _ ih =>
      have htype := hlines (level + 1) a.type b.type shown shown' hab.types hs hu hu'
      rw [fieldLines, fieldLines]
      generalize lines shown (level + 1) a.type = x at htype
      generalize lines' shown' (level + 1) b.type = y at htype
      rcases htype with ⟨htype, hc⟩
      -- What is left to be shown does not grow from one field to the next.
      have hrest := ih hc.matched (Nat.le_trans (Avro.unwritten_le_of_suffix left hc.suffix) hu)
        (Nat.le_trans (Avro.unwritten_le_of_suffix right hc.suffix') hu')
      have hheader : fieldHeader a = fieldHeader b := by
        rw [fieldHeader, fieldHeader, Field.name, Field.name, hab.agrees.names,
          hab.agrees.cardinality]
      refine ⟨?_, .trans left right rel hc hrest.shown⟩
      simp only [hheader, hab.agrees.documentation]
      exact alike_append (alike_append (alike_append
        alike_refl (alike_defaultLine hab.agrees.default hab.default)) htype) hrest.lines

/-- What is known of the defaults of the fields of related structs. -/
def RelatesDefaults : Prop :=
  ∀ i j as bs, rel i j → (left.struct i).fields = some as → (right.struct j).fields = some bs →
    List.Forall₂ (fun a b => defaults a.default b.default) as bs

variable (hl : left.InRange) (hr : right.InRange) (hb : Registry.Bisimulation left right rel)
  (hd : RelatesDefaults left right rel defaults)

include hl hr hb hd in
/-- The fields of related structs are alike, in the order of their names. -/
theorem fieldsAlike_sortFields (i j : Nat) (hij : rel i j) :
    Option.Rel (fun as bs => List.Forall₂ (FieldsAlike left right rel defaults) (sortFields as)
      (sortFields bs)) (left.struct i).fields (right.struct j).fields := by
  have hfields := Registry.matched_fields left right rel hl hr hb i j hij
  cases ha : (left.struct i).fields <;> cases hc : (right.struct j).fields <;>
    rw [ha, hc] at hfields <;> cases hfields
  · exact .none
  · next as bs hmatch =>
      have hdefaults := hd i j as bs hij ha hc
      -- The match of the fields and the likeness of their defaults are about the same positions.
      have halike : List.Forall₂ (FieldsAlike left right rel defaults) as bs := by
        rw [List.forall₂_iff_get] at hmatch hdefaults ⊢
        exact ⟨hmatch.1, fun k hka hkb => ⟨(hmatch.2 k hka hkb).1, (hmatch.2 k hka hkb).2,
          hdefaults.2 k hka hkb⟩⟩
      -- Alike fields have the same name, so they are sorted alike.
      refine .some (forall₂_mergeSort (fun a a' b b' hab hab' => ?_) as bs halike)
      rw [decide_eq_decide, Field.name, Field.name, hab.agrees.names, hab'.agrees.names]
      rfl

include hl hr hb hd in
theorem runsAlike_structLines (n n' : Nat) (lines lines' : Shown → Nat → Ty → List Line × Shown)
    (hlines : ∀ m m', m < n → m' < n' → Mirrors left right rel defaults m m' lines lines')
    (hu : Relator.BiUnique (Registry.HandlesMatch left right rel)) (level : Nat) (mark : String)
    (i j : Nat) (hij : rel i j) (hi : i < left.structs.length) (hj : j < right.structs.length)
    (shown shown' : Shown)
    (hs : List.Forall₂ (Registry.HandlesMatch left right rel) (handles shown) (handles shown'))
    (hn : Avro.unwritten left (handles shown) ≤ n)
    (hn' : Avro.unwritten right (handles shown') ≤ n') :
    RunsAlike left right rel defaults shown shown' (structLines left lines shown level mark i)
      (structLines right lines' shown' level mark j) := by
  rcases hb i j hij with ⟨hnames, hdoc, _⟩
  have hm : Registry.HandlesMatch left right rel (.struct i) (.struct j) :=
    ⟨hi, hj, .struct i j hij⟩
  have hheader : structHeader (left.struct i) = structHeader (right.struct j) := by
    rw [structHeader, structHeader, hnames]
  have hmem := Registry.mem_iff_of_handlesMatch left right rel hu hm hs
  rw [mem_handles_iff, mem_handles_iff] at hmem
  unfold structLines
  simp only [hheader, hdoc]
  by_cases hin : i ∈ shown
  · rw [if_pos hin, if_pos (hmem.mp hin)]
    exact ⟨alike_refl, .refl left right rel hs⟩
  rw [if_neg hin, if_neg (mt hmem.mpr hin)]
  have hnew : List.Forall₂ (Registry.HandlesMatch left right rel) (handles (i :: shown))
    (handles (j :: shown')) := .cons hm hs
  -- It is enough that the bodies run alike, with the struct among those that are shown.
  suffices hbody : ∀ x y, RunsAlike left right rel defaults (i :: shown) (j :: shown') x y →
      RunsAlike left right rel defaults shown shown'
        (Line.mk level (mark ++ structHeader (right.struct j) ++ " \x7b") ::
          docLine (level + 1) (right.struct j).documentation ++ x.1 ++ [Line.mk level "\x7d"], x.2)
        (Line.mk level (mark ++ structHeader (right.struct j) ++ " \x7b") ::
          docLine (level + 1) (right.struct j).documentation ++ y.1 ++ [Line.mk level "\x7d"],
          y.2) by
    have hfields := fieldsAlike_sortFields left right rel defaults hl hr hb hd i j hij
    cases ha : (left.struct i).fields <;> cases hc : (right.struct j).fields <;>
      rw [ha, hc] at hfields <;> cases hfields
    · exact hbody _ _ ⟨alike_refl, .refl left right rel hnew⟩
    · next as bs halike =>
        have hlt := Avro.unwritten_cons_lt left (handles shown) i hi
          (mt (mem_handles_iff shown i).mp hin)
        have hlt' := Avro.unwritten_cons_lt right (handles shown') j hj
          (mt (mem_handles_iff shown' j).mp (mt hmem.mpr hin))
        exact hbody _ _ (runsAlike_fieldLines left right rel defaults lines lines'
          (hlines _ _ (Nat.lt_of_lt_of_le hlt hn) (Nat.lt_of_lt_of_le hlt' hn')) (level + 1)
          halike hnew (Nat.le_refl _) (Nat.le_refl _))
  intro x y hxy
  exact ⟨alike_append (alike_append alike_refl hxy.lines) alike_refl, hxy.shown.of_cons⟩

variable (hu : Relator.BiUnique (Registry.HandlesMatch left right rel))

include hl hr hb hd hu in
/-- One level of an outline mirrors another, if what is within does where fewer structs are
    left. -/
theorem mirrors_typeLinesWith (n n' : Nat) (lines lines' : Shown → Nat → Ty → List Line × Shown)
    (hlines : ∀ m m', m < n → m' < n' → Mirrors left right rel defaults m m' lines lines') :
    Mirrors left right rel defaults n n' (typeLinesWith left lines)
      (typeLinesWith right lines') := by
  intro level s t shown shown' hst hs hn hn'
  rcases hst.core with ⟨hlayers, hcovers, hcovers', hmatch⟩
  have hrefl := Registry.Continues.refl left right rel hs
  unfold typeLinesWith
  simp only [hlayers]
  generalize hsc : s.core = a at hcovers hmatch
  generalize htc : t.core = b at hcovers' hmatch
  cases hmatch with
  | scalar kind => exact ⟨alike_refl, hrefl⟩
  | decimal type => exact ⟨alike_refl, hrefl⟩
  | enumeration i j he =>
      simp only [he]
      exact ⟨alike_refl, hrefl⟩
  | struct i j hij =>
      -- Only a struct goes deeper, and there fewer are left.
      exact runsAlike_structLines left right rel defaults hl hr hb hd n n' lines lines' hlines hu
        level _ i j hij hcovers hcovers' shown shown' hs hn hn'
  | unparsed s' _ _ => exact absurd hsc (Ty.core_ne_unparsed s s')

include hl hr hb hd hu in
/-- Outlines of types that match run alike, if their depths allow for what is left. -/
theorem mirrors_typeLinesAt (depth depth' : Nat) :
    Mirrors left right rel defaults depth depth' (typeLinesAt left depth)
      (typeLinesAt right depth') := by
  -- Both depths are larger than what is left, so neither runs out while something is left.
  induction depth generalizing depth' with
  | zero =>
      cases depth' <;>
        exact mirrors_typeLinesWith left right rel defaults hl hr hb hd hu 0 _ _ _
          fun m m' hm => absurd hm (Nat.not_lt_zero m)
  | succ depth ih =>
      cases depth' with
      | zero =>
          exact mirrors_typeLinesWith left right rel defaults hl hr hb hd hu (depth + 1) 0 _ _
            fun m m' _ hm' => absurd hm' (Nat.not_lt_zero m')
      | succ depth' =>
          exact mirrors_typeLinesWith left right rel defaults hl hr hb hd hu (depth + 1)
            (depth' + 1) _ _ fun m m' hm hm' => mirrors_mono left right rel defaults m m' depth
              depth' _ _ (Nat.le_of_lt_succ hm) (Nat.le_of_lt_succ hm') (ih depth')

end

end Outline

/-- Types that match are shown alike. -/
theorem Registry.alike_outline (left right : Registry) (rel : Nat → Nat → Prop)
    (defaults : Default → Default → Prop) (hl : left.InRange) (hr : right.InRange)
    (hb : Bisimulation left right rel) (hd : Outline.RelatesDefaults left right rel defaults)
    (hu : Relator.BiUnique (HandlesMatch left right rel)) (s t : Ty)
    (hst : Matched left right rel s t) :
    List.Forall₂ (Line.Alike defaults) (left.outline s) (right.outline t) :=
  (Outline.mirrors_typeLinesAt left right rel defaults hl hr hb hd hu left.structs.length
    right.structs.length 0 s t [] [] hst .nil (Avro.unwritten_nil_le left)
    (Avro.unwritten_nil_le right)).lines

/-- Where the lines are alike and both types have bodies or neither has, there is a text of both
    or of neither, and the texts are alike. -/
theorem Registry.alike_render? (left right : Registry) (defaults : Default → Default → Prop)
    (s t : Ty) (hbody : s.struct?.isSome = t.struct?.isSome)
    (h : List.Forall₂ (Line.Alike defaults) (left.outline s) (right.outline t)) (indent : Nat)
    (lead : String) : Option.Rel (TextsAlike defaults indent lead) (left.render? indent lead s)
      (right.render? indent lead t) := by
  rw [render?, render?, hbody]
  split
  · exact .none
  · exact .some ⟨_, _, h, rfl, rfl⟩

end Schemata
