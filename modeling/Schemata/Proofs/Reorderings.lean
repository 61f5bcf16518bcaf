import Schemata.Proofs.Built
import Schemata.Proofs.Sketches

/-!
# Fields in Another Order

An outline does not show in what order the fields of structs were given.

The body of a struct has its fields in the order of their names. No two fields of
a struct share a name, so names order the fields in one way, and two lists of the
same fields are the same list once they are sorted (`sortFields_of_perm`). From
there on nothing is left of the order: an outline takes the fields from the sorted
list, one after another, and what it has shown so far goes along with them. So
outlines are not only made of the same lines. The functions that make them are
equal, at every depth and from whatever was shown before, and each struct has its
body in the same place.

What fields are stamped with is not shown either. Registries may be told apart by
their stamps and still be reorderings of one another, so this is also about
registries that were made separately, each with its fields given in its own order.

## Main definitions

* `StructType.Reordered`, `Registry.Reordered`: The same but for the order of
  fields and their stamps.

## Theorems

* `Outline.sortFields_of_perm`: Fields have one order of names.
* `Registry.Reordered.typeLinesAt_eq`: Reorderings show their types alike.
* `Registry.render_of_reordered`: They are shown as the same text.
-/

namespace Schemata

/-- A field as it is before a struct takes it in. -/
def Field.unowned (field : Field) : Field :=
  { field with owner := none }

/-- The fields are the same ones but for their stamps, perhaps in another order. -/
def FieldsReordered (fields fields' : List Field) : Prop :=
  (fields.map Field.unowned).Perm (fields'.map Field.unowned)

/-- The struct is the same, and has the same fields, perhaps in another order. -/
structure StructType.Reordered (s s' : StructType) : Prop where
  names : s'.names = s.names
  documentation : s'.documentation = s.documentation
  fields : Option.Rel FieldsReordered s.fields s'.fields

theorem StructType.Reordered.refl (s : StructType) : s.Reordered s := by
  refine ⟨rfl, rfl, ?_⟩
  cases s.fields with
  | none => exact .none
  | some fields => exact .some (.refl _)

/-- The types are the same ones at the same places, their fields perhaps in another order. -/
structure Registry.Reordered (r r' : Registry) : Prop where
  structs : List.Forall₂ StructType.Reordered r.structs r'.structs
  enums : r'.enums = r.enums

namespace Outline

/-! ### Fields have one order of names -/

theorem map_unowned_sortFields (fields : List Field) :
    (sortFields fields).map Field.unowned = sortFields (fields.map Field.unowned) :=
  List.map_mergeSort fun _ _ _ _ => rfl

theorem pairwise_sortFields (fields : List Field) :
    (sortFields fields).Pairwise fun a b => a.name ≤ b.name := by
  have hsorted : (sortFields fields).Pairwise fun a b => decide (a.name ≤ b.name) = true := by
    refine List.pairwise_mergeSort (fun a b c hab hbc => ?_) (fun a b => ?_) fields
    · exact decide_eq_true (String.le_trans (of_decide_eq_true hab) (of_decide_eq_true hbc))
    · rw [Bool.or_eq_true, decide_eq_true_iff, decide_eq_true_iff]
      exact String.le_total a.name b.name
  exact hsorted.imp of_decide_eq_true

/-- Of fields that share no name, the live name tells which one it is. -/
theorem eq_of_name_eq (fields : List Field) (hd : FieldsDistinct fields) (a b : Field)
    (ha : a ∈ fields) (hb : b ∈ fields) (h : a.name = b.name) : a = b := by
  rcases List.getElem_of_mem ha with ⟨i, hi, rfl⟩
  rcases List.getElem_of_mem hb with ⟨j, hj, rfl⟩
  have hcarries : fields[j].names.Carries fields[i].name := by
    rw [h]
    exact Names.carries_name
  have hij := (fieldsDistinct_iff fields).mp hd i j hi hj _ Names.carries_name hcarries
  subst hij
  rfl

theorem fieldsDistinct_map_unowned (fields : List Field) (hd : FieldsDistinct fields) :
    FieldsDistinct (fields.map Field.unowned) := by
  rw [FieldsDistinct, List.flatMap_map]
  exact hd

/-- Names order fields in one way. -/
theorem sortFields_of_perm (fields fields' : List Field) (hd : FieldsDistinct fields)
    (hp : fields.Perm fields') : sortFields fields = sortFields fields' := by
  have hmem : ∀ fs : List Field, fields.Perm fs → ∀ a ∈ sortFields fs, a ∈ fields :=
    fun fs hfs a ha => hfs.mem_iff.mpr (List.mem_mergeSort.mp ha)
  refine List.Perm.eq_of_pairwise (fun a b ha hb hab hba => ?_) (pairwise_sortFields fields)
    (pairwise_sortFields fields') ?_
  · exact eq_of_name_eq fields hd a b (hmem fields (.refl _) a ha) (hmem fields' hp b hb)
      (String.le_antisymm hab hba)
  · exact (List.mergeSort_perm fields _).trans (hp.trans (List.mergeSort_perm fields' _).symm)

theorem map_sortFields_of_reordered (fields fields' : List Field) (hd : FieldsDistinct fields)
    (h : FieldsReordered fields fields') :
    (sortFields fields).map Field.unowned = (sortFields fields').map Field.unowned := by
  rw [map_unowned_sortFields, map_unowned_sortFields]
  exact sortFields_of_perm _ _ (fieldsDistinct_map_unowned fields hd) h

/-! ### Stamps are not shown -/

theorem fieldLines_map_unowned (typeLines : Shown → Nat → Ty → List Line × Shown) (level : Nat)
    (shown : Shown) (fields : List Field) :
    fieldLines typeLines level shown (fields.map Field.unowned) =
      fieldLines typeLines level shown fields := by
  induction fields generalizing shown with
  | nil => rfl
  | cons field fields ih =>
      simp only [List.map_cons, fieldLines, ih]
      rfl

theorem map_fieldEntry_unowned (level : Nat) (fields : List Field) :
    (fields.map Field.unowned).map (fieldEntry level) = fields.map (fieldEntry level) :=
  List.map_map

end Outline

open Outline

namespace StructType

variable (s s' : StructType) (hd : ∀ fields, s.fields = some fields → FieldsDistinct fields)
  (h : s.Reordered s')

include h in
theorem Reordered.structHeader_eq : structHeader s' = structHeader s := by
  rw [structHeader, structHeader, h.names]

include h in
theorem Reordered.bodyFront_eq (level : Nat) : bodyFront s' level = bodyFront s level := by
  have hfields := h.fields
  rw [bodyFront, bodyFront, h.documentation]
  cases hs : s.fields <;> cases hs' : s'.fields <;> rw [hs, hs'] at hfields <;> cases hfields

include hd h in
theorem Reordered.bodyEntries_eq (level : Nat) : bodyEntries s' level = bodyEntries s level := by
  have hfields := h.fields
  rw [bodyEntries, bodyEntries]
  cases hs : s.fields <;> cases hs' : s'.fields <;> rw [hs, hs'] at hfields <;> cases hfields
  next fields fields' hf =>
    have hsort := map_sortFields_of_reordered fields fields' (hd fields hs) hf
    simp only
    rw [← map_fieldEntry_unowned, ← hsort, map_fieldEntry_unowned]

end StructType

namespace Registry

section

variable (r r' : Registry)
  (hd : ∀ i fields, (r.struct i).fields = some fields → FieldsDistinct fields)
  (h : r.Reordered r')

include h in
theorem Reordered.struct (i : Nat) : (r.struct i).Reordered (r'.struct i) := by
  have hlen := h.structs.length_eq
  by_cases hi : i < r.structs.length
  · rw [r.struct_eq_getElem i hi, r'.struct_eq_getElem i (hlen ▸ hi)]
    exact (List.forall₂_iff_get.mp h.structs).2 i hi (hlen ▸ hi)
  · -- Past the last struct there is the same nameless one on both sides.
    rw [Registry.struct, Registry.struct, List.getD_eq_getElem?_getD, List.getD_eq_getElem?_getD,
      List.getElem?_eq_none (Nat.le_of_not_lt hi),
      List.getElem?_eq_none (Nat.le_of_not_lt (hlen ▸ hi))]
    exact .refl _

include h in
theorem Reordered.enumeration_eq (i : Nat) : r'.enumeration i = r.enumeration i := by
  rw [enumeration, enumeration, h.enums]

include h in
theorem Reordered.leafText?_eq (t : Ty) : leafText? r' t = leafText? r t := by
  unfold leafText?
  simp only [h.enumeration_eq r r']

include hd h in
/-- A body is the same one, if the types within it are shown alike. -/
theorem Reordered.structLines_eq (typeLines : Shown → Nat → Ty → List Line × Shown) :
    structLines r' typeLines = structLines r typeLines := by
  funext shown level mark i
  have hi := h.struct r r' i
  have hfields := hi.fields
  unfold structLines
  simp only [hi.structHeader_eq, hi.documentation]
  cases hs : (r.struct i).fields <;> cases hs' : (r'.struct i).fields <;>
    rw [hs, hs'] at hfields <;> cases hfields
  next fields fields' hf =>
    -- Fields are shown in the order of their names, so their own order does not matter.
    have hsort := map_sortFields_of_reordered fields fields' (hd i fields hs) hf
    have hlines : ∀ level shown, fieldLines typeLines level shown (sortFields fields') =
        fieldLines typeLines level shown (sortFields fields) := by
      intro level shown
      rw [← fieldLines_map_unowned, ← hsort, fieldLines_map_unowned]
    simp only [hlines]

include hd h in
/-- Types are shown alike, however deep and after whatever was shown before. -/
theorem Reordered.typeLinesAt_eq (depth : Nat) : typeLinesAt r' depth = typeLinesAt r depth := by
  have hwith : ∀ typeLines, typeLinesWith r' typeLines = typeLinesWith r typeLines := by
    intro typeLines
    funext shown level t
    unfold typeLinesWith
    simp only [h.structLines_eq r r' hd, h.enumeration_eq r r']
  induction depth with
  | zero => exact hwith _
  | succ depth ih => rw [typeLinesAt, typeLinesAt, ih, hwith]

include hd h in
theorem Reordered.outline_eq (root : Ty) : r'.outline root = r.outline root := by
  rw [outline, outline, h.typeLinesAt_eq r r' hd, h.structs.length_eq]

include hd h in
/-- What a sketch shows of one registry it shows of the other. -/
theorem Reordered.fits_iff (sketch : Sketch) : sketch.Fits r' ↔ sketch.Fits r := by
  induction sketch with
  | nil => exact Iff.rfl
  | line e text rest ih => rw [Sketch.Fits, Sketch.Fits, h.leafText?_eq r r', ih]
  | header e i rest ih => rw [Sketch.Fits, Sketch.Fits, ih]
  | body e i fields rest ihf ihr =>
      rw [Sketch.Fits, Sketch.Fits, (h.struct r r' i).bodyEntries_eq _ _ (hd i), ihf, ihr]

include h in
theorem Reordered.lines_eq (sketch : Sketch) : sketch.lines r' = sketch.lines r := by
  induction sketch with
  | nil => rfl
  | line e text rest ih => rw [Sketch.lines, Sketch.lines, ih]
  | header e i rest ih =>
      rw [Sketch.lines, Sketch.lines, (h.struct r r' i).structHeader_eq, ih]
  | body e i fields rest ihf ihr =>
      have hi := h.struct r r' i
      rw [Sketch.lines, Sketch.lines, hi.structHeader_eq, hi.bodyFront_eq, ihf, ihr]

end

/-- A registry whose fields are given in another order shows every type as the same text, with
    any indentation and any lead, and with the bodies of structs in the same places. -/
theorem render_of_reordered (r r' : Registry) (hr : r.Built) (h : r.Reordered r') (root : Ty) :
    (∀ indent lead, r'.render? indent lead root = r.render? indent lead root) ∧
      ∀ sketch, r'.Sketched root sketch ↔ r.Sketched root sketch := by
  have hd := hr.tidy.fields
  have houtline := h.outline_eq r r' hd root
  refine ⟨fun indent lead => ?_, fun sketch => ?_⟩
  · rw [render?, render?, render, render, houtline]
  · have hlines := h.lines_eq r r' sketch
    have hfits := h.fits_iff r r' hd sketch
    constructor
    · exact fun hs => ⟨hs.entries, hfits.mp hs.fits, by rw [← houtline, hs.lines, hlines], hs.first⟩
    · exact fun hs => ⟨hs.entries, hfits.mpr hs.fits, by rw [houtline, hs.lines, hlines], hs.first⟩

end Registry

namespace Sample

/-- The ends of a line, which are two points. -/
def lineFields : List Field :=
  [Field.new "to" .optional (.named (.struct 1)), Field.new "from" .required (.named (.struct 1))]

/-- A struct with some fields, in front of a point without any. -/
def linesWith (token : Nat) (fields : List Field) : Registry :=
  ⟨token, [⟨.single "Line", none, some (fields.map (·.stamp ⟨token, 0⟩))⟩,
    ⟨.single "Point", none, none⟩], []⟩

theorem linesWith_built (token : Nat) (fields : List Field) (hd : FieldsDistinct fields)
    (ho : ∀ field ∈ fields, field.owner = none) : (linesWith token fields).Built := by
  have hline : Registry.Built ⟨token, [⟨.single "Line", none, none⟩], []⟩ :=
    .struct (.new token) _ ⟨.single "Line", none, none⟩ 0 (.new token) rfl rfl
  have hpoint : Registry.Built ⟨token, [⟨.single "Line", none, none⟩,
      ⟨.single "Point", none, none⟩], []⟩ :=
    .struct _ _ ⟨.single "Point", none, none⟩ 1 hline rfl rfl
  refine .setFields 0 fields hpoint ((Registry.setFields_eq_ok_iff _ _ _ _).mpr
    ⟨rfl, fun field hm o h => ?_, hd, rfl⟩)
  rw [ho field hm] at h
  exact nomatch h

end Sample

open Sample

/-- A line shows the body of the point at its beginning, though its end is given first. -/
theorem render_of_reordered_lines :
    (linesWith 0 lineFields).Built ∧ (linesWith 1 lineFields.reverse).Built ∧
    (linesWith 0 lineFields).Reordered (linesWith 1 lineFields.reverse) ∧
    (linesWith 1 lineFields.reverse).render? 2 "" (.named (.struct 0)) =
      (linesWith 0 lineFields).render? 2 "" (.named (.struct 0)) := by
  have hbuilt := linesWith_built 0 lineFields (by decide) (by decide)
  have hreordered : (linesWith 0 lineFields).Reordered (linesWith 1 lineFields.reverse) :=
    ⟨.cons ⟨rfl, rfl, .some (List.Perm.swap _ _ _)⟩ (.cons (.refl _) .nil), rfl⟩
  exact ⟨hbuilt, linesWith_built 1 lineFields.reverse (by decide) (by decide), hreordered,
    (Registry.render_of_reordered _ _ hbuilt hreordered _).1 2 ""⟩

end Schemata
