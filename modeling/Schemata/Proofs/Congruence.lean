import Schemata.Proofs.Avro.SameExports
import Schemata.Proofs.Avro.Expressible
import Schemata.Proofs.Outlines

/-!
# Structural Equality as a Congruence

What equal graphs have in common.

Types that are found equal, in registries that operations have made, are used
alike: they are exported to the same document or fail with the same error, they
read texts alike, and they are shown alike. Where the types lie in their
registries does not matter, nor in which order they came there.

They are shown alike, and not equally, since the comparison takes defaults as
documents and a shown default is a text. The two zeros are one number and two
texts (`Sample.zeroDefault`). Where the defaults that walks from the two
types cross are the same texts, everything that is shown is.

## Theorems

* `Registry.parseValue_eq_of_typesMatch`: Types that agree read texts alike.
* `Registry.matched_counterparts`: Equal types agree up to counterparts.
* `Registry.sameType_congruence`: Equal types are used alike.
* `render_not_congruent`: They need not be shown as the same text.
-/

namespace Schemata

namespace Registry

/-- Types that agree read texts alike. -/
theorem parseValue_eq_of_typesMatch (left right : Registry) (rel : Nat → Nat → Prop)
    (hb : Bisimulation left right rel) (s t : Ty) (hm : TypesMatch left right rel s t)
    (input : Option String) : left.parseValue s input = right.parseValue t input := by
  induction hm with
  | scalar kind => rfl
  | decimal type => rfl
  | enumeration i j he => rw [parseValue, parseValue, he]
  | struct i j hij =>
      have hname : (left.struct i).name = (right.struct j).name :=
        congrArg Names.name (hb i j hij).1
      rw [parseValue, parseValue, hname]
  | unparsed s t _ ih => exact ih

section

variable (left right : Registry) (s t : Ty)

/-- Types that have one unfolding agree up to counterparts. -/
theorem matched_counterparts (hs : left.Covers s) (ht : right.Covers t)
    (h : SameUnfolding left s right t) : Matched left right (Counterparts left s right t) s t :=
  ⟨hs, ht, typesMatch_counterparts left s right t [] [] [] s t rfl rfl
    (typesMatch_of_sameUnfolding left right s t hs ht h)⟩

variable (hl : left.InRange) (hr : right.InRange) (hs : left.Covers s) (ht : right.Covers t)
  (h : SameUnfolding left s right t)

include hl hr hs ht h in
/-- The defaults of counterparts are the same documents. -/
theorem relatesDefaults_same : Outline.RelatesDefaults left right (Counterparts left s right t)
    fun a b => a.same b = true := by
  intro i j as bs hij ha hb
  have hfields := matched_fields left right _ hl hr
    (bisimulation_counterparts left s right t hl hr hs ht h) i j hij
  rw [ha, hb] at hfields
  cases hfields with
  | some hfields => exact hfields.imp fun a b hab => hab.1.default

include hl hr hs ht h in
/-- Whatever is known of the defaults that walks cross is known of those of counterparts. -/
theorem relatesDefaults_of_walks (defaults : Default → Default → Prop)
    (hwalks : ∀ path fs gs u v, left.follow? s path = some (fs, u) →
      right.follow? t path = some (gs, v) →
      List.Forall₂ (fun a b => defaults a.default b.default) fs gs) :
    Outline.RelatesDefaults left right (Counterparts left s right t) defaults := by
  intro i j as bs hij ha hb
  have hlen := (relatesDefaults_same left right s t hl hr hs ht h i j as bs hij ha hb).length_eq
  refine List.forall₂_iff_get.mpr ⟨hlen, fun k hka hkb => ?_⟩
  rcases counterparts_field left s right t i j as bs hij ha hb k hka hkb with
    ⟨path, fs, gs, hu, hv⟩
  -- The fields at the position are the last that one walk crosses.
  have hlast := hwalks path _ _ _ _ hu hv
  have hsplit := List.rel_reverse hlast
  rw [List.reverse_append, List.reverse_append] at hsplit
  cases hsplit with
  | cons hab _ => exact hab

end

/-- Types of registries that operations have made, if they are found equal, are used alike.
    They are exported to the same document or with the same error. With any indentation and
    any lead they are shown in the same lines, up to lines of defaults that are the same
    documents, and in the same text where the defaults on every walk are the same texts. And
    they read texts alike. -/
theorem sameType_congruence (left right : Registry) (s t : Ty) (hleft : left.Built)
    (hright : right.Built) (hl : left.InRange) (hr : right.InRange) (hs : left.Covers s)
    (ht : right.Covers t) (h : left.sameType s right t = true) :
    SameResult (toSchema left s) (toSchema right t) ∧
    (∀ indent lead, Option.Rel (TextsAlike (fun a b => a.same b = true) indent lead)
      (left.render? indent lead s) (right.render? indent lead t)) ∧
    ((∀ path fs gs u v, left.follow? s path = some (fs, u) →
        right.follow? t path = some (gs, v) →
        List.Forall₂ (fun a b => a.default.text = b.default.text) fs gs) →
      ∀ indent lead, left.render? indent lead s = right.render? indent lead t) ∧
    ∀ input, left.parseValue s input = right.parseValue t input := by
  -- What is found equal has one unfolding, so that counterparts are related in both directions.
  have hunf := (sameType_iff_sameUnfolding left right s t hl hr hs ht).mp h
  have hb := bisimulation_counterparts left s right t hl hr hs ht hunf
  have hm := matched_counterparts left right s t hs ht hunf
  have hu := biUnique_handlesMatch left right _ hb hleft.tidy.distinct hright.tidy.distinct
  have hbody := hm.isSome_struct?_eq
  refine ⟨?_, fun indent lead => ?_, fun hwalks indent lead => ?_, fun input => ?_⟩
  · exact sameResult_toSchema left right _ hl hr hb hu s t hm
  · have hlines := alike_outline left right _ _ hl hr hb
      (relatesDefaults_same left right s t hl hr hs ht hunf) hu s t hm
    exact alike_render? left right _ s t hbody hlines indent lead
  · have hd := relatesDefaults_of_walks left right s t hl hr hs ht hunf
      (fun a b => a.text = b.text) hwalks
    have hlines := alike_outline left right _ _ hl hr hb hd hu s t hm
    have heq := Outline.eq_of_alike (fun a b hab => hab) hlines
    rw [render?, render?, render, render, heq, hbody]
  · exact parseValue_eq_of_typesMatch left right _ hb s t hm.agree input

end Registry

namespace Sample

/-- A struct that stands in front of others. -/
def frontispiece : StructType :=
  ⟨.single "Front", none, none⟩

/-- The list of items, behind another struct and with its enum registered first. -/
def itemsBehind : Registry :=
  ⟨1, [frontispiece, { item with
    fields := some ((itemFields.take 3 ++
      [Field.new "next" .optional (.named (.struct 1))]).map (·.stamp ⟨1, 1⟩)) }], [colour]⟩

theorem itemsBehind_built : itemsBehind.Built := by
  have henum : Registry.Built ⟨1, [], [colour]⟩ := .enumeration _ _ colour 0 (.new 1) rfl
  have hfront : Registry.Built ⟨1, [frontispiece], [colour]⟩ :=
    .struct _ _ frontispiece 0 henum rfl rfl
  have hstruct : Registry.Built ⟨1, [frontispiece, item], [colour]⟩ :=
    .struct _ _ item 1 hfront rfl rfl
  exact .setFields 1 (itemFields.take 3 ++ [Field.new "next" .optional (.named (.struct 1))])
    hstruct rfl

end Sample

open Sample

theorem sameType_congruence_items :
    items.sameType (.named (.struct 0)) itemsBehind (.named (.struct 1)) = true ∧
      SameResult (toSchema items (.named (.struct 0)))
        (toSchema itemsBehind (.named (.struct 1))) := by
  have hsame : items.sameType (.named (.struct 0)) itemsBehind (.named (.struct 1)) = true := by
    decide
  exact ⟨hsame, (Registry.sameType_congruence items itemsBehind _ _ items_built itemsBehind_built
    (by decide) (by decide) (by decide) (by decide) hsame).1⟩

namespace Sample

/-- The field whose default is a zero of a sign. -/
def zeroField (negative : Bool) : Field :=
  ⟨.single "x", none, .required, .scalar .double, .literal (.float ⟨negative, 0, -1074⟩), none, rfl⟩

/-- A struct with that field. -/
def zeroDefault (token : Nat) (negative : Bool) : Registry :=
  ⟨token, [⟨.single "A", none, some [(zeroField negative).stamp ⟨token, 0⟩]⟩], []⟩

theorem zeroDefault_built (token : Nat) (negative : Bool) : (zeroDefault token negative).Built := by
  have hstruct : Registry.Built ⟨token, [⟨.single "A", none, none⟩], []⟩ :=
    .struct (.new token) _ ⟨.single "A", none, none⟩ 0 (.new token) rfl rfl
  exact .setFields 0 [zeroField negative] hstruct rfl

end Sample

/-- Equal types need not be shown as the same text: the two zeros are equal defaults. -/
theorem render_not_congruent : (zeroDefault 0 false).Built ∧ (zeroDefault 1 true).Built ∧
    (zeroDefault 0 false).InRange ∧ (zeroDefault 1 true).InRange ∧
    (zeroDefault 0 false).sameType (.named (.struct 0)) (zeroDefault 1 true)
      (.named (.struct 0)) = true ∧
    (zeroDefault 0 false).render? 2 "" (.named (.struct 0))
      ≠ (zeroDefault 1 true).render? 2 "" (.named (.struct 0)) := by
  refine ⟨zeroDefault_built 0 false, zeroDefault_built 1 true, by decide, by decide, by decide, ?_⟩
  decide +kernel

end Schemata
