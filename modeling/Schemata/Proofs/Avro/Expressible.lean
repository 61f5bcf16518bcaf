import Schemata.Proofs.Avro.RoundTrip
import Schemata.Proofs.Built

/-!
# Expressible Graphs

A condition on the graph alone under which it comes back the same.

Whether references are captured depends on the order in which an export meets
the types. That is exact, but it is not how one thinks of a graph that one
builds by hand. `Expressible` asks more of the names and nothing of the order:
no type is called like a primitive type, and no name without a dot, taken into
the namespace of some record, is the name of some type. Then no reference can
be captured, wherever it is written.

The remaining conditions are those of `Plain`, said of what can be reached.

## Main definitions

* `Avro.Expressible`: Nothing that can be reached gets lost or captured.

## Theorems

* `Avro.Expressible.faithful`: An expressible graph is written in full.
* `decode_encode`: An expressible graph comes back the same.
-/

namespace Schemata

namespace Avro

/-- Nothing that can be reached gets lost in a document, and no name gets in the way of
    another. -/
structure Expressible (r : Registry) (root : Ty) : Prop where
  /-- Handles are handles of this registry. -/
  held : ∀ h, r.Reaches root (.named h) → r.Holds h
  assigned : ∀ i, r.Reaches root (.named (.struct i)) → ∃ fields, (r.struct i).fields = some fields
  parsed : ∀ t, ¬ r.Reaches root (.unparsed t)
  noBase64 : ¬ r.Reaches root (.scalar .binaryBase64)
  decimals : ∀ type, r.Reaches root (.decimal type) → type = .int ∨ type = .long ∨
    ∃ precision scale, precision < numberLimit ∧ scale < numberLimit ∧
      DecimalType.new precision scale = .ok type
  defaults : ∀ i fields, r.Reaches root (.named (.struct i)) → (r.struct i).fields = some fields →
    ∀ field ∈ fields, field.cardinality = .repeated → ∃ value, field.default = .literal value
  aliases : ∀ h, r.Reaches root (.named h) → hasDot (r.nameOf h) = true →
    ∀ name ∈ (r.namesOf h).aliases, hasDot name = true
  noPrimitive : ∀ h, r.Reaches root (.named h) → r.nameOf h ∉ primitiveNames
  noCapture : ∀ h h' i space, r.Reaches root (.named h) → r.Reaches root (.named h') →
    r.Reaches root (.named (.struct i)) → namespaceOf? (r.nameOf (.struct i)) = some space →
    hasDot (r.nameOf h) = false → ¬ (r.namesOf h').Carries (space ++ "." ++ r.nameOf h)

namespace Expressible

variable (r : Registry) (root : Ty)

theorem writable (he : Expressible r root) (t : Ty) (ht : r.Reaches root t) : t.Writable := by
  cases t with
  | scalar kind =>
      rintro rfl
      exact he.noBase64 ht
  | decimal type => exact he.decimals type ht
  | named h => trivial
  | unparsed t => exact he.parsed t ht

theorem plain (he : Expressible r root) : Plain r root where
  complete := ⟨he.held, he.assigned⟩
  start := he.writable r root root .root
  fields i fields hi hf field hm :=
    ⟨he.writable r root _ (.field i fields field hi hf hm), he.defaults i fields hi hf field hm⟩
  names := he.aliases

/-- A name is found where it is written if no other name is in the way. -/
theorem uncaptured (he : Expressible r root) (hd : r.Distinct) : Uncaptured r root := by
  intro e refs written hwalk ref hm
  rcases hwalk.references root (fun h hm => absurd hm List.not_mem_nil)
    (Registry.Reaches.of_mem_singleton r root) ref hm with
    ⟨htarget, hwritten, hspace⟩
  refine ⟨fun hp => he.noPrimitive ref.target htarget ((isPrimitive_iff _).mp hp),
    fun h hmem hc => ?_⟩
  -- As it stands the name is carried by the type that is meant and by no other.
  have hself : (r.namesOf h).Carries (r.nameOf ref.target) → h = ref.target := fun hc =>
    hd h ref.target _ (he.held h (hwritten h hmem)) (he.held _ htarget) hc Names.carries_name
  rcases hs : ref.space with _ | space
  · rw [hs] at hc
    exact hself hc
  rw [hs] at hc
  by_cases hdot : hasDot (r.nameOf ref.target) = true
  · rw [qualify_of_hasDot _ _ hdot] at hc
    exact hself hc
  · rcases hspace with hspace | ⟨i, hi, hspace⟩
    · rw [hs] at hspace
      exact nomatch hspace
    · rw [qualify, if_neg hdot] at hc
      rw [Bool.not_eq_true] at hdot
      exact absurd hc (he.noCapture ref.target h i space htarget (hwritten h hmem) hi
        (hspace.symm.trans hs) hdot)

/-- An expressible graph is written in full. -/
theorem faithful (he : Expressible r root) (hd : r.Distinct) : Faithful r root :=
  ⟨he.plain, he.uncaptured r root hd⟩

end Expressible

end Avro

open Avro

/-- An expressible graph, however it was made, is exported, the document is imported, and the
    imported graph equals it. -/
theorem decode_encode (r : Registry) (root : Ty) (token : Nat) (hr : r.Built)
    (he : Expressible r root) :
    ∃ e q t, toSchema r root = .ok e ∧ fromSchema token e = .ok (q, t) ∧
      r.sameType root q t = true :=
  (roundTrips_iff_faithful r root token hr.tidy he.held).mpr (he.faithful r root hr.tidy.distinct)

namespace Sample

/-- Amounts of money, with two places behind the point. -/
def money : DecimalType :=
  ⟨9, 2, none, by decide, by decide, rfl, by decide⟩

/-- A colour, whose name is in no namespace. -/
def colour : EnumType :=
  ⟨.single "Colour", none, ["RED", "GREEN"], some "RED", by decide, by decide, by decide⟩

/-- The fields of an item of a list: three of its own, and the next item. -/
def itemFields : List Field :=
  [Field.new "price" .required (.decimal money),
    Field.new "colour" .optional (.named (.enumeration 0)),
    ⟨.single "tags", none, .repeated, .scalar .string, .emptyList, none, rfl⟩,
    Field.new "next" .optional (.named (.struct 0))]

/-- An item of a list, which was called differently before. -/
def item : StructType :=
  ⟨⟨"shop.Item", .ofList ["shop.Entry", "stock.Item"], by decide⟩, none, none⟩

/-- A list of items, made by hand. -/
def items : Registry :=
  ⟨0, [{ item with fields := some (itemFields.map (·.stamp ⟨0, 0⟩)) }], [colour]⟩

theorem items_built : items.Built := by
  have hstruct : Registry.Built ⟨0, [item], []⟩ :=
    .struct (.new 0) _ item 0 (.new 0) rfl ((Registry.registerStruct_eq_ok_iff _ _ _ _).mpr
      ⟨fun _ _ h hh => absurd hh (not_holds_new 0 h), rfl, rfl⟩)
  have henum : Registry.Built ⟨0, [item], [colour]⟩ :=
    .enumeration _ _ colour 0 hstruct rfl
  exact .setFields 0 itemFields henum ((Registry.setFields_eq_ok_iff _ _ _ _).mpr
    ⟨rfl, by decide, by decide, rfl⟩)

theorem items_reaches (t : Ty) (h : items.Reaches (.named (.struct 0)) t) :
    t ∈ ([.named (.struct 0), .decimal money, .named (.enumeration 0),
      .scalar .string] : List Ty) := by
  refine Registry.Reaches.closed items _ _ (by decide) (fun t ht => ?_)
    (fun i fields hi hf => ?_) t h
  · simp only [List.mem_cons, reduceCtorEq, List.not_mem_nil, or_self] at ht
  · simp only [List.mem_cons, Ty.named.injEq, Handle.struct.injEq, reduceCtorEq, List.not_mem_nil,
      or_false] at hi
    rw [hi] at hf
    rw [← Option.some.inj hf]
    decide

theorem items_expressible : Expressible items (.named (.struct 0)) := by
  -- What can be reached is listed once, and each condition is checked on the list.
  have hhandle : ∀ h, items.Reaches (.named (.struct 0)) (.named h) →
      h = .struct 0 ∨ h = .enumeration 0 := by
    intro h hh
    simpa only [List.mem_cons, Ty.named.injEq, reduceCtorEq, List.not_mem_nil, or_false, false_or]
      using items_reaches _ hh
  have hstruct : ∀ i, items.Reaches (.named (.struct 0)) (.named (.struct i)) → i = 0 := by
    intro i hi
    simpa only [Handle.struct.injEq, reduceCtorEq, or_false] using hhandle _ hi
  constructor
  case held =>
    intro h hh
    rcases hhandle h hh with rfl | rfl <;> decide
  case assigned =>
    intro i hi
    rw [hstruct i hi]
    exact ⟨_, rfl⟩
  case parsed =>
    intro t ht
    have hm := items_reaches _ ht
    simp only [List.mem_cons, reduceCtorEq, List.not_mem_nil, or_self] at hm
  case noBase64 =>
    exact fun ht => absurd (items_reaches _ ht) (by decide)
  case decimals =>
    intro type ht
    have hm := items_reaches _ ht
    simp only [List.mem_cons, Ty.decimal.injEq, reduceCtorEq, List.not_mem_nil, or_false,
      false_or] at hm
    exact Or.inr (Or.inr ⟨9, 2, by decide, by decide, hm ▸ rfl⟩)
  case defaults =>
    intro i fields hi hf
    rw [hstruct i hi] at hf
    rw [← Option.some.inj hf]
    have hall : ∀ field ∈ itemFields.map (·.stamp ⟨0, 0⟩), field.cardinality = .repeated →
        field.default.isPresent = true := by decide
    intro field hm hc
    rcases hd : field.default with _ | _ | value
    · exact absurd (hall field hm hc) (by rw [hd]; decide)
    · exact absurd field.suits (by rw [hd, hc]; decide)
    · exact ⟨value, rfl⟩
  case aliases =>
    intro h hh
    rcases hhandle h hh with rfl | rfl <;> decide
  case noPrimitive =>
    intro h hh
    rcases hhandle h hh with rfl | rfl <;> decide
  case noCapture =>
    intro h h' i space hh hh' hi hs hdot
    rw [hstruct i hi] at hs
    rw [← Option.some.inj (show some "shop" = some space from hs ▸ by decide)]
    rcases hhandle h hh with rfl | rfl
    · exact absurd hdot (by decide)
    · rcases hhandle h' hh' with rfl | rfl <;> decide

end Sample

open Sample

theorem decode_encode_items : ∃ e q t, toSchema items (.named (.struct 0)) = .ok e ∧
    fromSchema 1 e = .ok (q, t) ∧ items.sameType (.named (.struct 0)) q t = true :=
  decode_encode items (.named (.struct 0)) 1 items_built items_expressible

end Schemata
