import Schemata.Proofs.Avro.Grammar
import Schemata.Proofs.Avro.Layout
import Schemata.Proofs.Avro.Places
import Schemata.Proofs.DigitCapacity

/-!
# Wire Types of Numbers

How the numbers of the schema language come back from an export.

Three kinds of exact numbers are encoded in ways of their own: the two native
integers, and decimals as bytes. A decimal type is all that is left of any of
them after an import. An export takes a type for a native integer if its
precision, its scale and its width are those of one, and writes a decimal of
bytes for all others. So what is read as bytes comes back as bytes unless its
width happens to be that of a native integer of the same precision.

For ten digits the width is greater than 32 bits. For nineteen digits it is 64
bits, and such a decimal comes back as `long`, which is another encoding of
the same column. This is the only case (`decimalSchema_of_makes`).

## Main definitions

* `Avro.Numeric`: Exact numbers as the schema language tells them apart.
* `Avro.Numeric.Spells`, `Avro.Numeric.document`: How they are written.
* `Avro.Numeric.written`: What they come back as.

## Theorems

* `Avro.fromSchema_numeric_iff`: What is read as which type.
* `Avro.decimalSchema_of_makes`: What is written of the type.
* `Avro.numeric_comes_back`: Numbers that are imported and exported.
* `Avro.nineteen_digits_become_long`: A decimal that becomes another number.
-/

namespace Schemata

namespace Avro

/-- An exact number, by how it is encoded. -/
inductive Numeric where
  | int
  | long
  | decimal (precision scale : Nat)
  deriving DecidableEq, Repr

/-- The object is a decimal of bytes, whatever else it says. Where it has no scale the scale
    is 0. -/
structure DecimalOfBytes (members : Members) (precision scale : Nat) : Prop where
  kind : Json.find? "type" members = some (.string "bytes")
  logical : Json.find? "logicalType" members = some (.string "decimal")
  precision : Json.find? "precision" members = some (.int precision)
  scale : Json.find? "scale" members = some (.int scale) ∨
    Json.find? "scale" members = none ∧ scale = 0

namespace Numeric

/-- The document says that it is the number. -/
def Spells (doc : Json) : Numeric → Prop
  | .int => doc = .string "int"
  | .long => doc = .string "long"
  | .decimal precision scale =>
    ∃ members, doc = .object members ∧ DecimalOfBytes members precision scale

/-- The digits of a decimal are at least one, no fewer than those behind the point, and
    counted in 32 bits. -/
def Valid : Numeric → Prop
  | .decimal precision scale => 0 < precision ∧ scale ≤ precision ∧ precision < numberLimit
  | _ => True

/-- The document of a number. -/
def document : Numeric → Json
  | .int => .string "int"
  | .long => .string "long"
  | .decimal precision scale =>
    .object [("logicalType", .string "decimal"), ("precision", .int precision),
      ("scale", .int scale), ("type", .string "bytes")]

/-- The number that is written for one that was read: a decimal of nineteen digits before the
    point becomes a native integer. -/
def written (n : Numeric) : Numeric :=
  if n = .decimal 19 0 then .long else n

/-- The type that the number is read as. -/
def Makes : Numeric → DecimalType → Prop
  | .int, type => type = .int
  | .long, type => type = .long
  | .decimal precision scale, type =>
    precision < numberLimit ∧ DecimalType.new precision scale = .ok type

theorem spells_document (n : Numeric) : n.Spells n.document := by
  cases n with
  | int => exact rfl
  | long => exact rfl
  | decimal precision scale => exact ⟨_, rfl, rfl, rfl, rfl, Or.inl rfl⟩

theorem document_inj (n n' : Numeric) : n.document = n'.document ↔ n = n' := by
  refine ⟨fun h => ?_, congrArg document⟩
  cases n <;> cases n'
  case decimal.decimal precision scale precision' scale' =>
    simp only [document, Json.object.injEq, List.cons.injEq, Prod.mk.injEq, true_and, and_true,
      Json.int.injEq, Int.ofNat_inj] at h
    rw [h.1, h.2]
  all_goals first
    | rfl
    | simp [document] at h

/-- Two numbers are written alike only if one of them is the decimal that is lost. -/
theorem written_eq_iff (n n' : Numeric) : n.written = n'.written ↔
    n = n' ∨ (n = .long ∨ n = .decimal 19 0) ∧ (n' = .long ∨ n' = .decimal 19 0) := by
  unfold written
  -- Only the lost decimal is written as another number, so it is decided for both which they are.
  by_cases hn : n = .decimal 19 0
  · by_cases hn' : n' = .decimal 19 0
    · rw [if_pos hn, if_pos hn', hn, hn']
      simp only [or_true, and_self, or_self]
    · rw [if_pos hn, if_neg hn', hn]
      simp only [or_true, true_and, hn', or_false, Ne.symm hn', false_or]
      exact eq_comm
  · by_cases hn' : n' = .decimal 19 0
    · rw [if_neg hn, if_pos hn', hn']
      simp only [or_true, and_true, hn, or_false, false_or]
    · rw [if_neg hn, if_neg hn']
      simp only [hn, hn', or_false]
      exact ⟨Or.inl, fun h => h.elim id fun h => h.1.trans h.2.symm⟩

theorem exists_makes_iff (n : Numeric) : (∃ type, n.Makes type) ↔ n.Valid := by
  cases n with
  | int => exact ⟨fun _ => trivial, fun _ => ⟨_, rfl⟩⟩
  | long => exact ⟨fun _ => trivial, fun _ => ⟨_, rfl⟩⟩
  | decimal precision scale =>
      simp only [Makes, Valid, exists_and_left, DecimalType.exists_new_iff]
      tauto

end Numeric

/-! ### There -/

namespace DecimalOfBytes

variable (members : Members) (precision scale : Nat) (h : DecimalOfBytes members precision scale)

include h

theorem number?_precision_iff (n : Nat) : number? members "precision" = .ok (some n) ↔
    n = precision ∧ precision < numberLimit := by
  rw [number?_eq_some_iff, Counts, h.precision, Option.some.injEq, Json.int.injEq, Int.ofNat_inj]
  constructor
  · intro hn
    exact ⟨hn.1.symm, hn.1 ▸ hn.2⟩
  · intro hn
    exact ⟨hn.1.symm, hn.1 ▸ hn.2⟩

theorem getD_number?_scale (n : Option Nat) (hn : number? members "scale" = .ok n) :
    n.getD 0 = scale := by
  -- A schema that spells no scale means zero, and one that spells one means that number.
  cases n with
  | none =>
      rw [number?_eq_none_iff] at hn
      rcases h.scale with hs | hs
      · rw [hn] at hs
        exact absurd hs.symm (Option.some_ne_none _)
      · exact hs.2.symm
  | some n =>
      have hfind := ((number?_eq_some_iff members "scale" n).mp hn).1
      rcases h.scale with hs | hs
      · rw [hfind, Option.some.injEq, Json.int.injEq, Int.ofNat_inj] at hs
        exact hs
      · rw [hs.1] at hfind
        exact absurd hfind.symm (Option.some_ne_none _)

theorem exists_number?_scale (hlt : scale < numberLimit) :
    ∃ n, number? members "scale" = .ok n := by
  rcases h.scale with hs | hs
  · exact ⟨some scale, (number?_eq_some_iff members "scale" scale).mpr ⟨hs, hlt⟩⟩
  · exact ⟨none, (number?_eq_none_iff members "scale").mpr hs.1⟩

/-- A decimal of bytes is read as the type that its precision and its scale make. -/
theorem fromSchema_eq_ok_iff (token : Nat) (q : Registry) (t : Ty) :
    fromSchema token (.object members) = .ok (q, t) ↔
      q = .new token ∧ ∃ type, (Numeric.decimal precision scale).Makes type ∧
        t = .decimal type := by
  have hl : text? members "logicalType" = some "decimal" :=
    text?_eq _ h.logical
  rw [Schemata.fromSchema_eq_ok_iff]
  constructor
  · -- What is read says that the import of the annotation succeeded, which determines the type.
    intro hread
    rcases exists_importTypeWith_of_reading none _ q _ t hread with ⟨imp, himp⟩
    rw [importTypeWith, importObject_of_not_definition imp none _ h.kind (by decide),
      importLogical_decimal none members hl, importDecimal_eq_ok_iff] at himp
    rcases himp with ⟨hq, p, s, type, hp, hs, hnew, ht⟩
    rcases (h.number?_precision_iff members precision scale p).mp hp with ⟨rfl, hlt⟩
    rw [h.getD_number?_scale members p scale s hs] at hnew
    exact ⟨hq.symm, type, ⟨hlt, hnew⟩, ht⟩
  · -- A scale is never beyond the precision, so it is within the range of the member too.
    rintro ⟨rfl, type, ⟨hlt, hnew⟩, rfl⟩
    have hle := ((DecimalType.exists_new_iff precision scale).mp ⟨type, hnew⟩).2
    rcases h.exists_number?_scale members precision scale (Nat.lt_of_le_of_lt hle hlt) with
      ⟨s, hs⟩
    rw [← h.getD_number?_scale members precision scale s hs] at hnew
    exact .leaf _ (.decimal members precision s type h.kind hl
      ((h.number?_precision_iff members precision scale precision).mpr ⟨rfl, hlt⟩) hs hnew)
      (.nil _ _)

end DecimalOfBytes

/-- The name of a primitive type is read as that type. -/
theorem fromSchema_primitive_iff (name : String) (u : Ty) (hp : primitive? name = some u)
    (token : Nat) (q : Registry) (t : Ty) :
    fromSchema token (.string name) = .ok (q, t) ↔ q = .new token ∧ t = u := by
  rw [fromSchema_eq_ok_iff, reading_iff_of_nameRead _ _ _ _ name t (.text name), hp,
    Option.some.injEq]
  constructor
  · rintro ⟨hq, ht | ⟨hn, _⟩⟩
    · exact ⟨hq.symm, ht.symm⟩
    · exact absurd (Or.inl (by rw [hp]; rfl)) hn
  · intro h
    exact ⟨h.1.symm, Or.inl h.2.symm⟩

/-- What is read as which type. -/
theorem fromSchema_numeric_iff (n : Numeric) (doc : Json) (h : n.Spells doc) (token : Nat)
    (q : Registry) (t : Ty) : fromSchema token doc = .ok (q, t) ↔
      q = .new token ∧ ∃ type, n.Makes type ∧ t = .decimal type := by
  cases n with
  | int =>
      rw [show doc = .string "int" from h, fromSchema_primitive_iff "int" (.decimal .int) rfl]
      simp only [Numeric.Makes, exists_eq_left]
  | long =>
      rw [show doc = .string "long" from h, fromSchema_primitive_iff "long" (.decimal .long) rfl]
      simp only [Numeric.Makes, exists_eq_left]
  | decimal precision scale =>
      rcases h with ⟨members, rfl, h⟩
      exact h.fromSchema_eq_ok_iff members precision scale token q t

/-! ### And back -/

/-- Of what is read as a decimal of bytes only nineteen digits have the width of a native
    integer with as many. -/
theorem decimalSchema_of_new (precision scale : Nat) (type : DecimalType)
    (h : DecimalType.new precision scale = .ok type) :
    decimalSchema type = (Numeric.decimal precision scale).written.document := by
  rcases precision_scale_of_new precision scale type h with ⟨rfl, rfl⟩
  rcases decimalSchema_cases type with ⟨rfl, _⟩ | ⟨rfl, he⟩ | ⟨_, hlong, he⟩
  · -- Ten digits need more than 32 bits.
    rcases (DecimalType.new_zero_eq_ok_iff _ _).mp h with ⟨_, _, _, hbits⟩
    exact absurd (Option.some.inj hbits) (by decide)
  · rw [he]
    rfl
  · have hne : Numeric.decimal type.precision type.scale ≠ .decimal 19 0 := by
      intro hlost
      rw [Numeric.decimal.injEq] at hlost
      rw [hlost.1, hlost.2] at h
      have hnew : DecimalType.new 19 0 = .ok .long := by rfl
      exact hlong (Except.ok.inj (h.symm.trans hnew))
    rw [he, Numeric.written, if_neg hne]
    rfl

/-- What is written of the type that a number is read as. -/
theorem decimalSchema_of_makes (n : Numeric) (type : DecimalType) (h : n.Makes type) :
    decimalSchema type = n.written.document := by
  cases n with
  | int =>
      rw [show type = .int from h]
      rfl
  | long =>
      rw [show type = .long from h]
      rfl
  | decimal precision scale => exact decimalSchema_of_new precision scale type h.2

/-- A decimal type by itself is exported as its document. -/
theorem toSchema_decimal (r : Registry) (type : DecimalType) :
    toSchema r (.decimal type) = .ok (decimalSchema type) :=
  (toSchema_eq_ok_iff r _ _).mpr ⟨[], [], .decimal (.decimal type) type rfl (.nil _ _)⟩

/-- Numbers that are imported and exported. They are accepted if they are valid. By themselves
    and as the type of a field, whatever its cardinality, its record and what leads to the
    record, they come back as they were written, unless they have nineteen digits and none of
    them behind the point. Two numbers come back alike only if they are alike or one of them is
    that one and the other the native integer of as many digits. -/
theorem numeric_comes_back (n : Numeric) (doc : Json) (hdoc : n.Spells doc) (token : Nat) :
    ((∃ q t, fromSchema token doc = .ok (q, t)) ↔ n.Valid) ∧
      ∀ q t, fromSchema token doc = .ok (q, t) →
        toSchema q t = .ok n.written.document ∧
        (∀ r root e, Registry.Built r → (∀ h, r.Reaches root (.named h) → r.Holds h) →
          toSchema r root = .ok e → ∀ i fields k field, r.Reaches root (.named (.struct i)) →
          (r.struct i).fields = some fields → fields[k]? = some field → field.type = t →
          ∃ path, DefinedAt r e path (.struct i) ∧
            part? (path ++ k :: typeSteps field) e = some n.written.document) ∧
        ∀ n' doc' q' t', n'.Spells doc' → fromSchema token doc' = .ok (q', t') →
          (toSchema q' t' = toSchema q t ↔ n' = n ∨ (n' = .long ∨ n' = .decimal 19 0) ∧
            (n = .long ∨ n = .decimal 19 0)) := by
  -- By itself a number is exported from its type alone.
  have halone : ∀ n doc q t, Numeric.Spells doc n → fromSchema token doc = .ok (q, t) →
      toSchema q t = .ok n.written.document := by
    intro n doc q t hdoc himport
    rcases (fromSchema_numeric_iff n doc hdoc token q t).mp himport with ⟨_, type, hmakes, rfl⟩
    rw [toSchema_decimal, decimalSchema_of_makes n type hmakes]
  constructor
  · rw [← n.exists_makes_iff]
    simp only [fromSchema_numeric_iff n doc hdoc token, exists_and_left, exists_eq_left]
    exact ⟨fun ⟨_, type, hm, _⟩ => ⟨type, hm⟩, fun ⟨type, hm⟩ => ⟨_, type, hm, rfl⟩⟩
  · intro q t himport
    refine ⟨halone n doc q t hdoc himport, ?_, ?_⟩
    · intro r root e hr hheld he i fields k field hreach hf hk htype
      rcases (toSchema_eq_ok_iff r root e).mp he with ⟨refs, written, hwalk⟩
      have hdefines := definesOnce_of_walk r root e refs written hr.tidy.distinct hheld hwalk
      -- The field is somewhere in the export, and what stands there shows its type.
      rcases hdefines.placed i fields k field hreach hf hk with ⟨path, hdefined, hplaced⟩
      rcases hdefines.shown _ _ hplaced with ⟨_, part, hpart, hshows⟩
      rcases (fromSchema_numeric_iff n doc hdoc token q t).mp himport with ⟨_, type, hmakes, rfl⟩
      rw [htype, Shows, decimalSchema_of_makes n type hmakes] at hshows
      exact ⟨path, hdefined, hshows ▸ hpart⟩
    · intro n' doc' q' t' hdoc' himport'
      rw [halone n doc q t hdoc himport, halone n' doc' q' t' hdoc' himport', Except.ok.injEq,
        Numeric.document_inj, Numeric.written_eq_iff]

open Sample

/-- Amounts of money come back as decimals of bytes, by themselves and as the price of an
    item. -/
theorem numeric_comes_back_money : ∃ e path, toSchema items (.named (.struct 0)) = .ok e ∧
    DefinedAt items e path (.struct 0) ∧
    part? (path ++ [0]) e = some (Numeric.decimal 9 2).document ∧
    toSchema (.new 0) (.decimal money) = .ok (Numeric.decimal 9 2).document := by
  have hmoney : fromSchema 0 (Numeric.decimal 9 2).document = .ok (.new 0, .decimal money) := by
    rfl
  have hspells := Numeric.spells_document (.decimal 9 2)
  rcases (numeric_comes_back (.decimal 9 2) _ hspells 0).2 _ _ hmoney with ⟨halone, hfield, _⟩
  have hheld := items_expressible.held
  rcases hfield items (.named (.struct 0)) _ items_built hheld rfl 0 _ 0 _ .root rfl rfl rfl with
    ⟨path, hdefined, hpart⟩
  exact ⟨_, path, rfl, hdefined, hpart, halone⟩

/-- A decimal of nineteen digits is accepted and comes back as the native integer. -/
theorem nineteen_digits_become_long : ∃ doc, (Numeric.decimal 19 0).Spells doc ∧
    fromSchema 0 doc = .ok (.new 0, .decimal .long) ∧
    toSchema (.new 0) (.decimal .long) = .ok (.string "long") :=
  ⟨.object [("type", .string "bytes"), ("logicalType", .string "decimal"),
      ("precision", .int 19)], ⟨_, rfl, rfl, rfl, rfl, Or.inr ⟨rfl, rfl⟩⟩, by rfl, by rfl⟩

end Avro

end Schemata
