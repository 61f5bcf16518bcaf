import Schemata.Proofs.Avro.Conforming
import Schemata.Proofs.Names

/-!
# Defaults That Fit

Which defaults a type takes wherever it stands.

Whether a field may have a default is checked by resolving that with the schema
of the field, among the types that have been met. For a type that is no struct
the types that have been met do not matter: a scalar or decimal type looks at
the value alone, and an enum at its symbols. `DefaultFits` says of a type, a
cardinality and a default that the type takes the default by itself.

In an export an enum stands for itself only once, and behind that by its name.
A name takes what the enum takes, if the name leads there (`Stands`).

## Main definitions

* `Avro.flatSchema`: The schema of a type that is no struct.
* `Avro.TypeTakes`: A type that is no struct takes a value.
* `Avro.DefaultFits`: A type takes a default.
* `Avro.Stands`: A schema, or a name that leads there.

## Theorems

* `Avro.inSpace_eq_self`: A full name is read as it is written.
* `Avro.resolveAt_of_takes`: What stands for a schema takes what that takes.
* `Avro.fieldConforms_of_defaultFits`: A default that fits is accepted.
-/

namespace Schemata

namespace Avro

/-! ### Values of types that are no structs -/

/-- A schema without parts takes the value. -/
def Takes (schema : Schema) (value : Json) : Prop :=
  ∃ datum, resolveLeaf schema (.ofJson value) = .ok datum

instance (schema : Schema) (value : Json) : Decidable (Takes schema value) :=
  match h : resolveLeaf schema (.ofJson value) with
  | .ok datum => isTrue ⟨datum, h⟩
  | .error _ => isFalse fun ⟨_, h'⟩ => by
      rw [h] at h'
      exact nomatch h'

/-- The schema of an enum. -/
def enumFlat (e : EnumType) : Schema :=
  .enumeration (inSpace e.name none) e.symbols e.default

/-- The schema of a type that is no struct. -/
def flatSchema (r : Registry) : Ty → Option Schema
  | .named (.enumeration i) => some (enumFlat (r.enumeration i))
  | t => leafSchema t

/-- The type is no struct, and it takes the value. -/
def TypeTakes (r : Registry) (t : Ty) (value : Json) : Prop :=
  ∃ schema ∈ flatSchema r t.core, Takes schema value

instance (r : Registry) (t : Ty) (value : Json) : Decidable (TypeTakes r t value) :=
  inferInstanceAs (Decidable (∃ schema ∈ _, _))

/-- The type takes the default, item by item where it is that of a list. -/
def DefaultFits (r : Registry) (t : Ty) : Cardinality → Default → Prop
  | .repeated, .literal value => ∃ items ∈ value.array?, ∀ item ∈ items, TypeTakes r t item
  | _, .literal value => TypeTakes r t value
  | _, _ => True

instance (r : Registry) (t : Ty) : (cardinality : Cardinality) → (default : Default) →
    Decidable (DefaultFits r t cardinality default)
  | .repeated, .literal value => inferInstanceAs (Decidable (∃ items ∈ value.array?, _))
  | .required, .literal value => inferInstanceAs (Decidable (TypeTakes r t value))
  | .optional, .literal value => inferInstanceAs (Decidable (TypeTakes r t value))
  | .required, .none | .required, .null => isTrue trivial
  | .optional, .none | .optional, .null => isTrue trivial
  | .repeated, .none | .repeated, .null => isTrue trivial

theorem unwrap_ofJson (value : Json) : (Datum.ofJson value).unwrap = Datum.ofJson value := by
  cases value <;> rfl

/-- A type that is no struct is resolved by itself. -/
theorem resolveWith_flatSchema (r : Registry) (t : Ty) (schema : Schema)
    (hs : flatSchema r t = some schema) (go : Resolver) (known : Environment)
    (space : Option String) (datum : Datum) :
    resolveWith go known space schema datum = resolveLeaf schema datum.unwrap := by
  -- Scalars, decimals and enums have schemas that look no further. A struct has no flat schema.
  cases t with
  | scalar kind =>
      simp only [flatSchema, leafSchema, Option.some.injEq] at hs
      rw [← hs]
      cases kind <;> rfl
  | decimal type =>
      simp only [flatSchema, leafSchema, Option.some.injEq] at hs
      rw [← hs, decimalLeaf]
      split_ifs <;> rfl
  | named h =>
      cases h with
      | enumeration i =>
          rw [flatSchema, Option.some.injEq] at hs
          rw [← hs]
          rfl
      | struct i => simp only [flatSchema, leafSchema, reduceCtorEq] at hs
  | unparsed t => simp only [flatSchema, leafSchema, reduceCtorEq] at hs

theorem kind_of_leafSchema (t : Ty) (schema : Schema) (h : leafSchema t = some schema) :
    schema.kind ≠ .null ∧ schema.kind ≠ .union := by
  cases t with
  | scalar kind =>
      rw [leafSchema, Option.some.injEq] at h
      rw [← h]
      cases kind <;> exact ⟨by decide, by decide⟩
  | decimal type =>
      rw [leafSchema, Option.some.injEq] at h
      rw [← h, decimalLeaf]
      split_ifs <;> simp only [Schema.kind, ne_eq, reduceCtorEq, not_false_eq_true, and_self]
  | named _ | unparsed _ => simp only [leafSchema, reduceCtorEq] at h

theorem flatSchema_of_leafSchema (r : Registry) (t : Ty) (schema : Schema)
    (h : leafSchema t = some schema) : flatSchema r t = some schema := by
  cases t with
  | named h' => exact absurd rfl (ne_named_of_leafSchema h h')
  | scalar _ | decimal _ | unparsed _ => exact h

/-! ### What stands for a type -/

/-- What a type is read as stands for a schema: it is that schema, or a name that leads there. -/
inductive Stands (known : Environment) (schema : Schema) : Schema → Prop
  | self : Stands known schema schema
  | reference (name : String) (hn : namespaceOf? name ≠ some "")
      (hk : known.find? name = some schema) : Stands known schema (.reference name)

/-- A name is a full name if it has a dot, unless nothing stands in front of that, and also if
    there is no namespace. -/
theorem inSpace_eq_self (name : String) (space : Option String)
    (hn : namespaceOf? name ≠ some "") (hs : hasDot name = true ∨ someSpace space = none) :
    inSpace name space = name := by
  have hself := qualify_localName name
  unfold inSpace
  -- Without a dot there must be no namespace around.
  -- With one the own namespace wins, unless it is empty.
  rcases hspace : namespaceOf? name with _ | own
  · rw [hspace] at hself
    rw [namespaceOf?_eq_none_iff] at hspace
    rcases hs with hs | hs
    · rw [hspace] at hs
      exact absurd hs Bool.false_ne_true
    · rw [hs]
      exact hself
  · rw [hspace] at hself hn
    have hown : own ≠ "" := fun he => hn (congrArg some he)
    rw [show someSpace (some own) = some own from Option.filter_some_pos (decide_eq_true hown)]
    exact hself

section

variable (r : Registry) (known : Environment) (t : Ty) (schema read : Schema)
  (hs : flatSchema r t = some schema)

include hs

/-- What stands for the schema of a type that is no struct takes what that takes. -/
theorem resolveAt_of_takes (hread : Stands known schema read) (value : Json)
    (ht : Takes schema value) (steps : Nat) (space : Option String)
    (hspace : space = none ∨ space = read.space?) :
    ∃ datum, resolveAt (steps + 2) known space read (.ofJson value) = .ok datum := by
  rcases ht with ⟨datum, ht⟩
  cases hread with
  | self =>
      refine ⟨datum, ?_⟩
      rw [resolveAt, resolveWith_flatSchema r t schema hs, unwrap_ofJson, ht]
  | reference name hn hk =>
      refine ⟨datum, ?_⟩
      -- A reference without a dot stands in no namespace, and one with a dot is complete.
      have hname : inSpace name space = name := by
        refine inSpace_eq_self name space hn ?_
        by_cases hdot : hasDot name = true
        · exact Or.inl hdot
        · rw [Bool.not_eq_true, ← namespaceOf?_eq_none_iff] at hdot
          refine Or.inr ?_
          rcases hspace with rfl | rfl
          · rfl
          · rw [Schema.space?, hdot]
            rfl
      rw [resolveAt]
      simp only [resolveWith, hname, hk]
      rw [resolveAt, resolveWith_flatSchema r t schema hs, unwrap_ofJson, unwrap_ofJson, ht]

end

/-! ### The check of a default -/

theorem stepBound_eq (known : Environment) (depth : Nat) :
    ∃ steps, stepBound known depth = steps + 3 := by
  have hle : 8 * 2 * 2 ≤ stepBound known depth :=
    Nat.mul_le_mul (Nat.mul_le_mul_left 8 (Nat.le_add_left 2 _)) (Nat.le_add_left 2 _)
  exact ⟨stepBound known depth - 3, by omega⟩

section

variable (known : Environment) (depth : Nat) (schema : Schema) (value : Json)

theorem checkDefault_eq_ok (hu : schema.kind ≠ .union)
    (h : ∃ datum, Datum.resolve known depth schema.space? schema (.ofJson value) = .ok datum) :
    checkDefault known depth schema value = .ok () := by
  rcases h with ⟨datum, h⟩
  cases schema with
  | union branches => exact absurd rfl hu
  | _ =>
      simp only [checkDefault, h, fits]
      rfl

/-- The first branch of a union may take a default. -/
theorem checkDefault_union_eq_ok (rest : List Schema)
    (h : ∃ datum, Datum.resolve known depth schema.space? schema (.ofJson value) = .ok datum) :
    checkDefault known depth (.union (schema :: rest)) value = .ok () := by
  rcases h with ⟨datum, h⟩
  simp only [checkDefault, anyFits, h, fits]
  rfl

/-- A list takes a default if its items take the items of that. -/
theorem checkDefault_array_eq_ok (items : List Json)
    (h : ∀ steps, ∀ item ∈ items,
      ∃ datum, resolveAt (steps + 2) known none schema (.ofJson item) = .ok datum) :
    checkDefault known depth (.array schema) (.array items) = .ok () := by
  refine checkDefault_eq_ok known depth _ _ nofun ?_
  rcases stepBound_eq known depth with ⟨steps, hsteps⟩
  -- On the items, each of which gets along with two steps at least.
  have hitems : ∃ data, (Datum.ofItems items).mapM (resolveAt (steps + 2) known none schema)
      = .ok data := by
    induction items with
    | nil => exact ⟨[], rfl⟩
    | cons item items ih =>
        rcases h steps item List.mem_cons_self with ⟨datum, hdatum⟩
        rcases ih fun steps other hm => h steps other (List.mem_cons_of_mem _ hm) with ⟨data, hdata⟩
        refine ⟨datum :: data, ?_⟩
        rw [Datum.ofItems, List.mapM_cons, hdatum, hdata]
        rfl
  rcases hitems with ⟨data, hdata⟩
  refine ⟨.array data, ?_⟩
  rw [Datum.resolve, hsteps, resolveAt]
  simp only [Datum.ofJson, Datum.unwrap, resolveWith, Schema.space?, hdata]
  rfl

end

/-- A default that fits is accepted where the field is read as what stands for its type. -/
theorem fieldConforms_of_defaultFits (r : Registry) (known : Environment) (depth : Nat)
    (field : Field) (read : Schema) (hname : isIdentifier field.name = true)
    (hkind : read.kind ≠ .null ∧ read.kind ≠ .union)
    (hstands : ∀ schema, flatSchema r field.type.core = some schema → Stands known schema read)
    (hd : DefaultFits r field.type field.cardinality field.default) :
    FieldConforms known depth field read := by
  rcases stepBound_eq known depth with ⟨steps, hsteps⟩
  -- What the type takes is taken by what the field is read as, among the items of a list too.
  have htakes : ∀ value, TypeTakes r field.type value → ∀ steps space,
      space = none ∨ space = read.space? →
      ∃ datum, resolveAt (steps + 2) known space read (.ofJson value) = .ok datum := by
    rintro value ⟨schema, hs, ht⟩ steps space hspace
    exact resolveAt_of_takes r known _ schema read hs (hstands schema hs) value ht steps space
      hspace
  have hitems : ∀ items : List Json, (∀ item ∈ items, TypeTakes r field.type item) →
      checkDefault known depth (.array read) (.array items) = .ok () :=
    fun items h => checkDefault_array_eq_ok known depth read items fun steps item hm =>
      htakes item (h item hm) steps none (Or.inl rfl)
  refine ⟨hname, fun _ => hkind, fun value hvalue => ?_⟩
  rcases hcard : field.cardinality with _ | _ | _ <;>
    rcases hdefault : field.default with _ | _ | literal <;>
    simp only [hcard, hdefault, slotDefault, Option.mem_def, Option.some.injEq, reduceCtorEq]
      at hvalue <;>
    simp only [hcard, hdefault, DefaultFits] at hd <;>
    rw [← hvalue]
  case required.literal =>
    refine checkDefault_eq_ok known depth read literal hkind.2 ?_
    rw [Datum.resolve, hsteps]
    exact htakes literal hd _ _ (Or.inr rfl)
  case optional.null =>
    refine checkDefault_union_eq_ok known depth .null .null _ ⟨.null, ?_⟩
    rw [Datum.resolve, hsteps]
    rfl
  case optional.literal =>
    refine checkDefault_union_eq_ok known depth read literal _ ?_
    rw [Datum.resolve, hsteps]
    exact htakes literal hd _ _ (Or.inr rfl)
  case repeated.literal =>
    rcases hd with ⟨items, harray, hd⟩
    cases literal with
    | array own =>
        rw [Json.array?, Option.mem_def, Option.some.injEq] at harray
        exact hitems own (harray ▸ hd)
    | _ => exact absurd harray (Option.not_mem_none items)
  all_goals exact hitems [] fun item hm => absurd hm List.not_mem_nil

end Avro

end Schemata
