import Schemata.Editing
import Schemata.Proofs.Registry.Renaming

/-!
# Headings

What a type or a field is called and said to be, apart from all else.

A registry falls into two parts. One are the headings: each type and each field
has a live name, aliases and a documentation. The other is the skeleton, which
has everything that no renaming and no documentation may touch: the token, how
many types there are, the symbols of enums, and for each struct the cardinality,
type, default and owner of its fields in their order. A registry is made of the
two and nothing else (`Registry.ext_of_headings`).

So an edit can be described by what it does to one heading. All that is left to
say is that the others and the skeleton stay, and that is said here once, for
types and for fields alike: `skeleton_setHeading` and `heading?_setHeading_other`.

## Main definitions

* `Node`: What has a heading, a type or a field of a struct.
* `Heading`: Live name, aliases and documentation.
* `Skeleton`, `Registry.skeleton`: A registry without its headings.
* `Registry.heading?`, `Registry.setHeading`: Reading and replacing a heading.

## Theorems

* `Registry.heading?_type_iff`, `Registry.heading?_field_iff`: Which nodes have a
  heading.
* `Registry.skeleton_setHeading`: A heading is replaced and the skeleton stays.
* `Registry.heading?_setHeading_self`, `Registry.heading?_setHeading_other`: The
  one heading is replaced and no other.
* `Registry.ext_of_headings`: There is nothing besides skeleton and headings.
-/

namespace Schemata

/-- What has a heading: a type, or a field of a struct. -/
inductive Node where
  | type (handle : Handle)
  | field (address : FieldAddress)
  deriving DecidableEq, Repr

/-- What a node is called and said to be. -/
structure Heading where
  names : Names
  documentation : Option String
  deriving DecidableEq, Repr

/-! ### Lists -/

section

variable {α β : Type} (f : α → β) (as bs : List α)

/-- Lists with the same images are the same if no two elements with one image differ. -/
theorem eq_of_map_eq (h : as.map f = bs.map f)
    (hf : ∀ (k : Nat) (ha : k < as.length) (hb : k < bs.length), f as[k] = f bs[k] →
      as[k] = bs[k]) : as = bs := by
  have hlength : as.length = bs.length := by
    rw [← List.length_map f, h, List.length_map]
  refine List.ext_getElem hlength fun k ha hb => hf k ha hb ?_
  have hk := List.getElem_of_eq h (by rwa [List.length_map] : k < _)
  rwa [List.getElem_map, List.getElem_map] at hk

/-- An element is replaced by one with the same image. -/
theorem map_set_eq_map (i : Nat) (a : α) (hi : i < as.length) (ha : f a = f as[i]) :
    (as.set i a).map f = as.map f := by
  have hi' : i < (as.map f).length := by rwa [List.length_map]
  rw [List.map_set, ha, ← List.getElem_map f (h := hi'), List.set_getElem_self]

end

/-! ### Fields, structs and enums -/

/-- A field without its heading. -/
structure FieldBody where
  cardinality : Cardinality
  type : Ty
  default : Default
  owner : Option Owner
  deriving Repr

/-- An enum without its heading. -/
structure EnumBody where
  symbols : List String
  default : Option String
  deriving DecidableEq, Repr

namespace Field

/-- What the field is called and said to be. -/
def heading (field : Field) : Heading :=
  ⟨field.names, field.documentation⟩

/-- All else about the field. -/
def body (field : Field) : FieldBody :=
  ⟨field.cardinality, field.type, field.default, field.owner⟩

/-- The field under another heading. -/
def withHeading (field : Field) (heading : Heading) : Field :=
  { field with names := heading.names, documentation := heading.documentation }

theorem ext_of_heading (a b : Field) (hh : a.heading = b.heading) (hb : a.body = b.body) :
    a = b := by
  cases a
  cases b
  simp only [heading, body, Heading.mk.injEq, FieldBody.mk.injEq] at hh hb
  simp only [Field.mk.injEq]
  exact ⟨hh.1, hh.2, hb⟩

end Field

namespace StructType

/-- What the struct is called and said to be. -/
def heading (s : StructType) : Heading :=
  ⟨s.names, s.documentation⟩

/-- All else about the struct: its fields without their headings. -/
def body (s : StructType) : Option (List FieldBody) :=
  s.fields.map (·.map Field.body)

/-- The struct under another heading. -/
def withHeading (s : StructType) (heading : Heading) : StructType :=
  { s with names := heading.names, documentation := heading.documentation }

/-- The struct with one of its fields under another heading. -/
def withFieldHeading (s : StructType) (position : Nat) (heading : Heading) : StructType :=
  { s with fields := s.fields.map (·.modify position (·.withHeading heading)) }

theorem body_withFieldHeading {s : StructType} {position : Nat} {heading : Heading} :
    (s.withFieldHeading position heading).body = s.body := by
  unfold body withFieldHeading
  rcases s.fields with _ | fields
  · rfl
  · have hmap : (fields.modify position (·.withHeading heading)).map Field.body
        = fields.map Field.body := by
      refine List.ext_getElem (by simp only [List.length_map, List.length_modify])
        fun k h₁ h₂ => ?_
      rw [List.getElem_map, List.getElem_map, List.getElem_modify]
      -- The field at the position keeps its body, and the others are not touched.
      by_cases hk : position = k
      · rw [if_pos hk]
        rfl
      · rw [if_neg hk]
    simp only [Option.map_some, hmap]

theorem bind_withFieldHeading_other {s : StructType} {position k : Nat} {heading : Heading}
    (hk : position ≠ k) :
    (s.withFieldHeading position heading).fields.bind (·[k]?) = s.fields.bind (·[k]?) := by
  unfold withFieldHeading
  rcases s.fields with _ | fields
  · rfl
  · simp only [Option.map_some, Option.bind_some, List.getElem?_modify, if_neg hk, id_map']

/-- A struct is made of its body, its own heading and those of its fields. -/
theorem ext_of_headings (a b : StructType) (hh : a.heading = b.heading) (hb : a.body = b.body)
    (hf : ∀ k : Nat, (a.fields.bind (·[k]?)).map Field.heading
      = (b.fields.bind (·[k]?)).map Field.heading) : a = b := by
  -- The bodies say how many fields there are, so the headings are compared position by position.
  have hfields : a.fields = b.fields := by
    unfold body at hb
    rcases ha : a.fields with _ | as <;> rcases hb' : b.fields with _ | bs
    · rfl
    · rw [ha, hb'] at hb
      exact nomatch hb
    · rw [ha, hb'] at hb
      exact nomatch hb
    · rw [ha, hb', Option.map_some, Option.map_some, Option.some.injEq] at hb
      refine congrArg some (eq_of_map_eq Field.body as bs hb fun k h₁ h₂ hbody => ?_)
      have hk := hf k
      rw [ha, hb', Option.bind_some, Option.bind_some, List.getElem?_eq_getElem h₁,
        List.getElem?_eq_getElem h₂, Option.map_some, Option.map_some, Option.some.injEq] at hk
      exact Field.ext_of_heading _ _ hk hbody
  cases a
  cases b
  simp only [heading, Heading.mk.injEq] at hh hfields
  simp only [StructType.mk.injEq]
  exact ⟨hh.1, hh.2, hfields⟩

end StructType

namespace EnumType

/-- What the enum is called and said to be. -/
def heading (e : EnumType) : Heading :=
  ⟨e.names, e.documentation⟩

/-- All else about the enum. -/
def body (e : EnumType) : EnumBody :=
  ⟨e.symbols, e.default⟩

/-- The enum under another heading. -/
def withHeading (e : EnumType) (heading : Heading) : EnumType :=
  { e with names := heading.names, documentation := heading.documentation }

theorem ext_of_heading (a b : EnumType) (hh : a.heading = b.heading) (hb : a.body = b.body) :
    a = b := by
  cases a
  cases b
  simp only [heading, body, Heading.mk.injEq, EnumBody.mk.injEq] at hh hb
  simp only [EnumType.mk.injEq]
  exact ⟨hh.1, hh.2, hb⟩

end EnumType

/-! ### Registries -/

/-- A registry without its headings. -/
structure Skeleton where
  token : Nat
  structs : List (Option (List FieldBody))
  enums : List EnumBody
  deriving Repr

namespace Registry

/-- All of a registry but what types and fields are called and said to be. -/
def skeleton (r : Registry) : Skeleton :=
  ⟨r.token, r.structs.map StructType.body, r.enums.map EnumType.body⟩

/-- What a node is called and said to be, if there is such a node. -/
def heading? (r : Registry) : Node → Option Heading
  | .type (.struct i) => r.structs[i]?.map StructType.heading
  | .type (.enumeration i) => r.enums[i]?.map EnumType.heading
  | .field address => (r.fieldAt? address).map Field.heading

/-- Put a node under another heading. -/
def setHeading (r : Registry) (heading : Heading) : Node → Registry
  | .type (.struct i) => r.setStruct i ((r.struct i).withHeading heading)
  | .type (.enumeration i) => r.setEnum i ((r.enumeration i).withHeading heading)
  | .field address =>
    r.setStruct address.struct
      ((r.struct address.struct).withFieldHeading address.position heading)

/-- The documentation of a type. -/
def documentationOf (r : Registry) : Handle → Option String
  | .struct i => (r.struct i).documentation
  | .enumeration i => (r.enumeration i).documentation

section

variable (r r' : Registry)

/-! #### Which nodes there are -/

theorem getElem?_structs (i : Nat) (hi : i < r.structs.length) :
    r.structs[i]? = some (r.struct i) := by
  rw [List.getElem?_eq_getElem hi, r.struct_eq_getElem i hi]

theorem getElem?_enums (i : Nat) (hi : i < r.enums.length) :
    r.enums[i]? = some (r.enumeration i) := by
  rw [List.getElem?_eq_getElem hi, r.enumeration_eq_getElem i hi]

theorem heading?_struct (i : Nat) (hi : i < r.structs.length) :
    r.heading? (.type (.struct i)) = some (r.struct i).heading := by
  rw [heading?, r.getElem?_structs i hi, Option.map_some]

theorem heading?_enumeration (i : Nat) (hi : i < r.enums.length) :
    r.heading? (.type (.enumeration i)) = some (r.enumeration i).heading := by
  rw [heading?, r.getElem?_enums i hi, Option.map_some]

/-- A handle has a heading if a type stands behind it. -/
theorem heading?_type_iff (h : Handle) (heading : Heading) :
    r.heading? (.type h) = some heading ↔
      r.Holds h ∧ heading = ⟨r.namesOf h, r.documentationOf h⟩ := by
  cases h with
  | struct i =>
      by_cases hi : i < r.structs.length
      · simp only [r.heading?_struct i hi, Option.some.injEq, Holds, hi, true_and]
        exact eq_comm
      · simp only [heading?, List.getElem?_eq_none (Nat.le_of_not_lt hi), Option.map_none,
          reduceCtorEq, Holds, hi, false_and]
  | enumeration i =>
      by_cases hi : i < r.enums.length
      · simp only [r.heading?_enumeration i hi, Option.some.injEq, Holds, hi, true_and]
        exact eq_comm
      · simp only [heading?, List.getElem?_eq_none (Nat.le_of_not_lt hi), Option.map_none,
          reduceCtorEq, Holds, hi, false_and]

theorem fieldAt?_eq_some_iff (address : FieldAddress) (field : Field) :
    r.fieldAt? address = some field ↔ ∃ fields,
      (r.struct address.struct).fields = some fields ∧ fields[address.position]? = some field := by
  rw [fieldAt?, Option.bind_eq_some_iff]

/-- A place has a heading if a field stands there. -/
theorem heading?_field_iff (address : FieldAddress) (heading : Heading) :
    r.heading? (.field address) = some heading ↔
      ∃ field, r.fieldAt? address = some field ∧ field.heading = heading := by
  rw [heading?, Option.map_eq_some_iff]

/-! #### Bodies -/

theorem body_struct (i : Nat) : (r.struct i).body = r.skeleton.structs.getD i none := by
  simp only [struct, skeleton, List.getD_eq_getElem?_getD, List.getElem?_map]
  rcases r.structs[i]? with _ | s
  · rfl
  · rfl

theorem body_fieldAt? (address : FieldAddress) : (r.fieldAt? address).map Field.body
    = (r.skeleton.structs.getD address.struct none).bind (·[address.position]?) := by
  rw [← body_struct, fieldAt?, StructType.body]
  rcases (r.struct address.struct).fields with _ | fields
  · rfl
  · rw [Option.bind_some, Option.map_some, Option.bind_some, List.getElem?_map]

/-! #### Replacing a heading -/

theorem skeleton_setStruct (i : Nat) (s : StructType) (hs : s.body = (r.struct i).body) :
    (r.setStruct i s).skeleton = r.skeleton := by
  by_cases hi : i < r.structs.length
  · rw [r.struct_eq_getElem i hi] at hs
    simp only [skeleton, setStruct, map_set_eq_map StructType.body r.structs i s hi hs]
  · rw [r.setStruct_eq_self i s hi]

theorem skeleton_setEnum (i : Nat) (e : EnumType) (he : e.body = (r.enumeration i).body) :
    (r.setEnum i e).skeleton = r.skeleton := by
  by_cases hi : i < r.enums.length
  · rw [r.enumeration_eq_getElem i hi] at he
    simp only [skeleton, setEnum, map_set_eq_map EnumType.body r.enums i e hi he]
  · rw [r.setEnum_eq_self i e hi]

/-- A heading is replaced, and the skeleton stays. -/
theorem skeleton_setHeading (node : Node) (heading : Heading) :
    (r.setHeading heading node).skeleton = r.skeleton := by
  rcases node with (i | i) | address
  · exact r.skeleton_setStruct i _ rfl
  · exact r.skeleton_setEnum i _ rfl
  · exact r.skeleton_setStruct address.struct _ StructType.body_withFieldHeading

theorem fieldAt?_setStruct_self (address : FieldAddress) (s : StructType)
    (hi : address.struct < r.structs.length) :
    (r.setStruct address.struct s).fieldAt? address = s.fields.bind (·[address.position]?) := by
  rw [fieldAt?, r.struct_setStruct_self _ s hi]

theorem fieldAt?_setStruct_other (i : Nat) (address : FieldAddress) (s : StructType)
    (hi : address.struct ≠ i) : (r.setStruct i s).fieldAt? address = r.fieldAt? address := by
  rw [fieldAt?, r.struct_setStruct_other i _ s hi, fieldAt?]

/-- A struct is replaced by one with the same fields. -/
theorem fieldAt?_setStruct_fields (i : Nat) (address : FieldAddress) (s : StructType)
    (hs : s.fields = (r.struct i).fields) :
    (r.setStruct i s).fieldAt? address = r.fieldAt? address := by
  rw [fieldAt?, r.fields_setStruct i _ s hs, fieldAt?]

/-- The heading of a node is replaced. -/
theorem heading?_setHeading_self (node : Node) (old heading : Heading)
    (h : r.heading? node = some old) :
    (r.setHeading heading node).heading? node = some heading := by
  rcases node with (i | i) | address
  · have hi : i < r.structs.length := ((r.heading?_type_iff _ old).mp h).1
    have hself : (r.setHeading heading (.type (.struct i))).struct i
        = (r.struct i).withHeading heading := r.struct_setStruct_self i _ hi
    rw [heading?_struct _ i (by rw [setHeading, setStruct_length]; exact hi), hself]
    rfl
  · have hi : i < r.enums.length := ((r.heading?_type_iff _ old).mp h).1
    have hself : (r.setHeading heading (.type (.enumeration i))).enumeration i
        = (r.enumeration i).withHeading heading := r.enumeration_setEnum_self i _ hi
    rw [heading?_enumeration _ i (by rw [setHeading, setEnum_length]; exact hi), hself]
    rfl
  · -- A field is modified within the fields of its struct.
    rcases (r.heading?_field_iff address old).mp h with ⟨field, hfield, _⟩
    rcases (r.fieldAt?_eq_some_iff address field).mp hfield with ⟨fields, hf, hposition⟩
    have hi := r.lt_of_struct_fields address.struct fields hf
    refine (heading?_field_iff _ address heading).mpr ⟨field.withHeading heading, ?_, rfl⟩
    rw [setHeading, r.fieldAt?_setStruct_self address _ hi, StructType.withFieldHeading, hf,
      Option.map_some, Option.bind_some, List.getElem?_modify, hposition]
    simp only [if_true, Option.map_eq_map, Option.map_some]

/-- A struct is replaced by one that is called the same. -/
theorem heading?_setStruct_type (i : Nat) (s : StructType) (hs : s.heading = (r.struct i).heading)
    (h : Handle) : (r.setStruct i s).heading? (.type h) = r.heading? (.type h) := by
  by_cases hi : i < r.structs.length
  · cases h with
    | struct j =>
        by_cases hj : j = i
        · have hi' : i < (r.setStruct i s).structs.length := by rwa [setStruct_length]
          rw [hj, heading?_struct _ i hi', r.struct_setStruct_self i s hi, hs,
            r.heading?_struct i hi]
        · simp only [heading?, setStruct, List.getElem?_set_ne (Ne.symm hj)]
    | enumeration j => rfl
  · rw [r.setStruct_eq_self i s hi]

/-- The heading of a field is replaced, and all other fields stay. -/
theorem fieldAt?_setHeading_other (address other : FieldAddress) (heading : Heading)
    (hne : other ≠ address) :
    (r.setHeading heading (.field address)).fieldAt? other = r.fieldAt? other := by
  by_cases hs : other.struct = address.struct
  · -- A sibling, at another position.
    have hposition : address.position ≠ other.position := by
      intro hp
      apply hne
      cases address
      cases other
      simp only at hs hp
      rw [hs, hp]
    by_cases hi : address.struct < r.structs.length
    · rw [setHeading, fieldAt?, hs, r.struct_setStruct_self _ _ hi,
        StructType.bind_withFieldHeading_other hposition, fieldAt?, hs]
    · rw [setHeading, r.setStruct_eq_self _ _ hi]
  · exact r.fieldAt?_setStruct_other _ other _ hs

/-- No other heading is replaced. -/
theorem heading?_setHeading_other (node other : Node) (heading : Heading) (hne : other ≠ node) :
    (r.setHeading heading node).heading? other = r.heading? other := by
  rcases node with (i | i) | address <;> rcases other with (j | j) | address'
  · -- Another struct.
    have hj : j ≠ i := fun he => hne (by rw [he])
    simp only [setHeading, heading?, setStruct, List.getElem?_set_ne (Ne.symm hj)]
  · rfl
  · -- A field, perhaps of the struct itself: its fields are what they were.
    have hfield : (r.setHeading heading (.type (.struct i))).fieldAt? address'
        = r.fieldAt? address' := r.fieldAt?_setStruct_fields i address' _ rfl
    simp only [heading?, hfield]
  · rfl
  · have hj : j ≠ i := fun he => hne (by rw [he])
    simp only [setHeading, heading?, setEnum, List.getElem?_set_ne (Ne.symm hj)]
  · rfl
  · -- A struct, perhaps the one that has the field: it is called what it was.
    exact r.heading?_setStruct_type address.struct
      ((r.struct address.struct).withFieldHeading address.position heading) rfl _
  · rfl
  · have hfield := r.fieldAt?_setHeading_other address address' heading fun he => hne (by rw [he])
    simp only [heading?, hfield]

/-! #### Nothing else -/

/-- A registry is made of its skeleton and its headings. -/
theorem ext_of_headings (hs : r.skeleton = r'.skeleton)
    (hh : ∀ node, r.heading? node = r'.heading? node) : r = r' := by
  -- The skeletons say how many types there are, and the headings at each place do the rest.
  have hstructs : r.structs = r'.structs := by
    have hbodies : r.structs.map StructType.body = r'.structs.map StructType.body :=
      congrArg Skeleton.structs hs
    refine eq_of_map_eq StructType.body _ _ hbodies fun i h₁ h₂ hbody => ?_
    have hself := hh (.type (.struct i))
    rw [r.heading?_struct i h₁, r'.heading?_struct i h₂, Option.some.injEq] at hself
    rw [← r.struct_eq_getElem i h₁, ← r'.struct_eq_getElem i h₂] at hbody ⊢
    exact StructType.ext_of_headings _ _ hself hbody fun k => hh (.field ⟨i, k⟩)
  have henums : r.enums = r'.enums := by
    have hbodies : r.enums.map EnumType.body = r'.enums.map EnumType.body :=
      congrArg Skeleton.enums hs
    refine eq_of_map_eq EnumType.body _ _ hbodies fun i h₁ h₂ hbody => ?_
    have hself := hh (.type (.enumeration i))
    rw [r.heading?_enumeration i h₁, r'.heading?_enumeration i h₂, Option.some.injEq] at hself
    rw [← r.enumeration_eq_getElem i h₁, ← r'.enumeration_eq_getElem i h₂] at hbody ⊢
    exact EnumType.ext_of_heading _ _ hself hbody
  have htoken : r.token = r'.token := congrArg Skeleton.token hs
  cases r
  cases r'
  simp only at hstructs henums htoken
  simp only [hstructs, henums, htoken]

end

end Registry

end Schemata
