import Schemata.Proofs.Avro.Expressible
import Schemata.Proofs.Avro.Positions

/-!
# The Layout of an Export

What stands where in an exported document.

An export writes a named type in full where it first meets it, and its name
wherever it meets it again. Which is which depends on all that the walk has
been through. In the document this comes to something that can be looked up:
each type that the root leads to has one definition, and a name stands behind
the definition that it refers to.

The definitions on a walk can be listed along with their positions (`Sites`).
The list follows the walk step by step, and since a walk writes no type twice,
neither does the list. `Placed` goes the other way. It starts from the graph
and says at which position each use of a type has to be found, the root first
and then the fields of what is defined. At any such position the walk itself
can be taken up again (`exists_walk_of_placed`), with nothing written by then
that is not defined ahead of it. What is found there can be read off its first
step.

## Main definitions

* `Avro.IsDefinitionOf`, `Avro.DefinedAt`: The definition of a named type.
* `Avro.Sites`: The positions of all definitions in a document.
* `Avro.Placed`: Where a use of a type has to be found.
* `Avro.Shows`: What is found there.
* `Avro.DefinesOnce`: Types are defined once, and before they are referred to.
* `Exporter.runAll`: Several exports with one exporter.

## Theorems

* `Avro.Walk.split`: A walk may be taken up at any of its types.
* `Avro.exists_sites`: What a walk writes is defined, and nothing else is.
* `Avro.exists_walk_of_placed`: The walk at a position.
* `Avro.placed_of_part`: All that is found is a use of a type, or put around
  one.
* `toSchema_definesOnce`: When an export succeeds, and what it is then.
-/

namespace Schemata

namespace Avro

/-! ### Walks taken apart -/

namespace Walk

variable {r : Registry} {space : Option String} {written written₁ written' : Written} {t : Ty}
  {ts : List Ty} {e : Json} {es : List Json} {refs refs' : List Reference}

/-- The first type is written by itself, and then the others. -/
theorem uncons (h : Walk r space written (t :: ts) (e :: es) refs written') :
    ∃ written₁ refs₁ refs₂, Walk r space written [t] [e] refs₁ written₁ ∧
      Walk r space written₁ ts es refs₂ written' := by
  cases h with
  | scalar _ kind ht rest =>
      exact ⟨_, _, _, .scalar _ kind ht (.nil _ _), rest⟩
  | decimal _ type ht rest =>
      exact ⟨_, _, _, .decimal _ type ht (.nil _ _), rest⟩
  | reference _ handle ht hw rest =>
      exact ⟨_, _, _, .reference _ handle ht hw (.nil _ _), rest⟩
  | enumeration _ i ht hw rest =>
      exact ⟨_, _, _, .enumeration _ i ht hw (.nil _ _), rest⟩
  | struct _ _ _ _ i fields ht hw hf body rest =>
      exact ⟨_, _, _, .struct _ _ _ _ i fields ht hw hf body (.nil _ _), rest⟩

theorem cons (h : Walk r space written [t] [e] refs written₁)
    (hrest : Walk r space written₁ ts es refs' written') :
    ∃ refs₁, Walk r space written (t :: ts) (e :: es) refs₁ written' := by
  -- The walk of one type takes a single step and then ends, so the other walk goes on from there.
  cases h with
  | scalar _ kind ht rest =>
      cases rest
      exact ⟨_, .scalar _ kind ht hrest⟩
  | decimal _ type ht rest =>
      cases rest
      exact ⟨_, .decimal _ type ht hrest⟩
  | reference _ handle ht hw rest =>
      cases rest
      exact ⟨_, .reference _ handle ht hw hrest⟩
  | enumeration _ i ht hw rest =>
      cases rest
      exact ⟨_, .enumeration _ i ht hw hrest⟩
  | struct _ _ _ _ i fields ht hw hf body rest =>
      cases rest
      exact ⟨_, .struct _ _ _ _ i fields ht hw hf body hrest⟩

/-- A walk may be taken up at any of its types. -/
theorem split (k : Nat) (h : Walk r space written ts es refs written') (hk : ts[k]? = some t) :
    ∃ e written₁ written₂ refs₁ refs₂, es[k]? = some e ∧
      Walk r space written (ts.take k) (es.take k) refs₁ written₁ ∧
      Walk r space written₁ [t] [e] refs₂ written₂ := by
  -- Each step of the walk is split off until the type in question is the first.
  induction k generalizing written ts es refs with
  | zero =>
      cases ts with
      | nil => exact nomatch hk
      | cons u ts =>
          cases es with
          | nil => exact absurd h.length_eq (Nat.succ_ne_zero _)
          | cons e es =>
              rcases h.uncons with ⟨written₁, refs₁, refs₂, hhead, _⟩
              rw [List.getElem?_cons_zero, Option.some.injEq] at hk
              rw [hk] at hhead
              exact ⟨e, written, written₁, [], refs₁, rfl, .nil _ _, hhead⟩
  | succ k ih =>
      cases ts with
      | nil => exact nomatch hk
      | cons u ts =>
          cases es with
          | nil => exact absurd h.length_eq (Nat.succ_ne_zero _)
          | cons e es =>
              rcases h.uncons with ⟨written₁, refs₁, refs₂, hhead, htail⟩
              rcases ih htail hk with ⟨d, written₂, written₃, refs₃, refs₄, hd, hfront, hat⟩
              rcases cons hhead hfront with ⟨refs₅, hfront⟩
              exact ⟨d, written₂, written₃, refs₅, refs₄, hd, hfront, hat⟩

/-- A struct that is written has its fields. -/
theorem assigned (h : Walk r space written ts es refs written')
    (hw : ∀ i, .struct i ∈ written → ∃ fields, (r.struct i).fields = some fields) :
    ∀ i, .struct i ∈ written' → ∃ fields, (r.struct i).fields = some fields := by
  induction h with
  | nil => exact hw
  | scalar _ _ _ _ ih => exact ih hw
  | decimal _ _ _ _ ih => exact ih hw
  | reference _ _ _ _ _ ih => exact ih hw
  | enumeration _ _ _ _ _ ih =>
      refine ih fun i hm => hw i ?_
      exact (List.mem_cons.mp hm).resolve_left Handle.noConfusion
  -- A struct is only entered where it has fields, and its fields are walked before what follows.
  | struct _ _ _ _ j fields _ _ hf _ _ ihb ihr =>
      refine ihr (ihb fun i hm => ?_)
      rcases List.mem_cons.mp hm with he | hm
      · rw [Handle.struct.inj he]
        exact ⟨fields, hf⟩
      · exact hw i hm

end Walk

/-! ### Definitions -/

/-- What the definition of a named type says it is. -/
def kindOf : Handle → String
  | .struct _ => "record"
  | .enumeration _ => "enum"

/-- The document defines the named type, under its live name. -/
def IsDefinitionOf (r : Registry) (h : Handle) (doc : Json) : Prop :=
  ∃ members, doc = .object members ∧ Json.find? "type" members = some (.string (kindOf h)) ∧
    Json.find? "name" members = some (.string (r.nameOf h))

/-- The named type is defined at the position. -/
def DefinedAt (r : Registry) (doc : Json) (path : List Nat) (h : Handle) : Prop :=
  ∃ part, part? path doc = some part ∧ IsDefinitionOf r h part

/-- The named type is defined ahead of the position. -/
def DefinedBefore (r : Registry) (doc : Json) (path : List Nat) (h : Handle) : Prop :=
  ∃ front, front < path ∧ DefinedAt r doc front h

section

variable (r : Registry)

theorem isDefinitionOf_enumSchema (space : Option String) (i : Nat) :
    IsDefinitionOf r (.enumeration i) (enumSchema space (r.enumeration i)) :=
  ⟨_, enumSchema_eq _ _, by simp [enumMembers, docMember, kindOf],
    by simp [enumMembers, docMember, Registry.nameOf, Registry.namesOf, EnumType.name]⟩

theorem isDefinitionOf_structSchema (space : Option String) (i : Nat) (items : List Json) :
    IsDefinitionOf r (.struct i) (structSchema space (r.struct i) items) :=
  ⟨_, structSchema_eq, by simp [structMembers, docMember, kindOf],
    by simp [structMembers, docMember, Registry.nameOf, Registry.namesOf, StructType.name]⟩

variable (h h' : Handle) (doc : Json)

theorem IsDefinitionOf.isDefinition (hd : IsDefinitionOf r h doc) :
    ∃ members, doc = .object members ∧ IsDefinition members := by
  rcases hd with ⟨members, hdoc, hk, _⟩
  refine ⟨members, hdoc, kindOf h, ?_, hk⟩
  cases h with
  | struct i => exact (by decide : "record" ∈ definingKinds)
  | enumeration i => exact (by decide : "enum" ∈ definingKinds)

theorem IsDefinitionOf.name_eq (hd : IsDefinitionOf r h doc) (hd' : IsDefinitionOf r h' doc) :
    r.nameOf h = r.nameOf h' := by
  rcases hd with ⟨members, hdoc, _, hn⟩
  rcases hd' with ⟨members', hdoc', _, hn'⟩
  rw [hdoc, Json.object.injEq] at hdoc'
  rw [← hdoc', hn, Option.some.injEq, Json.string.injEq] at hn'
  exact hn'

/-- A document defines one type of a registry at most. -/
theorem IsDefinitionOf.unique (hr : r.Distinct) (hh : r.Holds h) (hh' : r.Holds h')
    (hd : IsDefinitionOf r h doc) (hd' : IsDefinitionOf r h' doc) : h = h' := by
  refine hr h h' (r.nameOf h) hh hh' Names.carries_name ?_
  rw [hd.name_eq r h h' doc hd']
  exact Names.carries_name

theorem not_isDefinitionOf_string (name : String) : ¬ IsDefinitionOf r h (.string name) :=
  fun hd => nomatch hd.choose_spec.1

/-- A definition within a part is one within the whole. -/
theorem DefinedAt.within (front path : List Nat) (part : Json)
    (hp : part? front doc = some part) (hd : DefinedAt r part path h) :
    DefinedAt r doc (front ++ path) h := by
  rcases hd with ⟨s, hs, hdef⟩
  exact ⟨s, by rw [part?_append, hp, Option.bind_some, hs], hdef⟩

end

/-- The definitions in a list of documents are those of the single ones. -/
theorem definedAt_array_iff (r : Registry) (h : Handle) (docs : List Json) (path : List Nat) :
    DefinedAt r (.array docs) path h ↔
      ∃ k rest doc, path = k :: rest ∧ docs[k]? = some doc ∧ DefinedAt r doc rest h := by
  constructor
  · intro hd
    rcases hd with ⟨s, hpart, hdef⟩
    cases path with
    | nil =>
        rw [part?, Option.some.injEq] at hpart
        -- The list itself is no definition.
        rcases hdef with ⟨members, he, _⟩
        exact absurd (hpart.trans he) Json.noConfusion
    | cons k rest =>
        rw [part?_array, Option.bind_eq_some_iff] at hpart
        rcases hpart with ⟨doc, hk, hpart⟩
        exact ⟨k, rest, doc, rfl, hk, s, hpart, hdef⟩
  · rintro ⟨k, rest, doc, rfl, hk, s, hpart, hdef⟩
    exact ⟨s, by rw [part?_array, hk, Option.bind_some, hpart], hdef⟩

/-- A definition within the type of a field is within the record. -/
theorem DefinedAt.inField (r : Registry) (h : Handle) (space : Option String) (s : StructType)
    (fields : List Field) (docs : List Json) (k : Nat) (field : Field) (doc : Json)
    (rest : List Nat) (hf : fields[k]? = some field) (hd : docs[k]? = some doc)
    (hdef : DefinedAt r doc rest h) :
    DefinedAt r (structSchema space s (fields.zipWith fieldSchema docs))
      (k :: typeSteps field ++ rest) h := by
  rcases hdef with ⟨part, hpart, hdef⟩
  exact ⟨part, by rw [part?_structSchema _ _ _ _ _ _ _ _ hf hd, hpart], hdef⟩

/-! ### The positions of definitions -/

/-- The positions are those of the definitions in the document, each with the type that is
    defined. -/
structure Sites (r : Registry) (doc : Json) (sites : List (List Nat × Handle)) : Prop where
  sound : ∀ path h, (path, h) ∈ sites → DefinedAt r doc path h
  complete : ∀ path members, part? path doc = some (.object members) → IsDefinition members →
    ∃ h, (path, h) ∈ sites

namespace Sites

variable (r : Registry)

/-- A document that has no other types in it and is no definition. -/
theorem nil (doc : Json) (hp : parts doc = [])
    (hd : ∀ members, doc = .object members → ¬ IsDefinition members) : Sites r doc [] where
  sound _ _ hm := absurd hm List.not_mem_nil
  complete path members hs hdef :=
    absurd hdef (hd members (part?_of_parts_eq_nil doc _ path hp hs).2.symm)

/-- A document that has no other types in it and is a definition. -/
theorem single (doc : Json) (h : Handle) (hp : parts doc = []) (hd : IsDefinitionOf r h doc) :
    Sites r doc [([], h)] where
  sound path h' hm := by
    rw [List.mem_singleton, Prod.mk.injEq] at hm
    rw [hm.1, hm.2]
    exact ⟨doc, rfl, hd⟩
  complete path members hs hdef := by
    rw [(part?_of_parts_eq_nil doc _ path hp hs).1]
    exact ⟨h, List.mem_singleton_self _⟩

/-- The position in a longer list of documents, with one more in front. -/
def behind : List Nat → List Nat
  | [] => []
  | k :: path => (k + 1) :: path

/-- In a list of documents the definitions of the first one come first. -/
theorem cons (doc : Json) (docs : List Json) (heads sites : List (List Nat × Handle))
    (hh : Sites r doc heads) (hs : Sites r (.array docs) sites) :
    Sites r (.array (doc :: docs)) (heads.map (Prod.map (0 :: ·) id) ++
      sites.map (Prod.map behind id)) where
  sound path h hm := by
    rcases List.mem_append.mp hm with hm | hm
    · rcases List.mem_map.mp hm with ⟨⟨front, h'⟩, hm, he⟩
      rw [Prod.map_apply, id, Prod.mk.injEq] at he
      rw [← he.1, ← he.2]
      exact (hh.sound front h' hm).within r h' _ [0] front doc rfl
    · rcases List.mem_map.mp hm with ⟨⟨front, h'⟩, hm, he⟩
      rw [Prod.map_apply, id, Prod.mk.injEq] at he
      rw [← he.1, ← he.2]
      rcases (definedAt_array_iff r h' docs front).mp (hs.sound front h' hm) with
        ⟨k, rest, doc', rfl, hk, hd⟩
      exact (definedAt_array_iff r h' _ _).mpr ⟨k + 1, rest, doc', rfl, hk, hd⟩
  complete path members hpart hdef := by
    -- The first step of the path is a place in the list.
    match path with
    | [] => exact nomatch hpart
    | 0 :: path =>
        rcases hh.complete path members hpart hdef with ⟨h, hm⟩
        exact ⟨h, List.mem_append_left _ (List.mem_map.mpr ⟨(path, h), hm, rfl⟩)⟩
    | (k + 1) :: path =>
        rcases hs.complete (k :: path) members hpart hdef with ⟨h, hm⟩
        exact ⟨h, List.mem_append_right _ (List.mem_map.mpr ⟨(k :: path, h), hm, rfl⟩)⟩

/-- The position in a record of what stands in the documents of its fields' types. -/
def inRecord (fields : List Field) : List Nat → List Nat
  | [] => []
  | k :: path => k :: (fields[k]?.map typeSteps).getD [] ++ path

theorem inRecord_cons (fields : List Field) (k : Nat) (path : List Nat) (field : Field)
    (hk : fields[k]? = some field) :
    inRecord fields (k :: path) = k :: typeSteps field ++ path := by
  rw [inRecord, hk, Option.map_some, Option.getD_some]

/-- In a record it is defined first, and then what its fields have. -/
theorem record (space : Option String) (i : Nat) (fields : List Field) (docs : List Json)
    (sites : List (List Nat × Handle)) (hlen : fields.length = docs.length)
    (hs : Sites r (.array docs) sites) :
    Sites r (structSchema space (r.struct i) (fields.zipWith fieldSchema docs))
      (([], .struct i) :: sites.map (Prod.map (inRecord fields) id)) where
  sound path h hm := by
    rcases List.mem_cons.mp hm with he | hm
    · rw [Prod.mk.injEq] at he
      rw [he.1, he.2]
      exact ⟨_, rfl, isDefinitionOf_structSchema r space i _⟩
    · rcases List.mem_map.mp hm with ⟨⟨front, h'⟩, hm, he⟩
      rw [Prod.map_apply, id, Prod.mk.injEq] at he
      rw [← he.1, ← he.2]
      rcases (definedAt_array_iff r h' docs front).mp (hs.sound front h' hm) with
        ⟨k, rest, doc, rfl, hk, hd⟩
      have hlt : k < fields.length := by
        rw [hlen]
        exact (List.getElem?_eq_some_iff.mp hk).1
      have hf := List.getElem?_eq_getElem hlt
      rw [inRecord_cons fields k rest _ hf]
      exact hd.inField r h' space _ fields docs k _ doc rest hf hk
  complete path members hpart hdef := by
    -- A part of a record is the record, a part of one of its fields, or one of the parts that
    -- surround these, and those define nothing.
    rcases part?_structSchema_cases _ _ _ _ _ path hpart with ⟨rfl, _⟩ | hsurrounds |
      ⟨k, field, doc, rest, hf, hd, rfl, hrest⟩
    · exact ⟨.struct i, List.mem_cons_self⟩
    · exact absurd hsurrounds (not_surrounds_of_isDefinition members hdef)
    · have hfront : part? (k :: rest) (.array docs) = some (.object members) := by
        rw [part?_array, hd, Option.bind_some, hrest]
      rcases hs.complete (k :: rest) members hfront hdef with ⟨h, hm⟩
      refine ⟨h, List.mem_cons_of_mem _ (List.mem_map.mpr ⟨(k :: rest, h), hm, ?_⟩)⟩
      rw [Prod.map_apply, inRecord_cons fields k rest field hf, id]

theorem map_snd (place : List Nat → List Nat) (sites : List (List Nat × Handle)) :
    (sites.map (Prod.map place id)).map Prod.snd = sites.map Prod.snd := by
  rw [List.map_map]
  exact List.map_congr_left fun _ _ => rfl

end Sites

/-- A leaf is no definition. -/
theorem not_isDefinition_scalarSchema (kind : ScalarKind) (members : Members)
    (h : scalarSchema kind = .object members) : ¬ IsDefinition members := by
  have hlogical : ∀ primitive logical, primitive ∉ definingKinds →
      logicalSchema primitive logical = .object members → ¬ IsDefinition members := by
    intro primitive logical hp he
    exact not_isDefinition_of_kind members primitive (Json.object.inj he ▸ rfl) hp
  cases kind with
  | boolean | float | double | string | binaryHex | binaryBase64 => exact absurd h Json.noConfusion
  | date | time => exact hlogical "int" _ (by decide) h
  | timeMicros | dateTime | dateTimeMicros => exact hlogical "long" _ (by decide) h

theorem not_isDefinition_decimalSchema (type : DecimalType) (members : Members)
    (h : decimalSchema type = .object members) : ¬ IsDefinition members := by
  rcases (decimalSchema_eq_object_iff type members).mp h with ⟨_, _, rfl⟩
  exact not_isDefinition_of_kind _ "bytes" rfl (by decide)

/-- The first document has the definitions of some types, and those of others follow. -/
theorem exists_sites_cons (r : Registry) {written written₁ written' : Written} {doc : Json}
    {docs : List Json} (heads : List (List Nat × Handle)) (hh : Sites r doc heads)
    (hw : written₁ = (heads.map Prod.snd).reverse ++ written)
    (hrest : ∃ sites, Sites r (.array docs) sites ∧
      written' = (sites.map Prod.snd).reverse ++ written₁) :
    ∃ sites, Sites r (.array (doc :: docs)) sites ∧
      written' = (sites.map Prod.snd).reverse ++ written := by
  rcases hrest with ⟨sites, hs, hw'⟩
  refine ⟨_, hh.cons r doc docs heads sites hs, ?_⟩
  rw [List.map_append, Sites.map_snd, Sites.map_snd, List.reverse_append, hw', hw,
    List.append_assoc]

/-- What a walk writes is defined in its documents, in the order in which it is written, and
    nothing else is. -/
theorem exists_sites (r : Registry) (space : Option String) (written written' : Written)
    (ts : List Ty) (es : List Json) (refs : List Reference)
    (h : Walk r space written ts es refs written') :
    ∃ sites, Sites r (.array es) sites ∧
      written' = (sites.map Prod.snd).reverse ++ written := by
  induction h with
  | nil => exact ⟨[], .nil r _ rfl (fun _ => Json.noConfusion), rfl⟩
  | scalar _ kind _ _ ih =>
      exact exists_sites_cons r [] (.nil r _ (parts_scalarSchema kind)
        (not_isDefinition_scalarSchema kind)) rfl ih
  | decimal _ type _ _ ih =>
      exact exists_sites_cons r [] (.nil r _ (parts_decimalSchema type)
        (not_isDefinition_decimalSchema type)) rfl ih
  | reference _ _ _ _ _ ih =>
      exact exists_sites_cons r [] (.nil r _ rfl fun _ => Json.noConfusion) rfl ih
  | enumeration _ i _ _ _ ih =>
      exact exists_sites_cons r _ (.single r _ _ (parts_enumSchema _ _)
        (isDefinitionOf_enumSchema r _ i)) rfl ih
  | struct written written₁ _ docs i fields _ _ _ body _ ihb ihr =>
      -- The struct is written first, then what its fields lead to.
      rcases ihb with ⟨sites, hs, hw⟩
      have hlen : fields.length = docs.length := by
        rw [← List.length_map Field.type]
        exact body.length_eq
      refine exists_sites_cons r _ (.record r _ i fields docs sites hlen hs) ?_ ihr
      rw [List.map_cons, Sites.map_snd, List.reverse_cons, hw, List.append_assoc,
        List.singleton_append]

/-! ### The walk at a position -/

/-- The type has to be found at the position of the document: the root at the start, and the
    fields of a struct within its definition. -/
inductive Placed (r : Registry) (root : Ty) (doc : Json) : List Nat → Ty → Prop
  | root : Placed r root doc [] root
  | field (front : List Nat) (t : Ty) (i : Nat) (fields : List Field) (k : Nat) (field : Field)
      (h : Placed r root doc front t) (ht : t.core = .named (.struct i))
      (hd : DefinedAt r doc front (.struct i)) (hf : (r.struct i).fields = some fields)
      (hk : fields[k]? = some field) : Placed r root doc (front ++ k :: typeSteps field) field.type

/-- What is placed can be reached. -/
theorem Placed.reaches (r : Registry) (root : Ty) (doc : Json) (path : List Nat) (t : Ty)
    (h : Placed r root doc path t) : r.Reaches root t := by
  induction h with
  | root => exact .root
  | field front t i fields k field _ ht _ hf hk ih =>
      exact .field i fields field (ih.named r root t _ ht) hf (List.mem_of_getElem? hk)

/-- In the definition of a struct its fields are placed. -/
theorem Placed.inRecord (r : Registry) (t : Ty) (space : Option String) (i : Nat)
    (fields : List Field) (docs : List Json) (k : Nat) (field : Field)
    (ht : t.core = .named (.struct i)) (hf : (r.struct i).fields = some fields)
    (hk : fields[k]? = some field) :
    Placed r t (structSchema space (r.struct i) (fields.zipWith fieldSchema docs))
      (k :: typeSteps field) field.type :=
  .field [] t i fields k field .root ht ⟨_, rfl, isDefinitionOf_structSchema r space i _⟩ hf hk

/-- What is placed within a part is placed within the whole. -/
theorem Placed.within (r : Registry) (root t u : Ty) (doc part : Json) (front path : List Nat)
    (h : Placed r root doc front t) (hp : part? front doc = some part)
    (h' : Placed r t part path u) : Placed r root doc (front ++ path) u := by
  induction h' with
  | root =>
      rw [List.append_nil]
      exact h
  | field path' u i fields k field _ hu hd hf hk ih =>
      rw [← List.append_assoc]
      exact .field _ u i fields k field ih hu (hd.within r _ doc front path' part hp) hf hk

section

variable (r : Registry) (doc part : Json) (front path : List Nat) (h : Handle)

/-- What is defined ahead within a part is defined ahead within the whole. -/
theorem DefinedBefore.within (hp : part? front doc = some part)
    (hb : DefinedBefore r part path h) : DefinedBefore r doc (front ++ path) h := by
  rcases hb with ⟨ahead, hlt, hd⟩
  exact ⟨front ++ ahead, List.append_left_lt hlt, hd.within r h doc front ahead part hp⟩

/-- What is defined ahead of a part is defined ahead of all within it. -/
theorem DefinedBefore.append (k : Nat) (hb : DefinedBefore r doc front h) :
    DefinedBefore r doc (front ++ k :: path) h := by
  rcases hb with ⟨ahead, hlt, hd⟩
  have hfront : front ++ [] < front ++ k :: path := List.append_left_lt (List.nil_lt_cons k path)
  rw [List.append_nil] at hfront
  exact ⟨ahead, List.lt_trans hlt hfront, hd⟩

end

/-- Within the definition of a struct the walk can be taken up at any field. What is written by
    then has been written before, or is defined in the definition ahead of the field. -/
theorem exists_walk_of_field (r : Registry) (space : Option String) {inner : Option String}
    {back : Written} {refs : List Reference} (i : Nat) (front : Written) (fields : List Field)
    (docs : List Json)
    (body : Walk r inner (.struct i :: front) (fields.map Field.type) docs refs back) (k : Nat)
    (field : Field) (hk : fields[k]? = some field) :
    ∃ doc front' refs' back', docs[k]? = some doc ∧
      Walk r inner front' [field.type] [doc] refs' back' ∧ ∀ h ∈ front', h ∈ front ∨
        DefinedBefore r (structSchema space (r.struct i) (fields.zipWith fieldSchema docs))
          (k :: typeSteps field) h := by
  have htype : (fields.map Field.type)[k]? = some field.type := by
    rw [List.getElem?_map, hk, Option.map_some]
  rcases body.split k htype with ⟨doc, front', back', refs₁, refs₂, hdoc, hahead, hat⟩
  refine ⟨doc, front', refs₂, back', hdoc, hat, ?_⟩
  intro h hm
  -- It stands in the documents of earlier fields, or it is the struct, or it is older.
  rcases exists_sites r inner _ front' _ _ _ hahead with ⟨sites, hs, hw⟩
  rw [hw] at hm
  rcases List.mem_append.mp hm with hm | hm
  · rw [List.mem_reverse, List.mem_map] at hm
    rcases hm with ⟨⟨path, h'⟩, hsite, rfl⟩
    rcases (definedAt_array_iff r h' _ path).mp (hs.sound path h' hsite) with
      ⟨j, rest, doc', rfl, hj, hd⟩
    rw [List.getElem?_take] at hj
    by_cases hlt : j < k
    · rw [if_pos hlt] at hj
      have hlen : j < fields.length := Nat.lt_trans hlt (List.getElem?_eq_some_iff.mp hk).1
      have hf := List.getElem?_eq_getElem hlen
      exact Or.inr ⟨j :: typeSteps fields[j] ++ rest, List.cons_lt_cons_iff.mpr (Or.inl hlt),
        hd.inField r h' space _ fields docs j _ doc' rest hf hj⟩
    · rw [if_neg hlt] at hj
      exact nomatch hj
  · rcases List.mem_cons.mp hm with rfl | hm
    · exact Or.inr ⟨[], List.nil_lt_cons k _, _, rfl, isDefinitionOf_structSchema r space i _⟩
    · exact Or.inl hm

/-- The walk can be taken up where a type is placed. What is written by then is defined
    ahead. -/
theorem exists_walk_of_placed (r : Registry) (root : Ty) (doc : Json) (refs : List Reference)
    (written : Written) (hwalk : Walk r none [] [root] [doc] refs written) (path : List Nat)
    (t : Ty) (h : Placed r root doc path t) :
    ∃ space front refs' back part, part? path doc = some part ∧
      Walk r space front [t] [part] refs' back ∧
      ∀ handle ∈ front, DefinedBefore r doc path handle := by
  -- The induction goes along the path. The walk at a struct is taken up again at one of its fields.
  induction h with
  | root => exact ⟨none, [], refs, written, doc, rfl, hwalk, fun _ hm => absurd hm List.not_mem_nil⟩
  | field path t i fields k field _ ht hd hf hk ih =>
      rcases ih with ⟨space, front, refs', back, part, hpart, hw, hbefore⟩
      rcases hd with ⟨part', hpart', hdef⟩
      rw [hpart, Option.some.injEq] at hpart'
      rw [← hpart'] at hdef
      have hdefined : DefinedAt r doc path (.struct i) := ⟨part, hpart, hdef⟩
      -- What is defined here is a struct, so the walk has entered it.
      cases hw with
      | scalar _ kind hc _ => exact absurd (ht.symm.trans hc) Ty.noConfusion
      | decimal _ type hc _ => exact absurd (ht.symm.trans hc) Ty.noConfusion
      | reference => exact absurd hdef (not_isDefinitionOf_string r _ _)
      | enumeration _ j hc _ _ =>
          rw [ht, Ty.named.injEq] at hc
          exact absurd hc Handle.noConfusion
      | struct _ _ _ docs j fields' hc _ hf' body _ =>
          rw [ht, Ty.named.injEq, Handle.struct.injEq] at hc
          rw [← hc, hf, Option.some.injEq] at hf'
          rw [← hc, ← hf'] at body
          rw [← hc, ← hf'] at hpart
          rcases exists_walk_of_field r space i front fields docs body k field hk with
            ⟨d, front', refs'', back', hdoc, hat, hahead⟩
          refine ⟨_, front', refs'', back', d, ?_, hat, ?_⟩
          · have hinner := part?_structSchema space (r.struct i) fields docs k field d [] hk hdoc
            rw [List.append_nil] at hinner
            rw [part?_append, hpart, Option.bind_some, hinner, part?]
          · -- It was written before the record, or within it and ahead of the field.
            intro handle hm
            rcases hahead handle hm with hold | hnew
            · exact (hbefore handle hold).append r doc path (typeSteps field) handle k
            · exact hnew.within r doc _ path _ handle hpart

/-- All that is found in the document of a type is the document of a type that has to be found
    there, or it is put around one. -/
theorem placed_of_part (r : Registry) (space : Option String) (front back : Written) (t : Ty)
    (doc s : Json) (refs : List Reference) (hwalk : Walk r space front [t] [doc] refs back)
    (path : List Nat) (hs : part? path doc = some s) :
    Surrounds s ∨ ∃ u, Placed r t doc path u := by
  -- Only a record has other types in it. They stand at shorter positions there.
  induction hn : path.length using Nat.strong_induction_on
    generalizing space front back t doc refs path with
  | _ n ih =>
    have hleaf : parts doc = [] → Surrounds s ∨ ∃ u, Placed r t doc path u := by
      intro hp
      rw [(part?_of_parts_eq_nil doc s path hp hs).1]
      exact Or.inr ⟨t, .root⟩
    cases hwalk with
    | scalar _ kind _ _ => exact hleaf (parts_scalarSchema kind)
    | decimal _ type _ _ => exact hleaf (parts_decimalSchema type)
    | reference => exact hleaf rfl
    | enumeration => exact hleaf (parts_enumSchema _ _)
    | struct _ _ _ docs i fields ht _ hf body _ =>
        rcases part?_structSchema_cases _ _ _ _ s path hs with ⟨rfl, _⟩ | hsurrounds |
          ⟨k, field, d, rest, hk, hd, rfl, hrest⟩
        · exact Or.inr ⟨t, .root⟩
        · exact Or.inl hsurrounds
        · have hshorter : rest.length < n := by
            rw [← hn, List.length_append, List.length_cons]
            omega
          rcases exists_walk_of_field r space i front fields docs body k field hk with
            ⟨d', front', refs', back', hd', hat, _⟩
          rw [hd, Option.some.injEq] at hd'
          rw [← hd'] at hat
          rcases ih rest.length hshorter _ front' back' field.type d refs' hat rest hrest rfl with
            hsurrounds | ⟨u, hu⟩
          · exact Or.inl hsurrounds
          · refine Or.inr ⟨u, ?_⟩
            have hfield := Placed.inRecord r t space i fields docs k field ht hf hk
            have hpart := part?_structSchema space (r.struct i) fields docs k field d [] hk hd
            rw [List.append_nil] at hpart
            exact hfield.within r t field.type u _ d _ rest hpart hu

/-! ### What an export defines -/

/-- At the position the document says what the type is: a leaf in full, and a named type by its
    definition or, behind that, by its live name. Unparsed content has the type of what it is. -/
def Shows (r : Registry) (doc : Json) (path : List Nat) (part : Json) : Ty → Prop
  | .scalar kind => part = scalarSchema kind
  | .decimal type => part = decimalSchema type
  | .named h => IsDefinitionOf r h part ∨
      part = .string (r.nameOf h) ∧ DefinedBefore r doc path h
  | .unparsed t => Shows r doc path part t

theorem shows_core_iff (r : Registry) (doc : Json) (path : List Nat) (part : Json) (t : Ty) :
    Shows r doc path part t.core ↔ Shows r doc path part t := by
  induction t with
  | unparsed t ih => exact ih
  | scalar _ | decimal _ | named _ => exact Iff.rfl

/-- The first step of a walk shows its type. -/
theorem shows_of_walk (r : Registry) (doc : Json) (path : List Nat) (part : Json) (t : Ty)
    (space : Option String) (front back : Written) (refs : List Reference)
    (h : Walk r space front [t] [part] refs back)
    (hb : ∀ handle ∈ front, DefinedBefore r doc path handle) : Shows r doc path part t := by
  rw [← shows_core_iff]
  cases h with
  | scalar _ kind ht _ =>
      rw [ht]
      exact rfl
  | decimal _ type ht _ =>
      rw [ht]
      exact rfl
  -- A reference stands for what was written before, and that is defined ahead.
  | reference _ handle ht hw _ =>
      rw [ht]
      exact Or.inr ⟨rfl, hb handle hw⟩
  | enumeration _ i ht _ _ =>
      rw [ht]
      exact Or.inl (isDefinitionOf_enumSchema r space i)
  | struct _ _ _ _ i _ ht =>
      rw [ht]
      exact Or.inl (isDefinitionOf_structSchema r space i _)

/-- The document defines each type that the root leads to once, ahead of all other uses of it.
    It has nothing else in it. -/
structure DefinesOnce (r : Registry) (root : Ty) (doc : Json) : Prop where
  /-- Each named type that can be reached has one definition. -/
  once : ∀ h, r.Reaches root (.named h) → ∃! path, DefinedAt r doc path h
  /-- Other types of the registry have none. -/
  only : ∀ path h, r.Holds h → DefinedAt r doc path h → r.Reaches root (.named h)
  /-- The fields of each struct that can be reached are placed within its definition. -/
  placed : ∀ i fields k field, r.Reaches root (.named (.struct i)) →
    (r.struct i).fields = some fields → fields[k]? = some field →
    ∃ path, DefinedAt r doc path (.struct i) ∧
      Placed r root doc (path ++ k :: typeSteps field) field.type
  /-- Where a type is placed the document shows it. -/
  shown : ∀ path t, Placed r root doc path t →
    r.Reaches root t ∧ ∃ part, part? path doc = some part ∧ Shows r doc path part t
  /-- There is nothing else in the document. -/
  covered : ∀ path part, part? path doc = some part →
    Surrounds part ∨ ∃ t, Placed r root doc path t

section

variable (r : Registry) (root : Ty) (doc : Json) (refs : List Reference) (written : Written)
  (hwalk : Walk r none [] [root] [doc] refs written)

include hwalk

/-- The types that are written are those that can be reached. -/
theorem mem_written_iff (h : Handle) : h ∈ written ↔ r.Reaches root (.named h) :=
  ⟨fun hm => hwalk.reached_root root doc h hm,
    fun hr => mem_of_reaches r root doc refs written hwalk _ hr h rfl⟩

/-- The definitions of the document are those of the types that can be reached, each listed
    once. -/
theorem exists_sites_of_root : ∃ sites, Sites r doc sites ∧ (sites.map Prod.snd).Nodup ∧
    ∀ h, h ∈ sites.map Prod.snd ↔ r.Reaches root (.named h) := by
  rcases exists_sites r none [] written [root] [doc] refs hwalk with ⟨sites, hs, hw⟩
  rw [List.append_nil] at hw
  -- The only document of the list is at the position 0.
  refine ⟨sites.map (Prod.map List.tail id), ⟨?_, ?_⟩, ?_, ?_⟩
  · intro path h hm
    rcases List.mem_map.mp hm with ⟨⟨front, h'⟩, hm, he⟩
    rw [Prod.map_apply, id, Prod.mk.injEq] at he
    rcases (definedAt_array_iff r h' _ front).mp (hs.sound front h' hm) with
      ⟨k, rest, doc', rfl, hk, hd⟩
    rw [List.getElem?_singleton] at hk
    by_cases h0 : k = 0
    · rw [if_pos h0, Option.some.injEq] at hk
      rw [← he.1, ← he.2, hk]
      exact hd
    · rw [if_neg h0] at hk
      exact nomatch hk
  · intro path members hpart hdef
    rcases hs.complete (0 :: path) members hpart hdef with ⟨h, hm⟩
    exact ⟨h, List.mem_map.mpr ⟨(0 :: path, h), hm, rfl⟩⟩
  · rw [Sites.map_snd, ← List.nodup_reverse, ← hw]
    exact hwalk.nodup List.nodup_nil
  · intro h
    rw [Sites.map_snd, ← List.mem_reverse, ← hw]
    exact mem_written_iff r root doc refs written hwalk h

end

/-- Only a named type is shown by a definition. -/
theorem exists_named_of_shows (r : Registry) (doc : Json) (path : List Nat) (part : Json)
    (t : Ty) (h : Handle) (hd : IsDefinitionOf r h part) (hs : Shows r doc path part t) :
    ∃ h', t.core = .named h' ∧ IsDefinitionOf r h' part := by
  rcases hd.isDefinition r h part with ⟨members, hm, hdef⟩
  induction t with
  | scalar kind => exact absurd hdef (not_isDefinition_scalarSchema kind members (hs.symm.trans hm))
  | decimal type =>
      exact absurd hdef (not_isDefinition_decimalSchema type members (hs.symm.trans hm))
  | named h' =>
      rcases hs with hs | ⟨hs, _⟩
      · exact ⟨h', rfl, hs⟩
      · exact absurd (hs.symm.trans hm) Json.noConfusion
  | unparsed t ih => exact ih hs

/-- An export defines each type once. -/
theorem definesOnce_of_walk (r : Registry) (root : Ty) (doc : Json) (refs : List Reference)
    (written : Written) (hd : r.Distinct) (hheld : ∀ h, r.Reaches root (.named h) → r.Holds h)
    (hwalk : Walk r none [] [root] [doc] refs written) : DefinesOnce r root doc := by
  rcases exists_sites_of_root r root doc refs written hwalk with ⟨sites, hs, hnodup, hmem⟩
  -- A definition is listed with the type that it defines, if that is one of the registry.
  have hlisted : ∀ path h, r.Holds h → DefinedAt r doc path h → (path, h) ∈ sites := by
    intro path h hh hdef
    rcases hdef with ⟨part, hpart, hdef⟩
    rcases hdef.isDefinition r h part with ⟨members, rfl, hmembers⟩
    rcases hs.complete path members hpart hmembers with ⟨h', hm⟩
    have hheld' : r.Holds h' := hheld h' ((hmem h').mp (List.mem_map.mpr ⟨_, hm, rfl⟩))
    rcases hs.sound path h' hm with ⟨part', hpart', hdef'⟩
    rw [hpart, Option.some.injEq] at hpart'
    rw [← hpart'] at hdef'
    rw [hdef.unique r h h' _ hd hh hheld' hdef']
    exact hm
  have hshown : ∀ path t, Placed r root doc path t →
      r.Reaches root t ∧ ∃ part, part? path doc = some part ∧ Shows r doc path part t := by
    intro path t hplaced
    rcases exists_walk_of_placed r root doc refs written hwalk path t hplaced with
      ⟨space, front, refs', back, part, hpart, hw, hb⟩
    exact ⟨hplaced.reaches r root doc path t, part, hpart,
      shows_of_walk r doc path part t space front back refs' hw hb⟩
  have honce : ∀ h, r.Reaches root (.named h) → ∃! path, DefinedAt r doc path h := by
    intro h hr
    rcases List.mem_map.mp ((hmem h).mpr hr) with ⟨⟨path, h'⟩, hm, rfl⟩
    refine ⟨path, hs.sound path h' hm, ?_⟩
    intro path' hdef
    have hm' := hlisted path' h' (hheld h' hr) hdef
    exact congrArg Prod.fst (List.inj_on_of_nodup_map hnodup hm' hm rfl)
  refine ⟨honce, ?_, ?_, hshown, fun path part => placed_of_part r none [] written root doc part
    refs hwalk path⟩
  · intro path h hh hdef
    exact (hmem h).mp (List.mem_map.mpr ⟨_, hlisted path h hh hdef, rfl⟩)
  · intro i fields k field hr hf hk
    rcases (honce _ hr).exists with ⟨path, hdef⟩
    rcases hdef with ⟨part, hpart, hdef⟩
    refine ⟨path, ⟨part, hpart, hdef⟩, ?_⟩
    rcases placed_of_part r none [] written root doc part refs hwalk path hpart with
      hsurrounds | ⟨t, hplaced⟩
    · rcases hdef.isDefinition r _ part with ⟨members, rfl, hmembers⟩
      exact absurd hsurrounds (not_surrounds_of_isDefinition members hmembers)
    · -- What is placed there is the struct itself.
      rcases hshown path t hplaced with ⟨hreach, part', hpart', hshows⟩
      rw [hpart, Option.some.injEq] at hpart'
      rw [← hpart'] at hshows
      rcases exists_named_of_shows r doc path part t _ hdef hshows with ⟨h', ht, hdef'⟩
      have hheld' := hheld h' (hreach.named r root t h' ht)
      rw [← hdef.unique r _ h' part hd (hheld _ hr) hheld' hdef'] at ht
      exact .field path t i fields k field hplaced ht ⟨part, hpart, hdef⟩ hf hk

end Avro

/-! ### Exports -/

open Avro

/-- Where an export has ended there is no namespace, so that an exporter has none to keep. -/
theorem along_exportRoot (r : Registry) (t : Ty) :
    Along (fun _ s => s.space = none) (exportRoot r t) :=
  fun _ => along_exportTypeAt r r.structs.length t ⟨[], none⟩

/-- What an exporter has written before is forgotten. -/
theorem Exporter.run_eq (exporter : Exporter) (r : Registry) (t : Ty) :
    exporter.run r t = Exporter.run ⟨[]⟩ r t := by
  have hroot : ∀ s s', exportRoot r t s = exportRoot r t s' := fun _ _ => rfl
  rw [Exporter.run, Exporter.run, hroot]

/-- Exports with one exporter, one after another. -/
def Exporter.runAll (exporter : Exporter) (r : Registry) :
    List Ty → List (Except SchemaError Json)
  | [] => []
  | t :: ts => (exporter.run r t).1 :: (exporter.run r t).2.runAll r ts

/-- An exporter gives what a new one would give, whatever it was used for and however that
    ended. -/
theorem Exporter.runAll_eq (exporter : Exporter) (r : Registry) (types : List Ty) :
    exporter.runAll r types = types.map (toSchema r) := by
  induction types generalizing exporter with
  | nil => rfl
  | cons t ts ih =>
      rw [Exporter.runAll, ih, exporter.run_eq r t, List.map_cons, toSchema]

/-- An export succeeds where every struct that can be reached has its fields. -/
theorem exists_toSchema_iff (r : Registry) (root : Ty)
    (hheld : ∀ h, r.Reaches root (.named h) → r.Holds h) : (∃ e, toSchema r root = .ok e) ↔
    ∀ i, r.Reaches root (.named (.struct i)) → ∃ fields, (r.struct i).fields = some fields := by
  constructor
  · intro he i hi
    rcases he with ⟨e, he⟩
    rcases (toSchema_eq_ok_iff r root e).mp he with ⟨refs, written, hwalk⟩
    exact hwalk.assigned (fun _ hm => absurd hm List.not_mem_nil)
      i ((mem_written_iff r root e refs written hwalk _).mpr hi)
  · intro h
    rcases exists_export r root ⟨hheld, h⟩ with ⟨e, refs, written, hwalk⟩
    exact ⟨e, (toSchema_eq_ok_iff r root e).mpr ⟨refs, written, hwalk⟩⟩

/-- Whatever registry there can be: an export succeeds exactly where every struct that can be
    reached has its fields, it then defines each type once and ahead of all other uses, and an
    exporter gives the same result each time, also behind exports that failed. -/
theorem toSchema_definesOnce (r : Registry) (root : Ty) (hr : r.Built)
    (hheld : ∀ h, r.Reaches root (.named h) → r.Holds h) :
    ((∃ e, toSchema r root = .ok e) ↔ ∀ i, r.Reaches root (.named (.struct i)) →
        ∃ fields, (r.struct i).fields = some fields) ∧
      (∀ e, toSchema r root = .ok e → DefinesOnce r root e) ∧
      ∀ (exporter : Exporter) types, exporter.runAll r types = types.map (toSchema r) := by
  refine ⟨exists_toSchema_iff r root hheld, ?_, fun exporter => exporter.runAll_eq r⟩
  intro e he
  rcases (toSchema_eq_ok_iff r root e).mp he with ⟨refs, written, hwalk⟩
  exact definesOnce_of_walk r root e refs written hr.tidy.distinct hheld hwalk

open Sample

/-- In the export of a list the colour is defined within the type of the second field, and the
    type of the last field is the name of the item that is being defined. -/
theorem toSchema_definesOnce_items : ∃ e, toSchema items (.named (.struct 0)) = .ok e ∧
    DefinesOnce items (.named (.struct 0)) e ∧ DefinedAt items e [1, 1] (.enumeration 0) ∧
    part? [3, 1] e = some (.string "shop.Item") := by
  have hheld := items_expressible.held
  rcases toSchema_definesOnce items (.named (.struct 0)) items_built hheld with ⟨_, hdefines, _⟩
  exact ⟨_, rfl, hdefines _ rfl, ⟨_, rfl, _, rfl, rfl, rfl⟩, rfl⟩

end Schemata
