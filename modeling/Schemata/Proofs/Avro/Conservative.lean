import Schemata.Proofs.Avro.Growth
import Schemata.Proofs.Carriers

/-!
# Imports All or Nothing

What an import may do to the registry that it goes into.

If it fails, nothing: not only are the types what they were, but dropping the
new types from an index of names, as the half-way registry has one, gives the
index from before. If it succeeds, it adds finished types, and no older type or
name is any different. So the documents that cannot be imported might as well
not have been tried, and a registry stays without loose ends: every type that
a field names is there.

That types are unchanged is `Below`, and that a failure leaves nothing behind
is `importSchema_eq_error`. What is new here is that both carry over to a
sequence of imports, in which any may fail.

## Main definitions

* `Registry.Extends`: What an import that succeeds makes of a registry.
* `Registry.importAll`: One import after the other, whether they fail or not.
* `Registry.succeeding`: The documents that go through when it is their turn.

## Theorems

* `Registry.extends_imported`: An import that succeeds extends the registry.
* `Registry.retain_halfway`: What the index of a half-way registry comes to.
* `Registry.importAll_succeeding`: Failures leave no trace in a sequence.
* `Registry.import_all_or_nothing`: All of it, for every registry there can be.
-/

namespace Schemata

/-- What can be written and is admitted is in range: there are no unparsed layers. -/
theorem Ty.Writable.covers (r : Registry) (t : Ty) (hw : t.Writable) (ha : r.Admits t) :
    r.Covers t := by
  cases t with
  | scalar kind => trivial
  | decimal type => trivial
  | named h => exact ha h rfl
  | unparsed inner => exact absurd hw id

namespace Registry

theorem Below.covers (r r' : Registry) (hb : Below r r') (t : Ty) (h : r.Covers t) :
    r'.Covers t := by
  induction t with
  | scalar kind => trivial
  | decimal type => trivial
  | named handle => exact hb.holds handle h
  | unparsed inner ih => exact ih h

/-- The second registry has all that the first one has, and finished types behind it. -/
structure Extends (r r' : Registry) (t : Ty) : Prop where
  below : r.Below r'
  get : ∀ name h, r.get name = .ok h → r'.get name = .ok h
  assigned : ∀ i, r.structs.length ≤ i → i < r'.structs.length →
    ∃ fields, (r'.struct i).fields = some fields
  covers : r'.Covers t
  inRange : r'.InRange
  indexed : Indexed r' r'.find?
  held : ∀ name h, r'.find? name = some h → r'.Holds h

/-- Import one document after the other. -/
def importAll (r : Registry) : List Json → Registry
  | [] => r
  | schema :: rest =>
    match r.importSchema schema with
    | .ok _ r' => r'.importAll rest
    | .error _ r' => r'.importAll rest

/-- The documents that go through when it is their turn. -/
def succeeding (r : Registry) : List Json → List Json
  | [] => []
  | schema :: rest =>
    match r.importSchema schema with
    | .ok _ r' => schema :: r'.succeeding rest
    | .error _ r' => r'.succeeding rest

section

variable (r r' : Registry) (schema : Json)

/-- An import leaves no loose ends. -/
theorem inRange_imported (t : Ty) (h : r.importSchema schema = .ok t r') (hr : r.InRange) :
    r'.InRange := by
  have hg := ((importSchema_eq_ok_iff r r' schema t).mp h).grows
  intro s hs fields hf field hm
  rcases List.getElem_of_mem hs with ⟨i, hi, rfl⟩
  rw [← r'.struct_eq_getElem i hi] at hf
  by_cases hold : i < r.structs.length
  · rw [hg.below.struct_eq i hold] at hf
    exact hg.below.covers r r' _ (hr.field r i fields hf field hm)
  · rcases hg.closed i (Nat.le_of_not_lt hold) hi with ⟨fields', hf', _, hall⟩
    have he : fields = fields' := Option.some.inj (hf.symm.trans hf')
    rw [he] at hm
    exact (hall field hm).1.1.covers r' _ (hall field hm).2

/-- An import that succeeds extends the registry. -/
theorem extends_imported (t : Ty) (h : r.importSchema schema = .ok t r') (hb : r.Built)
    (hr : r.InRange) : r.Extends r' t := by
  have hg := ((importSchema_eq_ok_iff r r' schema t).mp h).grows
  have hb' : r'.Built := .imported r r' schema t hb h
  -- A reading only grows the registry. What is said of lookups and of types is read off the growth.
  refine ⟨hg.below, ?_, ?_, ?_, inRange_imported r r' schema t h hr, hb'.indexed,
    fun name h hf => (r'.find?_sound name h hf).1⟩
  · intro name handle hget
    rw [r.get_eq_ok_iff hb.tidy.distinct] at hget
    rw [r'.get_eq_ok_iff hb'.tidy.distinct]
    refine ⟨hg.below.holds handle hget.1, ?_⟩
    rw [hg.below.namesOf_eq handle hget.1]
    exact hget.2
  · intro i hi hi'
    rcases hg.closed i hi hi' with ⟨fields, hf, _⟩
    exact ⟨fields, hf⟩
  · have htype := hg.types t (List.mem_singleton_self t)
    exact htype.1.covers r' t htype.2

/-- The half-way registry of an import that fails has an index. -/
theorem indexed_halfway (r₁ : Registry) (e : SchemaError) (hb : r.Built)
    (hrun : Avro.importType none schema r = .error e r₁) : Indexed r₁ r₁.find? := by
  have hadds := adds_halfway r r₁ schema e hrun
  rcases hadds.indexed _ hb.indexed with ⟨index, hindex⟩
  rw [← hindex.exact.eq_find? index r₁]
  exact hindex

/-- Without the new types its index is the one from before. -/
theorem retain_halfway (r₁ : Registry) (e : SchemaError) (index : Index)
    (hrun : Avro.importType none schema r = .error e r₁) (hindex : Indexed r₁ index) :
    index.retain r.checkpoint = r.find? := by
  have hadds := adds_halfway r r₁ schema e hrun
  -- What is left is an index of the registry from before, and there is only one.
  have hexact := hindex.exact.retain index r₁ r.checkpoint
  rw [hadds.keeps.rollback_eq] at hexact
  exact hexact.eq_find? _ r

end

section

variable (r : Registry) (schemas : List Json)

/-- In a sequence of imports those that fail leave no trace. -/
theorem importAll_succeeding : r.importAll (r.succeeding schemas) = r.importAll schemas := by
  induction schemas generalizing r with
  | nil => rfl
  | cons schema rest ih =>
      rw [importAll, succeeding]
      cases hrun : r.importSchema schema with
      | ok t r' =>
          simp only [importAll, hrun]
          exact ih r'
      | error e r' =>
          have hr : r' = r := importSchema_eq_error r r' schema e hrun
          rw [hr]
          exact ih r

/-- What went through goes through again without the documents that did not. -/
theorem succeeding_succeeding :
    r.succeeding (r.succeeding schemas) = r.succeeding schemas := by
  induction schemas generalizing r with
  | nil => rfl
  | cons schema rest ih =>
      rw [succeeding]
      cases hrun : r.importSchema schema with
      | ok t r' =>
          simp only [succeeding, hrun]
          rw [ih r']
      | error e r' =>
          have hr : r' = r := importSchema_eq_error r r' schema e hrun
          rw [hr]
          exact ih r

theorem succeeding_sublist : (r.succeeding schemas).Sublist schemas := by
  induction schemas generalizing r with
  | nil => exact .slnil
  | cons schema rest ih =>
      rw [succeeding]
      cases r.importSchema schema with
      | ok t r' => exact (ih r').cons_cons schema
      | error e r' => exact (ih r').cons schema

/-- What a single import keeps, a sequence keeps. -/
theorem importAll_keeps (hb : r.Built) (hr : r.InRange) : r.Below (r.importAll schemas) ∧
    (r.importAll schemas).Built ∧ (r.importAll schemas).InRange := by
  induction schemas generalizing r with
  | nil => exact ⟨.refl r, hb, hr⟩
  | cons schema rest ih =>
      rw [importAll]
      cases hrun : r.importSchema schema with
      | ok t r' =>
          have hext := extends_imported r r' schema t hrun hb hr
          have hrest := ih r' (.imported r r' schema t hb hrun) hext.inRange
          exact ⟨hext.below.trans hrest.1, hrest.2⟩
      -- A failure leaves the registry as it was.
      | error e r' =>
          have he : r' = r := importSchema_eq_error r r' schema e hrun
          rw [he]
          exact ih r hb hr

end

/-- An import goes through and extends the registry, or it fails and the registry, with the
    index of its names, is what it was before. In a sequence of imports the failures leave no
    trace. -/
theorem import_all_or_nothing (r : Registry) (hb : r.Built) (hr : r.InRange) :
    (∀ schema e r', r.importSchema schema = .error e r' → r' = r ∧
      ∃ r₁, Avro.importType none schema r = .error e r₁ ∧ r.Below r₁ ∧ Indexed r₁ r₁.find? ∧
        ∀ index, Indexed r₁ index → index.retain r.checkpoint = r.find?) ∧
    (∀ schema t r', r.importSchema schema = .ok t r' → r.Extends r' t) ∧
    ∀ schemas, r.importAll (r.succeeding schemas) = r.importAll schemas ∧
      r.succeeding (r.succeeding schemas) = r.succeeding schemas ∧
      (r.succeeding schemas).Sublist schemas ∧
      r.Below (r.importAll schemas) ∧ (r.importAll schemas).InRange := by
  refine ⟨?_, ?_, ?_⟩
  · intro schema e r' h
    -- What the failed import had registered by then is rolled back.
    rcases exists_halfway r r' schema e h with ⟨r₁, hrun, _⟩
    have hadds := adds_halfway r r₁ schema e hrun
    refine ⟨importSchema_eq_error r r' schema e h, r₁, hrun, hadds.keeps,
      indexed_halfway r schema r₁ e hb hrun, ?_⟩
    intro index hindex
    exact retain_halfway r schema r₁ e index hrun hindex
  · intro schema t r' h
    exact extends_imported r r' schema t h hb hr
  · intro schemas
    have hkeeps := r.importAll_keeps schemas hb hr
    exact ⟨r.importAll_succeeding schemas, r.succeeding_succeeding schemas,
      r.succeeding_sublist schemas, hkeeps.1, hkeeps.2.2⟩

end Registry

namespace Sample

/-- A shelf, with an enum for its size and a label whose type is not known. -/
def shelfSchema : Json :=
  .object [("type", .string "record"), ("name", .string "shop.Shelf"), ("fields", .array [
    .object [("name", .string "size"), ("type", .object [("type", .string "enum"),
      ("name", .string "Size"), ("symbols", .array [.string "S", .string "L"])])],
    .object [("name", .string "label"), ("type", .string "Label")]])]

end Sample

open Sample

/-- The label comes after the enum, and still there is no trace of either. -/
theorem importAll_shelfSchema : items.InRange ∧ items.succeeding [shelfSchema] = [] ∧
    items.importAll [shelfSchema] = items := by
  have hrange : items.InRange := by decide
  have hnone : items.succeeding [shelfSchema] = [] :=
    List.length_eq_zero_iff.mp (by decide +kernel)
  have hall := (Registry.import_all_or_nothing items items_built hrange).2.2 [shelfSchema]
  rw [hnone] at hall
  exact ⟨hrange, hnone, hall.1.symm⟩

end Schemata
