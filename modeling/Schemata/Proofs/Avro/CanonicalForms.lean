import Schemata.Avro.Canonical
import Schemata.Proofs.Avro.Conforming
import Schemata.Proofs.Registry.Reaches

/-!
# Schemas With a Canonical Form

When the schema of an export has a canonical form.

A canonical form has room for any size, precision or scale below a limit, and a
schema with a larger one has none. An export has no sizes, and its precisions
and scales are those of the decimal types that it comes to. Where they are met
again behind a name, the schema is one that was met before. So it is kept account
of what has been met, as the rules do: if no number in there is too large, and
none of the decimals still to come is, none is in what is read next.

## Main definitions

* `Avro.Schema.Narrow`, `Avro.Seen.Narrow`: No number is too large.

## Theorems

* `Avro.Schema.exists_canonicalForm_iff`: Which schemas have a canonical form.
* `Avro.Conforms.narrow`: What is read of fields has no number that is too large.
* `Avro.TypeConforms.narrow`: Nor has what is read of a root.
-/

namespace Schemata

namespace Avro

/-! ### Numbers of schemas -/

/-- No number of the schema is too large for a canonical form. -/
def Schema.Narrow (schema : Schema) : Prop :=
  ∀ n ∈ schema.numbers, n < Schema.numberLimit

theorem Schema.exists_canonicalForm_iff (schema : Schema) :
    (∃ form, schema.canonicalForm = .ok form) ↔ schema.Narrow := by
  unfold canonicalForm
  rcases hf : schema.numbers.find? (numberLimit ≤ ·) with _ | n
  · simp only [List.find?_eq_none, decide_eq_true_eq, Nat.not_le] at hf
    exact ⟨fun _ => hf, fun _ => ⟨_, rfl⟩⟩
  · have hle : numberLimit ≤ n := by
      simpa only [decide_eq_true_eq] using List.find?_some hf
    refine ⟨fun ⟨_, h⟩ => (nomatch h), fun h => ?_⟩
    exact absurd (h n (List.mem_of_find?_eq_some hf)) (Nat.not_lt.mpr hle)

theorem Schema.narrow_of_numbers_eq_nil (schema : Schema) (h : schema.numbers = []) :
    schema.Narrow := by
  intro n hm
  rw [h] at hm
  exact absurd hm List.not_mem_nil

theorem Schema.mem_fieldNumbers (slots : List Slot) (n : Nat) :
    n ∈ fieldNumbers slots ↔ ∃ slot ∈ slots, n ∈ slot.2.1.numbers := by
  induction slots with
  | nil => simp only [fieldNumbers, List.not_mem_nil, false_and, exists_false]
  | cons slot rest ih =>
      rw [fieldNumbers, List.mem_append, ih]
      simp only [List.exists_mem_cons_iff]

/-- A record is narrow if its fields are. -/
theorem Schema.narrow_record (name : String) (slots : List Slot)
    (h : ∀ slot ∈ slots, slot.2.1.Narrow) : (Schema.record name slots).Narrow := by
  intro n hm
  rw [numbers] at hm
  rcases (mem_fieldNumbers slots n).mp hm with ⟨slot, hslot, hn⟩
  exact h slot hslot n hn

theorem numbers_slotSchema (schema : Schema) (cardinality : Cardinality) (default : Default) :
    (slotSchema schema cardinality default).numbers = schema.numbers := by
  cases cardinality <;> cases default <;>
    simp only [slotSchema, Schema.numbers, Schema.branchNumbers, List.append_nil, List.nil_append]

theorem narrow_slots {field : Field} (schema : Schema) (slots : List Slot) (h : schema.Narrow)
    (hslots : ∀ slot ∈ slots, slot.2.1.Narrow) :
    ∀ read ∈ slot field schema :: slots, read.2.1.Narrow := by
  refine List.forall_mem_cons.mpr ⟨fun n hm => h n ?_, hslots⟩
  rwa [slot, numbers_slotSchema] at hm

/-! ### Numbers of what has been met -/

/-- No number of a type that has been read is too large. -/
def Seen.Narrow (seen : Seen) : Prop :=
  ∀ entry ∈ seen.complete, entry.2.Narrow

namespace Seen

theorem narrow_empty : Seen.empty.Narrow :=
  fun _ hm => absurd hm List.not_mem_nil

section

variable (seen : Seen) (h : seen.Narrow)

include h

theorem narrow_finish (name : String) (aliases : List String) (schema : Schema)
    (hs : schema.Narrow) : (seen.finish name aliases schema).Narrow := by
  intro entry hm
  rcases List.mem_append.mp hm with hm | hm
  · rcases List.mem_map.mp (List.mem_reverse.mp hm) with ⟨_, _, rfl⟩
    exact hs
  · exact h entry hm

theorem narrow_of_find? (name : String) (schema : Schema)
    (hf : seen.complete.find? name = some schema) : schema.Narrow := by
  rcases List.lookup_eq_some_iff.mp hf with ⟨front, rest, heq, _⟩
  exact h (name, schema) (heq ▸ List.mem_append_right front List.mem_cons_self)

omit h in
theorem narrow_of_refer? (name : String) (schema : Schema) (hs : seen.refer? name = some schema) :
    schema.Narrow := by
  have hreference (name : String) : (Schema.reference name).Narrow :=
    Schema.narrow_of_numbers_eq_nil _ rfl
  unfold refer? at hs
  split at hs
  · exact Option.some.inj hs ▸ hreference name
  · rcases Option.map_eq_some_iff.mp hs with ⟨full, _, rfl⟩
    exact hreference full

theorem narrow_of_earlier? (name : String) (schema : Schema)
    (hs : seen.earlier? name = some schema) : schema.Narrow := by
  unfold earlier? at hs
  split at hs
  · next full _ => exact Option.some.inj hs ▸ Schema.narrow_of_numbers_eq_nil (.reference full) rfl
  · exact seen.narrow_of_find? h name schema hs

omit h in
theorem narrow_of_read? (space : Option String) (name : String) (schema : Schema)
    (hs : seen.read? space name = some schema) : schema.Narrow := by
  have hprimitive (hp : Schema.primitive? name = some schema) : schema.Narrow := by
    refine Schema.narrow_of_numbers_eq_nil _ ?_
    unfold Schema.primitive? at hp
    split at hp
    case h_9 => exact nomatch hp
    all_goals exact Option.some.inj hp ▸ rfl
  rcases Option.or_eq_some_iff.mp hs with hp | ⟨_, hs⟩
  · exact hprimitive hp
  · split at hs
    · exact seen.narrow_of_refer? _ schema hs
    · exact nomatch hs

/-- What a name is read as is a type that has been met, or leads to one. -/
theorem narrow_of_fieldRead? {space : Option String} {field : Field} (name : String)
    (schema : Schema) (hs : fieldRead? seen space field name = some schema) : schema.Narrow := by
  unfold fieldRead? readAsType? at hs
  split at hs
  · split at hs
    · exact nomatch hs
    split at hs
    · exact seen.narrow_of_earlier? h _ schema hs
    · exact seen.narrow_of_read? space name schema hs
  · exact seen.narrow_of_read? space name schema hs

end

end Seen

/-! ### Numbers of what is read -/

section

variable (r : Registry) (root : Ty)
  (hr : ∀ type, r.Reaches root (.decimal type) → type.precision < Schema.numberLimit)

include hr

theorem narrow_leafSchema (t : Ty) (ht : r.Reaches root t) (schema : Schema)
    (hs : leafSchema t = some schema) : schema.Narrow := by
  cases t with
  | scalar kind =>
      cases kind <;> exact Option.some.inj hs ▸ Schema.narrow_of_numbers_eq_nil _ rfl
  | decimal type =>
      rw [← Option.some.inj hs, decimalLeaf]
      split
      · exact Schema.narrow_of_numbers_eq_nil _ rfl
      split
      · exact Schema.narrow_of_numbers_eq_nil _ rfl
      · -- The numbers of a decimal are its precision and a scale that is not above it.
        intro n hm
        simp only [Schema.numbers, List.mem_cons, List.not_mem_nil, or_false] at hm
        have hp := hr type ht
        rcases hm with rfl | rfl
        · exact hp
        · exact Nat.lt_of_le_of_lt type.scale_le hp
  | named h => exact nomatch hs
  | unparsed t => exact nomatch hs

omit hr in
theorem EnumConforms.narrow {e : EnumType} {seen seen' : Seen} (schema : Schema)
    (he : EnumConforms e seen schema seen') (h : seen.Narrow) :
    schema.Narrow ∧ seen'.Narrow := by
  have hschema : schema.Narrow := by
    rw [he.read]
    exact Schema.narrow_of_numbers_eq_nil _ rfl
  rw [he.met]
  exact ⟨hschema, seen.narrow_finish h _ _ schema hschema⟩

/-- What is read of fields has no number that is too large, and neither has what has been met
    then. -/
theorem Conforms.narrow (depth : Nat) {space : Option String} {written written' : Written}
    {seen seen' : Seen} (fields : List Field) (slots : List Slot)
    (hc : Conforms r depth space written seen fields slots written' seen')
    (hfields : ∀ t ∈ fields.map Field.type, r.Reaches root t) (hseen : seen.Narrow) :
    (∀ slot ∈ slots, slot.2.1.Narrow) ∧ seen'.Narrow := by
  -- On what is read: a schema that was met before is narrow because it was when it was met.
  induction hc with
  | nil space written seen => exact ⟨fun slot hm => absurd hm List.not_mem_nil, hseen⟩
  | leaf schema ht _ _ ih =>
      rw [List.map_cons, List.forall_mem_cons] at hfields
      have hschema := narrow_leafSchema r root hr _ hfields.1.core schema ht
      have hrest := ih hfields.2 hseen
      exact ⟨narrow_slots schema _ hschema hrest.1, hrest.2⟩
  | @reference _ _ _ seen _ _ _ _ handle schema _ _ hs _ _ ih =>
      rw [List.map_cons, List.forall_mem_cons] at hfields
      have hschema := seen.narrow_of_fieldRead? hseen _ schema hs
      have hrest := ih hfields.2 hseen
      exact ⟨narrow_slots schema _ hschema hrest.1, hrest.2⟩
  | enumeration _ i schema _ _ he _ _ ih =>
      rw [List.map_cons, List.forall_mem_cons] at hfields
      rcases he.narrow schema hseen with ⟨hschema, hmet⟩
      have hrest := ih hfields.2 hmet
      exact ⟨narrow_slots schema _ hschema hrest.1, hrest.2⟩
  | struct seen₁ own inner i schema ht _ _ ho _ hs hmet _ _ ihb ihr =>
      rw [List.map_cons, List.forall_mem_cons] at hfields
      have hstruct := Registry.Reaches.named r root _ (.struct i) ht hfields.1
      rcases ihb (Registry.Reaches.fields r root i own hstruct ho) hseen with ⟨hinner, hseen₁⟩
      have hschema : schema.Narrow := by
        rw [hs]
        exact Schema.narrow_record _ inner hinner
      have hrest := ihr hfields.2 (hmet ▸ seen₁.narrow_finish hseen₁ _ _ schema hschema)
      exact ⟨narrow_slots schema _ hschema hrest.1, hrest.2⟩

/-- If no decimal that can be reached is too large, no number of the schema is. -/
theorem TypeConforms.narrow (depth : Nat) (schema : Schema)
    (hc : TypeConforms r depth root schema) : schema.Narrow := by
  cases hc with
  | leaf ht =>
      exact narrow_leafSchema r root hr _ (Registry.Reaches.core r root root .root) schema ht
  | enumeration i seen _ he => exact (he.narrow schema Seen.narrow_empty).1
  | struct i own written seen ht ho hs =>
      rcases hs with ⟨_, inner, seen₁, body, rfl, _⟩
      have hstruct := Registry.Reaches.named r root root (.struct i) ht .root
      exact Schema.narrow_record _ inner (Conforms.narrow r root hr depth own inner body
        (Registry.Reaches.fields r root i own hstruct ho) Seen.narrow_empty).1

end

end Avro

end Schemata
