import Schemata.Avro.Export
import Schemata.Proofs.Avro.Faithful

/-!
# Documents Read Back

What the parts of an exported document are read as.

An export writes a leaf type, a definition or a field from what it knows, and
the import asks the document for its members one by one. Here the two meet,
one kind of document at a time. Each statement says that the document of a
value falls under the relation that reads it, with that value. What lies
within the document, the types of fields above all, does not matter as long as
it is no union and no list: such a document is `Single`.

## Main definitions

* `Avro.decimalMembers`, `Avro.enumMembers`, `Avro.structMembers`,
  `Avro.fieldMembers`: What is written of a decimal, a definition or a field,
  member by member.
* `Avro.Single`: A document that can stand as the type of one value.

## Theorems

* `Avro.decimalSchema_cases`: How decimals are written.
* `Avro.leafRead_scalarSchema`, `Avro.leafRead_decimalSchema`: Leaf types.
* `Avro.enumRead_enumMembers`, `Avro.recordRead_structMembers`: Definitions.
* `Avro.fieldRead_fieldSchema`: Fields.
* `Avro.type_of_fieldRead`: The type of a written field is what was written.
-/

namespace Schemata

namespace Avro

/-! ### Members -/

section

variable (key name : String) (names : Names) (documentation : Option String) (value : Option Json)

@[simp]
theorem find?_nil : Json.find? key [] = none :=
  rfl

@[simp]
theorem find?_cons (json : Json) (rest : Members) : Json.find? key ((name, json) :: rest) =
    if name = key then some json else Json.find? key rest :=
  rfl

@[simp]
theorem find?_append (a b : Members) :
    Json.find? key (a ++ b) = (Json.find? key a).or (Json.find? key b) := by
  induction a with
  | nil => rfl
  | cons member rest ih =>
      rw [List.cons_append, Json.find?, Json.find?]
      by_cases hk : member.1 = key
      · rw [if_pos hk, if_pos hk, Option.some_or]
      · rw [if_neg hk, if_neg hk, ih]

@[simp]
theorem find?_member? :
    Json.find? key (member? name value) = if name = key then value else none := by
  cases value with
  | none => simp only [member?, Option.toList_none, List.map_nil, Json.find?, ite_self]
  | some json => simp only [member?, Option.toList_some, List.map_cons, List.map_nil, Json.find?]

@[simp]
theorem find?_aliasMember : Json.find? key (aliasMember names) =
    if "aliases" = key then
      if names.aliases.toList = [] then none else some (ofStrings names.aliases.toList)
    else none := by
  unfold aliasMember
  by_cases hnil : names.aliases.toList = []
  · rw [if_pos hnil, if_pos hnil, Json.find?, ite_self]
  · rw [if_neg hnil, if_neg hnil, Json.find?, Json.find?]

@[simp]
theorem find?_nameMembers (space : Option String) : Json.find? key (nameMembers space name) =
    if "name" = key then some (.string name)
    else if "namespace" = key then
      if hasDot name = false ∧ space.isSome then some (.string "") else none
    else none := by
  rw [nameMembers, Json.find?]
  by_cases hs : hasDot name = false ∧ space.isSome
  · rw [if_pos hs, if_pos hs, Json.find?, Json.find?]
  · rw [if_neg hs, if_neg hs, Json.find?, ite_self]

theorem stringItems_map (list : List String) : stringItems key (list.map .string) = .ok list := by
  induction list with
  | nil => rfl
  | cons item rest ih => rw [List.map_cons, stringItems, ih, Except.map]

/-- Aliases that are written are read; where nothing is written there are none. -/
theorem strings_of_aliasMember (members : Members)
    (h : Json.find? "aliases" members = Json.find? "aliases" (aliasMember names)) :
    strings members "aliases" = .ok names.aliases.toList := by
  unfold strings
  rw [h, aliasMember]
  by_cases hnil : names.aliases.toList = []
  · rw [if_pos hnil, hnil]
    rfl
  · rw [if_neg hnil, Json.find?, if_pos rfl, ofStrings]
    exact stringItems_map "aliases" _

/-- A name that is written in full is read as it stands. -/
theorem namesRead_of_nameMembers (members : Members) (space : Option String) (hfit : names.Fit)
    (hname : Json.find? "name" members = some (.string names.name))
    (hspace : Json.find? "namespace" members =
      Json.find? "namespace" (nameMembers space names.name))
    (haliases : strings members "aliases" = .ok names.aliases.toList) :
    NamesRead members space names := by
  refine ⟨names.aliases.toList, ?_, ?_, Names.new_self names⟩
  · have htext : text? members "name" = some names.name := by
      rw [text?, hname]
      rfl
    unfold fullName
    rw [htext]
    simp only []
    rcases hs : namespaceOf? names.name with _ | own
    · have hdot := (namespaceOf?_eq_none_iff names.name).mp hs
      -- A name without a dot is in no namespace, and says so where it has to.
      have hnone : definitionSpace members space = none := by
        unfold definitionSpace
        rw [hspace, nameMembers]
        cases space with
        | none =>
            rw [if_neg fun h => Bool.false_ne_true h.2]
            rfl
        | some outer =>
            rw [if_pos ⟨hdot, rfl⟩]
            rfl
      simp only [hnone, qualify]
    · rfl
  · rw [aliases, haliases, Except.map, names.map_qualify_aliases hfit]

end

/-! ### Types without parts -/

/-- What is written of a decimal that is no native integer. -/
def decimalMembers (type : DecimalType) : Members :=
  [("logicalType", .string "decimal"), ("precision", .int type.precision),
    ("scale", .int type.scale), ("type", .string "bytes")]

/-- The two native integers are written by name, and every other decimal as an object. -/
theorem decimalSchema_cases (type : DecimalType) :
    (type = .int ∧ decimalSchema type = .string "int") ∨
      (type = .long ∧ decimalSchema type = .string "long") ∨
      type ≠ .int ∧ type ≠ .long ∧ decimalSchema type = .object (decimalMembers type) := by
  by_cases hint : type = .int
  · exact Or.inl ⟨hint, if_pos hint⟩
  by_cases hlong : type = .long
  · exact Or.inr (Or.inl ⟨hlong, (if_neg hint).trans (if_pos hlong)⟩)
  · exact Or.inr (Or.inr ⟨hint, hlong, (if_neg hint).trans (if_neg hlong)⟩)

theorem decimalSchema_eq_object_iff (type : DecimalType) (members : Members) :
    decimalSchema type = .object members ↔
      type ≠ .int ∧ type ≠ .long ∧ members = decimalMembers type := by
  rcases decimalSchema_cases type with ⟨ht, h⟩ | ⟨ht, h⟩ | ⟨hint, hlong, h⟩
  · rw [h]
    exact iff_of_false Json.noConfusion fun hs => hs.1 ht
  · rw [h]
    exact iff_of_false Json.noConfusion fun hs => hs.2.1 ht
  · rw [h, Json.object.injEq]
    exact ⟨fun he => ⟨hint, hlong, he.symm⟩, fun hs => hs.2.2.symm⟩

/-- The document can stand as the type of one value: it is no union and no list. -/
def Single (doc : Json) : Prop :=
  (∀ branches, doc ≠ .array branches) ∧ arrayItems? doc = none

theorem single_string (name : String) : Single (.string name) :=
  ⟨fun _ => Json.noConfusion, rfl⟩

theorem single_object (members : Members) (kind : String)
    (hk : Json.find? "type" members = some (.string kind)) (h : kind ≠ "array") :
    Single (.object members) := by
  refine ⟨fun _ => Json.noConfusion, ?_⟩
  rw [arrayItems?, text?, hk]
  exact if_neg fun he => h (Option.some.inj he)

theorem isNull_object (members : Members) (kind : String)
    (hk : Json.find? "type" members = some (.string kind)) (h : kind ≠ "null") :
    isNull (.object members) = false := by
  rw [isNull, text?, hk]
  exact beq_false_of_ne fun he => h (Option.some.inj he)

theorem leafRead_scalarSchema (kind : ScalarKind) (h : kind ≠ .binaryBase64) :
    LeafRead (scalarSchema kind) (.scalar kind) := by
  cases kind with
  | binaryBase64 => exact absurd rfl h
  | boolean => exact .primitive _ (.text "boolean") rfl
  | float => exact .primitive _ (.text "float") rfl
  | double => exact .primitive _ (.text "double") rfl
  | string => exact .primitive _ (.text "string") rfl
  | binaryHex => exact .primitive _ (.text "bytes") rfl
  | date => exact .logical "int" "date" rfl rfl rfl
  | time => exact .logical "int" "time-millis" rfl rfl rfl
  | timeMicros => exact .logical "long" "time-micros" rfl rfl rfl
  | dateTime => exact .logical "long" "timestamp-millis" rfl rfl rfl
  | dateTimeMicros => exact .logical "long" "timestamp-micros" rfl rfl rfl

theorem single_scalarSchema (kind : ScalarKind) :
    Single (scalarSchema kind) ∧ isNull (scalarSchema kind) = false := by
  cases kind <;> first
    | exact ⟨single_string _, rfl⟩
    | exact ⟨single_object _ _ rfl (by decide), isNull_object _ _ rfl (by decide)⟩

/-- A type that a precision and a scale make has that precision and that scale. -/
theorem precision_scale_of_new (precision scale : Nat) (type : DecimalType)
    (h : DecimalType.new precision scale = .ok type) :
    type.precision = precision ∧ type.scale = scale := by
  unfold DecimalType.new DecimalType.integer DecimalType.fraction at h
  split at h
  · next hscale =>
      split at h
      · exact nomatch h
      · split at h
        · exact nomatch h
        · rw [Except.ok.injEq] at h
          rw [← h, hscale]
          exact ⟨rfl, rfl⟩
  · split at h
    · exact nomatch h
    · split at h
      · exact nomatch h
      · rw [Except.ok.injEq] at h
        rw [← h]
        exact ⟨rfl, rfl⟩

theorem leafRead_decimalSchema (type : DecimalType) (h : type.Writable) :
    LeafRead (decimalSchema type) (.decimal type) := by
  rcases decimalSchema_cases type with ⟨rfl, he⟩ | ⟨rfl, he⟩ | ⟨hint, hlong, he⟩
  · rw [he]
    exact .primitive _ (.text "int") rfl
  · rw [he]
    exact .primitive _ (.text "long") rfl
  · rw [he]
    -- Any other decimal is made again from the precision and the scale that are written.
    rcases h with h | h | ⟨precision, scale, hp, hs, hnew⟩
    · exact absurd h hint
    · exact absurd h hlong
    · rcases precision_scale_of_new precision scale type hnew with ⟨rfl, rfl⟩
      refine .decimal _ type.precision (some type.scale) type rfl rfl ?_ ?_ hnew
      · exact if_pos hp
      · exact if_pos hs

theorem single_decimalSchema (type : DecimalType) :
    Single (decimalSchema type) ∧ isNull (decimalSchema type) = false := by
  rcases decimalSchema_cases type with ⟨_, h⟩ | ⟨_, h⟩ | ⟨_, _, h⟩
  · rw [h]
    exact ⟨single_string _, rfl⟩
  · rw [h]
    exact ⟨single_string _, rfl⟩
  · rw [h]
    exact ⟨single_object _ _ rfl (by decide), isNull_object _ _ rfl (by decide)⟩

/-! ### Definitions -/

/-- What is written of an enum. -/
def enumMembers (space : Option String) (e : EnumType) : Members :=
  aliasMember e.names ++ member? "default" (e.default.map .string) ++
    docMember e.documentation ++ nameMembers space e.name ++
    [("symbols", ofStrings e.symbols), ("type", .string "enum")]

/-- What is written of a struct, given the documents of its fields. -/
def structMembers (space : Option String) (s : StructType) (items : List Json) : Members :=
  aliasMember s.names ++ docMember s.documentation ++ [("fields", .array items)] ++
    nameMembers space s.name ++ [("type", .string "record")]

theorem enumSchema_eq (space : Option String) (e : EnumType) :
    enumSchema space e = .object (enumMembers space e) :=
  rfl

theorem structSchema_eq {space : Option String} {s : StructType} {items : List Json} :
    structSchema space s items = .object (structMembers space s items) :=
  rfl

theorem text?_eq {members : Members} {key : String} (text : Option String)
    (h : Json.find? key members = text.map .string) : text? members key = text := by
  rw [text?, h]
  cases text with
  | none => rfl
  | some text => rfl

theorem strings_eq {members : Members} {key : String} {list : List String}
    (h : Json.find? key members = some (ofStrings list)) : strings members key = .ok list := by
  unfold strings
  rw [h, ofStrings]
  exact stringItems_map key list

theorem enumRead_enumMembers (space : Option String) (e : EnumType) (hfit : e.names.Fit) :
    EnumRead (enumMembers space e) space e where
  kind := by simp [enumMembers, docMember]
  names := by
    refine namesRead_of_nameMembers e.names _ space hfit ?_ ?_ (strings_of_aliasMember e.names _ ?_)
    · simp [enumMembers, docMember, EnumType.name]
    · simp [enumMembers, docMember, EnumType.name]
    · simp [enumMembers, docMember]
  documentation := (text?_eq _ (by simp [enumMembers, docMember])).symm
  symbols := strings_eq (by simp [enumMembers, docMember])
  default := (text?_eq _ (by simp [enumMembers, docMember])).symm

/-- What is written of a struct is read as the struct without its fields. -/
theorem recordRead_structMembers (space : Option String) (s : StructType) (items : List Json)
    (hfit : s.names.Fit) :
    RecordRead (structMembers space s items) space { s with fields := none } items where
  kind := Or.inl (by simp [structMembers, docMember])
  names := by
    refine namesRead_of_nameMembers s.names _ space hfit ?_ ?_ (strings_of_aliasMember s.names _ ?_)
    · simp [structMembers, docMember, StructType.name]
    · simp [structMembers, docMember, StructType.name]
    · simp [structMembers, docMember]
  documentation := (text?_eq _ (by simp [structMembers, docMember])).symm
  unassigned := rfl
  items := by simp [structMembers, docMember]

theorem namesRead_unique (members : Members) (space : Option String) (names names' : Names)
    (h : NamesRead members space names) (h' : NamesRead members space names') : names' = names := by
  rcases h with ⟨list, hname, haliases, hnew⟩
  rcases h' with ⟨list', hname', haliases', hnew'⟩
  rw [hname, Except.ok.injEq, Prod.mk.injEq] at hname'
  rw [← hname'.1, haliases, Except.ok.injEq] at haliases'
  rw [← hname'.1, ← haliases', hnew, Except.ok.injEq] at hnew'
  exact hnew'.symm

/-- An enum that was written is read as no other. -/
theorem eq_of_enumRead {space : Option String} (e e' : EnumType) (hfit : e.names.Fit)
    (h : EnumRead (enumMembers space e) space e') : e' = e := by
  have he := enumRead_enumMembers space e hfit
  have hnames := namesRead_unique _ _ _ _ he.names h.names
  have hdoc := h.documentation.trans he.documentation.symm
  have hsymbols := h.symbols
  rw [he.symbols, Except.ok.injEq] at hsymbols
  have hdefault := h.default.trans he.default.symm
  cases e
  cases e'
  simp only at hnames hdoc hsymbols hdefault
  simp only [hnames, hdoc, hsymbols, hdefault]

/-- A struct that was written is read with no other names and with the fields' documents. -/
theorem names_of_recordRead {space : Option String} (s s' : StructType) (items items' : List Json)
    (hfit : s.names.Fit) (h : RecordRead (structMembers space s items) space s' items') :
    s'.names = s.names ∧ items' = items := by
  have hs := recordRead_structMembers space s items hfit
  have hitems := h.items
  rw [hs.items, Option.some.injEq, Json.array.injEq] at hitems
  exact ⟨namesRead_unique _ _ _ _ hs.names h.names, hitems.symm⟩

theorem single_enumSchema (space : Option String) (e : EnumType) :
    Single (enumSchema space e) ∧ isNull (enumSchema space e) = false := by
  have hk : Json.find? "type" (enumMembers space e) = some (.string "enum") := by
    simp [enumMembers, docMember]
  exact ⟨single_object _ _ hk (by decide), isNull_object _ _ hk (by decide)⟩

theorem single_structSchema {space : Option String} {s : StructType} {items : List Json} :
    Single (structSchema space s items) ∧ isNull (structSchema space s items) = false := by
  have hk : Json.find? "type" (structMembers space s items) = some (.string "record") := by
    simp [structMembers, docMember]
  exact ⟨single_object _ _ hk (by decide), isNull_object _ _ hk (by decide)⟩

/-! ### Fields -/

/-- What is written of a field, given the document of its type. -/
def fieldMembers (field : Field) (type : Json) : Members :=
  aliasMember field.names ++ member? "default" (fieldType type field.cardinality field.default).2 ++
    docMember field.documentation ++ [("name", .string field.name),
      ("type", (fieldType type field.cardinality field.default).1)]

theorem fieldSchema_eq (field : Field) (type : Json) :
    fieldSchema field type = .object (fieldMembers field type) :=
  rfl

theorem find?_type_fieldMembers (field : Field) (type : Json) :
    Json.find? "type" (fieldMembers field type) =
      some (fieldType type field.cardinality field.default).1 := by
  simp [fieldMembers, docMember]

theorem find?_default_fieldMembers (field : Field) (type : Json) :
    Json.find? "default" (fieldMembers field type) =
      (fieldType type field.cardinality field.default).2 := by
  simp [fieldMembers, docMember]

/-- A default that suits a field is as it should be. -/
theorem normal_of_suits (default : Default) (cardinality : Cardinality)
    (h : default.suits cardinality = true) : default.normal = default := by
  cases default with
  | none => rfl
  | null => rfl
  | literal value =>
      cases value with
      | null => exact nomatch h
      | bool _ | int _ | float _ | string _ | array _ | object _ => rfl

theorem splitUnion_null (type : Json) (hn : isNull type = false) :
    splitUnion [.string "null", type] = .ok (type, true) ∧
      splitUnion [type, .string "null"] = .ok (type, true) := by
  have hnull : isNull (.string "null") = true := rfl
  rw [splitUnion_eq_ok_iff, splitUnion_eq_ok_iff]
  simp only [List.filter_cons, List.filter_nil, hnull, hn, Bool.not_true, Bool.not_false, if_true,
    Bool.false_eq_true, if_false, List.length_singleton, le_refl, decide_true, and_self]

/-- The schema and the default that are written of a field come to its cardinality, its type
    and its default again. -/
theorem formRead_fieldType (type : Json) (cardinality : Cardinality) (default : Default)
    (hsuits : default.suits cardinality = true)
    (hlist : cardinality = .repeated → ∃ value, default = .literal value) (hs : Single type)
    (hn : isNull type = false) :
    FormRead (fieldType type cardinality default).2 (fieldType type cardinality default).1
      ⟨cardinality, type, default⟩ := by
  rcases splitUnion_null type hn with ⟨hfront, hback⟩
  have hpair : ∀ (a b c : Json), [a, b] ≠ [c] := fun a b c h => by
    rw [List.cons.injEq] at h
    exact List.cons_ne_nil _ _ h.2
  -- The cardinality decides on the form, and of an optional
  -- field the default on the order of its branches.
  cases cardinality with
  | required =>
      cases default with
      | none => exact .plain type hs.1 hs.2
      | null => exact absurd hsuits (by decide)
      | literal value => exact .plain type hs.1 hs.2
  | optional =>
      cases default with
      | none => exact .nullable _ type true (hpair _ _) hfront hs.2
      | null => exact .nullable _ type true (hpair _ _) hfront hs.2
      | literal value =>
          have hform : FormRead (some value) _ _ :=
            FormRead.nullable _ type true (hpair _ _) hback hs.2
          have hvalue : Default.ofLiteral value = .literal value :=
            normal_of_suits (.literal value) .optional hsuits
          rw [Option.elim_some, hvalue] at hform
          exact hform
  | repeated =>
      rcases hlist rfl with ⟨value, rfl⟩
      exact .list (arraySchema type) type type rfl (.plain type hs.1 hs.2)

theorem fieldRead_fieldSchema (field : Field) (type : Json) (t : Ty) (hw : field.Writable)
    (hs : Single type) (hn : isNull type = false) :
    FieldRead (fieldSchema field type) ⟨field.cardinality, type, field.default⟩
      { field with type := t, owner := none } := by
  rw [fieldSchema_eq]
  refine .mk _ _ ?_ (find?_type_fieldMembers field type) ?_ ?_
    (Names.new_self field.names) ?_ rfl ?_ rfl
  · exact text?_eq (some field.name) (by simp [fieldMembers, docMember])
  · rw [find?_default_fieldMembers]
    exact formRead_fieldType type field.cardinality field.default field.suits hw.2 hs hn
  · exact strings_of_aliasMember field.names _ (by simp [fieldMembers, docMember])
  · exact (text?_eq field.documentation (by simp [fieldMembers, docMember])).symm
  · exact (normal_of_suits field.default field.cardinality field.suits).symm

theorem fieldsRead_zipWith (fields : List Field) (docs : List Json) (image : Ty → Ty)
    (hlen : fields.length = docs.length) (hw : ∀ field ∈ fields, field.Writable)
    (hs : ∀ doc ∈ docs, Single doc ∧ isNull doc = false) :
    ∃ forms, FieldsRead (fields.zipWith fieldSchema docs) forms
        (fields.map fun field => { field with type := image field.type, owner := none }) ∧
      forms.map FieldForm.type = docs := by
  -- Fields and documents go together, one document for each field.
  induction fields generalizing docs with
  | nil =>
      cases docs with
      | nil => exact ⟨[], .nil, rfl⟩
      | cons doc docs => exact absurd hlen (Nat.succ_ne_zero _).symm
  | cons field fields ih =>
      cases docs with
      | nil => exact absurd hlen (Nat.succ_ne_zero _)
      | cons doc docs =>
          rcases ih docs (Nat.succ.inj hlen) (fun f hf => hw f (List.mem_cons_of_mem _ hf))
            (fun d hd => hs d (List.mem_cons_of_mem _ hd)) with ⟨forms, hforms, htypes⟩
          rcases hs doc List.mem_cons_self with ⟨hsingle, hnull⟩
          refine ⟨_ :: forms, .cons _ _ _ _ _ _ (fieldRead_fieldSchema field doc
            (image field.type) (hw field List.mem_cons_self) hsingle hnull) hforms, ?_⟩
          rw [List.map_cons, htypes]

/-! ### What a written field is read as, if it is read at all -/

theorem type_of_formRead_single (default : Option Json) (type : Json) (form : FieldForm)
    (hs : Single type) (h : FormRead default type form) : form.type = type := by
  cases h with
  | plain => rfl
  | list _ _ _ ha _ =>
      rw [hs.2] at ha
      exact nomatch ha
  -- All other forms are read from unions.
  | _ => exact absurd rfl (hs.1 _)

theorem type_of_formRead_list (default : Option Json) (type : Json) (form : FieldForm)
    (hs : Single type) (h : FormRead default (arraySchema type) form) : form.type = type := by
  cases h with
  | plain _ _ ha => exact absurd ha (by simp [arraySchema, arrayItems?, text?, Json.string?])
  | list _ _ _ ha hi =>
      have hitems : some type = some _ := ha
      rw [Option.some.injEq] at hitems
      rw [← hitems] at hi
      cases hi with
      | plain => rfl
      | union => exact absurd rfl (hs.1 _)

theorem type_of_formRead_pair {default : Option Json} {a b : Json} (type : Json) (form : FieldForm)
    (hs : Single type) (hb : ∀ branch nullable,
      splitUnion [a, b] = .ok (branch, nullable) → branch = type)
    (h : FormRead default (.array [a, b]) form) : form.type = type := by
  cases h with
  | plain _ hu _ => exact absurd rfl (hu _)
  | list _ _ _ ha _ => exact nomatch ha
  | nullable _ branch nullable _ hsplit _ => exact hb branch nullable hsplit
  | nullableList _ branch _ _ nullable _ hsplit ha _ =>
      rw [hb branch nullable hsplit, hs.2] at ha
      exact nomatch ha

/-- The branch beside null is the only one that can be left. -/
theorem branch_of_splitUnion_null (type branch : Json) (nullable : Bool)
    (h : splitUnion [.string "null", type] = .ok (branch, nullable) ∨
      splitUnion [type, .string "null"] = .ok (branch, nullable)) : branch = type := by
  -- A branch that is left is one of the two, and it is not null.
  have hmem : ∀ branches, splitUnion branches = .ok (branch, nullable) →
      (∀ b ∈ branches, b = .string "null" ∨ b = type) → branch = type := by
    intro branches hsplit hall
    rcases mem_of_splitUnion hsplit with ⟨hm, hn⟩
    rcases hall branch hm with rfl | rfl
    · exact absurd hn (by decide)
    · rfl
  rcases h with h | h
  · exact hmem _ h fun b hb => by simpa only [List.mem_cons, List.not_mem_nil, or_false] using hb
  · exact hmem _ h fun b hb => by
      simp only [List.mem_cons, List.not_mem_nil, or_false] at hb
      exact hb.symm

/-- The type of a field that was written is the one that was written, if it is read at all. -/
theorem type_of_fieldRead (field field' : Field) (type : Json) (form : FieldForm)
    (hs : Single type) (h : FieldRead (fieldSchema field type) form field') : form.type = type := by
  rw [fieldSchema_eq] at h
  cases h with
  | mk _ schema _ htype hform =>
      rw [find?_type_fieldMembers, Option.some.injEq] at htype
      rw [← htype] at hform
      -- Each cardinality and default has a form of its own: the type alone, with null on either
      -- side, or in a list.
      rcases hc : field.cardinality with _ | _ | _ <;>
        rcases hd : field.default with _ | _ | value <;> rw [hc, hd] at hform
      · exact type_of_formRead_single _ type form hs hform
      · exact type_of_formRead_single _ type form hs hform
      · exact type_of_formRead_single _ type form hs hform
      · exact type_of_formRead_pair type form hs
          (fun b n hsplit => branch_of_splitUnion_null type b n (Or.inl hsplit)) hform
      · exact type_of_formRead_pair type form hs
          (fun b n hsplit => branch_of_splitUnion_null type b n (Or.inl hsplit)) hform
      · exact type_of_formRead_pair type form hs
          (fun b n hsplit => branch_of_splitUnion_null type b n (Or.inr hsplit)) hform
      · exact type_of_formRead_list _ type form hs hform
      · exact type_of_formRead_list _ type form hs hform
      · exact type_of_formRead_list _ type form hs hform

theorem types_of_fieldsRead (fields : List Field) (docs : List Json) (forms : List FieldForm)
    (fields' : List Field) (hlen : fields.length = docs.length) (hs : ∀ doc ∈ docs, Single doc)
    (h : FieldsRead (fields.zipWith fieldSchema docs) forms fields') :
    forms.map FieldForm.type = docs := by
  induction fields generalizing docs forms fields' with
  | nil =>
      cases docs with
      | nil =>
          cases h with
          | nil => rfl
      | cons doc docs => exact absurd hlen (Nat.succ_ne_zero _).symm
  | cons field fields ih =>
      cases docs with
      | nil => exact absurd hlen (Nat.succ_ne_zero _)
      | cons doc docs =>
          cases h with
          | cons _ form field' _ forms fields' hread rest =>
              rw [List.map_cons, type_of_fieldRead field field' doc form (hs doc List.mem_cons_self)
                hread, ih docs forms fields' (Nat.succ.inj hlen)
                (fun d hd => hs d (List.mem_cons_of_mem _ hd)) rest]

/-! ### The documents of a walk -/

namespace Walk

variable {r : Registry} {space : Option String} {written written' : Written} {ts : List Ty}
  {es : List Json} {refs : List Reference}

/-- Every document of a walk can stand as the type of one value. -/
theorem single (h : Walk r space written ts es refs written') : ∀ e ∈ es, Single e := by
  induction h with
  | nil => exact fun e he => absurd he List.not_mem_nil
  | scalar _ kind _ _ ih =>
      exact List.forall_mem_cons.mpr ⟨(single_scalarSchema kind).1, ih⟩
  | decimal _ type _ _ ih =>
      exact List.forall_mem_cons.mpr ⟨(single_decimalSchema type).1, ih⟩
  | reference _ _ _ _ _ ih =>
      exact List.forall_mem_cons.mpr ⟨single_string _, ih⟩
  | enumeration _ _ _ _ _ ih =>
      exact List.forall_mem_cons.mpr ⟨(single_enumSchema _ _).1, ih⟩
  | struct _ _ _ _ _ _ _ _ _ _ _ _ ihr =>
      exact List.forall_mem_cons.mpr ⟨single_structSchema.1, ihr⟩

/-- No document of a walk is the null type, unless a reference is taken for it. -/
theorem not_null (h : Walk r space written ts es refs written')
    (hr : ∀ ref ∈ refs, ref.Resolves r) : ∀ e ∈ es, isNull e = false := by
  induction h with
  | nil => exact fun e he => absurd he List.not_mem_nil
  | scalar _ kind _ _ ih =>
      exact List.forall_mem_cons.mpr ⟨(single_scalarSchema kind).2, ih hr⟩
  | decimal _ type _ _ ih =>
      exact List.forall_mem_cons.mpr ⟨(single_decimalSchema type).2, ih hr⟩
  -- A name that resolves is no primitive, and null is one.
  | reference _ _ _ _ _ ih =>
      rcases List.forall_mem_cons.mp hr with ⟨hhead, htail⟩
      refine List.forall_mem_cons.mpr ⟨beq_false_of_ne fun he => hhead.1 (Or.inr he), ih htail⟩
  | enumeration _ _ _ _ _ ih =>
      exact List.forall_mem_cons.mpr ⟨(single_enumSchema _ _).2, ih hr⟩
  | struct _ _ _ _ _ _ _ _ _ _ _ _ ihr =>
      exact List.forall_mem_cons.mpr ⟨single_structSchema.2,
        ihr fun ref hm => hr ref (List.mem_append_right _ hm)⟩

end Walk

end Avro

end Schemata
