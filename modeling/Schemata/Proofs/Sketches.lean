import Schemata.Proofs.Listings

/-!
# Bodies of Structs in an Outline

Where an outline shows structs with their bodies, and where by their names alone.

The lines of an outline are texts, and a text does not tell what it is there for:
some documentation may read like the beginning of a struct. So what an outline
shows is kept as a `Sketch`, which has a node for every type that is shown and has
the nodes of a struct's fields within that of the struct. The lines are then read
off the sketch, node by node, and the law about bodies is one about the nodes.

It comes from the structs that the outline has shown so far. A struct is shown
with its body exactly if it is not among them (`BodiesFirst`), so it has one body
if it is shown at all, and all else that is shown of it is one line. The bodies
are those of the structs that can be reached, since a body shows the types of all
its fields. Each node but the first stands for a field of a body, which gives the
number of nodes.

## Main definitions

* `Outline.Sketch`: What an outline shows.
* `Outline.Sketch.lines`: The lines that a sketch is shown as.
* `Outline.Sketch.Fits`: The nodes of a sketch are parts of a graph.
* `Outline.Occurrence`, `Outline.BodiesFirst`: The structs that are shown, and
  that bodies are shown where they come first.
* `Registry.Sketched`: A sketch is what the outline of a type shows.

## Theorems

* `Outline.Listing.unique`: Entries are listed in one way.
* `Outline.Sketch.perm_occurrences`: The nodes of structs are the structs among
  the entries and among the fields of bodies.
* `Registry.exists_sketched`: An outline shows a sketch.
* `Registry.outline_bodiesOnce`: In it bodies stand once for each struct.
* `Registry.render?_bodiesOnce`: So they do in the text of a type.
-/

namespace Schemata

theorem Ty.struct?_eq_some_iff (t : Ty) (i : Nat) :
    t.struct? = some i ↔ t.core = .named (.struct i) := by
  unfold struct?
  split
  · next j hj => rw [hj, Option.some.injEq, Ty.named.injEq, Handle.struct.injEq]
  · next hne => exact ⟨nofun, fun h => absurd h (hne i)⟩

/-- The structs among the types of the fields of a struct. -/
def Registry.structsWithin (r : Registry) (i : Nat) : List Nat :=
  ((r.struct i).fields.getD []).filterMap (·.type.struct?)

namespace Outline

/-- The struct that an entry shows. -/
def Entry.struct? (e : Entry) : Option Nat :=
  e.type.struct?

/-- Types that are shown one after another: on one line, or as structs, by their names alone or
    with their bodies. In a body the types of the fields are shown. -/
inductive Sketch where
  | nil
  | line (entry : Entry) (text : String) (rest : Sketch)
  | header (entry : Entry) (struct : Nat) (rest : Sketch)
  | body (entry : Entry) (struct : Nat) (fields rest : Sketch)

/-- A struct where it is shown, with its body or without. -/
structure Occurrence where
  struct : Nat
  withBody : Bool
  deriving DecidableEq, Repr

namespace Sketch

/-- The lines of what is shown. A body is a pair of braces with the documentation of the struct
    and its fields in between. -/
def lines (r : Registry) : Sketch → List Line
  | nil => []
  | line e text rest =>
    e.front ++ ⟨e.level, unparsedMark e.type.layers ++ text⟩ :: rest.lines r
  | header e i rest =>
    e.front ++ ⟨e.level, unparsedMark e.type.layers ++ structHeader (r.struct i)⟩ :: rest.lines r
  | body e i fields rest =>
    e.front ++
      (⟨e.level, unparsedMark e.type.layers ++ structHeader (r.struct i) ++ " \x7b"⟩ ::
        bodyFront (r.struct i) (e.level + 1) ++ fields.lines r ++ [⟨e.level, "\x7d"⟩]) ++
      rest.lines r

/-- The entries that are shown, without those within bodies. -/
def entries : Sketch → List Entry
  | nil => []
  | line e _ rest | header e _ rest | body e _ _ rest => e :: rest.entries

/-- What is shown is what the types are, and in the body of a struct all its fields are shown. -/
def Fits (r : Registry) : Sketch → Prop
  | nil => True
  | line e text rest => leafText? r e.type.core = some text ∧ rest.Fits r
  | header e i rest => e.struct? = some i ∧ rest.Fits r
  | body e i fields rest =>
    e.struct? = some i ∧ fields.entries = bodyEntries (r.struct i) (e.level + 1) ∧
      fields.Fits r ∧ rest.Fits r

/-- Where structs are shown, in the order of the lines. -/
def occurrences : Sketch → List Occurrence
  | nil => []
  | line _ _ rest => rest.occurrences
  | header _ i rest => ⟨i, false⟩ :: rest.occurrences
  | body _ i fields rest => ⟨i, true⟩ :: (fields.occurrences ++ rest.occurrences)

end Sketch

/-- The structs of the occurrences. -/
def structsOf (os : List Occurrence) : List Nat :=
  os.map (·.struct)

/-- The structs of the occurrences with bodies. -/
def bodiesOf (os : List Occurrence) : List Nat :=
  structsOf (os.filter (·.withBody))

/-- The structs that a sketch shows with their bodies, one for each body. -/
def Sketch.bodies (sketch : Sketch) : List Nat :=
  bodiesOf sketch.occurrences

theorem structsOf_cons (o : Occurrence) (os : List Occurrence) :
    structsOf (o :: os) = o.struct :: structsOf os :=
  rfl

theorem structsOf_append (os os' : List Occurrence) :
    structsOf (os ++ os') = structsOf os ++ structsOf os' :=
  List.map_append

theorem bodiesOf_append (os os' : List Occurrence) :
    bodiesOf (os ++ os') = bodiesOf os ++ bodiesOf os' := by
  rw [bodiesOf, List.filter_append, structsOf_append, bodiesOf, bodiesOf]

theorem bodiesOf_subset (os : List Occurrence) : bodiesOf os ⊆ structsOf os :=
  List.map_subset _ List.filter_sublist.subset

/-- A struct has its body where it comes first, and only there. -/
def BodiesFirst (shown : Shown) : List Occurrence → Prop
  | [] => True
  | o :: os => (o.withBody = true ↔ o.struct ∉ shown) ∧ BodiesFirst (o.struct :: shown) os

/-! ### Bodies come first -/

theorem BodiesFirst.congr (shown shown' : Shown) (h : ∀ i, i ∈ shown ↔ i ∈ shown')
    (os : List Occurrence) (hos : BodiesFirst shown os) : BodiesFirst shown' os := by
  induction os generalizing shown shown' with
  | nil => exact hos
  | cons o os ih =>
      rw [BodiesFirst, ← h]
      refine ⟨hos.1, ih (o.struct :: shown) (o.struct :: shown') (fun i => ?_) hos.2⟩
      rw [List.mem_cons, List.mem_cons, h]

/-- What comes behind has been preceded by what comes first. -/
theorem BodiesFirst.append {shown shown' : Shown} {os os' : List Occurrence}
    (hs : ∀ i, i ∈ shown' ↔ i ∈ shown ∨ i ∈ structsOf os) (h : BodiesFirst shown os)
    (h' : BodiesFirst shown' os') : BodiesFirst shown (os ++ os') := by
  induction os generalizing shown with
  | nil =>
      refine h'.congr shown' shown (fun i => ?_) os'
      rw [hs]
      exact or_iff_left List.not_mem_nil
  | cons o os ih =>
      refine ⟨h.1, ih (fun i => ?_) h.2⟩
      rw [hs, structsOf_cons, List.mem_cons, List.mem_cons, or_left_comm, or_assoc]

/-- No struct has two bodies, nor one if it was shown before. -/
theorem BodiesFirst.nodup (shown : Shown) (os : List Occurrence) (h : BodiesFirst shown os) :
    (bodiesOf os).Nodup ∧ ∀ i ∈ bodiesOf os, i ∉ shown := by
  induction os generalizing shown with
  | nil => exact ⟨.nil, List.forall_mem_nil _⟩
  | cons o os ih =>
      rcases ih (o.struct :: shown) h.2 with ⟨hnodup, hnew⟩
      simp only [List.mem_cons, not_or] at hnew
      by_cases ho : o.withBody = true
      · rw [bodiesOf, List.filter_cons_of_pos ho, structsOf_cons, List.nodup_cons,
          List.forall_mem_cons]
        exact ⟨⟨fun hm => (hnew o.struct hm).1 rfl, hnodup⟩, h.1.mp ho, fun i hi => (hnew i hi).2⟩
      · rw [bodiesOf, List.filter_cons_of_neg ho]
        exact ⟨hnodup, fun i hi => (hnew i hi).2⟩

/-- A struct that is shown has its body, or was shown before. -/
theorem BodiesFirst.mem (shown : Shown) (os : List Occurrence) (h : BodiesFirst shown os) (i : Nat)
    (hi : i ∈ structsOf os) : i ∈ shown ∨ i ∈ bodiesOf os := by
  induction os generalizing shown with
  | nil => exact absurd hi List.not_mem_nil
  | cons o os ih =>
      have hsub : bodiesOf os ⊆ bodiesOf (o :: os) :=
        List.map_subset _ (List.Sublist.filter _ (List.sublist_cons_self o os)).subset
      have hrest : i ∈ structsOf os → i = o.struct ∨ i ∈ shown ∨ i ∈ bodiesOf (o :: os) := by
        intro hm
        rcases ih _ h.2 hm with hs | hb
        · exact (List.mem_cons.mp hs).imp_right Or.inl
        · exact Or.inr (Or.inr (hsub hb))
      rcases (List.mem_cons.mp hi).elim Or.inl hrest with he | hor
      · -- The first occurrence decides.
        by_cases ho : o.withBody = true
        · rw [bodiesOf, List.filter_cons_of_pos ho, he]
          exact Or.inr List.mem_cons_self
        · rw [he]
          exact Or.inl (not_not.mp (mt h.1.mpr ho))
      · exact hor

/-! ### Sketches of entries -/

section

variable (r : Registry)

/-- Entries are listed in one way. -/
theorem Listing.unique {shown s s' : Shown} {es : List Entry} {lines lines' : List Line}
    (h : Listing r shown es lines s) (h' : Listing r shown es lines' s') :
    lines = lines' ∧ s = s' := by
  -- The type of an entry and the structs shown so far decide which rule applies.
  induction h generalizing lines' s' with
  | nil =>
      cases h'
      exact ⟨rfl, rfl⟩
  | leaf e text ht rest ih =>
      cases h' with
      | leaf _ _ ht' rest' =>
          rcases ih rest' with ⟨rfl, rfl⟩
          rw [ht, Option.some.injEq] at ht'
          exact ⟨by rw [ht'], rfl⟩
      | header _ i ht' | body _ i ht' =>
          rw [ht'] at ht
          exact nomatch ht
  | header e i ht hs rest ih =>
      cases h' with
      | leaf _ _ ht' =>
          rw [ht] at ht'
          exact nomatch ht'
      | header _ j ht' _ rest' =>
          rcases ih rest' with ⟨rfl, rfl⟩
          rw [ht, Ty.named.injEq, Handle.struct.injEq] at ht'
          exact ⟨by rw [ht'], rfl⟩
      | body _ j ht' hs' =>
          rw [ht, Ty.named.injEq, Handle.struct.injEq] at ht'
          exact absurd (ht' ▸ hs) hs'
  | body e i ht hs inside rest ihb ihr =>
      cases h' with
      | leaf _ _ ht' =>
          rw [ht] at ht'
          exact nomatch ht'
      | header _ j ht' hs' =>
          rw [ht, Ty.named.injEq, Handle.struct.injEq] at ht'
          exact absurd (ht' ▸ hs') hs
      | body _ j ht' _ inside' rest' =>
          rw [ht, Ty.named.injEq, Handle.struct.injEq] at ht'
          subst ht'
          rcases ihb inside' with ⟨rfl, rfl⟩
          rcases ihr rest' with ⟨rfl, rfl⟩
          exact ⟨rfl, rfl⟩

/-- A listing shows a sketch. -/
theorem Listing.exists_sketch (shown shown' : Shown) (es : List Entry) (lines : List Line)
    (h : Listing r shown es lines shown') : ∃ sketch : Sketch, sketch.entries = es ∧
      sketch.Fits r ∧ sketch.lines r = lines ∧ BodiesFirst shown sketch.occurrences ∧
      ∀ i, i ∈ shown' ↔ i ∈ shown ∨ i ∈ structsOf sketch.occurrences := by
  induction h with
  | nil shown =>
      exact ⟨.nil, rfl, trivial, rfl, trivial, fun i => (or_iff_left List.not_mem_nil).symm⟩
  | leaf e text ht rest ih =>
      rcases ih with ⟨sketch, rfl, hfits, rfl, hfirst, hshown⟩
      exact ⟨.line e text sketch, rfl, ⟨ht, hfits⟩, rfl, hfirst, hshown⟩
  | header e i ht hs rest ih =>
      rcases ih with ⟨sketch, rfl, hfits, rfl, hfirst, hshown⟩
      refine ⟨.header e i sketch, rfl, ⟨(e.type.struct?_eq_some_iff i).mpr ht, hfits⟩, rfl,
        -- A struct that is shown already takes nothing from what may come behind it.
        ⟨⟨nofun, fun h => absurd hs h⟩, hfirst.congr _ _ (fun j => ?_) _⟩,
        fun j => ?_⟩
      · rw [List.mem_cons]
        exact ⟨Or.inr, fun hj => hj.elim (fun h => h ▸ hs) id⟩
      · rw [hshown, Sketch.occurrences, structsOf_cons, List.mem_cons]
        exact ⟨fun hj => hj.imp_right Or.inr,
          fun hj => hj.elim Or.inl fun hj => hj.elim (fun h => Or.inl (h ▸ hs)) Or.inr⟩
  | body e i ht hs inside rest ihb ihr =>
      rcases ihb with ⟨fields, hentries, hfits, rfl, hfirst, hshown⟩
      rcases ihr with ⟨sketch, rfl, hfits', rfl, hfirst', hshown'⟩
      refine ⟨.body e i fields sketch, rfl,
        ⟨(e.type.struct?_eq_some_iff i).mpr ht, hentries, hfits, hfits'⟩, rfl,
        ⟨⟨fun _ => hs, fun _ => rfl⟩, hfirst.append hshown hfirst'⟩, fun j => ?_⟩
      rw [hshown', hshown, Sketch.occurrences, structsOf_cons, structsOf_append, List.mem_cons,
        List.mem_cons, List.mem_append, or_comm (a := j = i), or_assoc, or_assoc]

/-! ### The nodes of a sketch -/

/-- The structs in the body of a struct, in whatever order the fields are shown. -/
theorem perm_bodyEntries (i level : Nat) :
    ((bodyEntries (r.struct i) level).filterMap Entry.struct?).Perm (r.structsWithin i) := by
  rw [bodyEntries, Registry.structsWithin]
  cases (r.struct i).fields with
  | none => exact .nil
  | some fields =>
      rw [List.filterMap_map]
      exact (List.mergeSort_perm fields _).filterMap _

namespace Sketch

/-- Each node of a struct is an entry or a field of a body. -/
theorem perm_occurrences (sketch : Sketch) (h : sketch.Fits r) :
    (structsOf sketch.occurrences).Perm
      (sketch.entries.filterMap Entry.struct? ++ sketch.bodies.flatMap r.structsWithin) := by
  induction sketch with
  | nil => exact .nil
  | line e text rest ih =>
      -- A line stands for no struct.
      have hnone : e.struct? = none := by
        rcases hs : e.struct? with _ | i
        · rfl
        · have hleaf := h.1
          rw [(e.type.struct?_eq_some_iff i).mp hs] at hleaf
          exact nomatch hleaf
      rw [entries, List.filterMap_cons_none hnone]
      exact ih h.2
  | header e i rest ih =>
      rw [entries, List.filterMap_cons_some h.1]
      exact (ih h.2).cons i
  | body e i fields rest ihf ihr =>
      have hfields := ihf h.2.2.1
      rw [h.2.1] at hfields
      have hbodies : (body e i fields rest).bodies = (i :: fields.bodies) ++ rest.bodies := by
        rw [bodies, occurrences, bodiesOf, List.filter_cons_of_pos rfl, structsOf_cons]
        exact congrArg _ (bodiesOf_append _ _)
      have hinside : (structsOf fields.occurrences).Perm
          ((i :: fields.bodies).flatMap r.structsWithin) :=
        hfields.trans ((perm_bodyEntries r i _).append_right _)
      rw [entries, List.filterMap_cons_some h.1, occurrences, structsOf_cons, structsOf_append,
        hbodies, List.flatMap_append, List.cons_append]
      -- The struct itself, what stands in its body and what follows it, in another order.
      refine List.Perm.cons i ((hinside.append (ihr h.2.2.2)).trans ?_)
      rw [← List.append_assoc, ← List.append_assoc]
      exact List.perm_append_comm.append_right _

/-- What is shown can be reached, if the entries can. -/
theorem reaches_of_mem (root : Ty) (sketch : Sketch) (h : sketch.Fits r)
    (hes : ∀ e ∈ sketch.entries, r.Reaches root e.type) :
    ∀ i ∈ structsOf sketch.occurrences, r.Reaches root (.named (.struct i)) := by
  have hstruct : ∀ (e : Entry) (i : Nat), r.Reaches root e.type → e.struct? = some i →
      r.Reaches root (.named (.struct i)) :=
    fun e i he hi => he.named _ _ _ _ ((e.type.struct?_eq_some_iff i).mp hi)
  induction sketch with
  | nil => exact List.forall_mem_nil _
  | line e text rest ih => exact ih h.2 (List.forall_mem_cons.mp hes).2
  | header e i rest ih =>
      rw [entries, List.forall_mem_cons] at hes
      rw [occurrences, structsOf_cons, List.forall_mem_cons]
      exact ⟨hstruct e i hes.1 h.1, ih h.2 hes.2⟩
  | body e i fields rest ihf ihr =>
      rw [entries, List.forall_mem_cons] at hes
      have hi := hstruct e i hes.1 h.1
      rw [occurrences, structsOf_cons, structsOf_append, List.forall_mem_cons,
        List.forall_mem_append]
      refine ⟨hi, ihf h.2.2.1 ?_, ihr h.2.2.2 hes.2⟩
      -- The entries of a body are the fields of the struct, which lead on from it.
      rw [h.2.1]
      intro d hd
      rcases (mem_bodyEntries_iff d).mp hd with ⟨fs, field, hf, hm, rfl⟩
      exact .field i fs field hi hf hm

end Sketch

end

end Outline

open Outline

namespace Registry

/-- The sketch is what the outline of a type shows. -/
structure Sketched (r : Registry) (root : Ty) (sketch : Sketch) : Prop where
  entries : sketch.entries = [⟨[], 0, root⟩]
  fits : sketch.Fits r
  lines : r.outline root = sketch.lines r
  first : BodiesFirst [] sketch.occurrences

variable (r : Registry) (root : Ty)

theorem exists_sketched : ∃ sketch, r.Sketched root sketch := by
  rcases r.exists_listing root with ⟨shown, hlisting⟩
  rcases hlisting.exists_sketch with ⟨sketch, hentries, hfits, hlines, hfirst, _⟩
  exact ⟨sketch, hentries, hfits, hlines.symm, hfirst⟩

/-- Bodies do not nest any deeper than there are structs. -/
theorem typeLinesAt_eq_outline (depth : Nat) (h : r.structs.length ≤ depth) :
    (typeLinesAt r depth [] 0 root).1 = r.outline root := by
  have hroom := Nat.le_trans (Avro.unwritten_nil_le r) h
  have hdeep := enlists_typeLinesAt r depth [] 0 root hroom [] [] [] _ (.nil _)
  rw [List.nil_append, List.append_nil] at hdeep
  rcases r.exists_listing root with ⟨shown, hlisting⟩
  exact (hdeep.unique r hlisting).1

variable (sketch : Sketch)

/-- The structs with bodies are those that can be reached. -/
theorem Sketched.mem_bodies_iff (h : r.Sketched root sketch) (i : Nat) :
    i ∈ sketch.bodies ↔ r.Reaches root (.named (.struct i)) := by
  have hperm := sketch.perm_occurrences r h.fits
  have hbody : ∀ j, j ∈ structsOf sketch.occurrences → j ∈ sketch.bodies :=
    fun j hj => (h.first.mem [] _ j hj).resolve_left List.not_mem_nil
  constructor
  · intro hi
    refine sketch.reaches_of_mem r root h.fits ?_ i (bodiesOf_subset _ hi)
    rw [h.entries, List.forall_mem_singleton]
    exact .root
  · intro hi
    -- The root is an entry, and what lies behind a struct is shown in its body.
    suffices hall : ∀ t, r.Reaches root t → ∀ j, t.struct? = some j → j ∈ sketch.bodies from
      hall _ hi i rfl
    intro t ht
    induction ht with
    | root =>
        intro j hj
        refine hbody j (hperm.mem_iff.mpr (List.mem_append_left _ ?_))
        rw [h.entries]
        exact List.mem_filterMap.mpr ⟨_, List.mem_singleton_self _, hj⟩
    | inner t _ ih => exact ih
    | field k fields field _ hf hm ih =>
        intro j hj
        refine hbody j (hperm.mem_iff.mpr (List.mem_append_right _ ?_))
        refine List.mem_flatMap.mpr ⟨k, ih k rfl, ?_⟩
        rw [structsWithin, hf]
        exact List.mem_filterMap.mpr ⟨field, hm, hj⟩

theorem Sketched.nodup_bodies (h : r.Sketched root sketch) : sketch.bodies.Nodup :=
  (h.first.nodup _ _).1

/-- The structs that are shown are that of the root and those of the fields in the bodies. -/
theorem Sketched.perm_structs (h : r.Sketched root sketch) :
    (structsOf sketch.occurrences).Perm
      (root.struct?.toList ++ sketch.bodies.flatMap r.structsWithin) := by
  have hroot : [(⟨[], 0, root⟩ : Entry)].filterMap Entry.struct? = root.struct?.toList := by
    rw [List.filterMap_cons, Entry.struct?]
    cases root.struct? <;> rfl
  have hperm := sketch.perm_occurrences r h.fits
  rwa [h.entries, hroot] at hperm

/-- The text of a type is that of the lines of its sketch. -/
theorem Sketched.render_eq (h : r.Sketched root sketch) (indent : Nat) (lead : String) :
    r.render indent lead root =
      String.intercalate "\n" ((sketch.lines r).map (·.render lead indent)) := by
  rw [render, h.lines]

/-- An outline shows the body of each struct that can be reached once, where the struct comes
    first, and only its names wherever it comes again. Its structs are that of the root and
    those of the fields in the bodies, one for one. All of it is shown: it makes no difference
    how deep bodies may nest, from the number of structs on. -/
theorem outline_bodiesOnce : ∃ sketch, r.Sketched root sketch ∧ sketch.bodies.Nodup ∧
    (∀ i, i ∈ sketch.bodies ↔ r.Reaches root (.named (.struct i))) ∧
    (structsOf sketch.occurrences).Perm
      (root.struct?.toList ++ sketch.bodies.flatMap r.structsWithin) ∧
    ∀ depth, r.structs.length ≤ depth → (typeLinesAt r depth [] 0 root).1 = sketch.lines r := by
  rcases r.exists_sketched root with ⟨sketch, h⟩
  refine ⟨sketch, h, h.nodup_bodies, h.mem_bodies_iff r root sketch, h.perm_structs,
    fun depth hd => ?_⟩
  rw [r.typeLinesAt_eq_outline root depth hd]
  exact h.lines

/-- So does the text of a type, with any lead and with any indentation that there can be. Its
    lines are those of a sketch, which has one body for each struct that can be reached and names
    one struct for the root and one for each field in these bodies. -/
theorem render?_bodiesOnce (indent : Nat) (lead : String)
    (hindent : indent ≤ widest ∨ root.struct? = none) :
    ∃ sketch, r.render? indent lead root =
        some (String.intercalate "\n" ((sketch.lines r).map (·.render lead indent))) ∧
      r.Sketched root sketch ∧ sketch.bodies.Nodup ∧
      (∀ i, i ∈ sketch.bodies ↔ r.Reaches root (.named (.struct i))) ∧
      (structsOf sketch.occurrences).Perm
        (root.struct?.toList ++ sketch.bodies.flatMap r.structsWithin) := by
  rcases r.exists_sketched root with ⟨sketch, h⟩
  -- The text is only refused for an indentation that is too wide for a body.
  have hfits : ¬ (widest < indent ∧ root.struct?.isSome) := by
    rintro ⟨hwide, hbody⟩
    rcases hindent with hle | hnone
    · exact Nat.not_lt_of_le hle hwide
    · rw [hnone] at hbody
      exact nomatch hbody
  refine ⟨sketch, ?_, h, h.nodup_bodies, h.mem_bodies_iff r root sketch, h.perm_structs⟩
  rw [render?, if_neg hfits, h.render_eq]

end Registry

namespace Sample

/-- A field that the struct at a place has taken in. -/
def taken (index : Nat) (name : String) (cardinality : Cardinality) (type : Ty) : Field :=
  { Field.new name cardinality type with owner := some ⟨0, index⟩ }

/-- A route from stop to stop. Its fields share the type of stops, which are within themselves. -/
def route : Registry :=
  let stop := Ty.named (.struct 1)
  ⟨0, [⟨.single "Route", none, some [taken 0 "to" .required stop, taken 0 "from" .required stop]⟩,
    ⟨.single "Stop", none, some [taken 1 "next" .optional stop]⟩], []⟩

/-- The stop behind a stop and the second end of the route are shown by the name of their type. -/
example : route.render? 2 "" (.named (.struct 0)) =
    some (String.intercalate "\n" ["StructType(Route) \x7b", "  from",
      "    StructType(Stop) \x7b", "      next?", "        StructType(Stop)", "    \x7d", "  to",
      "    StructType(Stop)", "\x7d"]) := by
  cbv

end Sample

end Schemata
