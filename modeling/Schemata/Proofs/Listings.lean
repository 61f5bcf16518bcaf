import Schemata.Proofs.Outlines

/-!
# The Walk of an Outline

The order in which an outline shows the types of a graph, as a relation.

An outline nests as deep as bodies of structs do, so the function that makes it
counts down a depth, and the structs it has shown are a state that it threads
through. `Listing` says the same without a depth: a list of types is shown as a
list of lines, each type behind the lines that belong in front of it. The types
of a struct's fields are listed within its body, and then what follows the
struct. This is the relation for outlines that `Avro.Walk` is for exports.

That the depth suffices is again a matter of how many structs are left to be
shown.

## Main definitions

* `Outline.Entry`: A type to be shown, and the lines in front of it.
* `Outline.Listing`: A list of entries and the lines that they are shown as.
* `Outline.Displays`, `Outline.DisplaysBody`: What some lines show.
* `Outline.Covers`: Lines that show entries and all that belongs to them.
* `Outline.Texts`: A property of all texts that an outline can show.

## Theorems

* `Outline.enlists_typeLinesAt`: What is shown is a listing, given depth enough.
* `Registry.exists_listing`: An outline is a listing.
* `Outline.Listing.covers`: All types of entries and fields are shown.
* `Registry.displays_of_reaches`: An outline shows all that can be reached.
* `Outline.Listing.forall_lines`: It shows nothing else.
-/

namespace Schemata

namespace Outline

/-- A type to be shown at a level, and the lines in front of it. -/
structure Entry where
  front : List Line
  level : Nat
  type : Ty

/-- A field: its names, its documentation and its default stand in front of its type. -/
def fieldEntry (level : Nat) (field : Field) : Entry :=
  ⟨Line.mk level (fieldHeader field) :: docLine (level + 1) field.documentation ++
    defaultLine (level + 1) field.default, level + 1, field.type⟩

/-- The entries in the body of a struct: its fields, in the order of their names. -/
def bodyEntries (struct : StructType) (level : Nat) : List Entry :=
  match struct.fields with
  | none => []
  | some fields => (sortFields fields).map (fieldEntry level)

/-- The lines in the body of a struct in front of the entries. -/
def bodyFront (struct : StructType) (level : Nat) : List Line :=
  docLine level struct.documentation ++
    match struct.fields with
    | none => [⟨level, "(no fields yet)"⟩]
    | some _ => []

/-- The text of a type that is shown on one line, whatever was shown before. -/
def leafText? (r : Registry) : Ty → Option String
  | .scalar kind => some kind.name
  | .decimal type => some type.name
  | .named (.enumeration i) => some (r.enumeration i).text
  | .named (.struct _) | .unparsed _ => none

/-- The entries are shown one after another as the lines, after the structs that are shown
    already. -/
inductive Listing (r : Registry) : Shown → List Entry → List Line → Shown → Prop
  | nil (shown : Shown) : Listing r shown [] [] shown
  | leaf {shown shown' : Shown} (e : Entry) {es : List Entry} {lines : List Line} (text : String)
      (ht : leafText? r e.type.core = some text) (rest : Listing r shown es lines shown') :
      Listing r shown (e :: es)
        (e.front ++ ⟨e.level, unparsedMark e.type.layers ++ text⟩ :: lines) shown'
  | header {shown shown' : Shown} (e : Entry) {es : List Entry} {lines : List Line} (i : Nat)
      (ht : e.type.core = .named (.struct i)) (hs : i ∈ shown)
      (rest : Listing r shown es lines shown') :
      Listing r shown (e :: es)
        (e.front ++ ⟨e.level, unparsedMark e.type.layers ++ structHeader (r.struct i)⟩ :: lines)
        shown'
  | body {shown shown₁ shown' : Shown} (e : Entry) {es : List Entry} {lines lines' : List Line}
      (i : Nat) (ht : e.type.core = .named (.struct i)) (hs : i ∉ shown)
      (inside : Listing r (i :: shown) (bodyEntries (r.struct i) (e.level + 1)) lines shown₁)
      (rest : Listing r shown₁ es lines' shown') :
      Listing r shown (e :: es)
        (e.front ++
          (⟨e.level, unparsedMark e.type.layers ++ structHeader (r.struct i) ++ " \x7b"⟩ ::
            bodyFront (r.struct i) (e.level + 1) ++ lines ++ [⟨e.level, "\x7d"⟩]) ++ lines')
        shown'

theorem mem_bodyEntries_iff {struct : StructType} {level : Nat} (e : Entry) :
    e ∈ bodyEntries struct level ↔ ∃ fields field, struct.fields = some fields ∧ field ∈ fields ∧
      e = fieldEntry level field := by
  unfold bodyEntries
  cases hf : struct.fields with
  | none => simp only [List.not_mem_nil, reduceCtorEq, false_and, exists_false]
  | some fields =>
      simp only [sortFields, List.mem_map, List.mem_mergeSort, Option.some.injEq, eq_comm,
        exists_and_left, exists_eq_left']

/-! ### An outline is a listing -/

section

variable (r : Registry)

theorem Listing.suffix (shown shown' : Shown) (es : List Entry) (lines : List Line)
    (h : Listing r shown es lines shown') : shown <:+ shown' := by
  induction h with
  | nil => exact List.suffix_refl _
  | leaf _ _ _ _ ih => exact ih
  | header _ _ _ _ _ ih => exact ih
  | body _ _ _ _ _ _ ihb ihr =>
      exact (List.suffix_cons _ _).trans (ihb.trans ihr)

/-- The lines of types make listings, as long as no more than so many structs are left to be
    shown. -/
def Enlists (n : Nat) (typeLines : Shown → Nat → Ty → List Line × Shown) : Prop :=
  ∀ shown level t, Avro.unwritten r (handles shown) ≤ n → ∀ front es lines shown',
    Listing r (typeLines shown level t).2 es lines shown' →
      Listing r shown (⟨front, level, t⟩ :: es) (front ++ (typeLines shown level t).1 ++ lines)
        shown'

variable (n : Nat) (typeLines : Shown → Nat → Ty → List Line × Shown)

theorem listing_fieldLines (hlines : Enlists r n typeLines) (level : Nat) (fields : List Field)
    (shown : Shown) (hn : Avro.unwritten r (handles shown) ≤ n) :
    Listing r shown (fields.map (fieldEntry level)) (fieldLines typeLines level shown fields).1
      (fieldLines typeLines level shown fields).2 := by
  induction fields generalizing shown with
  | nil => exact .nil shown
  | cons field fields ih =>
      have hfirst := hlines shown (level + 1) field.type hn
      rw [fieldLines, List.map_cons]
      generalize typeLines shown (level + 1) field.type = x at hfirst ⊢
      -- What is left to be shown does not grow from one field to the next.
      have hsuffix := (hfirst [] [] [] x.2 (.nil _)).suffix
      have hle := Avro.unwritten_le_of_suffix r (hsuffix.map Handle.struct)
      exact hfirst _ _ _ _ (ih x.2 (Nat.le_trans hle hn))

theorem enlists_structLines (hlines : ∀ m, m < n → Enlists r m typeLines) (shown : Shown)
    (level : Nat) (t : Ty) (i : Nat) (ht : t.core = .named (.struct i))
    (hn : Avro.unwritten r (handles shown) ≤ n) (front : List Line) (es : List Entry)
    (lines : List Line) (shown' : Shown)
    (rest : Listing r (structLines r typeLines shown level (unparsedMark t.layers) i).2 es lines
      shown') :
    Listing r shown (⟨front, level, t⟩ :: es)
      (front ++ (structLines r typeLines shown level (unparsedMark t.layers) i).1 ++ lines)
      shown' := by
  unfold structLines at rest ⊢
  by_cases hs : i ∈ shown
  · simp only [if_pos hs] at rest ⊢
    rw [List.append_assoc, List.singleton_append]
    exact .header ⟨front, level, t⟩ i ht hs rest
  -- The body is a listing of its own, with the struct among those that are shown.
  suffices hbody : ∀ x : List Line × Shown,
      Listing r (i :: shown) (bodyEntries (r.struct i) (level + 1)) x.1 x.2 →
      Listing r x.2 es lines shown' →
      Listing r shown (⟨front, level, t⟩ :: es) (front ++
        (Line.mk level (unparsedMark t.layers ++ structHeader (r.struct i) ++ " \x7b") ::
          bodyFront (r.struct i) (level + 1) ++ x.1 ++ [Line.mk level "\x7d"]) ++ lines) shown' by
    simp only [if_neg hs] at rest ⊢
    cases hf : (r.struct i).fields with
    | none =>
        rw [hf] at rest
        have hinside := hbody ([], i :: shown) (by
          rw [bodyEntries, hf]
          exact .nil _) rest
        rw [bodyFront, hf, List.append_nil] at hinside
        exact hinside
    | some fields =>
        rw [hf] at rest
        have hlt := Avro.unwritten_cons_lt r (handles shown) i (r.lt_of_struct_fields i fields hf)
          (mt (mem_handles_iff shown i).mp hs)
        have hinside := hbody (fieldLines typeLines (level + 1) (i :: shown)
          (sortFields fields)) (by
          rw [bodyEntries, hf]
          exact listing_fieldLines r _ typeLines (hlines _ (Nat.lt_of_lt_of_le hlt hn)) (level + 1)
            (sortFields fields) (i :: shown) (Nat.le_refl _)) rest
        rw [bodyFront, hf, List.append_nil] at hinside
        exact hinside
  intro x hinside hrest
  exact .body ⟨front, level, t⟩ i ht hs hinside hrest

/-- One level of an outline makes listings, if what is within does where fewer structs are
    left. -/
theorem enlists_typeLinesWith (hlines : ∀ m, m < n → Enlists r m typeLines) :
    Enlists r n (typeLinesWith r typeLines) := by
  intro shown level t hn front es lines shown' rest
  -- What has no body is one line behind the front.
  have hleaf : ∀ text, leafText? r t.core = some text → Listing r shown es lines shown' →
      Listing r shown (⟨front, level, t⟩ :: es)
        (front ++ [⟨level, unparsedMark t.layers ++ text⟩] ++ lines) shown' := by
    intro text ht rest
    rw [List.append_assoc, List.singleton_append]
    exact .leaf ⟨front, level, t⟩ text ht rest
  unfold typeLinesWith at rest ⊢
  cases ht : t.core with
  | scalar kind =>
      rw [ht] at rest hleaf
      exact hleaf _ rfl rest
  | decimal type =>
      rw [ht] at rest hleaf
      exact hleaf _ rfl rest
  | unparsed inner => exact absurd ht (Ty.core_ne_unparsed t inner)
  | named handle =>
      rw [ht] at rest
      cases handle with
      | enumeration i =>
          rw [ht] at hleaf
          exact hleaf _ rfl rest
      | struct i =>
          exact enlists_structLines r n typeLines hlines shown level t i ht hn front es lines shown'
            rest

theorem enlists_typeLinesAt (depth : Nat) : Enlists r depth (typeLinesAt r depth) := by
  induction depth with
  | zero => exact enlists_typeLinesWith r 0 _ fun m hm => absurd hm (Nat.not_lt_zero m)
  | succ depth ih =>
      refine enlists_typeLinesWith r (depth + 1) _ fun m hm shown level t hn => ?_
      exact ih shown level t (Nat.le_trans hn (Nat.le_of_lt_succ hm))

end

end Outline

open Outline

/-- An outline is a listing. -/
theorem Registry.exists_listing (r : Registry) (root : Ty) :
    ∃ shown, Listing r [] [⟨[], 0, root⟩] (r.outline root) shown := by
  have h := enlists_typeLinesAt r r.structs.length [] 0 root (Avro.unwritten_nil_le r) [] [] [] _
    (.nil _)
  rw [List.nil_append, List.append_nil] at h
  exact ⟨_, h⟩

namespace Outline

/-! ### All is shown -/

/-- The lines show the named type: an enum in a line, or a struct among those that are shown. -/
def Displays (r : Registry) (lines : List Line) (shown : Shown) : Handle → Prop
  | .struct i => i ∈ shown
  | .enumeration i => ∃ level layers,
      Line.mk level (unparsedMark layers ++ (r.enumeration i).text) ∈ lines

/-- The lines have the body of the struct, and show the types of its fields. -/
def DisplaysBody (r : Registry) (lines : List Line) (shown : Shown) (i : Nat) : Prop :=
  ∃ level layers,
    Line.mk level (unparsedMark layers ++ structHeader (r.struct i) ++ " \x7b") ∈ lines ∧
      bodyFront (r.struct i) (level + 1) ⊆ lines ∧
      ∀ e ∈ bodyEntries (r.struct i) (level + 1), e.front ⊆ lines ∧
        ∀ h, e.type.core = .named h → Displays r lines shown h

section

variable (r : Registry) {lines lines' : List Line} {shown shown' : Shown} (hl : lines ⊆ lines')
  (hs : shown ⊆ shown')

include hl hs

theorem Displays.mono (h : Handle) (hd : Displays r lines shown h) :
    Displays r lines' shown' h := by
  cases h with
  | struct i => exact hs hd
  | enumeration i =>
      rcases hd with ⟨level, layers, hm⟩
      exact ⟨level, layers, hl hm⟩

theorem DisplaysBody.mono (i : Nat) (hd : DisplaysBody r lines shown i) :
    DisplaysBody r lines' shown' i := by
  rcases hd with ⟨level, layers, hheader, hfront, hentries⟩
  refine ⟨level, layers, hl hheader, fun line hm => hl (hfront hm), fun e he => ?_⟩
  rcases hentries e he with ⟨hlines, htype⟩
  exact ⟨fun line hm => hl (hlines hm), fun h hh => (htype h hh).mono r hl hs h⟩

end

/-- The entries are shown, and so is what belongs to the structs that are shown on the way. -/
structure Covers (r : Registry) (shown shown' : Shown) (es : List Entry) (lines : List Line) :
    Prop where
  entries : ∀ e ∈ es, e.front ⊆ lines ∧
    ∀ h, e.type.core = .named h → Displays r lines shown' h
  bodies : ∀ i ∈ shown', i ∉ shown → DisplaysBody r lines shown' i

section

variable (r : Registry) {shown shown' : Shown} {e : Entry} {es : List Entry}
  {lines lines' : List Line}

/-- What is known of an entry and of those behind it is known of all of them. -/
theorem covers_cons (hfront : e.front ⊆ lines')
    (htype : ∀ h, e.type.core = .named h → Displays r lines' shown' h) (hl : lines ⊆ lines')
    (hes : ∀ e ∈ es, e.front ⊆ lines ∧
      ∀ h, e.type.core = .named h → Displays r lines shown' h) :
    ∀ d ∈ e :: es, d.front ⊆ lines' ∧
      ∀ h, d.type.core = .named h → Displays r lines' shown' h := by
  refine List.forall_mem_cons.mpr ⟨⟨hfront, htype⟩, fun d hd => ⟨?_, fun h hh => ?_⟩⟩
  · exact fun line hm => hl ((hes d hd).1 hm)
  · exact ((hes d hd).2 h hh).mono r hl (List.Subset.refl _) h

/-- An entry on a line of its own, in front of others. -/
theorem Covers.line (line : Line) (h : Covers r shown shown' es lines)
    (htype : ∀ h, e.type.core = .named h →
      Displays r (e.front ++ line :: lines) shown' h) :
    Covers r shown shown' (e :: es) (e.front ++ line :: lines) := by
  have hl : lines ⊆ e.front ++ line :: lines :=
    fun line hm => List.mem_append_right _ (List.mem_cons_of_mem _ hm)
  constructor
  case entries =>
    exact covers_cons r (List.subset_append_left _ _) htype hl h.entries
  case bodies =>
    exact fun i hi hn => (h.bodies i hi hn).mono r hl (List.Subset.refl _) i

/-- A struct with its body, in front of others: it is the struct itself that is shown, or one
    that is met within its body, or one that is met behind it. -/
theorem Covers.body {shown₁ : Shown} (i : Nat) (opening closing : Line)
    (hopen : opening =
      ⟨e.level, unparsedMark e.type.layers ++ structHeader (r.struct i) ++ " \x7b"⟩)
    (ht : e.type.core = .named (.struct i)) (hi : i ∈ shown₁) (hs : shown₁ ⊆ shown')
    (inside : Covers r (i :: shown) shown₁ (bodyEntries (r.struct i) (e.level + 1)) lines)
    (rest : Covers r shown₁ shown' es lines') :
    Covers r shown shown' (e :: es) (e.front ++
      (opening :: bodyFront (r.struct i) (e.level + 1) ++ lines ++ [closing]) ++ lines') := by
  generalize hwhole : e.front ++
    (opening :: bodyFront (r.struct i) (e.level + 1) ++ lines ++ [closing]) ++ lines' = whole
  have hfront : e.front ⊆ whole := by
    rw [← hwhole, List.append_assoc]
    exact List.subset_append_left _ _
  have hinside : opening :: bodyFront (r.struct i) (e.level + 1) ++ lines ⊆ whole := by
    rw [← hwhole]
    exact fun line hm => List.mem_append_left _ (List.mem_append_right _
      (List.mem_append_left _ hm))
  have hrest : lines' ⊆ whole := by
    rw [← hwhole]
    exact List.subset_append_right _ _
  have hl : lines ⊆ whole := fun line hm => hinside (List.mem_append_right _ hm)
  constructor
  case entries =>
    refine covers_cons r hfront (fun h hh => ?_) hrest rest.entries
    rw [ht, Ty.named.injEq] at hh
    rw [← hh]
    exact hs hi
  case bodies =>
    intro j hj hn
    -- A struct is shown within this body, this one included, or behind it.
    by_cases hj₁ : j ∈ shown₁
    · by_cases he : j = i
      · rw [he]
        refine ⟨e.level, e.type.layers, ?_, fun line hm => hinside ?_, fun d hd => ⟨?_, ?_⟩⟩
        · rw [← hopen]
          exact hinside (List.mem_append_left _ List.mem_cons_self)
        · exact List.mem_append_left _ (List.mem_cons_of_mem _ hm)
        · exact fun line hm => hl ((inside.entries d hd).1 hm)
        · exact fun h hh => ((inside.entries d hd).2 h hh).mono r hl hs h
      · have hnew : j ∉ i :: shown := by
          rw [List.mem_cons, not_or]
          exact ⟨he, hn⟩
        exact (inside.bodies j hj₁ hnew).mono r hl hs j
    · exact (rest.bodies j hj hj₁).mono r hrest (List.Subset.refl _) j

theorem Listing.covers (h : Listing r shown es lines shown') :
    Covers r shown shown' es lines := by
  induction h with
  | nil => exact ⟨fun _ he => absurd he List.not_mem_nil, fun i hi hn => absurd hi hn⟩
  | leaf e text ht rest ih =>
      refine ih.line r _ fun h hh => ?_
      -- A named type that always fits on one line is an enum.
      rw [hh] at ht
      cases h with
      | struct i => exact nomatch ht
      | enumeration i =>
          rw [leafText?, Option.some.injEq] at ht
          refine ⟨e.level, e.type.layers, ?_⟩
          rw [ht]
          exact List.mem_append_right _ List.mem_cons_self
  | header e i ht hs rest ih =>
      refine ih.line r _ fun h hh => ?_
      rw [ht, Ty.named.injEq] at hh
      rw [← hh]
      exact rest.suffix.subset hs
  | body e i ht hs inside rest ihb ihr =>
      exact Covers.body r i _ _ rfl ht (inside.suffix.subset List.mem_cons_self)
        rest.suffix.subset ihb ihr

end

end Outline

/-- An outline shows every named type that can be reached, and the bodies of all structs among
    them. -/
theorem Registry.displays_of_reaches (r : Registry) (root : Ty) (shown : Shown)
    (hlisting : Listing r [] [⟨[], 0, root⟩] (r.outline root) shown) (h : Handle)
    (hr : r.Reaches root (.named h)) :
    Displays r (r.outline root) shown h ∧
      ∀ i, h = .struct i → DisplaysBody r (r.outline root) shown i := by
  have hcovers := hlisting.covers
  have hstructs : ∀ i, Displays r (r.outline root) shown (.struct i) →
      DisplaysBody r (r.outline root) shown i := fun i hi => hcovers.bodies i hi List.not_mem_nil
  -- Unparsed layers change nothing about what is shown.
  suffices hall : ∀ t, r.Reaches root t → ∀ h, t.core = .named h →
      Displays r (r.outline root) shown h by
    have hd := hall _ hr h rfl
    exact ⟨hd, fun i hi => hstructs i (hi ▸ hd)⟩
  intro t ht
  induction ht with
  | root => exact (hcovers.entries ⟨[], 0, root⟩ (List.mem_singleton_self _)).2
  | inner t _ ih => exact ih
  | field i fields field _ hf hm ih =>
      rcases hstructs i (ih _ rfl) with ⟨level, layers, _, _, hentries⟩
      exact (hentries (fieldEntry (level + 1) field)
        ((mem_bodyEntries_iff _).mpr ⟨fields, field, hf, hm, rfl⟩)).2

namespace Outline

/-! ### Nothing else is shown -/

section

variable (r : Registry) (root : Ty) (P : String → Prop)

/-- All texts that an outline can show have the property. -/
structure Texts : Prop where
  leaf : ∀ t text, r.Reaches root t → leafText? r t.core = some text →
    P (unparsedMark t.layers ++ text)
  header : ∀ t i, r.Reaches root t → t.core = .named (.struct i) →
    P (unparsedMark t.layers ++ structHeader (r.struct i)) ∧
      P (unparsedMark t.layers ++ structHeader (r.struct i) ++ " \x7b")
  closing : P "\x7d"
  body : ∀ i level, r.Reaches root (.named (.struct i)) →
    (∀ line ∈ bodyFront (r.struct i) level, P line.text) ∧
      ∀ e ∈ bodyEntries (r.struct i) level, ∀ line ∈ e.front, P line.text

/-- The lines in front of entries and the lines of what can be reached are all that is shown. -/
theorem Listing.forall_lines (hP : Texts r root P) (shown shown' : Shown) (es : List Entry)
    (lines : List Line) (h : Listing r shown es lines shown')
    (hes : ∀ e ∈ es, r.Reaches root e.type ∧ ∀ line ∈ e.front, P line.text) :
    ∀ line ∈ lines, P line.text := by
  -- On the listing. What is within a body is reached by one step more.
  induction h with
  | nil => exact fun line hm => absurd hm List.not_mem_nil
  | leaf e text ht rest ih =>
      rw [List.forall_mem_cons] at hes
      rw [List.forall_mem_append, List.forall_mem_cons]
      exact ⟨hes.1.2, hP.leaf _ text hes.1.1 ht, ih hes.2⟩
  | header e i ht hs rest ih =>
      rw [List.forall_mem_cons] at hes
      rw [List.forall_mem_append, List.forall_mem_cons]
      exact ⟨hes.1.2, (hP.header _ i hes.1.1 ht).1, ih hes.2⟩
  | body e i ht hs inside rest ihb ihr =>
      rw [List.forall_mem_cons] at hes
      have hi := hes.1.1.named _ _ _ _ ht
      have hbody := hP.body i (e.level + 1) hi
      have hlines := ihb fun d hd => by
        rcases (mem_bodyEntries_iff d).mp hd with ⟨fields, field, hf, hm, hd'⟩
        refine ⟨?_, hbody.2 d hd⟩
        rw [hd']
        exact .field i fields field hi hf hm
      simp only [List.forall_mem_append, List.forall_mem_cons]
      exact ⟨⟨hes.1.2, ⟨⟨(hP.header _ i hes.1.1 ht).2, hbody.1⟩, hlines⟩, hP.closing,
        fun _ hm => absurd hm List.not_mem_nil⟩, ihr hes.2⟩

end

end Outline

end Schemata
