import Schemata.Proofs.Built
import Schemata.Proofs.Json.Compact
import Schemata.Proofs.Listings

/-!
# Leads in Front of Lines

Which outlines have their lead in front of every line.

The lead is put in front of the lines that an outline is made of, whatever
their texts are. Names, aliases, symbols, documentation and defaults that are
texts stand in them as they are, so one of these that breaks goes on with lines
of its own, and nothing is in front of those. Everything else that an outline
shows is on one line. That includes the other defaults, which are documents in
compact form.

So the law that every line starts with the lead is a law about the graph. It
holds for every lead where the texts of the graph are on one line, and fails
for some lead where one of them breaks. What a single lead needs is that the
lines go on with nothing but lines that start with it.

## Main definitions

* `Registry.ShowsText`: The texts of a graph that stand in an outline as they are.

## Theorems

* `Registry.led_render_iff`: What one lead needs.
* `Registry.oneLine_outline`: Lines made of texts on one line are on one line.
* `Registry.exists_line_of_showsText`: The texts of the graph are in the outline.
* `Registry.led_render_of_texts`: The law, and where it fails.
-/

namespace Schemata

open Text Outline

/-! ### The last line -/

/-- What stands in front does not change how a text ends. -/
theorem Text.exists_last_append (front back : String)
    (h : ∃ c, back.toList.getLast? = some c ∧ ¬ IsBreak c) :
    ∃ c, (front ++ back).toList.getLast? = some c ∧ ¬ IsBreak c := by
  rcases h with ⟨c, hc, hb⟩
  refine ⟨c, ?_, hb⟩
  rw [String.toList_append, List.getLast?_append, hc]
  rfl

namespace Outline

theorem exists_last_leafText (r : Registry) (t : Ty) (text : String)
    (h : leafText? r t = some text) : ∃ c, text.toList.getLast? = some c ∧ ¬ IsBreak c := by
  -- All but the names of scalars end in a bracket.
  have hclose : ∃ c, ")".toList.getLast? = some c ∧ ¬ IsBreak c := ⟨')', rfl, by decide⟩
  cases t with
  | scalar kind =>
      rw [← Option.some.inj h]
      cases kind <;> exact ⟨_, rfl, by decide⟩
  | decimal type =>
      rw [← Option.some.inj h, DecimalType.name]
      split
      · exact exists_last_append _ _ ⟨')', rfl, by decide⟩
      · exact exists_last_append _ _ hclose
  | named handle =>
      cases handle with
      | struct i => exact nomatch h
      | enumeration i =>
          rw [← Option.some.inj h]
          exact exists_last_append _ _ hclose
  | unparsed inner => exact nomatch h

end Outline

namespace Registry

variable (r : Registry) (root : Ty)

/-- An outline has a last line, and that does not end in a break. -/
theorem exists_last_line : ∃ line c, (r.outline root).getLast? = some line ∧
    line.text.toList.getLast? = some c ∧ ¬ IsBreak c := by
  rcases r.exists_listing root with ⟨shown, h⟩
  generalize r.outline root = lines at h
  -- Nothing follows the type that an outline starts with.
  cases h with
  | leaf _ text ht rest =>
      cases rest
      rcases exists_last_append (unparsedMark root.layers) text
        (exists_last_leafText r root.core text ht) with ⟨c, hc, hb⟩
      exact ⟨_, c, rfl, hc, hb⟩
  | header _ i _ hs _ => exact absurd hs List.not_mem_nil
  | body _ i _ _ _ rest =>
      cases rest
      refine ⟨⟨0, "\x7d"⟩, '}', ?_, rfl, by decide⟩
      rw [List.append_nil, List.nil_append, List.getLast?_concat]

/-- Every line has the lead if what the texts go on with has. -/
theorem led_render_iff (indent : Nat) (lead : String) (hlead : OneLine lead) :
    Led lead (r.render indent lead root) ↔
      ∀ line ∈ r.outline root, ∀ piece ∈ continuation line.text,
        lead.toList <+: piece.toList := by
  -- The last line does not end in a break, so no line is lost where the text is cut into lines.
  rcases r.exists_last_line root with ⟨last, c, hlast, hc, hb⟩
  have hblanks : ∀ line : Line,
      OneLine (lead ++ String.ofList (List.replicate (indent * line.level) ' ')) := by
    intro line
    refine oneLine_append.mpr ⟨hlead, oneLine_ofList _ fun c hc => ?_⟩
    rw [List.eq_of_mem_replicate hc]
    decide
  have hlines : ((r.outline root).map (·.render lead indent)).getLast? =
      some (last.render lead indent) := by
    rw [List.getLast?_map, hlast]
    rfl
  have hend : (last.render lead indent).toList.getLast? = some c := by
    rw [Line.render, String.toList_append, List.getLast?_append, hc]
    rfl
  rw [render, led_join_iff lead hlead _ _ c hlines hend hb, List.forall_mem_map]
  exact forall₂_congr fun line _ => led_line_iff lead _ line.text (hblanks line)

/-! ### Texts of the graph -/

/-- The text belongs to the graph behind a type, and stands in its outlines as it is. -/
inductive ShowsText (text : String) : Prop
  | name (h : Handle) (hr : r.Reaches root (.named h)) (ht : text ∈ (r.namesOf h).all)
  | symbol (i : Nat) (hr : r.Reaches root (.named (.enumeration i)))
      (ht : text ∈ (r.enumeration i).symbols)
  | documentation (i : Nat) (hr : r.Reaches root (.named (.struct i)))
      (ht : (r.struct i).documentation = some text)
  | field (i : Nat) (fields : List Field) (field : Field)
      (hr : r.Reaches root (.named (.struct i))) (hf : (r.struct i).fields = some fields)
      (hm : field ∈ fields)
      (ht : text ∈ field.names.all ∨ field.documentation = some text ∨
        field.default = .literal (.string text))

end Registry

/-! ### Texts on one line -/

theorem DecimalType.oneLine_name (type : DecimalType) : OneLine type.name := by
  unfold name
  -- A width and a scale stand in the same place.
  split
  all_goals
    simp only [oneLine_append]
    exact ⟨⟨⟨⟨by decide, oneLine_toString _⟩, by decide⟩, oneLine_toString _⟩, by decide⟩

theorem ScalarKind.oneLine_name (kind : ScalarKind) : OneLine kind.name := by
  cases kind <;> decide

theorem EnumType.oneLine_text (e : EnumType) (hn : ∀ name ∈ e.names.all, OneLine name)
    (hs : ∀ symbol ∈ e.symbols, OneLine symbol) : OneLine e.text := by
  unfold text
  simp only [oneLine_append]
  refine ⟨⟨⟨⟨⟨by decide, oneLine_intercalate (by decide) hn⟩, by decide⟩,
    oneLine_intercalate (by decide) hs⟩, ?_⟩, by decide⟩
  -- The default is one of the symbols.
  split
  · next symbol hd =>
      exact oneLine_append.mpr ⟨by decide, hs symbol (e.default_mem symbol hd)⟩
  · decide

/-- Of the defaults only texts are shown as they are. -/
theorem Default.oneLine_text (default : Default)
    (h : ∀ text, default = .literal (.string text) → OneLine text) : OneLine default.text := by
  unfold text
  split
  · decide
  · decide
  · exact h _ rfl
  · exact Json.oneLine_compact _

namespace Outline

theorem oneLine_unparsedMark (layers : Nat) : OneLine (unparsedMark layers) := by
  induction layers with
  | zero => decide
  | succ layers ih =>
      rw [unparsedMark, List.replicate_succ, String.join_cons, oneLine_append]
      exact ⟨by decide, ih⟩

theorem oneLine_structHeader (s : StructType) (h : ∀ name ∈ s.names.all, OneLine name) :
    OneLine (structHeader s) := by
  rw [structHeader, oneLine_append, oneLine_append]
  exact ⟨⟨by decide, oneLine_intercalate (by decide) h⟩, by decide⟩

theorem oneLine_fieldHeader (field : Field) (h : ∀ name ∈ field.names.all, OneLine name) :
    OneLine (fieldHeader field) := by
  have hsuffix : OneLine field.cardinality.suffix := by
    cases field.cardinality <;> decide
  rw [Names.all, List.forall_mem_cons] at h
  refine oneLine_intercalate (by decide) (List.forall_mem_cons.mpr ⟨?_, h.2⟩)
  exact oneLine_append.mpr ⟨h.1, hsuffix⟩

theorem oneLine_docLine (level : Nat) (documentation : Option String)
    (h : ∀ text, documentation = some text → OneLine text) :
    ∀ line ∈ docLine level documentation, OneLine line.text := by
  intro line hm
  rcases List.mem_map.mp hm with ⟨text, ht, rfl⟩
  exact oneLine_append.mpr ⟨by decide, h text (Option.mem_toList.mp ht)⟩

theorem oneLine_defaultLine (level : Nat) (default : Default)
    (h : ∀ text, default = .literal (.string text) → OneLine text) :
    ∀ line ∈ defaultLine level default, OneLine line.text := by
  intro line hm
  unfold defaultLine at hm
  split at hm
  · rw [List.mem_singleton.mp hm]
    exact oneLine_append.mpr ⟨by decide, default.oneLine_text h⟩
  · exact absurd hm List.not_mem_nil

/-- Where the texts of the graph are on one line, all texts that an outline can show are. -/
theorem texts_oneLine (r : Registry) (root : Ty)
    (h : ∀ text, r.ShowsText root text → OneLine text) : Texts r root OneLine := by
  have hnames : ∀ i, r.Reaches root (.named (.struct i)) → OneLine (structHeader (r.struct i)) :=
    fun i hi => oneLine_structHeader _ fun name hm => h name (.name (.struct i) hi hm)
  constructor
  case leaf =>
    intro t text ht hleaf
    refine oneLine_append.mpr ⟨oneLine_unparsedMark _, ?_⟩
    have hreach := ht.core
    -- Under the unparsed layers there is a leaf, and its text is made of names and symbols.
    generalize t.core = core at hleaf hreach
    cases core with
    | scalar kind =>
        rw [← Option.some.inj hleaf]
        exact kind.oneLine_name
    | decimal type =>
        rw [← Option.some.inj hleaf]
        exact type.oneLine_name
    | named handle =>
        cases handle with
        | struct i => exact nomatch hleaf
        | enumeration i =>
            rw [← Option.some.inj hleaf]
            exact (r.enumeration i).oneLine_text
              (fun name hm => h name (.name (.enumeration i) hreach hm))
              (fun symbol hm => h symbol (.symbol i hreach hm))
    | unparsed inner => exact nomatch hleaf
  case header =>
    intro t i ht hi
    have hheader := hnames i (ht.named _ _ _ _ hi)
    simp only [oneLine_append]
    exact ⟨⟨oneLine_unparsedMark _, hheader⟩, ⟨oneLine_unparsedMark _, hheader⟩, by decide⟩
  case closing => decide
  -- The front of a body is its documentation. Each entry is a header with the documentation and the
  -- default of the field.
  case body =>
    intro i level hi
    constructor
    · rw [bodyFront, List.forall_mem_append]
      refine ⟨oneLine_docLine _ _ fun text ht => h text (.documentation i hi ht), ?_⟩
      split
      · exact List.forall_mem_singleton.mpr (by decide : OneLine "(no fields yet)")
      · exact fun line hm => absurd hm List.not_mem_nil
    · intro e he
      rcases (mem_bodyEntries_iff e).mp he with ⟨fields, field, hf, hm, rfl⟩
      rw [fieldEntry, List.cons_append, List.forall_mem_cons, List.forall_mem_append]
      refine ⟨oneLine_fieldHeader field fun name hn => ?_, oneLine_docLine _ _ fun text ht => ?_,
        oneLine_defaultLine _ _ fun text ht => ?_⟩
      · exact h name (.field i fields field hi hf hm (Or.inl hn))
      · exact h text (.field i fields field hi hf hm (Or.inr (Or.inl ht)))
      · exact h text (.field i fields field hi hf hm (Or.inr (Or.inr ht)))

end Outline

theorem Registry.oneLine_outline (r : Registry) (root : Ty)
    (h : ∀ text, r.ShowsText root text → OneLine text) :
    ∀ line ∈ r.outline root, OneLine line.text := by
  rcases r.exists_listing root with ⟨shown, hlisting⟩
  refine hlisting.forall_lines r root OneLine (texts_oneLine r root h) [] shown _ _ ?_
  rw [List.forall_mem_singleton]
  exact ⟨.root, fun line hm => absurd hm List.not_mem_nil⟩

namespace Outline

/-! ### Texts in lines -/

theorem infix_structHeader (s : StructType) (name : String) (h : name ∈ s.names.all) :
    name.toList <:+: (structHeader s).toList := by
  rw [structHeader, String.toList_append, String.toList_append]
  exact List.infix_append_of_infix_left (List.infix_append_of_infix_right (infix_intercalate h))

theorem infix_fieldHeader (field : Field) (name : String) (h : name ∈ field.names.all) :
    name.toList <:+: (fieldHeader field).toList := by
  rcases List.mem_cons.mp h with rfl | h
  · -- The mark of the cardinality stands behind the first name.
    refine List.IsInfix.trans ?_ (infix_intercalate List.mem_cons_self)
    rw [String.toList_append]
    exact List.infix_append_left
  · exact infix_intercalate (List.mem_cons_of_mem _ h)

end Outline

theorem EnumType.infix_text (e : EnumType) (text : String)
    (h : text ∈ e.names.all ∨ text ∈ e.symbols) : text.toList <:+: e.text.toList := by
  rw [EnumType.text]
  simp only [String.toList_append]
  refine List.infix_append_of_infix_left (List.infix_append_of_infix_left ?_)
  rcases h with h | h
  · exact List.infix_append_of_infix_left (List.infix_append_of_infix_left
      (List.infix_append_of_infix_right (infix_intercalate h)))
  · exact List.infix_append_of_infix_right (infix_intercalate h)

/-- The texts of the graph stand in lines of the outline. -/
theorem Registry.exists_line_of_showsText (r : Registry) (root : Ty) (text : String)
    (h : r.ShowsText root text) : ∃ line ∈ r.outline root, text.toList <:+: line.text.toList := by
  rcases r.exists_listing root with ⟨shown, hlisting⟩
  -- Whatever can be reached is displayed somewhere, a struct with its body.
  have hdisplays := r.displays_of_reaches root shown hlisting
  have henum : ∀ i, r.Reaches root (.named (.enumeration i)) →
      text ∈ (r.enumeration i).names.all ∨ text ∈ (r.enumeration i).symbols →
      ∃ line ∈ r.outline root, text.toList <:+: line.text.toList := by
    intro i hi ht
    rcases (hdisplays _ hi).1 with ⟨level, layers, hm⟩
    refine ⟨_, hm, ?_⟩
    rw [String.toList_append]
    exact List.infix_append_of_infix_right ((r.enumeration i).infix_text text ht)
  have hstruct : ∀ i, r.Reaches root (.named (.struct i)) →
      DisplaysBody r (r.outline root) shown i := fun i hi => (hdisplays _ hi).2 i rfl
  cases h with
  | name h hr ht =>
      cases h with
      | enumeration i => exact henum i hr (Or.inl ht)
      | struct i =>
          rcases hstruct i hr with ⟨level, layers, hm, _⟩
          refine ⟨_, hm, ?_⟩
          rw [String.toList_append, String.toList_append]
          exact List.infix_append_of_infix_left
            (List.infix_append_of_infix_right (infix_structHeader _ _ ht))
  | symbol i hr ht => exact henum i hr (Or.inr ht)
  | documentation i hr ht =>
      rcases hstruct i hr with ⟨level, layers, _, hfront, _⟩
      have hline : Line.mk (level + 1) ("Doc: " ++ text) ∈ bodyFront (r.struct i) (level + 1) := by
        rw [bodyFront, ht]
        exact List.mem_append_left _ List.mem_cons_self
      refine ⟨_, hfront hline, ?_⟩
      rw [String.toList_append]
      exact List.infix_append_right
  | field i fields field hr hf hm ht =>
      rcases hstruct i hr with ⟨level, layers, _, _, hentries⟩
      have hfront := (hentries (fieldEntry (level + 1) field)
        ((mem_bodyEntries_iff _).mpr ⟨fields, field, hf, hm, rfl⟩)).1
      rcases ht with ht | ht | ht
      · exact ⟨_, hfront List.mem_cons_self, infix_fieldHeader field text ht⟩
      · have hline : Line.mk (level + 1 + 1) ("Doc: " ++ text) ∈
            (fieldEntry (level + 1) field).front := by
          rw [fieldEntry, ht]
          exact List.mem_append_left _ (List.mem_cons_of_mem _ List.mem_cons_self)
        refine ⟨_, hfront hline, ?_⟩
        rw [String.toList_append]
        exact List.infix_append_right
      · have hline : Line.mk (level + 1 + 1) ("Default: " ++ text) ∈
            (fieldEntry (level + 1) field).front := by
          rw [fieldEntry, ht]
          exact List.mem_append_right _ List.mem_cons_self
        refine ⟨_, hfront hline, ?_⟩
        rw [String.toList_append]
        exact List.infix_append_right

/-- Where every line starts with the lead. With one lead, where the texts of lines go on with
    nothing but lines that start with it; with all leads, where the texts of the graph are on
    one line; and not with all leads where one of these texts breaks. -/
theorem Registry.led_render_of_texts (r : Registry) (root : Ty) :
    (∀ indent lead, OneLine lead → (Led lead (r.render indent lead root) ↔
      ∀ line ∈ r.outline root, ∀ piece ∈ continuation line.text, lead.toList <+: piece.toList)) ∧
    ((∀ text, r.ShowsText root text → OneLine text) →
      ∀ indent lead, OneLine lead → Led lead (r.render indent lead root)) ∧
    ∀ text, r.ShowsText root text → Breaks text →
      ∃ lead, OneLine lead ∧ ∀ indent, ¬ Led lead (r.render indent lead root) := by
  refine ⟨r.led_render_iff root, fun h indent lead hlead => ?_, fun text hs hb => ?_⟩
  -- No line goes on with anything.
  · rw [r.led_render_iff root indent lead hlead]
    intro line hm piece hp
    rw [continuation_of_oneLine line.text (r.oneLine_outline root h line hm)] at hp
    exact absurd hp List.not_mem_nil
  -- The line that the text stands in breaks too.
  · rcases r.exists_line_of_showsText root text hs with ⟨line, hm, hi⟩
    rcases exists_lead_of_breaks line.text (hb.of_infix text line.text hi) with
      ⟨lead, hlead, piece, hp, hnot⟩
    refine ⟨lead, hlead, fun indent hled => hnot ?_⟩
    exact (r.led_render_iff root indent lead hlead).mp hled line hm piece hp

namespace Sample

/-- A struct with some documentation and one field. -/
def noted (documentation : String) : Registry :=
  ⟨0, [⟨.single "A", some documentation,
    some [(Field.new "x" .required (.scalar .string)).stamp ⟨0, 0⟩]⟩], []⟩

theorem noted_built (documentation : String) : (noted documentation).Built :=
  .setFields 0 [Field.new "x" .required (.scalar .string)]
    (.struct (.new 0) _ ⟨.single "A", some documentation, none⟩ 0 (.new 0) rfl
      ((Registry.registerStruct_eq_ok_iff _ _ _ _).mpr
        ⟨fun _ _ h hh => absurd hh (Avro.not_holds_new 0 h), rfl, rfl⟩))
    ((Registry.setFields_eq_ok_iff _ _ _ _).mpr
      ⟨rfl, List.forall_mem_singleton.mpr nofun, by decide, rfl⟩)

theorem noted_showsText (documentation text : String)
    (h : (noted documentation).ShowsText (.named (.struct 0)) text) :
    text = "A" ∨ text = documentation ∨ text = "x" := by
  -- The struct and the type of its only field are all that can be reached.
  have hreaches : ∀ t, (noted documentation).Reaches (.named (.struct 0)) t →
      t ∈ ([.named (.struct 0), .scalar .string] : List Ty) := by
    refine Registry.Reaches.closed _ _ _ (by decide) (fun t ht => ?_)
      (fun i fields hi hf => ?_)
    · simp only [List.mem_cons, reduceCtorEq, List.not_mem_nil, or_self] at ht
    · simp only [List.mem_cons, Ty.named.injEq, Handle.struct.injEq, reduceCtorEq,
        List.not_mem_nil, or_false] at hi
      rw [hi] at hf
      rw [← Option.some.inj hf, List.forall_mem_singleton]
      exact List.mem_cons_of_mem _ List.mem_cons_self
  have hhandle : ∀ h, (noted documentation).Reaches (.named (.struct 0)) (.named h) →
      h = .struct 0 := by
    intro h hh
    simpa only [List.mem_cons, Ty.named.injEq, reduceCtorEq, List.not_mem_nil, or_false]
      using hreaches _ hh
  have hstruct : ∀ i, (noted documentation).Reaches (.named (.struct 0)) (.named (.struct i)) →
      i = 0 := fun i hi => Handle.struct.inj (hhandle _ hi)
  cases h with
  | name h hr ht =>
      rw [hhandle h hr] at ht
      exact Or.inl (List.mem_singleton.mp ht)
  | symbol i hr _ => exact absurd (hhandle _ hr) Handle.noConfusion
  | documentation i hr ht =>
      rw [hstruct i hr] at ht
      exact Or.inr (Or.inl (Option.some.inj ht).symm)
  | field i fields field hr hf hm ht =>
      rw [hstruct i hr] at hf
      rw [← Option.some.inj hf, List.mem_singleton] at hm
      rw [hm] at ht
      rcases ht with ht | ht | ht
      · exact Or.inr (Or.inr (List.mem_singleton.mp ht))
      · exact nomatch ht
      · exact nomatch ht

end Sample

open Sample

/-- Documentation of one line keeps every lead, and of two lines not all of them. -/
theorem led_render_of_texts_noted :
    (∀ indent lead, OneLine lead →
      Led lead ((noted "first").render indent lead (.named (.struct 0)))) ∧
    ∃ lead, OneLine lead ∧
      ∀ indent, ¬ Led lead ((noted "first\nsecond").render indent lead (.named (.struct 0))) := by
  have hbreaks : Breaks "first\nsecond" :=
    ⟨"first".toList, '\n', "second".toList, rfl, Or.inl rfl⟩
  refine ⟨((noted "first").led_render_of_texts _).2.1 fun text ht => ?_,
    ((noted "first\nsecond").led_render_of_texts _).2.2 _ (.documentation 0 .root rfl) hbreaks⟩
  rcases noted_showsText _ text ht with rfl | rfl | rfl <;> decide

/-- The second line of the documentation stands without the lead. -/
theorem noted_line_without_lead : (noted "first\nsecond").Built ∧ OneLine "# " ∧
    (noted "first\nsecond").render? Registry.usualIndent "# " (.named (.struct 0)) =
      some "# StructType(A) \x7b\n#   Doc: first\nsecond\n#   x\n#     string\n# \x7d" ∧
    ¬ Led "# " ((noted "first\nsecond").render Registry.usualIndent "# " (.named (.struct 0))) :=
  ⟨noted_built _, by decide, by decide +kernel, by decide +kernel⟩

end Schemata
