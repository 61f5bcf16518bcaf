import Schemata.Proofs.Number.Integers
import Schemata.Proofs.Settings.Layers
import Schemata.Settings.Sources

/-!
# Settings from Several Sources

Which value each setting has when settings are loaded.

The sources are the usual files, a file that is asked for, and the environment, and
each is a list of entries. As long as sections are given by the names of their
settings, the last source that sets a setting decides, and sources that set others
change nothing about it (`lookup_given_flatten`). A section can also be given as a
list of its settings. That replaces what was given by name, and what is given by
name replaces a list.

A text that a file gives is kept. A variable of the environment is read as a
boolean or a number first, so a setting that is a text has what is left of it then.

## Main definitions

* `VariableValue`: What the text of a variable is read as.
* `settingVariables`: The variables of the settings.
* `sourcesOf`: The entries of all sources, in order.
* `GivenBy`: Settings are what some entries give, or the defaults.

## Theorems

* `load_eq_ok_givenBy`: What settings are loaded from some sources.
-/

namespace Schemata

namespace Settings

open Setting (Members)

/-! ### Variables -/

/-- The value that the text of a variable is read as: a boolean in any case of its letters, an
    integer of 64 bits, a number of double precision, or the text itself, whichever comes first. -/
inductive VariableValue (text : String) : Setting → Prop
  | boolean (value : Bool) (hword : Setting.lowered text = switchText value) :
      VariableValue text (.boolean value)
  | integer (n : Int) (hword : ∀ value, Setting.lowered text ≠ switchText value)
      (hd : Integer.Denotes text.toList n) (hr : n ∈ integerRange) :
      VariableValue text (.integer n)
  | float (number : Binary) (hword : ∀ value, Setting.lowered text ≠ switchText value)
      (hint : ¬ ∃ n, Integer.Denotes text.toList n ∧ n ∈ integerRange)
      (hf : Format.double.read text = .ok number) : VariableValue text (.float number)
  | text (hword : ∀ value, Setting.lowered text ≠ switchText value)
      (hint : ¬ ∃ n, Integer.Denotes text.toList n ∧ n ∈ integerRange)
      (hf : ∀ number, Format.double.read text ≠ .ok number) : VariableValue text (.text text)

theorem variableValue_ofText (text : String) : VariableValue text (ofText text) := by
  unfold ofText
  split
  · next hword => exact .boolean true hword
  · next hword => exact .boolean false hword
  · next htrue hfalse =>
      -- The text is tried as a boolean, an integer and a float, in this order, and is kept if it is
      -- none of these.
      have hword : ∀ value, Setting.lowered text ≠ switchText value := by
        rintro (_ | _) h
        · exact hfalse h
        · exact htrue h
      have hread := Integer.read_eq_ok_iff integerRange (Integer.zero_mem_signed 64) text.toList
      split
      · next n hn => exact .integer n hword ((hread n).mp hn).1 ((hread n).mp hn).2
      · next fault hfault =>
          have hint : ¬ ∃ n, Integer.Denotes text.toList n ∧ n ∈ integerRange := by
            rintro ⟨n, hn⟩
            exact nomatch hfault.symm.trans ((hread n).mpr hn)
          split
          · next number hnumber => exact .float number hword hint hnumber
          · next fault hf => exact .text hword hint fun number h => nomatch hf.symm.trans h

/-- The variable of each setting, with its section and its name. -/
def settingVariables : List (String × String × String) :=
  [("DATAMODEL__IMPORT__VALIDATE", "import", "validate"),
    ("DATAMODEL__EXPORT__OUTPUT_FORMAT", "export", "output_format"),
    ("DATAMODEL__EXPORT__VALIDATE", "export", "validate"),
    ("DATAMODEL__RENDER__INDENT", "render", "indent"),
    ("DATAMODEL__CHECK__EXTENSION", "check", "extension")]

/-- A variable gives its setting by name. -/
theorem ofVariable?_settingVariables : ∀ named ∈ settingVariables, ∀ text,
    ofVariable? named.1 text = some ⟨⟨named.2.1, [.key named.2.2]⟩, ofText text⟩ := by
  simp only [settingVariables, List.forall_mem_cons]
  refine ⟨fun text => rfl, fun text => rfl, fun text => rfl, fun text => rfl, fun text => rfl,
    List.forall_mem_nil _⟩

/-! ### Sources -/

theorem tidy_of_ofDocument (document : Setting) (entries : List Entry)
    (h : ofDocument document = some entries) : ∀ entry ∈ entries, entry.Tidy := by
  rw [ofDocument] at h
  split at h
  · next members hmembers =>
      -- Every value of a document is in small letters, and so are the values in it.
      have hlowered : ∀ member ∈ members, ∃ value : Setting, member.2 = value.lowerKeys := by
        cases document with
        | table written =>
            cases hmembers
            exact Setting.exists_lowerKeys [] written (List.forall_mem_nil _)
        | _ => exact nomatch hmembers
      cases h
      intro entry hentry
      rcases List.mem_map.mp hentry with ⟨member, hmember, rfl⟩
      rcases hlowered member hmember with ⟨value, hvalue⟩
      refine ⟨?_, fun inner hinner part hpart => ?_⟩
      · change member.2.Tidy
        rw [hvalue]
        exact value.tidy_lowerKeys
      have htable : value.lowerKeys = .table inner := hvalue.symm.trans hinner
      cases value with
      | table written =>
          cases htable
          rcases Setting.exists_lowerKeys [] written (List.forall_mem_nil _) part hpart with
            ⟨value, hpart⟩
          exact hpart ▸ value.tidy_lowerKeys
      | _ => exact nomatch htable
  · exact nomatch h

theorem tidy_ofEnvironment (environment : List (String × String)) :
    ∀ entry ∈ ofEnvironment environment, entry.Tidy := by
  intro entry hentry
  rcases List.mem_filterMap.mp hentry with ⟨⟨name, text⟩, _, hvariable⟩
  simp only [ofVariable?] at hvariable
  split at hvariable
  · have hvalue : VariableValue text entry.value :=
      Option.some.inj hvariable ▸ variableValue_ofText text
    rw [Entry.Tidy]
    -- A variable never holds a table.
    cases hentry : entry.value with
    | table members =>
        rw [hentry] at hvalue
        exact nomatch hvalue
    | _ => exact ⟨trivial, nofun⟩
  · exact nomatch hvariable

section

variable (files : Files Id)

theorem Found.tidy_entries (found : Found) (entries : List Entry)
    (h : found.entries = .ok entries) : ∀ entry ∈ entries, entry.Tidy := by
  rcases bind_eq_ok_iff.mp h with ⟨document, _, h⟩
  split at h
  · next listed hlisted =>
      cases h
      exact tidy_of_ofDocument document _ hlisted
  · exact nomatch h

theorem tidy_readUsual (name : String) (entries : List Entry)
    (h : (readUsual files name).run = .ok entries) : ∀ entry ∈ entries, entry.Tidy := by
  simp only [readUsual, Id.run_bind] at h
  split at h
  · cases h
    exact List.forall_mem_nil _
  · next found _ => exact found.tidy_entries entries h

theorem tidy_readAsked (name : String) (entries : List Entry)
    (h : (readAsked files name).run = .ok entries) : ∀ entry ∈ entries, entry.Tidy := by
  simp only [readAsked, Id.run_bind] at h
  split at h
  · exact nomatch h
  · next found _ => exact found.tidy_entries entries h

variable (asked : Option String) (environment : List (String × String))

/-- The entries of all sources, in order: of the usual files, of the file that is asked for, and of
    the environment. -/
def sourcesOf : List (Except Fault (List Entry)) :=
  usualFiles.map (fun name => (readUsual files name).run) ++
    asked.toList.map (fun name => (readAsked files name).run) ++ [.ok (ofEnvironment environment)]

theorem tidy_sourcesOf (entries : List Entry)
    (h : .ok entries ∈ sourcesOf files asked environment) : ∀ entry ∈ entries, entry.Tidy := by
  simp only [sourcesOf, List.mem_append, List.mem_map, List.mem_singleton] at h
  rcases h with (⟨name, _, h⟩ | ⟨name, _, h⟩) | h
  · exact tidy_readUsual files name entries h
  · exact tidy_readAsked files name entries h
  · rw [Except.ok.inj h]
    exact tidy_ofEnvironment environment

theorem load_eq : (load files asked environment).run = (do
    ofTable (← (sourcesOf files asked environment).foldlM
      (fun table source => do lay table (← source)) [])) := by
  have hmap {α β : Type} (f : α → Id β) (l : List α) : (l.mapM f : Id (List β)) = l.map f :=
    List.idRun_mapM
  unfold load
  rw [hmap, hmap]
  rfl

end

/-- All sources are laid over each other if none has a fault. -/
theorem exists_of_foldlM {sources : List (Except Fault (List Entry))} {start table : Members}
    (h : sources.foldlM (fun table source => do lay table (← source)) start = .ok table) :
    ∃ entries : List (List Entry), sources = entries.map .ok ∧
      lay start entries.flatten = .ok table := by
  induction sources generalizing start with
  | nil => exact ⟨[], rfl, h⟩
  | cons source rest ih =>
      rw [List.foldlM_cons] at h
      rcases bind_eq_ok_iff.mp h with ⟨next, hnext, hrest⟩
      rcases bind_eq_ok_iff.mp hnext with ⟨first, rfl, hfirst⟩
      rcases ih hrest with ⟨entries, rfl, hlay⟩
      refine ⟨first :: entries, rfl, ?_⟩
      -- Laying one source after the other is laying all their entries in one go.
      rw [lay] at hfirst hlay ⊢
      rw [List.flatten_cons, List.foldlM_append, hfirst]
      exact hlay

/-! ### Settings -/

/-- The settings are what some entries give, or the defaults. The table is that of the entries; it
    matters to sections that are lists in the end. -/
structure GivenBy (settings : Settings) (table : Members) (entries : List Entry) : Prop where
  importValidate : (given "import" entries).Sets asBool? default.importValidate
    settings.importValidate (table.lookup "import") 0 "validate"
  outputFormat : (given "export" entries).Sets asFormat? default.outputFormat
    settings.outputFormat (table.lookup "export") 0 "output_format"
  exportValidate : (given "export" entries).Sets asBool? default.exportValidate
    settings.exportValidate (table.lookup "export") 1 "validate"
  indent : (given "render" entries).Sets asNat? default.indent
    settings.indent (table.lookup "render") 0 "indent"
  extension : (given "check" entries).Sets asText? default.extension
    settings.extension (table.lookup "check") 0 "extension"

theorem givenBy_of_ofTable (entries : List Entry) (htidy : ∀ entry ∈ entries, entry.Tidy)
    (table : Members) (hlay : lay [] entries = .ok table) (settings : Settings)
    (h : ofTable table = .ok settings) : settings.GivenBy table entries := by
  have hholds (title : String) : (given title entries).Holds (table.lookup title) :=
    Given.holds_run title entries htidy .nothing [] table hlay (Or.inl rfl)
  simp only [ofTable, bind_eq_ok_iff, pure_eq_ok_iff] at h
  -- The sections are looked up one by one, and each setting is read from its own section.
  rcases h with ⟨values, himport, importValidate, hvalidate, values', hexport, outputFormat,
    hformat, exportValidate, hvalidate', values'', hrender, indent, hindent, values''', hcheck,
    extension, hextension, rfl⟩
  exact
    { importValidate := Given.sets_of_setting readsPlainly_asBool? table values 0
        (hholds "import") (by decide) rfl himport hvalidate
      outputFormat := Given.sets_of_setting readsPlainly_asFormat? table values' 0
        (hholds "export") (by decide) rfl hexport hformat
      exportValidate := Given.sets_of_setting readsPlainly_asBool? table values' 1
        (hholds "export") (by decide) rfl hexport hvalidate'
      indent := Given.sets_of_setting readsPlainly_asNat? table values'' 0
        (hholds "render") (by decide) rfl hrender hindent
      extension := Given.sets_of_setting readsPlainly_asText? table values''' 0
        (hholds "check") (by decide) rfl hcheck hextension }

/-- A text that was given by name is the setting as it stands. -/
theorem GivenBy.extension_eq (settings : Settings) (table : Members) (entries : List Entry)
    (h : settings.GivenBy table entries) (text : String)
    (htext : (given "check" entries).settings.lookup "extension" = some (.text text)) :
    settings.extension = text := by
  have hsets := h.extension
  -- Only a section that is given by names has a text under a name.
  cases hgiven : given "check" entries with
  | named members =>
      rw [hgiven] at hsets htext
      change Says _ _ _ (members.lookup "extension") at hsets
      rw [show members.lookup "extension" = some (.text text) from htext] at hsets
      exact (Option.some.inj hsets).symm
  | nothing =>
      rw [hgiven] at htext
      exact nomatch htext
  | whole _ =>
      rw [hgiven] at htext
      exact nomatch htext
  | items =>
      rw [hgiven] at htext
      exact nomatch htext

/-- If settings are loaded, no source has a fault, and each setting is what the sources give to it,
    or its default. A section that sources give by the names of its settings has them from the
    last source that sets them, and what none of these sets is as it was before them. A text is
    kept as it stands. That of a variable is read as a boolean or a number if it is one, and is
    the value of its setting then. -/
theorem load_eq_ok_givenBy (files : Files Id) (asked : Option String)
    (environment : List (String × String)) (settings : Settings)
    (h : (load files asked environment).run = .ok settings) :
    ∃ (sources : List (List Entry)) (table : Members),
      sourcesOf files asked environment = sources.map .ok ∧
      lay [] sources.flatten = .ok table ∧ settings.GivenBy table sources.flatten ∧
      (∀ title name earlier later, sources = earlier ++ later →
        (∀ source ∈ later, ByName title source) →
        (given title sources.flatten).settings.lookup name =
          (later.reverse.findSome? fun source => (given title source).settings.lookup name).or
            ((given title earlier.flatten).settings.lookup name)) ∧
      (∀ text, (given "check" sources.flatten).settings.lookup "extension" = some (.text text) →
        settings.extension = text) ∧
      (∀ named ∈ settingVariables, ∀ text, ∃ value, VariableValue text value ∧
        ofVariable? named.1 text = some ⟨⟨named.2.1, [.key named.2.2]⟩, value⟩) := by
  rw [load_eq] at h
  rcases bind_eq_ok_iff.mp h with ⟨table, hfold, htable⟩
  rcases exists_of_foldlM hfold with ⟨sources, hsources, hlay⟩
  have htidy : ∀ entry ∈ sources.flatten, entry.Tidy := by
    intro entry hentry
    rcases List.mem_flatten.mp hentry with ⟨source, hsource, hentry⟩
    exact tidy_sourcesOf files asked environment source
      (hsources ▸ List.mem_map_of_mem hsource) entry hentry
  have hgiven := givenBy_of_ofTable _ htidy table hlay settings htable
  refine ⟨sources, table, hsources, hlay, hgiven, ?_, hgiven.extension_eq, ?_⟩
  · -- Whatever comes before the sources that give the section by names counts only where none of
    -- these sets the setting.
    rintro title name earlier later rfl hlater
    rw [List.flatten_append]
    exact lookup_given_flatten title name earlier.flatten later hlater
  · exact fun named hnamed text =>
      ⟨_, variableValue_ofText text, ofVariable?_settingVariables named hnamed text⟩

/-- Four files with one setting each. -/
def fourFiles : Files Id :=
  .ofTexts [("datamodel.toml", "[render]\nindent = 8\n"),
    (".datamodel.toml", "[export]\noutput_format = \"compact\"\n"),
    ("config/datamodel.toml", "render.indent = 6\n"),
    ("own.toml", "[check]\nextension = \"007\"\n")]

/-- Two variables with settings. -/
def twoVariables : List (String × String) :=
  [("DATAMODEL__EXPORT__VALIDATE", "Off"), ("DATAMODEL__IMPORT__VALIDATE", "FALSE")]

/-- Five sources, two of which set the indentation, and two one setting each of the same section. -/
theorem load_eq_ok_givenBy_five :
    (load fourFiles (some "own.toml") twoVariables).run =
      .ok ⟨false, .compact, false, 6, "007"⟩ ∧
    ∃ (sources : List (List Entry)) (table : Members),
      sourcesOf fourFiles (some "own.toml") twoVariables = sources.map .ok ∧
      sources.length = 5 ∧
      GivenBy ⟨false, .compact, false, 6, "007"⟩ table sources.flatten := by
  have hload : (load fourFiles (some "own.toml") twoVariables).run =
      .ok ⟨false, .compact, false, 6, "007"⟩ := by
    decide +kernel
  rcases load_eq_ok_givenBy _ _ _ _ hload with ⟨sources, table, hsources, _, hgiven, _⟩
  refine ⟨hload, sources, table, hsources, ?_, hgiven⟩
  have hlength := congrArg List.length hsources
  simp only [sourcesOf, usualFiles, List.length_append, List.length_map, List.length_cons,
    List.length_nil, Option.toList_some] at hlength
  exact hlength.symm

/-- Of a text that can be read as a number only the number is left in a variable, and a variable
    that sets one setting of a section takes away the others if the section was a list. -/
theorem variable_not_kept :
    ¬ (∀ settings, (load (Files.ofTexts []) none
        [("DATAMODEL__CHECK__EXTENSION", "007")]).run = .ok settings →
      settings.extension = "007") ∧
    ¬ ∀ settings, (load (Files.ofTexts
        [("datamodel.toml", "export = [\"compact\", false]\n")]) none
        [("DATAMODEL__EXPORT__OUTPUT_FORMAT", "pretty")]).run = .ok settings →
      settings.exportValidate = false := by
  constructor
  · intro hall
    have hkept := hall ⟨true, .pretty, true, 2, "7"⟩ (by decide +kernel)
    exact absurd hkept (by decide)
  · intro hall
    have hkept := hall ⟨true, .pretty, true, 2, "avsc"⟩ (by decide +kernel)
    exact absurd hkept (by decide)

end Settings

end Schemata
