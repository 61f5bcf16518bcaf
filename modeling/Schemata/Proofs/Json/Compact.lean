import Schemata.Json.Printer
import Schemata.Proofs.Text.Lines

/-!
# Compact Documents Are on One Line

A document in compact form has no line break in it, whatever texts it holds.

The characters that end lines are among those that a string cannot hold raw.
All else that is written of a document is made of digits, letters and marks.

## Theorems

* `Json.oneLine_quoted`: Texts between quotation marks.
* `Format.oneLine_finiteText`: Floating-point numbers.
* `Json.oneLine_compact`: Documents.
-/

namespace Schemata

open Text

/-! ### Numbers -/

namespace Layout

variable (digits : List Char) (hd : ∀ c ∈ digits, ¬ IsBreak c) (place : Int)

include hd

theorem oneLine_positional (layout : Layout) (hw : OneLine layout.wholeMark) :
    OneLine (layout.positional digits place) := by
  have hzeros : ∀ n, ∀ c ∈ List.replicate n '0', ¬ IsBreak c := by
    intro n c hc
    rw [List.eq_of_mem_replicate hc]
    decide
  unfold positional
  -- Zeros in front, zeros behind, or the point within the digits.
  split
  · rw [oneLine_append]
    exact ⟨by decide, oneLine_ofList _ (List.forall_mem_append.mpr ⟨hzeros _, hd⟩)⟩
  · split
    · rw [oneLine_append]
      exact ⟨oneLine_ofList _ (List.forall_mem_append.mpr ⟨hd, hzeros _⟩), hw⟩
    · rw [oneLine_append, oneLine_append]
      exact ⟨⟨oneLine_ofList _ fun c hc => hd c (List.mem_of_mem_take hc), by decide⟩,
        oneLine_ofList _ fun c hc => hd c (List.mem_of_mem_drop hc)⟩

theorem oneLine_scientific : OneLine (scientific digits place) := by
  have hpart :
      OneLine (if digits.length ≤ 1 then "" else "." ++ String.ofList (digits.drop 1)) := by
    split
    · decide
    · rw [oneLine_append]
      exact ⟨by decide, oneLine_ofList _ fun c hc => hd c (List.mem_of_mem_drop hc)⟩
  have hsign : OneLine (if place - 1 < 0 then "-" else "+") := by
    split <;> decide
  unfold scientific
  simp only [oneLine_append]
  exact ⟨⟨⟨⟨oneLine_ofList _ fun c hc => hd c (List.mem_of_mem_take hc), hpart⟩, by decide⟩,
    hsign⟩, oneLine_toString _⟩

end Layout

theorem Format.oneLine_finiteText (format : Format) (layout : Layout) (number : Finite)
    (hw : OneLine layout.wholeMark) : OneLine (format.finiteText layout number) := by
  -- The characters are digits but for the marks of the layout.
  have hdigits : ∀ n, ∀ c ∈ Integer.digits n, ¬ IsBreak c := fun n c hc =>
    not_isBreak_of_isDigit c (Nat.isDigit_of_mem_toDigits (by decide) (Nat.le_refl 10) hc)
  unfold finiteText
  rw [oneLine_append]
  constructor
  · split <;> decide
  · split
    · rw [oneLine_append]
      exact ⟨by decide, hw⟩
    · unfold Layout.digits
      simp only []
      split
      · exact Layout.oneLine_positional _ (hdigits _) _ layout hw
      · exact Layout.oneLine_scientific _ (hdigits _) _

namespace Json

/-! ### Texts -/

/-- A character that ends a line is escaped. -/
theorem oneLine_escaped (c : Char) : OneLine (String.ofList (escaped c)) := by
  -- The codes of the first characters have one digit or two.
  have hcode : ∀ n < 32, OneLine (String.ofList (Nat.toDigits 16 n)) := by decide
  unfold escaped
  split
  · decide
  split
  · decide
  split
  · decide
  split
  · decide
  split
  · decide
  split
  · decide
  split
  · decide
  split
  · next hlt =>
      rw [String.ofList_append, oneLine_append]
      exact ⟨by decide, hcode _ (Nat.lt_trans hlt (by decide))⟩
  split
  · next hlt =>
      rw [String.ofList_append, oneLine_append]
      exact ⟨by decide, hcode _ hlt⟩
  · next hfeed hreturn _ _ _ =>
      exact oneLine_ofList _ (List.forall_mem_singleton.mpr fun h => h.elim hfeed hreturn)

theorem oneLine_quoted (text : String) : OneLine (quoted text) := by
  rw [quoted, oneLine_append, oneLine_append]
  refine ⟨⟨by decide, oneLine_ofList _ fun d hd => ?_⟩, by decide⟩
  rcases List.mem_flatMap.mp hd with ⟨c, _, hd⟩
  refine oneLine_escaped c d ?_
  rw [String.toList_ofList]
  exact hd

/-! ### Documents -/

theorem oneLine_scalarText (json : Json) : OneLine json.scalarText := by
  -- Only a string could bring a line break with it, and there it is escaped.
  cases json with
  | null => exact (by decide : OneLine "null")
  | bool value =>
      cases value with
      | false => exact (by decide : OneLine "false")
      | true => exact (by decide : OneLine "true")
  | int value =>
      cases value with
      | ofNat n => exact oneLine_toString n
      | negSucc n => exact oneLine_append.mpr ⟨by decide, oneLine_toString (n + 1)⟩
  | float value => exact Format.double.oneLine_finiteText .document value (by decide)
  | string text => exact oneLine_quoted text
  | array _ => exact (by decide : OneLine "[]")
  | object _ => exact (by decide : OneLine "\x7b\x7d")

mutual

/-- A document in compact form is on one line. -/
theorem oneLine_compact (json : Json) : OneLine json.compact := by
  cases json with
  | array items =>
      rw [compact, oneLine_append, oneLine_append]
      exact ⟨⟨by decide, oneLine_intercalate (by decide) (oneLine_compactItems items)⟩, by decide⟩
  | object members =>
      rw [compact, oneLine_append, oneLine_append]
      exact ⟨⟨by decide, oneLine_intercalate (by decide) (oneLine_compactMembers members)⟩,
        by decide⟩
  | null | bool _ | int _ | float _ | string _ =>
      rw [compact]
      · exact oneLine_scalarText _
      all_goals exact nofun

theorem oneLine_compactItems (items : List Json) : ∀ text ∈ compactItems items, OneLine text := by
  cases items with
  | nil => exact fun text hm => absurd hm List.not_mem_nil
  | cons item rest =>
      rw [compactItems, List.forall_mem_cons]
      exact ⟨oneLine_compact item, oneLine_compactItems rest⟩

theorem oneLine_compactMembers (members : List (String × Json)) :
    ∀ text ∈ compactMembers members, OneLine text := by
  cases members with
  | nil => exact fun text hm => absurd hm List.not_mem_nil
  | cons member rest =>
      rcases member with ⟨key, value⟩
      rw [compactMembers, List.forall_mem_cons, oneLine_append, oneLine_append]
      exact ⟨⟨⟨oneLine_quoted key, by decide⟩, oneLine_compact value⟩,
        oneLine_compactMembers rest⟩

end

end Json

end Schemata
