import Schemata.Proofs.Avro.Capture
import Schemata.Proofs.Avro.Mirror

/-!
# Round Trips

Which graphs come back the same when they are exported and the document is
imported again.

A graph round-trips exactly if it is written in full
(`roundTrips_iff_faithful`). One half follows the walk of the export and finds
the mirror of the graph (`import_of_export`); the other compares what was read
with what was written (`Avro.faithful_of_sameType`).

The graph of an imported document is written in full except for its
references. A document may refer to a type by an alias, and the export writes
the live name instead. Within a namespace, or if the live name is that of a
primitive type, somebody else may be meant by that name. So the graph of a
document is exported, and it comes back the same exactly if no reference is
captured (`reimport_of_fromSchema`).

## Main definitions

* `RoundTrips`: A graph comes back the same.

## Theorems

* `import_of_export`: A graph that is written in full is read as its mirror.
* `roundTrips_iff_faithful`: Round trips are a matter of what is written.
* `reimport_of_fromSchema`: When the graph of a document comes back the same.
-/

namespace Schemata

open Avro

/-- The graph comes back the same when it is exported and the document imported. -/
def RoundTrips (r : Registry) (root : Ty) (token : Nat) : Prop :=
  ∃ e q t, toSchema r root = .ok e ∧ fromSchema token e = .ok (q, t) ∧ r.sameType root q t = true

/-- A round trip, made. -/
def roundTrips? (r : Registry) (root : Ty) (token : Nat) : Bool :=
  match toSchema r root with
  | .error _ => false
  | .ok e =>
    match fromSchema token e with
    | .error _ => false
    | .ok (q, t) => r.sameType root q t

theorem roundTrips?_eq_true_iff (r : Registry) (root : Ty) (token : Nat) :
    roundTrips? r root token = true ↔ RoundTrips r root token := by
  unfold roundTrips? RoundTrips
  -- The check runs the export and then the import, and compares if both succeed.
  rcases hexport : toSchema r root with err | e
  · simp only [Bool.false_eq_true, reduceCtorEq, false_and, exists_false]
  rcases himport : fromSchema token e with err | ⟨q, t⟩
  · simp only [himport, Bool.false_eq_true, Except.ok.injEq, false_iff, not_exists]
    rintro e' q t ⟨rfl, himport', _⟩
    rw [himport] at himport'
    exact nomatch himport'
  · simp only [himport, Except.ok.injEq]
    constructor
    · exact fun hsame => ⟨e, q, t, rfl, himport, hsame⟩
    · rintro ⟨e', q', t', rfl, himport', hsame⟩
      rw [himport, Except.ok.injEq, Prod.mk.injEq] at himport'
      rw [himport'.1, himport'.2]
      exact hsame

instance (r : Registry) (root : Ty) (token : Nat) : Decidable (RoundTrips r root token) :=
  decidable_of_iff _ (roundTrips?_eq_true_iff r root token)

namespace Avro

/-! ### The size of a mirror -/

/-- A list without repetition of all numbers below a bound has that length. -/
theorem length_eq_of_mem_iff_lt (list : List Nat) (n : Nat) (hn : list.Nodup)
    (hm : ∀ i, i ∈ list ↔ i < n) : list.length = n := by
  have hperm : list.Perm (List.range n) :=
    (List.perm_ext_iff_of_nodup hn List.nodup_range).mpr fun i => by rw [hm, List.mem_range]
  rw [hperm.length_eq, List.length_range]

/-- Where all types are written the mirror has as many. -/
theorem size_mirror (r : Registry) (token : Nat) (final : Written) (hn : final.Nodup)
    (hm : ∀ h, h ∈ final ↔ r.Holds h) : (mirror r token final).size = r.size := by
  rw [Registry.size, mirror, draft, List.length_map, List.length_map, Registry.size,
    length_eq_of_mem_iff_lt (structsOf final) r.structs.length (structsOf_nodup final hn)
      fun i => by rw [mem_structsOf, hm, Registry.Holds],
    length_eq_of_mem_iff_lt (enumsOf final) r.enums.length (enumsOf_nodup final hn)
      fun i => by rw [mem_enumsOf, hm, Registry.Holds]]

end Avro

/-! ### There and back -/

/-- Where every type is there and has its fields there is an export. -/
theorem exists_export (r : Registry) (root : Ty) (hc : Complete r root) :
    ∃ e refs final, Walk r none [] [root] [e] refs final := by
  rcases exists_walk r _ none [] [root] (Nat.le_refl _) (fun t ht i hr => by
    rw [List.mem_singleton.mp ht] at hr
    exact hc.assigned i hr) with ⟨es, refs, final, hwalk⟩
  have hlen := hwalk.length_eq
  rw [List.length_singleton] at hlen
  rcases List.length_eq_one_iff.mp hlen.symm with ⟨e, rfl⟩
  exact ⟨e, refs, final, hwalk⟩

/-- A graph that is written in full is read as its mirror. -/
theorem import_of_export (r : Registry) (root : Ty) (token : Nat) (ht : r.Tidy)
    (hf : Faithful r root) (e : Json) (refs : List Reference) (final : Written)
    (hwalk : Walk r none [] [root] [e] refs final) :
    fromSchema token e = .ok (mirror r token final, imageType final root) ∧
      r.sameType root (mirror r token final) (imageType final root) = true ∧
      toSchema (mirror r token final) (imageType final root) = .ok e := by
  have hn : final.Nodup := hwalk.nodup List.nodup_nil
  refine ⟨?_, sameType_mirror r token root hf.plain e refs final hwalk, ?_⟩
  · rw [fromSchema_eq_ok_iff]
    -- At the outset nothing is written and nothing is open.
    exact reading_of_walk r token root final hn hf.plain ht hwalk [] (List.suffix_refl _)
      (fun h hm => absurd hm List.not_mem_nil)
      (Registry.Reaches.of_mem_singleton r root)
      (fun i hi => absurd hi List.not_mem_nil) (hf.uncaptured e refs final hwalk)
  · rw [toSchema_eq_ok_iff]
    exact ⟨_, _, walk_mirror r token final none [] final [root] [e] refs hwalk (List.suffix_refl _)⟩

/-- A graph comes back the same exactly if it is written in full. -/
theorem roundTrips_iff_faithful (r : Registry) (root : Ty) (token : Nat) (ht : r.Tidy)
    (hheld : ∀ h, r.Reaches root (.named h) → r.Holds h) :
    RoundTrips r root token ↔ Faithful r root := by
  constructor
  · rintro ⟨e, q, t, hexport, himport, hsame⟩
    exact faithful_of_sameType r root ht hheld e token q t hexport himport hsame
  · intro hf
    rcases exists_export r root hf.plain.complete with ⟨e, refs, final, hwalk⟩
    rcases import_of_export r root token ht hf e refs final hwalk with ⟨himport, hsame, _⟩
    exact ⟨e, _, _, (toSchema_eq_ok_iff r root e).mpr ⟨refs, final, hwalk⟩, himport, hsame⟩

/-! ### Documents -/

/-- The graph of a document is exported. It comes back the same, with as many types and the
    same document, if every reference is read as what it was written for; if some reference is
    not, it does not come back the same. -/
theorem reimport_of_fromSchema (token token' : Nat) (d : Json) (g : Registry) (root : Ty)
    (h : fromSchema token d = .ok (g, root)) :
    ∃ e, toSchema g root = .ok e ∧
      (Uncaptured g root → ∃ g' root', fromSchema token' e = .ok (g', root') ∧
        g.sameType root g' root' = true ∧ g'.size = g.size ∧ toSchema g' root' = .ok e) ∧
      (¬ Uncaptured g root → ∀ g' root', fromSchema token' e = .ok (g', root') →
        g.sameType root g' root' = false) := by
  rcases plain_of_import token d g root h with ⟨hp, ht, hreached⟩
  rcases exists_export g root hp.complete with ⟨e, refs, final, hwalk⟩
  have hexport := (toSchema_eq_ok_iff g root e).mpr ⟨refs, final, hwalk⟩
  refine ⟨e, hexport, fun hu => ?_, fun hu g' root' himport => ?_⟩
  · rcases import_of_export g root token' ht ⟨hp, hu⟩ e refs final hwalk with
      ⟨himport, hsame, hagain⟩
    refine ⟨_, _, himport, hsame, ?_, hagain⟩
    -- An imported graph holds nothing but what its root leads to.
    refine size_mirror g token' final (hwalk.nodup List.nodup_nil) fun handle => ?_
    constructor
    · intro hm
      exact hp.complete.held handle (hwalk.reached_root root e handle hm)
    · exact fun hh => mem_of_reaches g root e refs final hwalk _ (hreached handle hh) handle rfl
  · by_contra hsame
    rw [Bool.not_eq_false] at hsame
    exact hu (faithful_of_sameType g root ht hp.complete.held e token' g' root' hexport himport
      hsame).uncaptured

namespace Sample

/-- A list of nodes, each of which refers to the next by an alias. -/
def linkedList : Json :=
  .object [("aliases", .array [.string "Link"]),
    ("fields", .array [
      .object [("name", .string "color"), ("type", .object [("name", .string "Color"),
        ("namespace", .string ""), ("symbols", .array [.string "RED"]), ("type", .string "enum")])],
      .object [("name", .string "next"), ("type", .array [.string "null", .string "Link"])]]),
    ("name", .string "list.Node"), ("type", .string "record")]

end Sample

open Sample

theorem reimport_of_linkedList : ∃ g root e, fromSchema 0 linkedList = .ok (g, root) ∧
    toSchema g root = .ok e ∧ ∃ g' root', fromSchema 1 e = .ok (g', root') ∧
      g.sameType root g' root' = true ∧ g'.size = g.size ∧ toSchema g' root' = .ok e := by
  have hrun : (fromSchema 0 linkedList).toOption.any
      (fun import' => decide (RoundTrips import'.1 import'.2 1)) = true := by decide +kernel
  rcases h : fromSchema 0 linkedList with err | ⟨g, root⟩
  · rw [h] at hrun
    exact absurd hrun Bool.false_ne_true
  · rw [h] at hrun
    rcases reimport_of_fromSchema 0 1 linkedList g root h with ⟨e, hexport, hyes, _⟩
    rcases plain_of_import 0 linkedList g root h with ⟨hp, ht, _⟩
    have hback : RoundTrips g root 1 := of_decide_eq_true hrun
    have hf := (roundTrips_iff_faithful g root 1 ht hp.complete.held).mp hback
    exact ⟨g, root, e, rfl, hexport, hyes hf.uncaptured⟩

namespace Sample

/-- A record with the name of a primitive type, which refers to itself by an alias. -/
def namedLikePrimitive : Json :=
  .object [("aliases", .array [.string "S"]),
    ("fields", .array [.object [("name", .string "next"),
      ("type", .array [.string "null", .string "S"])]]),
    ("name", .string "string"), ("type", .string "record")]

end Sample

/-- The reference is captured: written by the live name it is read as the primitive type. -/
theorem namedLikePrimitive_not_fixed : ¬ ∀ d g root, fromSchema 0 d = .ok (g, root) →
    RoundTrips g root 1 := by
  intro hall
  have hrun : (fromSchema 0 namedLikePrimitive).toOption.any
      (fun import' => !decide (RoundTrips import'.1 import'.2 1)) = true := by decide +kernel
  rcases h : fromSchema 0 namedLikePrimitive with err | ⟨g, root⟩
  · rw [h] at hrun
    exact absurd hrun Bool.false_ne_true
  · rw [h] at hrun
    have hnot : (!decide (RoundTrips g root 1)) = true := hrun
    rw [decide_eq_true (hall namedLikePrimitive g root h)] at hnot
    exact absurd hnot (by decide)

end Schemata
