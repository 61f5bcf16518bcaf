import Schemata.Bytes.Base64
import Schemata.Proofs.Number.Decimals
import Schemata.Proofs.Text.Bytes

/-!
# The One Encoding

Which texts are base64, and the bytes that they stand for.

A text is read in two parts. The groups in front hold symbols only, and only the
last group may be padded. So an encoding is cut in the same place: the bytes in
front come in threes, and the last group stands for one to three of them.

For each part, what is read is what is written. A symbol is read as its number
of six bits, four numbers in front are three bytes, and a last group is that of
its bytes if no bits are left over. Therefore a text is read only if it is the
encoding of what is read, and no other text is read as the same bytes.

## Theorems

* `Base64.symbolValue?_eq_some_iff`: A symbol is read as its number.
* `Base64.symbolValues_eq_ok_iff`, `Base64.lastValues_eq_ok_iff`: What is read as
  symbols and padding.
* `Base64.encodeBytes_groupBytes_append`, `Base64.encodeBytes_of_lastBytes`: What
  is read is what is written, in front and in the last group.
* `Base64.decode_eq_ok_iff`: A text is read if it is the encoding of its bytes.
-/

namespace Schemata

namespace Base64

/-! ### Symbols -/

/-- A symbol is read as the number that it is the symbol of. -/
theorem symbolValue?_eq_some_iff (byte : UInt8) (v : Nat) :
    symbolValue? byte = some v ↔ v < 64 ∧ byte = symbol v := by
  have hvalue : ∀ code < 256, ∀ v ∈ symbolValue? (UInt8.ofNat code),
      v < 64 ∧ UInt8.ofNat code = symbol v := by decide +kernel
  have hsymbol : ∀ v < 64, symbolValue? (symbol v) = some v := by decide +kernel
  constructor
  · intro h
    rw [← UInt8.ofNat_toNat (x := byte)] at h ⊢
    exact hvalue byte.toNat byte.toNat_lt v h
  · rintro ⟨hv, rfl⟩
    exact hsymbol v hv

example : (List.range 64).map symbol =
    Text.utf8 "ABCDEFGHIJKLMNOPQRSTUVWXYZabcdefghijklmnopqrstuvwxyz0123456789+/" := by
  decide +kernel

theorem symbolValue?_pad : symbolValue? pad = none := by
  decide

theorem symbol_ne_pad (v : Nat) (hv : v < 64) : symbol v ≠ pad := by
  intro h
  have hsome := (symbolValue?_eq_some_iff (symbol v) v).mpr ⟨hv, rfl⟩
  rw [h, symbolValue?_pad] at hsome
  exact nomatch hsome

theorem symbol_ascii (v : Nat) : (symbol v).toNat < 128 := by
  unfold symbol
  split_ifs
  · rw [UInt8.toNat_ofNat']
    omega
  · rw [UInt8.toNat_ofNat']
    omega
  · rw [UInt8.toNat_ofNat']
    omega
  · decide
  · decide

/-! ### Groups of symbols -/

section

variable (start index : Nat) (firstPad : Option Nat) (byte : UInt8) (bytes : List UInt8)
  (values : List Nat)

/-- A symbol is read, and what is behind it. -/
theorem symbolValues_cons_eq_ok_iff (position : Nat) :
    symbolValues position (byte :: bytes) = .ok values ↔
      ∃ v rest, (v < 64 ∧ byte = symbol v) ∧ symbolValues (position + 1) bytes = .ok rest ∧
        v :: rest = values := by
  simp only [← symbolValue?_eq_some_iff]
  rw [symbolValues]
  cases symbolValue? byte with
  | none => exact iff_of_false nofun fun ⟨_, _, hv, _⟩ => nomatch hv
  | some v =>
      simp only [bind_eq_ok_iff, pure_eq_ok_iff, Option.some.injEq, exists_and_left,
        exists_eq_left']

/-- The last group is read in the same way, as long as there is no padding. -/
theorem lastValues_symbol_eq_ok_iff (hbyte : byte ≠ pad) :
    lastValues start index none (byte :: bytes) = .ok values ↔
      ∃ v rest, (v < 64 ∧ byte = symbol v) ∧ lastValues start (index + 1) none bytes = .ok rest ∧
        v :: rest = values := by
  simp only [← symbolValue?_eq_some_iff]
  rw [lastValues, if_neg hbyte]
  cases symbolValue? byte with
  | none => exact iff_of_false nofun fun ⟨_, _, hv, _⟩ => nomatch hv
  | some v =>
      simp only [bind_eq_ok_iff, pure_eq_ok_iff, Option.some.injEq, exists_and_left,
        exists_eq_left']

/-- Padding is not read in the first two places. -/
theorem lastValues_pad_eq_ok_iff : lastValues start index firstPad (pad :: bytes) = .ok values ↔
    2 ≤ index ∧
      lastValues start (index + 1) (some (firstPad.getD index)) bytes = .ok values := by
  -- The first padding is remembered, and it stays the first one.
  have hread : lastValues start index firstPad (pad :: bytes) =
      if index < 2 then .error (.badSymbol pad (start + index))
      else lastValues start (index + 1) (some (firstPad.getD index)) bytes := by
    cases firstPad with
    | none => rfl
    | some p => rfl
  rw [hread]
  by_cases hindex : index < 2
  · rw [if_pos hindex]
    exact iff_of_false nofun fun h => by omega
  · rw [if_neg hindex]
    exact (and_iff_right (by omega)).symm

end

theorem symbolValues_eq_ok_iff (position : Nat) (bytes : List UInt8) (values : List Nat) :
    symbolValues position bytes = .ok values ↔
      (∀ v ∈ values, v < 64) ∧ bytes = values.map symbol := by
  -- The position only goes into the faults.
  induction bytes generalizing position values with
  | nil =>
      rw [symbolValues, Except.ok.injEq]
      constructor
      · rintro rfl
        exact ⟨List.forall_mem_nil _, rfl⟩
      · exact fun h => (List.map_eq_nil_iff.mp h.2.symm).symm
  | cons byte bytes ih =>
      simp only [symbolValues_cons_eq_ok_iff, ih]
      constructor
      · rintro ⟨v, rest, ⟨hlt, rfl⟩, ⟨hv, rfl⟩, rfl⟩
        exact ⟨List.forall_mem_cons.mpr ⟨hlt, hv⟩, rfl⟩
      · rintro ⟨hv, heq⟩
        rcases List.map_eq_cons_iff.mp heq.symm with ⟨v, rest, rfl, rfl, rfl⟩
        rw [List.forall_mem_cons] at hv
        exact ⟨v, rest, ⟨hv.1, rfl⟩, ⟨hv.2, rfl⟩, rfl⟩

/-- Behind padding there is only padding. -/
theorem lastValues_padded_eq_ok_iff (start index p : Nat) (bytes : List UInt8)
    (values : List Nat) : lastValues start index (some p) bytes = .ok values ↔
      values = [] ∧ bytes = List.replicate bytes.length pad ∧ (bytes = [] ∨ 2 ≤ index) := by
  -- Once there is padding a symbol is refused, so what is left is padding alone.
  induction bytes generalizing index with
  | nil =>
      rw [lastValues, Except.ok.injEq]
      exact ⟨fun h => ⟨h.symm, rfl, Or.inl rfl⟩, fun h => h.1.symm⟩
  | cons byte bytes ih =>
      rw [List.length_cons, List.replicate_succ, List.cons.injEq]
      by_cases hpad : byte = pad
      · rw [hpad, lastValues_pad_eq_ok_iff, Option.getD_some, ih]
        constructor
        · exact fun ⟨hindex, hvalues, h, _⟩ => ⟨hvalues, ⟨rfl, h⟩, Or.inr hindex⟩
        · rintro ⟨hvalues, ⟨_, h⟩, hnil | hindex⟩
          · exact nomatch hnil
          · exact ⟨hindex, hvalues, h, Or.inr (by omega)⟩
      · rw [lastValues, if_neg hpad]
        exact iff_of_false nofun fun ⟨_, ⟨hbyte, _⟩, _⟩ => hpad hbyte

/-- A group begins with a symbol or is padding alone. -/
theorem cons_eq_group_iff (byte : UInt8) (bytes : List UInt8) (values : List Nat) (count : Nat) :
    byte :: bytes = values.map symbol ++ List.replicate count pad ↔
      (∃ v rest, values = v :: rest ∧ byte = symbol v ∧
        bytes = rest.map symbol ++ List.replicate count pad) ∨
      values = [] ∧ byte = pad ∧ ∃ n, count = n + 1 ∧ bytes = List.replicate n pad := by
  cases values with
  | cons v rest =>
      simp only [List.map_cons, List.cons_append, List.cons.injEq, reduceCtorEq, false_and,
        or_false]
      exact ⟨fun h => ⟨v, rest, ⟨rfl, rfl⟩, h⟩, fun ⟨_, _, ⟨rfl, rfl⟩, h⟩ => h⟩
  | nil =>
      cases count with
      | zero => exact iff_of_false nofun (by simp only [reduceCtorEq, false_and, exists_false,
          Nat.right_eq_add, Nat.add_eq_zero_iff, Nat.succ_ne_self, and_false, or_self,
          not_false_eq_true])
      | succ n =>
          simp only [List.map_nil, List.nil_append, List.replicate_succ, List.cons.injEq,
            reduceCtorEq, false_and, exists_false, Nat.add_right_cancel_iff, exists_eq_left',
            true_and, false_or]

/-- The last group is symbols and padding behind them. The padding does not begin in front of the
    third place. -/
theorem lastValues_eq_ok_iff (start index : Nat) (bytes : List UInt8) (values : List Nat) :
    lastValues start index none bytes = .ok values ↔ (∀ v ∈ values, v < 64) ∧
      ∃ count, bytes = values.map symbol ++ List.replicate count pad ∧
        (count = 0 ∨ 2 ≤ index + values.length) := by
  induction bytes generalizing index values with
  | nil =>
      rw [lastValues, Except.ok.injEq]
      constructor
      · rintro rfl
        exact ⟨List.forall_mem_nil _, 0, rfl, Or.inl rfl⟩
      · rintro ⟨_, count, h, _⟩
        exact (List.map_eq_nil_iff.mp (List.append_eq_nil_iff.mp h.symm).1).symm
  | cons byte bytes ih =>
      by_cases hpad : byte = pad
      · -- This is the first padding, so there are no symbols from here on.
        rw [hpad, lastValues_pad_eq_ok_iff, Option.getD_none, lastValues_padded_eq_ok_iff]
        simp only [cons_eq_group_iff]
        constructor
        · rintro ⟨hindex, rfl, h, _⟩
          exact ⟨List.forall_mem_nil _, _, Or.inr ⟨rfl, trivial, _, rfl, h⟩, Or.inr hindex⟩
        · rintro ⟨hv, count, ⟨v, rest, rfl, hbyte, _⟩ | ⟨rfl, _, n, rfl, rfl⟩, hcount⟩
          · exact absurd hbyte.symm (symbol_ne_pad v (hv v List.mem_cons_self))
          · rw [List.length_nil] at hcount
            exact ⟨by omega, rfl, by rw [List.length_replicate], Or.inr (by omega)⟩
      · rw [lastValues_symbol_eq_ok_iff _ _ _ _ _ hpad]
        simp only [ih, cons_eq_group_iff]
        constructor
        · rintro ⟨v, rest, ⟨hlt, rfl⟩, ⟨hv, count, h, hcount⟩, rfl⟩
          refine ⟨List.forall_mem_cons.mpr ⟨hlt, hv⟩, count, Or.inl ⟨v, rest, rfl, rfl, h⟩, ?_⟩
          rw [List.length_cons]
          omega
        · rintro ⟨hv, count, ⟨v, rest, rfl, hbyte, h⟩ | ⟨_, hbyte, _⟩, hcount⟩
          · rw [List.forall_mem_cons] at hv
            rw [List.length_cons] at hcount
            exact ⟨v, rest, ⟨hv.1, hbyte⟩, ⟨hv.2, count, h, by omega⟩, rfl⟩
          · exact absurd hbyte hpad

/-! ### Groups of bytes -/

/-- Four numbers are the symbols of three bytes. -/
theorem encodeBytes_groupBytes_append (tail : List UInt8) : ∀ whole : List Nat,
    4 ∣ whole.length → (∀ v ∈ whole, v < 64) →
      encodeBytes (groupBytes whole ++ tail) = whole.map symbol ++ encodeBytes tail
  | [], _, _ => rfl
  | [_], h, _ => absurd h (show ¬ 4 ∣ 1 by decide)
  | [_, _], h, _ => absurd h (show ¬ 4 ∣ 2 by decide)
  | [_, _, _], h, _ => absurd h (show ¬ 4 ∣ 3 by decide)
  | a :: b :: c :: d :: rest, h, hv => by
      have hlength : 4 ∣ rest.length := by
        simp only [List.length_cons] at h
        omega
      simp only [List.forall_mem_cons] at hv
      rcases hv with ⟨ha, hb, hc, hd, hrest⟩
      have ih := encodeBytes_groupBytes_append tail rest hlength hrest
      simp only [groupBytes, List.cons_append, encodeBytes, ih, List.map_cons,
        UInt8.toNat_ofNat']
      -- Four times six bits are three times eight bits, cut at other places.
      have hfirst : (a * 4 + b / 16) % 2 ^ 8 / 4 = a := by omega
      have hsecond :
          (a * 4 + b / 16) % 2 ^ 8 % 4 * 16 + (b % 16 * 16 + c / 4) % 2 ^ 8 / 16 = b := by
        omega
      have hthird : (b % 16 * 16 + c / 4) % 2 ^ 8 % 16 * 4 + (c % 4 * 64 + d) % 2 ^ 8 / 64 = c := by
        omega
      have hfourth : (c % 4 * 64 + d) % 2 ^ 8 % 64 = d := by omega
      rw [hfirst, hsecond, hthird, hfourth]

/-- Bytes are cut into groups of three and a last group that is not empty, unless there are no
    bytes. -/
theorem exists_groups : ∀ bytes : List UInt8, ∃ whole tail, 4 ∣ whole.length ∧
    (∀ v ∈ whole, v < 64) ∧ bytes = groupBytes whole ++ tail ∧ tail.length ≤ 3 ∧
      (tail = [] → whole = [])
  | [] => ⟨[], [], by decide, List.forall_mem_nil _, rfl, by decide, fun _ => rfl⟩
  | [a] => ⟨[], [a], by decide, List.forall_mem_nil _, rfl, show 1 ≤ 3 by decide, nofun⟩
  | [a, b] => ⟨[], [a, b], by decide, List.forall_mem_nil _, rfl, show 2 ≤ 3 by decide, nofun⟩
  | [a, b, c] => ⟨[], [a, b, c], by decide, List.forall_mem_nil _, rfl, show 3 ≤ 3 by decide, nofun⟩
  -- Three bytes are split off while a fourth is left, so that the last group is not empty.
  | a :: b :: c :: d :: rest => by
      rcases exists_groups (d :: rest) with ⟨whole, tail, hlength, hv, hbytes, hle, htail⟩
      have ha := a.toNat_lt
      have hb := b.toNat_lt
      have hc := c.toNat_lt
      refine ⟨a.toNat / 4 :: (a.toNat % 4 * 16 + b.toNat / 16) ::
        (b.toNat % 16 * 4 + c.toNat / 64) :: c.toNat % 64 :: whole, tail, ?_, ?_, ?_, hle, ?_⟩
      · simp only [List.length_cons]
        omega
      · simp only [List.forall_mem_cons]
        exact ⟨by omega, by omega, by omega, by omega, hv⟩
      · rw [hbytes, groupBytes, List.cons_append, List.cons_append, List.cons_append]
        simp only [List.cons.injEq, ← UInt8.toNat_inj, UInt8.toNat_ofNat', and_true]
        omega
      · rintro rfl
        rw [htail rfl] at hbytes
        exact nomatch hbytes

/-- The symbols of a last group that leaves no bits over are those of its bytes. -/
theorem encodeBytes_of_lastBytes (values : List Nat) (hv : ∀ v ∈ values, v < 64) (count : Nat)
    (hlength : values.length + count = 4) (hle : 2 ≤ values.length) (tail : List UInt8)
    (h : lastBytes values = (tail, 0)) :
    encodeBytes tail = values.map symbol ++ List.replicate count pad := by
  match values with
  | [] | [_] => exact absurd hle (by simp only [List.length_cons, List.length_nil]; omega)
  | [a, b] =>
      obtain rfl : count = 2 := Nat.add_left_cancel hlength
      simp only [List.forall_mem_cons] at hv
      simp only [lastBytes, Prod.mk.injEq] at h
      have hfirst : (a * 4 + b / 16) % 2 ^ 8 / 4 = a := by omega
      have hsecond : (a * 4 + b / 16) % 2 ^ 8 % 4 * 16 = b := by omega
      rw [← h.1, encodeBytes, UInt8.toNat_ofNat', hfirst, hsecond]
      rfl
  | [a, b, c] =>
      obtain rfl : count = 1 := Nat.add_left_cancel hlength
      simp only [List.forall_mem_cons] at hv
      simp only [lastBytes, Prod.mk.injEq] at h
      have hfirst : (a * 4 + b / 16) % 2 ^ 8 / 4 = a := by omega
      have hsecond :
          (a * 4 + b / 16) % 2 ^ 8 % 4 * 16 + (b % 16 * 16 + c / 4) % 2 ^ 8 / 16 = b := by
        omega
      have hthird : (b % 16 * 16 + c / 4) % 2 ^ 8 % 16 * 4 = c := by omega
      rw [← h.1, encodeBytes, UInt8.toNat_ofNat', UInt8.toNat_ofNat', hfirst, hsecond, hthird]
      rfl
  | [a, b, c, d] =>
      -- This is a whole group like those in front.
      obtain rfl : count = 0 := Nat.add_left_cancel hlength
      rw [← (Prod.mk.inj h).1]
      exact encodeBytes_groupBytes_append [] [a, b, c, d] (show 4 ∣ 4 by decide) hv
  | _ :: _ :: _ :: _ :: _ :: _ => exact absurd hlength (by simp only [List.length_cons]; omega)

/-- The bytes of a last group are those of its symbols. -/
theorem exists_lastValues (tail : List UInt8) (hne : tail ≠ []) (hle : tail.length ≤ 3) :
    ∃ values count, (∀ v ∈ values, v < 64) ∧ 2 ≤ values.length ∧ values.length + count = 4 ∧
      encodeBytes tail = values.map symbol ++ List.replicate count pad ∧
        lastBytes values = (tail, 0) := by
  match tail with
  | [] => exact absurd rfl hne
  | [x] =>
      -- The bits that the last symbol has in excess are zero.
      have hx := x.toNat_lt
      refine ⟨[x.toNat / 4, x.toNat % 4 * 16], 2, ?_, show 2 ≤ 2 by decide, rfl, rfl, ?_⟩
      · simp only [List.forall_mem_cons, List.not_mem_nil, false_imp_iff, implies_true, and_true]
        omega
      · simp only [lastBytes, Prod.mk.injEq, List.cons.injEq, and_true, ← UInt8.toNat_inj,
          UInt8.toNat_ofNat']
        omega
  | [x, y] =>
      have hx := x.toNat_lt
      have hy := y.toNat_lt
      refine ⟨[x.toNat / 4, x.toNat % 4 * 16 + y.toNat / 16, y.toNat % 16 * 4], 1, ?_,
        show 2 ≤ 3 by decide, rfl, rfl, ?_⟩
      · simp only [List.forall_mem_cons, List.not_mem_nil, false_imp_iff, implies_true, and_true]
        omega
      · simp only [lastBytes, Prod.mk.injEq, List.cons.injEq, and_true, ← UInt8.toNat_inj,
          UInt8.toNat_ofNat']
        omega
  | [x, y, z] =>
      have hx := x.toNat_lt
      have hy := y.toNat_lt
      have hz := z.toNat_lt
      refine ⟨[x.toNat / 4, x.toNat % 4 * 16 + y.toNat / 16, y.toNat % 16 * 4 + z.toNat / 64,
        z.toNat % 64], 0, ?_, show 2 ≤ 4 by decide, rfl, rfl, ?_⟩
      · simp only [List.forall_mem_cons, List.not_mem_nil, false_imp_iff, implies_true, and_true]
        omega
      · simp only [lastBytes, Prod.mk.injEq, List.cons.injEq, and_true, ← UInt8.toNat_inj,
          UInt8.toNat_ofNat']
        omega
  | _ :: _ :: _ :: _ :: _ => exact absurd hle (by simp only [List.length_cons]; omega)

/-! ### Encodings -/

theorem checkStray_of_length (codes : List UInt8) (h : codes.length % 4 = 0) :
    checkStray codes = .ok () := by
  unfold checkStray
  split
  · rw [if_neg fun hstray => by omega]
  · rfl

/-- What is decoded comes in groups of four. -/
theorem length_of_decodeBytes (codes bytes : List UInt8) (h : decodeBytes codes = .ok bytes) :
    codes.length % 4 = 0 := by
  simp only [decodeBytes, bind_eq_ok_iff, reject_eq_ok_iff] at h
  rcases h with ⟨_, _, _, _, _, _, _, hlength, _⟩
  rw [not_not, List.length_drop, lastStart] at hlength
  omega

/-- Groups in front and a last group are decoded one after the other. -/
theorem decodeBytes_append_eq_ok_iff {front group bytes : List UInt8} (hf : 4 ∣ front.length)
    (hg : group.length = 4) : decodeBytes (front ++ group) = .ok bytes ↔
      ∃ whole values count, ((∀ v ∈ whole, v < 64) ∧ front = whole.map symbol) ∧
        ((∀ v ∈ values, v < 64) ∧ group = values.map symbol ++ List.replicate count pad) ∧
        2 ≤ values.length ∧ ∃ tail, lastBytes values = (tail, 0) ∧
          bytes = groupBytes whole ++ tail := by
  have hlength : (front ++ group).length = front.length + 4 := by rw [List.length_append, hg]
  -- The last group begins behind the whole ones, so the bytes are cut where the lists are joined.
  have hstart : lastStart (front ++ group).length = front.length := by
    rw [lastStart, hlength]
    omega
  simp only [decodeBytes, bind_eq_ok_iff, reject_eq_ok_iff, pure_eq_ok_iff, hstart,
    List.take_left, List.drop_left, symbolValues_eq_ok_iff, lastValues_eq_ok_iff, hg,
    checkStray_of_length _ (show (front ++ group).length % 4 = 0 by omega)]
  constructor
  · rintro ⟨_, _, whole, hwhole, values, ⟨hv, count, hgroup, hcount⟩, _, _, hloose, rfl⟩
    refine ⟨whole, values, count, hwhole, ⟨hv, hgroup⟩, ?_, _, ?_, rfl⟩
    · rw [hgroup, List.length_append, List.length_map, List.length_replicate] at hg
      omega
    · rw [← not_not.mp hloose]
  · rintro ⟨whole, values, count, hwhole, ⟨hv, hgroup⟩, hle, tail, hlast, rfl⟩
    refine ⟨(), trivial, whole, hwhole, values, ⟨hv, count, hgroup, Or.inr (by omega)⟩,
      ?_, ?_, ?_, ?_⟩
    · -- With two symbols or more there is no fault for too few.
      exact fun hfew => by omega
    · exact not_not.mpr rfl
    · rw [hlast]
      exact not_not.mpr rfl
    · rw [hlast]

theorem decodeBytes_eq_ok_iff (codes bytes : List UInt8) :
    decodeBytes codes = .ok bytes ↔ codes = encodeBytes bytes := by
  constructor
  · intro h
    have hlength := length_of_decodeBytes codes bytes h
    rcases Nat.eq_zero_or_pos codes.length with hzero | hpos
    · rw [List.length_eq_zero_iff.mp hzero] at h ⊢
      cases h
      rfl
    · -- The last group is what is behind the others. It has four places, as padding counts.
      rw [← List.take_append_drop (codes.length - 4) codes] at h ⊢
      have hf : 4 ∣ (codes.take (codes.length - 4)).length := by
        rw [List.length_take]
        omega
      have hg : (codes.drop (codes.length - 4)).length = 4 := by
        rw [List.length_drop]
        omega
      rcases (decodeBytes_append_eq_ok_iff hf hg).mp h with
        ⟨whole, values, count, ⟨hwhole, hfront⟩, ⟨hv, hgroup⟩, hle, tail, hlast, rfl⟩
      rw [hgroup, List.length_append, List.length_map, List.length_replicate] at hg
      rw [hfront, List.length_map] at hf
      rw [encodeBytes_groupBytes_append tail whole hf hwhole,
        encodeBytes_of_lastBytes values hv count hg hle tail hlast, hfront, hgroup]
  · rintro rfl
    rcases exists_groups bytes with ⟨whole, tail, hlength, hwhole, rfl, hle, hempty⟩
    by_cases hne : tail = []
    · rw [hne, hempty hne]
      rfl
    · rcases exists_lastValues tail hne hle with ⟨values, count, hv, hmany, hfour, htail, hlast⟩
      rw [encodeBytes_groupBytes_append tail whole hlength hwhole]
      refine (decodeBytes_append_eq_ok_iff ?_ ?_).mpr
        ⟨whole, values, count, ⟨hwhole, rfl⟩, ⟨hv, htail⟩, hmany, tail, hlast, rfl⟩
      · rwa [List.length_map]
      · rw [htail, List.length_append, List.length_map, List.length_replicate, hfour]

/-! ### Texts -/

theorem ascii_encodeBytes : ∀ bytes : List UInt8, ∀ code ∈ encodeBytes bytes, code.toNat < 128
  | [] => List.forall_mem_nil _
  | [a] => by
      simp only [encodeBytes, List.forall_mem_cons]
      exact ⟨symbol_ascii _, symbol_ascii _, by decide, by decide, List.forall_mem_nil _⟩
  | [a, b] => by
      simp only [encodeBytes, List.forall_mem_cons]
      exact ⟨symbol_ascii _, symbol_ascii _, symbol_ascii _, by decide, List.forall_mem_nil _⟩
  | a :: b :: c :: rest => by
      simp only [encodeBytes, List.forall_mem_cons]
      exact ⟨symbol_ascii _, symbol_ascii _, symbol_ascii _, symbol_ascii _,
        ascii_encodeBytes rest⟩

/-- A text is read as some bytes exactly if it is their encoding. -/
theorem decode_eq_ok_iff (text : String) (bytes : List UInt8) :
    decode text = .ok bytes ↔ text = encode bytes := by
  have hascii : ∀ c ∈ Instant.byteChars (encodeBytes bytes), c.toNat < 128 := by
    intro c hc
    rcases List.mem_map.mp hc with ⟨code, hcode, rfl⟩
    rw [toNat_ofNat_byte]
    exact ascii_encodeBytes bytes code hcode
  have htext : text = encode bytes ↔ text.toList = Instant.byteChars (encodeBytes bytes) := by
    rw [← String.toList_inj, encode, String.toList_ofList]
    rfl
  rw [htext, ← byteForm_eq_iff _ _ hascii, decode, decodeBytes_eq_ok_iff]
  exact byteChars_injective.eq_iff.symm

end Base64

end Schemata
