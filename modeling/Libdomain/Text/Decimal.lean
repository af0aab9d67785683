import Mathlib.Data.Nat.Digits.Lemmas

/-! # Decimal numerals

Integers written in ASCII digits without leading zeros. A canonical row of digits is the
numeral of its value, and every numeral is canonical.
-/
namespace Libdomain.Text

def isDigit (c : UInt8) : Bool := 0x30 ≤ c && c ≤ 0x39

def digit (n : ℕ) : UInt8 := UInt8.ofNat (0x30 + n)

def digitValue (c : UInt8) : ℕ := c.toNat - 0x30

/-- The number a row of digits stands for. -/
def value (ds : List UInt8) : ℕ := ds.foldl (fun n c => 10 * n + digitValue c) 0

/-- The digits of a number, the most significant one first. -/
def numeral (n : ℕ) : List UInt8 := if n = 0 then [0x30] else (Nat.digits 10 n).reverse.map digit

/-- The numeral of an integer: without a plus sign, and without a minus sign at zero. -/
def decimal : ℤ → List UInt8
  | .ofNat n => numeral n
  | .negSucc n => 0x2d :: numeral (n + 1)

/-- A row of digits without leading zeros. -/
structure Canonical (ds : List UInt8) : Prop where
  digits : ∀ c ∈ ds, isDigit c = true
  nonempty : ds ≠ []
  head : ds.head? = some 0x30 → ds = [0x30]

theorem isDigit_iff (c : UInt8) : isDigit c = true ↔ 0x30 ≤ c.toNat ∧ c.toNat ≤ 0x39 := by
  simp [isDigit, UInt8.le_iff_toNat_le]

theorem digit_toNat {n : ℕ} (h : n < 10) : (digit n).toNat = 0x30 + n := by
  rw [digit, UInt8.toNat_ofNat', Nat.mod_eq_of_lt (by omega)]

theorem isDigit_digit {n : ℕ} (h : n < 10) : isDigit (digit n) = true := by
  rw [isDigit_iff, digit_toNat h]
  omega

theorem digitValue_digit {n : ℕ} (h : n < 10) : digitValue (digit n) = n := by
  rw [digitValue, digit_toNat h]
  omega

theorem digitValue_lt {c : UInt8} (h : isDigit c = true) : digitValue c < 10 := by
  rw [isDigit_iff] at h
  rw [digitValue]
  omega

theorem digit_digitValue {c : UInt8} (h : isDigit c = true) : digit (digitValue c) = c := by
  rw [← UInt8.toNat_inj, digit_toNat (digitValue_lt h), digitValue]
  have hrange := (isDigit_iff c).mp h
  omega

theorem digitValue_eq_zero {c : UInt8} (h : isDigit c = true) : digitValue c = 0 ↔ c = 0x30 := by
  have hrange := (isDigit_iff c).mp h
  rw [digitValue, ← UInt8.toNat_inj]
  constructor
  · intro hzero
    change c.toNat = 48
    omega
  · intro hzero
    change c.toNat = 48 at hzero
    omega

theorem value_eq_ofDigits (ds : List UInt8) : value ds = Nat.ofDigits 10 (ds.reverse.map digitValue) := by
  induction ds using List.reverseRecOn with
  | nil => rfl
  | append_singleton ds c ih =>
    rw [value] at ih
    rw [value, List.foldl_append, ih]
    simp [Nat.ofDigits_cons]
    omega

theorem value_numeral (n : ℕ) : value (numeral n) = n := by
  rw [numeral]
  split_ifs with h
  · subst h
    rfl
  · have hdigits : (Nat.digits 10 n).map (digitValue ∘ digit) = Nat.digits 10 n := by
      rw [List.map_congr_left (g := id), List.map_id]
      intro d hd
      exact digitValue_digit (Nat.digits_lt_base (by decide) hd)
    rw [value_eq_ofDigits, ← List.map_reverse, List.reverse_reverse, List.map_map, hdigits, Nat.ofDigits_digits]

theorem canonical_numeral (n : ℕ) : Canonical (numeral n) := by
  rw [numeral]
  split_ifs with h
  · exact ⟨by simp [isDigit], by simp, fun _ => rfl⟩
  · have hne := Nat.digits_ne_nil_iff_ne_zero (b := 10).mpr h
    refine ⟨?_, by simpa using hne, ?_⟩
    · intro c hc
      obtain ⟨d, hd, rfl⟩ := List.mem_map.mp hc
      exact isDigit_digit (Nat.digits_lt_base (by decide) (List.mem_reverse.mp hd))
    · intro hhead
      rw [List.head?_map, List.head?_reverse, List.getLast?_eq_some_getLast hne, Option.map_some,
        Option.some.injEq] at hhead
      have hlast : (Nat.digits 10 n).getLast hne < 10 := Nat.digits_lt_base (by decide) (List.getLast_mem hne)
      have hzero := digitValue_digit hlast
      rw [hhead] at hzero
      exact absurd hzero.symm (Nat.getLast_digit_ne_zero 10 h)

/-- A canonical row of digits is the numeral of its value. -/
theorem numeral_value {ds : List UInt8} (h : Canonical ds) : numeral (value ds) = ds := by
  have hlt : ∀ d ∈ ds.reverse.map digitValue, d < 10 := by
    intro d hd
    obtain ⟨c, hc, rfl⟩ := List.mem_map.mp hd
    exact digitValue_lt (h.digits c (List.mem_reverse.mp hc))
  have hback : (ds.reverse.map digitValue).reverse.map digit = ds := by
    simp only [List.map_reverse, List.reverse_reverse, List.map_map]
    rw [List.map_congr_left (g := id), List.map_id]
    exact fun c hc => digit_digitValue (h.digits c hc)
  obtain ⟨c, rest, rfl⟩ := List.exists_cons_of_ne_nil h.nonempty
  have hc : isDigit c = true := h.digits c List.mem_cons_self
  by_cases hzero : c = 0x30
  · rw [h.head (by rw [hzero]; rfl)]
    rfl
  · have hdigits := Nat.digits_ofDigits 10 (by decide) _ hlt (by simp [digitValue_eq_zero hc, hzero])
    have hpos : value (c :: rest) ≠ 0 := by
      intro hvalue
      rw [value_eq_ofDigits] at hvalue
      rw [hvalue] at hdigits
      simp at hdigits
    rw [numeral, if_neg hpos, value_eq_ofDigits, hdigits, hback]

/-- Dropping digits at the end leaves no leading zero behind. -/
theorem Canonical.of_append {ds es : List UInt8} (h : Canonical (ds ++ es)) (hne : ds ≠ []) : Canonical ds := by
  obtain ⟨c, rest, rfl⟩ := List.exists_cons_of_ne_nil hne
  refine ⟨fun d hd => h.digits d (List.mem_append_left es hd), hne, ?_⟩
  intro hhead
  have hall := h.head hhead
  simp only [List.cons_append, List.cons.injEq, List.append_eq_nil_iff] at hall ⊢
  exact ⟨hall.1, hall.2.1⟩

theorem length_numeral_le {n k : ℕ} (hk : 0 < k) (h : n < 10 ^ k) : (numeral n).length ≤ k := by
  rw [numeral]
  split_ifs with hzero
  · exact hk
  · simpa using (Nat.digits_length_le_iff (by decide) n).mpr h

/-- A numeral is one of digits, behind a minus sign for the numbers below zero. -/
theorem decimal_cases (s : List UInt8) :
    (∃ n, s = decimal n) ↔ Canonical s ∨ ∃ ds, Canonical ds ∧ ds ≠ [0x30] ∧ s = 0x2d :: ds := by
  constructor
  · rintro ⟨n | n, rfl⟩
    · exact .inl (canonical_numeral n)
    · refine .inr ⟨numeral (n + 1), canonical_numeral _, ?_, rfl⟩
      intro h
      have hvalue := value_numeral (n + 1)
      rw [h] at hvalue
      cases hvalue
  · rintro (h | ⟨ds, h, hne, rfl⟩)
    · exact ⟨.ofNat (value s), (numeral_value h).symm⟩
    · have hpos : value ds ≠ 0 := by
        intro hzero
        rw [← numeral_value h, hzero] at hne
        exact hne rfl
      obtain ⟨n, hn⟩ := Nat.exists_eq_succ_of_ne_zero hpos
      refine ⟨.negSucc n, ?_⟩
      rw [decimal, ← Nat.succ_eq_add_one, ← hn, numeral_value h]

example : decimal (-120) = [0x2d, 0x31, 0x32, 0x30] := by decide

end Libdomain.Text
