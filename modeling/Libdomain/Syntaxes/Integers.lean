import Libdomain.Text.Decimal
import Libdomain.Ragel.Scan
import Libdomain.Syntaxes.DistinguishedName

/-! # Integers

The machine of `integer.rl`, and its use in `validate_integer` and
`validate_large_integer` together with `strtol` and `strtoll`.
-/
namespace Libdomain.Syntaxes
open Libdomain.Connection Libdomain.Ragel Libdomain.Ragel.Expr Libdomain.Text

namespace Integers

def LDIGIT : Syntax := range 0x31 0x39
def DIGIT : Syntax := any (char 0x30) [LDIGIT]
def HYPHEN : Syntax := char 0x2d
def number : Syntax := any DIGIT [cat [LDIGIT, plus DIGIT]]
def integer : Syntax := any (cat [HYPHEN, LDIGIT, star DIGIT]) [number]

theorem productive_integer : integer.Productive := by decide

end Integers

def isInteger (input : Bytes) : Bool := Syntax.accepted Integers.integer input

/-- The range of `long` and of `long long`. -/
def longMin : ℤ := -2 ^ 63
def longMax : ℤ := 2 ^ 63 - 1

def isSpace (c : UInt8) : Bool := c == 0x20 || 0x09 ≤ c && c ≤ 0x0d

/-- The number at the beginning of a text: an optional sign and the longest row of digits
behind white space. -/
def leadingNumber (text : Bytes) : ℤ :=
  match text.dropWhile isSpace with
  | [] => 0
  | c :: rest =>
    if c = 0x2d then -value (rest.takeWhile isDigit)
    else if c = 0x2b then value (rest.takeWhile isDigit)
    else value ((c :: rest).takeWhile isDigit)

/-- `strtol` in base 10: the value, and whether `errno` is set. -/
def strtol (text : Bytes) : ℤ × Bool :=
  if leadingNumber text < longMin then (longMin, true)
  else if longMax < leadingNumber text then (longMax, true)
  else (leadingNumber text, false)

/-- `strtoll` in base 10. -/
def strtoll (text : Bytes) : ℤ × Bool := strtol text

/-- An array of zeros after `memcpy` of a shorter text to its beginning. -/
def buffer (size : ℕ) (value : Bytes) : Bytes := value ++ List.replicate (size - value.length) 0

def validateInteger : Option Bytes → Bool :=
  validate fun value =>
    let size := (ascii "-2147483648").length + 1
    if value.length ≥ size then false
    else if isInteger value then
      let ivalue := strtol (buffer size value)
      if ivalue.2 then false
      else if ivalue.1 < -2147483648 || ivalue.1 > 2147483647 then false
      else true
    else false

def validateLargeInteger : Option Bytes → Bool :=
  validate fun value =>
    let size := (ascii "-9223372036854775808").length + 1
    if value.length ≥ size then false
    else if isInteger value then
      if (strtoll (buffer size value)).2 then false else true
    else false

theorem covers_LDIGIT (c : UInt8) : Integers.LDIGIT.covers c = true ↔ isDigit c = true ∧ c ≠ 0x30 := by
  rw [isDigit_iff, ← UInt8.toNat_inj.ne]
  simp only [Integers.LDIGIT, covers, decide_eq_true_eq, UInt8.le_iff_toNat_le]
  change 0x31 ≤ c.toNat ∧ c.toNat ≤ 0x39 ↔ (0x30 ≤ c.toNat ∧ c.toNat ≤ 0x39) ∧ c.toNat ≠ 0x30
  omega

theorem covers_DIGIT (c : UInt8) : Integers.DIGIT.covers c = true ↔ isDigit c = true := by
  rw [isDigit_iff]
  simp only [Integers.DIGIT, Integers.LDIGIT, any, char, covers, Bool.or_eq_true, decide_eq_true_eq,
    UInt8.le_iff_toNat_le]
  change 0x30 ≤ c.toNat ∧ c.toNat ≤ 0x30 ∨ 0x31 ≤ c.toNat ∧ c.toNat ≤ 0x39 ↔ 0x30 ≤ c.toNat ∧ c.toNat ≤ 0x39
  omega

theorem digits_language (w : Bytes) : w ∈ (star Integers.DIGIT).language ↔ ∀ c ∈ w, isDigit c = true := by
  rw [star_class_language rfl]
  simp only [covers_DIGIT]

theorem canonical_cons {c : UInt8} {rest : Bytes} (hc : isDigit c = true) (hne : c ≠ 0x30)
    (hrest : ∀ d ∈ rest, isDigit d = true) : Canonical (c :: rest) := by
  refine ⟨List.forall_mem_cons.mpr ⟨hc, hrest⟩, by simp, ?_⟩
  intro hhead
  rw [List.head?_cons, Option.some.injEq] at hhead
  exact absurd hhead hne

/-- Rows of digits that begin with a `LDIGIT`. -/
theorem leading_language (w : Bytes) :
    w ∈ (cat [Integers.LDIGIT, star Integers.DIGIT]).language ↔ Canonical w ∧ w ≠ [0x30] := by
  change w ∈ Integers.LDIGIT.language * (star Integers.DIGIT).language ↔ _
  rw [mem_class_mul rfl]
  constructor
  · rintro ⟨c, rest, hc, hrest, rfl⟩
    rw [covers_LDIGIT] at hc
    rw [digits_language] at hrest
    exact ⟨canonical_cons hc.1 hc.2 hrest, by simp [hc.2]⟩
  · rintro ⟨h, hne⟩
    obtain ⟨c, rest, rfl⟩ := List.exists_cons_of_ne_nil h.nonempty
    obtain ⟨hc, hrest⟩ := List.forall_mem_cons.mp h.digits
    refine ⟨c, rest, (covers_LDIGIT c).mpr ⟨hc, ?_⟩, (digits_language rest).mpr hrest, rfl⟩
    rintro rfl
    exact hne (h.head rfl)

theorem number_language (w : Bytes) : w ∈ Integers.number.language ↔ Canonical w := by
  change w ∈ Integers.DIGIT.language + Integers.LDIGIT.language * (plus Integers.DIGIT).language ↔ _
  rw [Language.mem_add, class_language rfl, mem_class_mul rfl]
  constructor
  · rintro (⟨c, hc, rfl⟩ | ⟨c, rest, hc, hrest, rfl⟩)
    · rw [covers_DIGIT] at hc
      exact ⟨by simpa using hc, by simp, by simp⟩
    · rw [covers_LDIGIT] at hc
      have hdigits := covers_of_mem (e := plus Integers.DIGIT) hrest
      simp only [plus, covers, Bool.or_self] at hdigits
      exact canonical_cons hc.1 hc.2 fun d hd => (covers_DIGIT d).mp (hdigits d hd)
  · intro h
    obtain ⟨c, rest, rfl⟩ := List.exists_cons_of_ne_nil h.nonempty
    obtain ⟨hc, hrest⟩ := List.forall_mem_cons.mp h.digits
    cases rest with
    | nil => exact .inl ⟨c, (covers_DIGIT c).mpr hc, rfl⟩
    | cons d rest =>
      obtain ⟨hd, hrest⟩ := List.forall_mem_cons.mp hrest
      refine .inr ⟨c, d :: rest, (covers_LDIGIT c).mpr ⟨hc, ?_⟩, ?_, rfl⟩
      · rintro rfl
        cases h.head rfl
      · exact (mem_class_mul rfl).mpr ⟨d, rest, (covers_DIGIT d).mpr hd, (digits_language rest).mpr hrest, rfl⟩

/-- The sentences of `Integer` are the numerals. -/
theorem integer_language (w : Bytes) : w ∈ Integers.integer.language ↔ ∃ n, w = decimal n := by
  change w ∈ Integers.HYPHEN.language * (cat [Integers.LDIGIT, star Integers.DIGIT]).language +
    Integers.number.language ↔ _
  rw [decimal_cases, Language.mem_add, number_language, or_comm, mem_class_mul rfl]
  simp only [leading_language, Integers.HYPHEN, char, covers, decide_eq_true_eq, and_assoc]
  constructor
  · rintro (h | ⟨c, ds, hge, hle, h, hne, rfl⟩)
    · exact .inl h
    · exact .inr ⟨ds, h, hne, by rw [UInt8.le_antisymm hle hge]⟩
  · rintro (h | ⟨ds, h, hne, rfl⟩)
    · exact .inl h
    · exact .inr ⟨0x2d, ds, UInt8.le_refl _, UInt8.le_refl _, h, hne, rfl⟩

/-- The machine accepts the numerals, and the sign that begins one. -/
theorem isInteger_iff (w : Bytes) : isInteger w = true ↔ w = [] ∨ w = [0x2d] ∨ ∃ n, w = decimal n := by
  rw [isInteger, Syntax.accepted_iff Integers.productive_integer]
  simp only [integer_language]
  constructor
  · rintro ⟨v, hv⟩
    rw [decimal_cases] at hv ⊢
    by_cases hempty : w = []
    · exact .inl hempty
    rcases hv with h | ⟨ds, h, hne, hds⟩
    · exact .inr (.inr (.inl (h.of_append hempty)))
    obtain ⟨c, u, rfl⟩ := List.exists_cons_of_ne_nil hempty
    rw [List.cons_append, List.cons.injEq] at hds
    obtain ⟨rfl, rfl⟩ := hds
    by_cases hu : u = []
    · exact .inr (.inl (by rw [hu]))
    · refine .inr (.inr (.inr ⟨u, h.of_append hu, ?_, rfl⟩))
      rintro rfl
      exact hne (h.head rfl)
  · rintro (rfl | rfl | ⟨n, rfl⟩)
    · exact ⟨decimal 0, 0, rfl⟩
    · exact ⟨[0x31], -1, by decide⟩
    · exact ⟨[], n, List.append_nil _⟩

theorem takeWhile_digits {ds zeros : Bytes} (h : ∀ c ∈ ds, isDigit c = true) (hz : ∀ c ∈ zeros, c = 0) :
    (ds ++ zeros).takeWhile isDigit = ds := by
  rw [List.takeWhile_append_of_pos h]
  cases zeros with
  | nil => simp
  | cons c zeros =>
    rw [hz c List.mem_cons_self]
    simp [isDigit]

theorem leadingNumber_decimal (n : ℤ) {zeros : Bytes} (hz : ∀ c ∈ zeros, c = 0) :
    leadingNumber (decimal n ++ zeros) = n := by
  cases n with
  | ofNat n =>
    have h := canonical_numeral n
    obtain ⟨c, rest, hnumeral⟩ := List.exists_cons_of_ne_nil h.nonempty
    have hc : isDigit c = true := h.digits c (by rw [hnumeral]; exact List.mem_cons_self)
    have hrange := (isDigit_iff c).mp hc
    have hspace : isSpace c = false := by
      simp [isSpace, UInt8.le_iff_toNat_le, ← UInt8.toNat_inj]
      omega
    have hminus : c ≠ 0x2d := by
      rintro rfl
      exact absurd hc (by decide)
    have hplus : c ≠ 0x2b := by
      rintro rfl
      exact absurd hc (by decide)
    have htake := takeWhile_digits h.digits hz
    rw [hnumeral, List.cons_append] at htake
    rw [decimal, leadingNumber, hnumeral, List.cons_append, List.dropWhile_cons_of_neg (by simp [hspace])]
    simp only [hminus, hplus, if_false, htake, ← hnumeral, value_numeral]
    rfl
  | negSucc n =>
    have htake := takeWhile_digits (canonical_numeral (n + 1)).digits hz
    rw [decimal, leadingNumber, List.cons_append, List.dropWhile_cons_of_neg (by decide)]
    simp only [if_true, htake, value_numeral]
    rfl

theorem strtol_decimal (n : ℤ) {zeros : Bytes} (hz : ∀ c ∈ zeros, c = 0) :
    strtol (decimal n ++ zeros) =
      if n < longMin then (longMin, true) else if longMax < n then (longMax, true) else (n, false) := by
  rw [strtol, leadingNumber_decimal n hz]

theorem length_decimal_le {n : ℤ} {k : ℕ} (hk : 0 < k) (h : n.natAbs < 10 ^ k) : (decimal n).length ≤ k + 1 := by
  cases n with
  | ofNat n => exact (length_numeral_le hk h).trans (Nat.le_succ k)
  | negSucc n => exact Nat.succ_le_succ (length_numeral_le hk h)

theorem decimal_ne_nil (n : ℤ) : decimal n ≠ [] := by
  cases n with
  | ofNat n => exact (canonical_numeral n).nonempty
  | negSucc n => exact List.cons_ne_nil _ _

theorem validateInteger_checks (s : Bytes) :
    validateInteger (some s) = true ↔ s ≠ [] ∧ s.length < 12 ∧ isInteger s = true ∧
      (strtol (buffer 12 s)).2 = false ∧ -2 ^ 31 ≤ (strtol (buffer 12 s)).1 ∧ (strtol (buffer 12 s)).1 < 2 ^ 31 := by
  have hsize : (ascii "-2147483648").length + 1 = 12 := rfl
  rw [validateInteger, validate_iff]
  simp only [hsize]
  split_ifs with hlength hinteger herrno hrange
  · simp [hlength]
  · simp [herrno]
  · simp only [Bool.or_eq_true, decide_eq_true_eq] at hrange
    simp only [and_false, false_iff]
    omega
  · simp only [Bool.or_eq_true, decide_eq_true_eq] at hrange
    simp only [and_true, hinteger, herrno]
    exact ⟨fun hne => ⟨hne, by omega, trivial, trivial, by omega, by omega⟩, fun h => h.1⟩
  · simp [hinteger]

theorem validateLargeInteger_checks (s : Bytes) :
    validateLargeInteger (some s) = true ↔ s ≠ [] ∧ s.length < 21 ∧ isInteger s = true ∧
      (strtoll (buffer 21 s)).2 = false := by
  have hsize : (ascii "-9223372036854775808").length + 1 = 21 := rfl
  rw [validateLargeInteger, validate_iff]
  simp only [hsize]
  split_ifs with hlength hinteger herrno
  · simp [hlength]
  · simp [herrno]
  · simp [herrno, hinteger, Nat.lt_of_not_ge hlength]
  · simp [hinteger]

theorem zeros_buffer (size : ℕ) (s : Bytes) : ∀ c ∈ List.replicate (size - s.length) (0 : UInt8), c = 0 :=
  fun _ hc => (List.mem_replicate.mp hc).2

/-- `validate_integer` accepts the numerals of its range, and the sign alone. -/
theorem validateInteger_accepts (s : Bytes) :
    validateInteger (some s) = true ↔ s = [0x2d] ∨ ∃ n, -2 ^ 31 ≤ n ∧ n < 2 ^ 31 ∧ s = decimal n := by
  rw [validateInteger_checks, isInteger_iff]
  constructor
  · rintro ⟨hne, -, hs | hs | ⟨n, rfl⟩, herrno, hlo, hhi⟩
    · exact absurd hs hne
    · exact .inl hs
    · rw [buffer, strtol_decimal n (zeros_buffer 12 _)] at herrno hlo hhi
      split_ifs at herrno hlo hhi with hmin hmax
      exact .inr ⟨n, hlo, hhi, rfl⟩
  · rintro (rfl | ⟨n, hlo, hhi, rfl⟩)
    · exact ⟨by decide, by decide, .inr (.inl rfl), by decide, by decide, by decide⟩
    · have hmin : ¬n < longMin := by rw [longMin]; omega
      have hmax : ¬longMax < n := by rw [longMax]; omega
      have hlength := length_decimal_le (n := n) (k := 10) (by decide) (by omega)
      rw [buffer, strtol_decimal n (zeros_buffer 12 _), if_neg hmin, if_neg hmax]
      exact ⟨decimal_ne_nil n, by omega, .inr (.inr ⟨n, rfl⟩), rfl, hlo, hhi⟩

/-- `validate_large_integer` accepts the numerals of its range, and the sign alone. -/
theorem validateLargeInteger_accepts (s : Bytes) :
    validateLargeInteger (some s) = true ↔ s = [0x2d] ∨ ∃ n, -2 ^ 63 ≤ n ∧ n < 2 ^ 63 ∧ s = decimal n := by
  rw [validateLargeInteger_checks, isInteger_iff, strtoll]
  constructor
  · rintro ⟨hne, -, hs | hs | ⟨n, rfl⟩, herrno⟩
    · exact absurd hs hne
    · exact .inl hs
    · rw [buffer, strtol_decimal n (zeros_buffer 21 _)] at herrno
      split_ifs at herrno with hmin hmax
      rw [longMin] at hmin
      rw [longMax] at hmax
      exact .inr ⟨n, by omega, by omega, rfl⟩
  · rintro (rfl | ⟨n, hlo, hhi, rfl⟩)
    · exact ⟨by decide, by decide, .inr (.inl rfl), by decide⟩
    · have hmin : ¬n < longMin := by rw [longMin]; omega
      have hmax : ¬longMax < n := by rw [longMax]; omega
      have hlength := length_decimal_le (n := n) (k := 19) (by decide) (by omega)
      rw [buffer, strtol_decimal n (zeros_buffer 21 _), if_neg hmin, if_neg hmax]
      exact ⟨decimal_ne_nil n, by omega, .inr (.inr ⟨n, rfl⟩), rfl⟩

theorem sign_ne_decimal (n : ℤ) : [0x2d] ≠ decimal n := by
  cases n with
  | ofNat n =>
    intro h
    exact absurd ((canonical_numeral n).digits 0x2d (by rw [show numeral n = [0x2d] from h.symm]; simp)) (by decide)
  | negSucc n =>
    intro h
    exact (canonical_numeral (n + 1)).nonempty (List.cons.inj h).2.symm

/-- Both validators accept exactly the numerals of their ranges, among all texts but the
sign alone. -/
theorem validateIntegers_iff (s : Bytes) :
    ((validateInteger (some s) = true ↔ ∃ n, -2 ^ 31 ≤ n ∧ n < 2 ^ 31 ∧ s = decimal n) ∧
      (validateLargeInteger (some s) = true ↔ ∃ n, -2 ^ 63 ≤ n ∧ n < 2 ^ 63 ∧ s = decimal n)) ↔ s ≠ ascii "-" := by
  rw [validateInteger_accepts, validateLargeInteger_accepts, show ascii "-" = [0x2d] from rfl]
  constructor
  · rintro ⟨h, -⟩ rfl
    obtain ⟨n, -, -, hn⟩ := h.mp (.inl rfl)
    exact sign_ne_decimal n hn
  · intro hne
    simp [hne]

/-- The sign alone is accepted. -/
theorem validateIntegers_sign :
    ¬(validateInteger (some (ascii "-")) = true ↔ ∃ n, -2 ^ 31 ≤ n ∧ n < 2 ^ 31 ∧ ascii "-" = decimal n) ∧
      ¬(validateLargeInteger (some (ascii "-")) = true ↔
        ∃ n, -2 ^ 63 ≤ n ∧ n < 2 ^ 63 ∧ ascii "-" = decimal n) := by
  constructor
  · intro h
    obtain ⟨n, -, -, hn⟩ := h.mp (by decide)
    exact sign_ne_decimal n hn
  · intro h
    obtain ⟨n, -, -, hn⟩ := h.mp (by decide)
    exact sign_ne_decimal n hn

end Libdomain.Syntaxes
