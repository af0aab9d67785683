import Mathlib.Data.List.Basic

/-! # UTF-8

The byte sequences that encode one character, and the texts that break off inside one.
Encodings of characters are never beginnings of each other.
-/
namespace Libdomain.Text

def encode (cs : List Char) : List UInt8 := cs.flatMap String.utf8EncodeChar

/-- An encoding that ends inside a character. -/
def CutOff (s : List UInt8) : Prop :=
  ∃ cs c u v, s = encode cs ++ u ∧ u ≠ [] ∧ v ≠ [] ∧ String.utf8EncodeChar c = u ++ v

def Tail (b : UInt8) : Prop := 0x80 ≤ b.toNat ∧ b.toNat ≤ 0xbf

/-- The sequences of one to four bytes that are neither overlong nor stand for a surrogate or
a number above the last code point. -/
def Sequence : List UInt8 → Prop
  | [a] => a.toNat ≤ 0x7f
  | [a, b] => (0xc2 ≤ a.toNat ∧ a.toNat ≤ 0xdf) ∧ Tail b
  | [a, b, c] =>
    (0xe0 ≤ a.toNat ∧ a.toNat ≤ 0xef) ∧ Tail b ∧ Tail c ∧ (a.toNat = 0xe0 → 0xa0 ≤ b.toNat) ∧
      (a.toNat = 0xed → b.toNat ≤ 0x9f)
  | [a, b, c, d] =>
    (0xf0 ≤ a.toNat ∧ a.toNat ≤ 0xf4) ∧ Tail b ∧ Tail c ∧ Tail d ∧ (a.toNat = 0xf0 → 0x90 ≤ b.toNat) ∧
      (a.toNat = 0xf4 → b.toNat ≤ 0x8f)
  | _ => False

theorem toNat_ofNat_of_lt {n : ℕ} (h : n < 256) : (UInt8.ofNat n).toNat = n := by
  rw [UInt8.toNat_ofNat', Nat.mod_eq_of_lt h]

/-- A byte is known by its number. -/
theorem ofNat_eq {n : ℕ} {a : UInt8} (h : n = a.toNat) : UInt8.ofNat n = a := by
  rw [h, UInt8.ofNat_toNat]

theorem sequence_encodeChar (c : Char) : Sequence (String.utf8EncodeChar c) := by
  have hvalid : c.val.toNat < 0xd800 ∨ 0xdfff < c.val.toNat ∧ c.val.toNat < 0x110000 := c.valid
  rw [String.utf8EncodeChar]
  generalize c.val.toNat = v at hvalid
  split_ifs with h1 h2 h3
  · rw [Sequence, toNat_ofNat_of_lt (by omega)]
    exact h1
  · simp only [Sequence, Tail]
    rw [toNat_ofNat_of_lt (by omega), toNat_ofNat_of_lt (by omega)]
    omega
  · simp only [Sequence, Tail]
    rw [toNat_ofNat_of_lt (by omega), toNat_ofNat_of_lt (by omega), toNat_ofNat_of_lt (by omega)]
    omega
  · simp only [Sequence, Tail]
    rw [toNat_ofNat_of_lt (by omega), toNat_ofNat_of_lt (by omega), toNat_ofNat_of_lt (by omega),
      toNat_ofNat_of_lt (by omega)]
    omega

/-- The character with a given number. -/
theorem exists_char {v : ℕ} (h : v < 0xd800 ∨ 0xdfff < v ∧ v < 0x110000) : ∃ c : Char, c.val.toNat = v :=
  ⟨Char.ofNatAux v h, rfl⟩

theorem Sequence.encodes {w : List UInt8} (h : Sequence w) : ∃ c, w = String.utf8EncodeChar c := by
  match w, h with
  | [a], h =>
    rw [Sequence] at h
    obtain ⟨c, hc⟩ := exists_char (v := a.toNat) (by omega)
    refine ⟨c, ?_⟩
    rw [String.utf8EncodeChar, hc, if_pos h, ofNat_eq rfl]
  | [a, b], h =>
    simp only [Sequence, Tail] at h
    obtain ⟨c, hc⟩ := exists_char (v := (a.toNat - 0xc0) * 64 + (b.toNat - 0x80)) (by omega)
    refine ⟨c, ?_⟩
    rw [String.utf8EncodeChar, hc, if_neg (by omega), if_pos (by omega), ofNat_eq (a := a) (by omega),
      ofNat_eq (a := b) (by omega)]
  | [a, b, d], h =>
    simp only [Sequence, Tail] at h
    obtain ⟨c, hc⟩ := exists_char
      (v := (a.toNat - 0xe0) * 4096 + (b.toNat - 0x80) * 64 + (d.toNat - 0x80)) (by omega)
    refine ⟨c, ?_⟩
    rw [String.utf8EncodeChar, hc, if_neg (by omega), if_neg (by omega), if_pos (by omega),
      ofNat_eq (a := a) (by omega), ofNat_eq (a := b) (by omega), ofNat_eq (a := d) (by omega)]
  | [a, b, d, e], h =>
    simp only [Sequence, Tail] at h
    obtain ⟨c, hc⟩ := exists_char
      (v := (a.toNat - 0xf0) * 262144 + (b.toNat - 0x80) * 4096 + (d.toNat - 0x80) * 64 + (e.toNat - 0x80))
      (by omega)
    refine ⟨c, ?_⟩
    rw [String.utf8EncodeChar, hc, if_neg (by omega), if_neg (by omega), if_neg (by omega),
      ofNat_eq (a := a) (by omega), ofNat_eq (a := b) (by omega), ofNat_eq (a := d) (by omega),
      ofNat_eq (a := e) (by omega)]

/-- The sequences are the encodings of characters. -/
theorem sequence_iff (w : List UInt8) : Sequence w ↔ ∃ c, w = String.utf8EncodeChar c := by
  constructor
  · exact Sequence.encodes
  · rintro ⟨c, rfl⟩
    exact sequence_encodeChar c

theorem encodeChar_unique {c d : Char} {v w : List UInt8}
    (h : String.utf8EncodeChar c ++ v = String.utf8EncodeChar d ++ w) : c = d := by
  have hc := ByteArray.utf8DecodeChar?_utf8EncodeChar_append (b := v.toByteArray) (c := c)
  have hd := ByteArray.utf8DecodeChar?_utf8EncodeChar_append (b := w.toByteArray) (c := d)
  rw [← List.toByteArray_append, h, List.toByteArray_append, hd, Option.some.injEq] at hc
  exact hc.symm

theorem encode_cons (c : Char) (cs : List Char) : encode (c :: cs) = String.utf8EncodeChar c ++ encode cs := rfl

/-- A beginning of an encoding is an encoding, or ends inside a character. -/
theorem encode_prefix {cs : List Char} {s w : List UInt8} (h : s ++ w = encode cs) :
    (∃ ds, s = encode ds) ∨ CutOff s := by
  induction cs generalizing s with
  | nil => exact .inl ⟨[], (List.append_eq_nil_iff.mp h).1⟩
  | cons c cs ih =>
    rw [encode_cons] at h
    rcases List.append_eq_append_iff.mp h with ⟨v, hv, -⟩ | ⟨v, rfl, hv⟩
    · by_cases hs : s = []
      · exact .inl ⟨[], hs⟩
      · by_cases hempty : v = []
        · refine .inl ⟨[c], ?_⟩
          rw [hempty, List.append_nil] at hv
          rw [← hv, encode_cons]
          exact (List.append_nil _).symm
        · exact .inr ⟨[], c, s, v, rfl, hs, hempty, hv⟩
    · rcases ih hv.symm with ⟨ds, rfl⟩ | ⟨ds, d, u, x, rfl, hu, hx, hd⟩
      · exact .inl ⟨c :: ds, rfl⟩
      · exact .inr ⟨c :: ds, d, u, x, by rw [encode_cons, List.append_assoc], hu, hx, hd⟩

theorem CutOff.not_encode {s : List UInt8} (h : CutOff s) (ds : List Char) : s ≠ encode ds := by
  obtain ⟨cs, c, u, v, rfl, hu, hv, hc⟩ := h
  induction cs generalizing ds with
  | nil =>
    cases ds with
    | nil => exact hu
    | cons d ds =>
      intro heq
      rw [encode_cons] at heq
      change u = _ at heq
      have hcd : c = d := by
        refine encodeChar_unique (v := []) (w := encode ds ++ v) ?_
        rw [List.append_nil, hc, heq, List.append_assoc]
      have hlength := congrArg List.length hc
      rw [heq, hcd] at hlength
      simp only [List.length_append] at hlength
      exact hv (List.length_eq_zero_iff.mp (by omega))
  | cons b bs ih =>
    cases ds with
    | nil =>
      intro heq
      exact hu (List.append_eq_nil_iff.mp heq).2
    | cons d ds =>
      intro heq
      rw [encode_cons, encode_cons, List.append_assoc] at heq
      have hbd := encodeChar_unique heq
      rw [hbd] at heq
      exact ih ds (List.append_cancel_left heq)

theorem CutOff.completes {s : List UInt8} (h : CutOff s) : ∃ w cs, cs ≠ [] ∧ s ++ w = encode cs := by
  obtain ⟨cs, c, u, v, rfl, hu, hv, hc⟩ := h
  refine ⟨v, cs ++ [c], by simp, ?_⟩
  simp only [encode, List.flatMap_append, List.flatMap_singleton, hc, List.append_assoc]

end Libdomain.Text
