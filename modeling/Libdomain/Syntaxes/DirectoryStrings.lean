import Libdomain.Ragel.Rendering
import Libdomain.Ragel.Scan
import Libdomain.Syntaxes.DistinguishedName
import Libdomain.Text.Utf8

/-! # Directory strings

The machine of `directory_string.rl` and the three validators that ask it. Its language
is that of the encodings of nonempty texts.
-/
namespace Libdomain.Syntaxes
open Libdomain.Connection Libdomain.Ragel Libdomain.Ragel.Expr Libdomain.Text

namespace DirectoryStrings

def UTF1 : Syntax := range 0x00 0x7f

/-- `UTFMB` has the rules that `dn.rl` has for it. -/
def UTF8 : Syntax := any UTF1 [Dn.UTFMB]

def directoryString : Syntax := plus UTF8

theorem productive_directoryString : directoryString.Productive := by decide

end DirectoryStrings

def isDirectoryString (input : Bytes) : Bool := Syntax.accepted DirectoryStrings.directoryString input

def validateDirectoryString (value : Option Bytes) : Bool := validate isDirectoryString value

def validateCaseIgnoreString (value : Option Bytes) : Bool := validate isDirectoryString value

def validateCaseSensitiveString (value : Option Bytes) : Bool := validate isDirectoryString value

theorem covers_range (lo hi c : UInt8) :
    (range lo hi : Syntax).covers c = true ↔ lo.toNat ≤ c.toNat ∧ c.toNat ≤ hi.toNat := by
  simp [covers, UInt8.le_iff_toNat_le]

/-- The ranges of the grammar are those of the encodings. -/
theorem UTF8_language (w : Bytes) : w ∈ DirectoryStrings.UTF8.language ↔ Sequence w := by
  have hone : w ∈ DirectoryStrings.UTF1.language ↔ ∃ a, DirectoryStrings.UTF1.covers a = true ∧ w = [a] :=
    class_language rfl w
  simp (disch := decide) only [DirectoryStrings.UTF8, Dn.UTFMB, Dn.UTF2, Dn.UTF3, Dn.UTF4, any, language,
    Language.mem_add, cat_classes_language, hone]
  rcases w with _ | ⟨a, _ | ⟨b, _ | ⟨c, _ | ⟨d, _ | ⟨e, w⟩⟩⟩⟩⟩
  · simp [Sequence]
  · simp [Sequence, DirectoryStrings.UTF1, covers_range]
  · simp [Sequence, Tail, Dn.UTF0, covers_range]
  · simp [Sequence, Tail, Dn.UTF0, char, covers_range]
    omega
  · simp [Sequence, Tail, Dn.UTF0, char, covers_range]
    omega
  · simp [Sequence]

theorem renders_UTF8 : Renders DirectoryStrings.UTF8 String.utf8EncodeChar := by
  intro w
  rw [UTF8_language, sequence_iff]
  exact exists_congr fun c => eq_comm

/-- The sentences of `DirectoryString` are the encodings of nonempty texts. -/
theorem directoryString_language (w : Bytes) :
    w ∈ DirectoryStrings.directoryString.language ↔ ∃ cs, cs ≠ [] ∧ w = encode cs := by
  change w ∈ DirectoryStrings.UTF8.language * DirectoryStrings.UTF8.star.language ↔ _
  rw [Language.mem_mul]
  constructor
  · rintro ⟨u, hu, v, hv, rfl⟩
    obtain ⟨c, rfl⟩ := (renders_UTF8 u).mp hu
    obtain ⟨cs, rfl⟩ := (renders_UTF8.star v).mp hv
    exact ⟨c :: cs, List.cons_ne_nil c cs, rfl⟩
  · rintro ⟨cs, hne, rfl⟩
    obtain ⟨c, cs, rfl⟩ := List.exists_cons_of_ne_nil hne
    exact ⟨_, (renders_UTF8 _).mpr ⟨c, rfl⟩, _, (renders_UTF8.star _).mpr ⟨cs, rfl⟩, rfl⟩

/-- The proper beginnings of sentences are the encodings that end inside a character. -/
theorem cut_directoryString (value : Bytes) : Syntax.Cut DirectoryStrings.directoryString value ↔ CutOff value := by
  simp only [Syntax.Cut, directoryString_language]
  constructor
  · rintro ⟨hne, hnot, w, cs, -, hw⟩
    rcases encode_prefix hw with ⟨ds, rfl⟩ | h
    · refine absurd ⟨ds, ?_, rfl⟩ hnot
      rintro rfl
      exact hne rfl
    · exact h
  · intro h
    refine ⟨?_, ?_, h.completes⟩
    · rintro rfl
      exact h.not_encode [] rfl
    · rintro ⟨cs, -, hcs⟩
      exact h.not_encode cs hcs

/-- The texts that are to be accepted: the encodings of nonempty sequences of characters. -/
theorem validateDirectoryString_iff (value : Bytes) :
    ((validateDirectoryString (some value) = true ↔ ∃ cs, cs ≠ [] ∧ value = encode cs) ∧
      (validateCaseIgnoreString (some value) = true ↔ ∃ cs, cs ≠ [] ∧ value = encode cs) ∧
      (validateCaseSensitiveString (some value) = true ↔ ∃ cs, cs ≠ [] ∧ value = encode cs)) ↔ ¬CutOff value := by
  have hnonempty : (∃ cs, cs ≠ [] ∧ value = encode cs) ↔
      value ≠ [] ∧ value ∈ DirectoryStrings.directoryString.language := by
    rw [directoryString_language, iff_and_self]
    rintro ⟨cs, hne, rfl⟩ hempty
    obtain ⟨c, cs, rfl⟩ := List.exists_cons_of_ne_nil hne
    exact String.utf8EncodeChar_ne_nil (List.append_eq_nil_iff.mp hempty).1
  have hall : (validate isDirectoryString (some value) = true ↔ ∃ cs, cs ≠ [] ∧ value = encode cs) ↔
      ¬CutOff value := by
    rw [hnonempty, ← cut_directoryString]
    exact validate_accepted_iff DirectoryStrings.productive_directoryString value
  rw [← hall]
  exact ⟨fun h => h.1, fun h => ⟨h, h, h⟩⟩

/-- The first byte of a letter is accepted without the second. -/
theorem validateDirectoryString_cutOff :
    ¬(validateDirectoryString (some [0xc3]) = true ↔ ∃ cs, cs ≠ [] ∧ ([0xc3] : Bytes) = encode cs) := by
  intro h
  obtain ⟨cs, -, hcs⟩ := h.mp (by decide)
  have hcut : CutOff [0xc3] := ⟨[], Char.ofNat 0xe4, [0xc3], [0xa4], rfl, by simp, by simp, rfl⟩
  exact hcut.not_encode cs hcs

end Libdomain.Syntaxes
