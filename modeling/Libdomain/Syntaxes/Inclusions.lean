import Libdomain.Parsers.Description
import Libdomain.Syntaxes.DirectoryStrings
import Libdomain.Syntaxes.Integers
import Libdomain.Syntaxes.TimesAndOids

/-! # Which syntaxes contain which

The remaining machines and validators of `ldap_syntaxes.c`, and the order of all of them: which
validator accepts whatever another one accepts.
-/
namespace Libdomain.Syntaxes
open Libdomain.Connection Libdomain.Ragel Libdomain.Ragel.Expr Libdomain.Text

def Booleans.boolean : Syntax := any (Parsers.nocase (ascii "TRUE")) [Parsers.nocase (ascii "FALSE")]

namespace NumericStrings

def LDIGIT : Syntax := range 0x31 0x39
def DIGIT : Syntax := any (char 0x30) [LDIGIT]
def SPACE : Syntax := char 0x20
def numericString : Syntax := plus (any DIGIT [SPACE])

end NumericStrings

namespace PrintableStrings

def ALPHA : Syntax := any (range 0x41 0x5a) [range 0x61 0x7a]
def LDIGIT : Syntax := range 0x31 0x39
def DIGIT : Syntax := any (char 0x30) [LDIGIT]
def SQUOTE : Syntax := char 0x27
def LPAREN : Syntax := char 0x28
def RPAREN : Syntax := char 0x29
def PLUS : Syntax := char 0x2b
def COMMA : Syntax := char 0x2c
def HYPHEN : Syntax := char 0x2d
def DOT : Syntax := char 0x2e
def EQUALS : Syntax := char 0x3d
def SLASH : Syntax := char 0x2f
def COLON : Syntax := char 0x3a
def QUESTION : Syntax := char 0x3f
def SPACE : Syntax := char 0x20
def printableCharacter : Syntax :=
  any ALPHA [DIGIT, SQUOTE, LPAREN, RPAREN, PLUS, COMMA, HYPHEN, DOT, EQUALS, SLASH, COLON, QUESTION, SPACE]
def printableString : Syntax := plus printableCharacter

end PrintableStrings

def Ia5Strings.ia5String : Syntax := star (range 0x00 0x7f)

def OctetStrings.octetString : Syntax := star (range 0x00 0xff)

def isBoolean (input : Bytes) : Bool := Syntax.accepted Booleans.boolean input

def isNumericString (input : Bytes) : Bool := Syntax.accepted NumericStrings.numericString input

def isPrintableString (input : Bytes) : Bool := Syntax.accepted PrintableStrings.printableString input

def isIa5string (input : Bytes) : Bool := Syntax.accepted Ia5Strings.ia5String input

def isOctetString (input : Bytes) : Bool := Syntax.accepted OctetStrings.octetString input

def validateBoolean (value : Option Bytes) : Bool := validate isBoolean value

def validateOctetString (value : Option Bytes) : Bool := validate isOctetString value

def validateNumericString (value : Option Bytes) : Bool := validate isNumericString value

def validatePrintableString (value : Option Bytes) : Bool := validate isPrintableString value

/-- The empty text is accepted. -/
def validateIa5String : Option Bytes → Bool
  | none => false
  | some value => isIa5string value

def validateObjectSecurityDescriptor (_ : Option Bytes) : Bool := false

/-- The string behind the name is not looked at. -/
def validateDnWithOctetString (value : Option Bytes) : Bool := validate isDn value

def validateDnWithString (value : Option Bytes) : Bool := validate isDn value

def validateOrName (_ : Option Bytes) : Bool := false

def validatePresentationAddress (_ : Option Bytes) : Bool := false

def validateAccessPoint (_ : Option Bytes) : Bool := false

/-- The functions of `ldap_syntaxes.h`. -/
inductive Kind
  | boolean
  | integer
  | octetString
  | oid
  | numericString
  | printableString
  | caseIgnoreString
  | ia5String
  | utcTime
  | generalizedTime
  | caseSensitiveString
  | directoryString
  | largeInteger
  | objectSecurityDescriptor
  | dn
  | dnWithOctetString
  | orName
  | presentationAddress
  | accessPoint
  | dnWithString
  deriving DecidableEq, Repr

namespace Kind

def all : List Kind := [.boolean, .integer, .octetString, .oid, .numericString, .printableString, .caseIgnoreString,
  .ia5String, .utcTime, .generalizedTime, .caseSensitiveString, .directoryString, .largeInteger,
  .objectSecurityDescriptor, .dn, .dnWithOctetString, .orName, .presentationAddress, .accessPoint, .dnWithString]

def validator : Kind → Option Bytes → Bool
  | boolean => validateBoolean
  | integer => validateInteger
  | octetString => validateOctetString
  | oid => validateOid
  | numericString => validateNumericString
  | printableString => validatePrintableString
  | caseIgnoreString => validateCaseIgnoreString
  | ia5String => validateIa5String
  | utcTime => validateUtcTime
  | generalizedTime => validateGeneralizedTime
  | caseSensitiveString => validateCaseSensitiveString
  | directoryString => validateDirectoryString
  | largeInteger => validateLargeInteger
  | objectSecurityDescriptor => validateObjectSecurityDescriptor
  | dn => validateDn
  | dnWithOctetString => validateDnWithOctetString
  | orName => validateOrName
  | presentationAddress => validatePresentationAddress
  | accessPoint => validateAccessPoint
  | dnWithString => validateDnWithString

/-- Kinds that take any text. -/
def texts : List Kind := [directoryString, caseIgnoreString, caseSensitiveString, octetString]

def printables : List Kind := printableString :: ia5String :: texts

def names : List Kind := [dn, dnWithOctetString, dnWithString]

/-- The kinds whose validators accept whatever the validator of the given kind accepts. -/
def wider : Kind → List Kind
  | boolean => boolean :: oid :: names ++ printables
  | integer => integer :: largeInteger :: printables
  | octetString => [octetString]
  | oid => oid :: names ++ printables
  | numericString => numericString :: printables
  | printableString => printables
  | ia5String => ia5String :: texts
  | utcTime => utcTime :: printables
  | generalizedTime => generalizedTime :: printables
  | largeInteger => largeInteger :: printables
  | directoryString | caseIgnoreString | caseSensitiveString => texts
  | dn | dnWithOctetString | dnWithString => names ++ texts
  | objectSecurityDescriptor | orName | presentationAddress | accessPoint => all

/-- The empty text apart, which only one validator accepts. -/
def Within (a b : Kind) : Prop := ∀ value, value ≠ some [] → a.validator value = true → b.validator value = true

end Kind

/-- The texts of the expression are rows of the given texts. -/
def Spells (l : Language UInt8) (e : Syntax) : Prop := ∀ w ∈ e.language, w ∈ KStar.kstar l

section Spells
variable {l : Language UInt8} {e f : Syntax}

theorem Spells.empty : Spells l .empty := by
  intro w hw
  rw [(Language.mem_one w).mp hw]
  exact Language.mem_kstar.mpr ⟨[], rfl, by simp⟩

theorem Spells.seq (he : Spells l e) (hf : Spells l f) : Spells l (.seq e f) := by
  intro w hw
  rw [← kstar_mul_kstar]
  obtain ⟨u, hu, v, hv, rfl⟩ := Language.mem_mul.mp hw
  exact Language.mem_mul.mpr ⟨u, he u hu, v, hf v hv, rfl⟩

theorem Spells.alt (he : Spells l e) (hf : Spells l f) : Spells l (.alt e f) := fun w hw => hw.elim (he w) (hf w)

theorem Spells.star (he : Spells l e) : Spells l (.star e) := by
  intro w hw
  rw [← kstar_idem]
  obtain ⟨parts, hparts, hmem⟩ := Language.mem_kstar.mp hw
  exact Language.mem_kstar.mpr ⟨parts, hparts, fun part hpart => he part (hmem part hpart)⟩

theorem Spells.opt (he : Spells l e) : Spells l (.opt e) := he.alt .empty

/-- Every character is one of the given texts. -/
theorem Spells.of_covers (h : ∀ c, e.covers c = true → [c] ∈ l) : Spells l e := by
  intro w hw
  refine Language.mem_kstar.mpr ⟨w.map fun c => [c], ?_, ?_⟩
  · rw [← List.flatMap_def, List.flatMap_singleton']
  · intro part hpart
    obtain ⟨c, hc, rfl⟩ := List.mem_map.mp hpart
    exact h c (covers_of_mem hw c hc)

end Spells

variable {e : Syntax} {value : Bytes}

/-- Inclusion of characters, class by class. -/
def CoveredBy (e f : Syntax) : Prop :=
  ∀ r ∈ e.classes, ∀ n ∈ List.range' r.1.toNat (r.2.toNat + 1 - r.1.toNat), f.covers (.ofNat n) = true

instance (e f : Syntax) : Decidable (CoveredBy e f) := decidableForallMem e.classes

theorem CoveredBy.covers {f : Syntax} (h : CoveredBy e f) {c : UInt8} (hc : e.covers c = true) : f.covers c = true := by
  obtain ⟨r, hr, hlo, hhi⟩ := covers_iff.mp hc
  rw [UInt8.le_iff_toNat_le] at hlo hhi
  have hcovers := h r hr c.toNat (List.mem_range'_1.mpr (by omega))
  rwa [UInt8.ofNat_toNat] at hcovers

theorem accepted_covers (h : Expr.Productive e) (hvalue : Syntax.accepted e value = true) :
    ∀ c ∈ value, e.covers c = true := by
  obtain ⟨w, hw⟩ := (Syntax.accepted_iff h value).mp hvalue
  exact fun c hc => covers_of_mem hw c (List.mem_append_left w hc)

theorem accepted_of_mem (h : Expr.Productive e) (hvalue : value ∈ e.language) : Syntax.accepted e value = true :=
  (Syntax.accepted_iff h value).mpr ⟨[], by rwa [List.append_nil]⟩

theorem isPrintableString_of_accepted (h : Expr.Productive e)
    (hcovers : CoveredBy e PrintableStrings.printableCharacter) (hne : value ≠ [])
    (hvalue : Syntax.accepted e value = true) : isPrintableString value = true := by
  obtain ⟨c, rest, rfl⟩ := List.exists_cons_of_ne_nil hne
  have hall : ∀ d ∈ c :: rest, PrintableStrings.printableCharacter.covers d = true := fun d hd =>
    hcovers.covers (accepted_covers h hvalue d hd)
  refine accepted_of_mem (by decide) ?_
  change _ ∈ PrintableStrings.printableCharacter.language * PrintableStrings.printableCharacter.star.language
  obtain ⟨hc, hrest⟩ := List.forall_mem_cons.mp hall
  exact (mem_class_mul rfl).mpr ⟨c, rest, hc, (star_class_language rfl rest).mpr hrest, rfl⟩

theorem isIa5string_of_isPrintableString (hvalue : isPrintableString value = true) : isIa5string value = true := by
  have hcovers : CoveredBy PrintableStrings.printableString (range 0x00 0x7f) := by decide +kernel
  refine accepted_of_mem (by decide) ((star_class_language rfl value).mpr fun c hc => ?_)
  exact hcovers.covers (accepted_covers (by decide) hvalue c hc)

/-- The beginnings of texts are beginnings of directory strings. -/
theorem isDirectoryString_of_accepted (h : Expr.Productive e) (hspells : Spells DirectoryStrings.UTF8.language e)
    (hne : value ≠ []) (hvalue : Syntax.accepted e value = true) : isDirectoryString value = true := by
  obtain ⟨w, hw⟩ := (Syntax.accepted_iff h value).mp hvalue
  obtain ⟨cs, hcs⟩ := (renders_UTF8.star _).mp (hspells _ hw)
  refine (Syntax.accepted_iff DirectoryStrings.productive_directoryString value).mpr ⟨w, ?_⟩
  refine (directoryString_language _).mpr ⟨cs, ?_, hcs.symm⟩
  rintro rfl
  exact hne (List.append_eq_nil_iff.mp hcs.symm).1

theorem spells_ascii (h : ∀ r ∈ e.classes, r.2 ≤ 0x7f) : Spells DirectoryStrings.UTF8.language e := by
  refine .of_covers fun c hc => .inl ?_
  obtain ⟨r, hr, -, hle⟩ := covers_iff.mp hc
  exact ⟨c, UInt8.le_iff_toNat_le.mpr (Nat.zero_le _), UInt8.le_trans hle (h r hr), rfl⟩

theorem spells_distinguishedName : Spells DirectoryStrings.UTF8.language Dn.distinguishedName := by
  have hmb : Spells DirectoryStrings.UTF8.language Dn.UTFMB := by
    intro w hw
    have hletter : w ∈ DirectoryStrings.UTF8.language := .inr hw
    exact Language.mem_kstar.mpr ⟨[w], by simp, by simpa using hletter⟩
  have hpair : Spells DirectoryStrings.UTF8.language Dn.pair := spells_ascii (by decide)
  have hlead : Spells DirectoryStrings.UTF8.language Dn.leadchar := (spells_ascii (by decide)).alt hmb
  have hstringchar : Spells DirectoryStrings.UTF8.language Dn.stringchar := (spells_ascii (by decide)).alt hmb
  have htrail : Spells DirectoryStrings.UTF8.language Dn.trailchar := (spells_ascii (by decide)).alt hmb
  have hstring : Spells DirectoryStrings.UTF8.language Dn.string :=
    .opt ((hlead.alt hpair).seq (.opt ((hstringchar.alt hpair).star.seq (htrail.alt hpair))))
  have hvalue : Spells DirectoryStrings.UTF8.language Dn.attributeValue := hstring.alt (spells_ascii (by decide))
  have htypeAndValue : Spells DirectoryStrings.UTF8.language Dn.attributeTypeAndValue :=
    (spells_ascii (by decide)).seq ((spells_ascii (by decide)).seq hvalue)
  have hrdn : Spells DirectoryStrings.UTF8.language Dn.relativeDistinguishedName :=
    htypeAndValue.seq (.star ((spells_ascii (by decide)).seq htypeAndValue))
  exact .opt (hrdn.seq (.star ((spells_ascii (by decide)).seq hrdn)))

theorem isOctetString_eq_true (value : Bytes) : isOctetString value = true := by
  have hcovers : ∀ c, (range 0x00 0xff : Syntax).covers c = true := by
    intro c
    have hc := c.toNat_lt
    rw [covers_range]
    change 0 ≤ c.toNat ∧ c.toNat ≤ 255
    omega
  exact accepted_of_mem (by decide) ((star_class_language rfl value).mpr fun c _ => hcovers c)

/-- Words of letters are names of attributes. -/
theorem mem_oid_of_letters (hcovers : CoveredBy e Dn.ALPHA) (hnullable : e.nullable = false) (hvalue : value ∈ e.language) :
    value ∈ Dn.oid.language := by
  have hletters : ∀ c ∈ value, Dn.ALPHA.covers c = true := fun c hc => hcovers.covers (covers_of_mem hvalue c hc)
  have hkeychar : CoveredBy Dn.ALPHA Dn.keychar := by decide +kernel
  cases value with
  | nil => simp [nil_mem_language, hnullable] at hvalue
  | cons c rest =>
    obtain ⟨hc, hrest⟩ := List.forall_mem_cons.mp hletters
    have hkeystring : c :: rest ∈ Dn.ALPHA.language * Dn.keychar.star.language :=
      (mem_class_mul rfl).mpr
        ⟨c, rest, hc, (star_class_language rfl rest).mpr fun d hd => hkeychar.covers (hrest d hd), rfl⟩
    exact .inl hkeystring

theorem isOid_of_isBoolean (hvalue : isBoolean value = true) : isOid value = true := by
  obtain ⟨w, hw⟩ := (Syntax.accepted_iff (by decide) value).mp hvalue
  exact (Syntax.accepted_iff Oid.productive_oid value).mpr ⟨w, mem_oid_of_letters (by decide +kernel) (by decide) hw⟩

/-- An identifier is the attribute type of a name, whose value may be empty. -/
theorem mem_distinguishedName (hvalue : value ∈ Dn.oid.language) : value ++ [0x3d] ∈ Dn.distinguishedName.language := by
  have hempty : [] ∈ Dn.attributeValue.language := (nil_mem_language _).mpr (by decide)
  have hequals : [0x3d] ∈ Dn.EQUALS.language := (class_language rfl _).mpr ⟨0x3d, by decide, rfl⟩
  have htypeAndValue : value ++ [0x3d] ∈ Dn.attributeTypeAndValue.language :=
    Language.mem_mul.mpr ⟨value, hvalue, [0x3d], Language.mem_mul.mpr ⟨[0x3d], hequals, [], hempty, rfl⟩, rfl⟩
  have hrdn : value ++ [0x3d] ∈ Dn.relativeDistinguishedName.language :=
    Language.mem_mul.mpr ⟨_, htypeAndValue, [], (nil_mem_language _).mpr rfl, List.append_nil _⟩
  exact .inl (Language.mem_mul.mpr ⟨_, hrdn, [], (nil_mem_language _).mpr rfl, List.append_nil _⟩)

theorem isDn_of_isOid (hvalue : isOid value = true) : isDn value = true := by
  obtain ⟨w, hw⟩ := (Syntax.accepted_iff Oid.productive_oid value).mp hvalue
  refine (Syntax.accepted_iff Dn.productive_distinguishedName value).mpr ⟨w ++ [0x3d], ?_⟩
  rw [← List.append_assoc]
  exact mem_distinguishedName hw

namespace Kind
variable {a b c : Kind}

theorem validator_none (a : Kind) : a.validator none = false := by cases a <;> rfl

theorem Within.refl (a : Kind) : a.Within a := fun _ _ h => h

theorem Within.trans (hab : a.Within b) (hbc : b.Within c) : a.Within c :=
  fun value hne h => hbc value hne (hab value hne h)

theorem Within.of_some (h : ∀ value, value ≠ [] → a.validator (some value) = true → b.validator (some value) = true) :
    a.Within b := by
  intro value hne hvalue
  cases value with
  | none => simp [validator_none] at hvalue
  | some value => exact h value (by simpa using hne) hvalue

/-- The validators differ in their machines only. -/
theorem Within.of_machines {is is' : Bytes → Bool} (ha : a.validator = validate is) (hb : b.validator = validate is')
    (h : ∀ value, value ≠ [] → is value = true → is' value = true) : a.Within b := by
  refine .of_some fun value hne hvalue => ?_
  rw [ha] at hvalue
  rw [hb]
  exact (validate_iff is' value).mpr ⟨hne, h value hne ((validate_iff is value).mp hvalue).2⟩

theorem Within.of_false (h : ∀ value, a.validator value = false) (b : Kind) : a.Within b := by
  intro value _ hvalue
  simp [h] at hvalue

theorem within_texts : ∀ b ∈ texts, directoryString.Within b := by
  have hsame : ∀ b, b.validator = directoryString.validator → directoryString.Within b := by
    intro b hb value _ hvalue
    rwa [hb]
  have hoctets : directoryString.Within octetString :=
    .of_machines rfl rfl fun value _ _ => isOctetString_eq_true value
  simp only [texts, List.forall_mem_cons]
  exact ⟨.refl _, hsame _ rfl, hsame _ rfl, hoctets, by simp⟩

theorem within_directoryString (hproductive : Expr.Productive e) (hspells : Spells DirectoryStrings.UTF8.language e)
    (ha : a.validator = validate (Syntax.accepted e)) : a.Within directoryString :=
  .of_machines ha rfl fun _ hne => isDirectoryString_of_accepted hproductive hspells hne

theorem within_printableString (hproductive : Expr.Productive e)
    (hcovers : CoveredBy e PrintableStrings.printableCharacter) (ha : a.validator = validate (Syntax.accepted e)) :
    a.Within printableString :=
  .of_machines ha rfl fun _ hne => isPrintableString_of_accepted hproductive hcovers hne

theorem ia5String_within : ia5String.Within directoryString := by
  refine .of_some fun value hne hvalue => (validate_iff _ value).mpr ⟨hne, ?_⟩
  exact isDirectoryString_of_accepted (by decide) (.star (spells_ascii (by decide))) hne hvalue

theorem within_printables : ∀ b ∈ printables, printableString.Within b := by
  have hia5 : printableString.Within ia5String :=
    .of_some fun value _ hvalue => isIa5string_of_isPrintableString ((validate_iff _ value).mp hvalue).2
  simp only [printables, List.forall_mem_cons]
  exact ⟨.refl _, hia5, fun b hb => (hia5.trans ia5String_within).trans (within_texts b hb)⟩

theorem within_names : ∀ b ∈ names, dn.Within b := by
  simp only [names, List.forall_mem_cons]
  exact ⟨.refl _, .refl dn, .refl dn, by simp⟩

theorem integer_within : integer.Within largeInteger := by
  refine .of_some fun value _ hvalue => (validateLargeInteger_accepts value).mpr ?_
  rcases (validateInteger_accepts value).mp hvalue with hsign | ⟨n, hlo, hhi, hn⟩
  · exact .inl hsign
  · exact .inr ⟨n, by omega, by omega, hn⟩

theorem largeInteger_within : largeInteger.Within printableString := by
  refine .of_some fun value hne hvalue => (validate_iff _ value).mpr ⟨hne, ?_⟩
  obtain ⟨-, -, hinteger, -⟩ := (validateLargeInteger_checks value).mp hvalue
  exact isPrintableString_of_accepted Integers.productive_integer (by decide +kernel) hne hinteger

theorem oid_within_names : ∀ b ∈ names, oid.Within b := fun b hb =>
  (Within.of_machines rfl rfl fun _ _ => isDn_of_isOid : oid.Within dn).trans (within_names b hb)

theorem oid_within_printables : ∀ b ∈ printables, oid.Within b := fun b hb =>
  (within_printableString Oid.productive_oid (by decide +kernel) rfl).trans (within_printables b hb)

/-- The validators of the wider kinds accept what the given one accepts. -/
theorem within_of_mem_wider (a : Kind) : ∀ b ∈ a.wider, a.Within b := by
  have hprintables : ∀ {a : Kind}, a.Within printableString → ∀ b ∈ printables, a.Within b :=
    fun ha b hb => ha.trans (within_printables b hb)
  have htexts : ∀ {a : Kind}, a.Within directoryString → ∀ b ∈ texts, a.Within b :=
    fun ha b hb => ha.trans (within_texts b hb)
  have hboolean : boolean.Within oid := .of_machines rfl rfl fun _ _ => isOid_of_isBoolean
  have hdn : dn.Within directoryString := within_directoryString Dn.productive_distinguishedName spells_distinguishedName rfl
  have hnumeric : numericString.Within printableString := within_printableString (by decide) (by decide +kernel) rfl
  have hutc : utcTime.Within printableString := within_printableString Times.productive_utcTime (by decide +kernel) rfl
  have hgeneralized : generalizedTime.Within printableString :=
    within_printableString Times.productive_generalizedTime (by decide +kernel) rfl
  cases a with
  | boolean =>
    exact List.forall_mem_cons.mpr ⟨.refl _, List.forall_mem_cons.mpr ⟨hboolean, List.forall_mem_append.mpr
      ⟨fun b hb => hboolean.trans (oid_within_names b hb), fun b hb => hboolean.trans (oid_within_printables b hb)⟩⟩⟩
  | integer =>
    exact List.forall_mem_cons.mpr ⟨.refl _, List.forall_mem_cons.mpr
      ⟨integer_within, hprintables (integer_within.trans largeInteger_within)⟩⟩
  | octetString => exact List.forall_mem_cons.mpr ⟨.refl _, by simp⟩
  | oid => exact List.forall_mem_cons.mpr ⟨.refl _, List.forall_mem_append.mpr ⟨oid_within_names, oid_within_printables⟩⟩
  | numericString => exact List.forall_mem_cons.mpr ⟨.refl _, hprintables hnumeric⟩
  | printableString => exact within_printables
  | ia5String => exact List.forall_mem_cons.mpr ⟨.refl _, htexts ia5String_within⟩
  | utcTime => exact List.forall_mem_cons.mpr ⟨.refl _, hprintables hutc⟩
  | generalizedTime => exact List.forall_mem_cons.mpr ⟨.refl _, hprintables hgeneralized⟩
  | largeInteger => exact List.forall_mem_cons.mpr ⟨.refl _, hprintables largeInteger_within⟩
  | directoryString | caseIgnoreString | caseSensitiveString => exact within_texts
  | dn | dnWithOctetString | dnWithString => exact List.forall_mem_append.mpr ⟨within_names, htexts hdn⟩
  | objectSecurityDescriptor | orName | presentationAddress | accessPoint => exact fun b _ => .of_false (fun _ => rfl) b

/-- Texts that tell the kinds apart. -/
def samples : List Bytes :=
  [ascii "TRUE", ascii "a", ascii "-1", ascii "3000000000", ascii " ", ascii "(", ascii "!", [0xc3], [0xff],
    ascii "cn=" ++ [0xc3, 0xa4], ascii "2401010000Z", ascii "2024010100Z"]

theorem samples_separate : ∀ a ∈ all, ∀ b ∈ all, b ∈ a.wider ∨
    ∃ value ∈ samples, value ≠ [] ∧ a.validator (some value) = true ∧ b.validator (some value) = false := by
  decide +kernel

theorem mem_all (a : Kind) : a ∈ all := by cases a <;> decide

/-- One validator accepts all that another one accepts exactly if its kind is among the wider
ones of the other: the kinds of strings contain each other and most other kinds, identifiers
are beginnings of names, and the kinds that are not implemented accept nothing. -/
theorem within_iff (a b : Kind) : a.Within b ↔ b ∈ a.wider := by
  refine ⟨fun h => ?_, within_of_mem_wider a b⟩
  refine (samples_separate a (mem_all a) b (mem_all b)).resolve_right ?_
  rintro ⟨value, -, hne, ha, hb⟩
  rw [h (some value) (by simpa using hne) ha] at hb
  cases hb

end Kind

end Libdomain.Syntaxes
