import Libdomain.Connection.State
import Libdomain.Ragel.Machine

/-! # Distinguished names

The machine of `dn.rl` and its use in `validate_dn`.
-/
namespace Libdomain.Syntaxes
open Libdomain.Connection Libdomain.Ragel Libdomain.Ragel.Expr

/-- An expression over bytes without actions. -/
abbrev Syntax := Expr UInt8 Empty

namespace Dn

def ALPHA : Syntax := any (range 0x41 0x5a) [range 0x61 0x7a]
def LDIGIT : Syntax := range 0x31 0x39
def DIGIT : Syntax := any (char 0x30) [LDIGIT]
def HEX : Syntax := any DIGIT [range 0x41 0x46, range 0x61 0x66]
def PLUS : Syntax := char 0x2b
def COMMA : Syntax := char 0x2c
def HYPHEN : Syntax := char 0x2d
def DOT : Syntax := char 0x2e
def EQUALS : Syntax := char 0x3d
def SPACE : Syntax := char 0x20
def ESC : Syntax := char 0x5c
def SHARP : Syntax := char 0x23
def DQUOTE : Syntax := char 0x22
def SEMI : Syntax := char 0x3b
def LANGLE : Syntax := char 0x3c
def RANGLE : Syntax := char 0x3e

def UTF0 : Syntax := range 0x80 0xbf
def UTF2 : Syntax := cat [range 0xc2 0xdf, UTF0]
def UTF3 : Syntax :=
  any (cat [char 0xe0, range 0xa0 0xbf, UTF0]) [cat [range 0xe1 0xec, UTF0, UTF0],
    cat [char 0xed, range 0x80 0x9f, UTF0], cat [range 0xee 0xef, UTF0, UTF0]]
def UTF4 : Syntax :=
  any (cat [char 0xf0, range 0x90 0xbf, UTF0, UTF0]) [cat [range 0xf1 0xf3, UTF0, UTF0, UTF0],
    cat [char 0xf4, range 0x80 0x8f, UTF0, UTF0]]
def UTFMB : Syntax := any UTF2 [UTF3, UTF4]

def LUTF1 : Syntax :=
  any (range 0x01 0x1f) [char 0x21, range 0x24 0x2a, range 0x2d 0x3a, char 0x3d, range 0x3f 0x5b,
    range 0x5d 0x7f]
def leadchar : Syntax := any LUTF1 [UTFMB]
def escaped : Syntax := any DQUOTE [PLUS, COMMA, SEMI, LANGLE, RANGLE]
def special : Syntax := any escaped [SPACE, SHARP, EQUALS]
def hexpair : Syntax := cat [HEX, HEX]
def pair : Syntax := cat [ESC, any ESC [special, hexpair]]
def SUTF1 : Syntax :=
  any (range 0x01 0x21) [range 0x23 0x2a, range 0x2d 0x3a, char 0x3d, range 0x3f 0x5b, range 0x5d 0x7f]
def stringchar : Syntax := any SUTF1 [UTFMB]
def TUTF1 : Syntax :=
  any (range 0x01 0x1f) [char 0x21, range 0x23 0x2a, range 0x2d 0x3a, char 0x3d, range 0x3f 0x5b,
    range 0x5d 0x7f]
def trailchar : Syntax := any TUTF1 [UTFMB]
def string : Syntax :=
  opt (cat [any leadchar [pair], opt (cat [star (any stringchar [pair]), any trailchar [pair]])])
def hexstring : Syntax := cat [SHARP, plus hexpair]

def leadkeychar : Syntax := ALPHA
def keychar : Syntax := any ALPHA [DIGIT, HYPHEN]
def keystring : Syntax := cat [leadkeychar, star keychar]
def number : Syntax := any DIGIT [cat [LDIGIT, plus DIGIT]]
def numericoid : Syntax := cat [number, plus (cat [DOT, number])]
def descr : Syntax := keystring
def oid : Syntax := any descr [numericoid]

def attributeType : Syntax := oid
def attributeValue : Syntax := any string [hexstring]
def attributeTypeAndValue : Syntax := cat [attributeType, EQUALS, attributeValue]
def relativeDistinguishedName : Syntax :=
  cat [attributeTypeAndValue, star (cat [PLUS, attributeTypeAndValue])]
def distinguishedName : Syntax :=
  opt (cat [relativeDistinguishedName, star (cat [COMMA, relativeDistinguishedName])])

theorem productive_distinguishedName : distinguishedName.Productive := by decide

end Dn

/-- A machine without actions ends up outside its error state. -/
def Syntax.accepted (e : Syntax) (input : Bytes) : Bool := (e.run (fun a _ _ => a.elim) input ()).isSome

theorem Syntax.accepted_iff {e : Syntax} (h : Expr.Productive e) (input : Bytes) :
    e.accepted input = true ↔ ∃ w, input ++ w ∈ Expr.language e := run_isSome_iff h input ()

def isDn (input : Bytes) : Bool := Syntax.accepted Dn.distinguishedName input

/-- The checks that `validate_dn` and other functions make before they run a machine. -/
def validate (is : Bytes → Bool) : Option Bytes → Bool
  | none => false
  | some value => if value.length = 0 then false else is value

theorem validate_iff (is : Bytes → Bool) (value : Bytes) :
    validate is (some value) = true ↔ value ≠ [] ∧ is value = true := by
  simp [validate]

/-- A text that begins a sentence but is none. -/
def Syntax.Cut (e : Syntax) (value : Bytes) : Prop :=
  value ≠ [] ∧ value ∉ Expr.language e ∧ ∃ w, value ++ w ∈ Expr.language e

/-- A validator that asks for the absence of an error is right about all texts but the proper
beginnings of sentences. -/
theorem validate_accepted_iff {e : Syntax} (h : Expr.Productive e) (value : Bytes) :
    (validate e.accepted (some value) = true ↔ value ≠ [] ∧ value ∈ Expr.language e) ↔ ¬e.Cut value := by
  rw [validate_iff, Syntax.accepted_iff h]
  constructor
  · rintro hiff ⟨hne, hnot, hw⟩
    exact hnot (hiff.mp ⟨hne, hw⟩).2
  · intro hcut
    refine and_congr_right fun hne => ⟨fun hw => ?_, fun hmem => ⟨[], by simpa using hmem⟩⟩
    by_contra hnot
    exact hcut ⟨hne, hnot, hw⟩

def validateDn (value : Option Bytes) : Bool := validate isDn value

/-- `validate_dn` accepts exactly the distinguished names among the strings that are no
proper beginnings of distinguished names. -/
theorem validateDn_iff (value : Bytes) :
    (validateDn (some value) = true ↔ value ≠ [] ∧ value ∈ Dn.distinguishedName.language) ↔
      value ∈ Dn.distinguishedName.language ∨ ¬∃ w, value ++ w ∈ Dn.distinguishedName.language := by
  have hempty : [] ∈ Dn.distinguishedName.language := (nil_mem_language _).mpr rfl
  rw [show validateDn = validate (Syntax.accepted Dn.distinguishedName) from rfl,
    validate_accepted_iff Dn.productive_distinguishedName, Syntax.Cut]
  by_cases hnil : value = []
  · subst hnil
    simp [hempty]
  · tauto

/-- An attribute type alone is accepted. -/
theorem validateDn_prefix :
    ¬(validateDn (some (ascii "cn")) = true ↔
      ascii "cn" ≠ [] ∧ ascii "cn" ∈ Dn.distinguishedName.language) := by
  have haccepted : validateDn (some (ascii "cn")) = true := by decide
  have hnot : ascii "cn" ∉ Dn.distinguishedName.language := by
    rw [← accepts_iff]
    decide
  exact fun h => hnot (h.mp haccepted).2

end Libdomain.Syntaxes
