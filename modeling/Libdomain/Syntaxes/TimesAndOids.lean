import Libdomain.Syntaxes.DistinguishedName

/-! # Times and object identifiers

The machines of `generalized_time.rl`, `utc_time.rl` and `oid.rl`, and the validators
that ask them. None of the three languages contains the empty text.
-/
namespace Libdomain.Syntaxes
open Libdomain.Connection Libdomain.Ragel Libdomain.Ragel.Expr

namespace Times

def PLUS : Syntax := char 0x2b
def COMMA : Syntax := char 0x2c
def DOT : Syntax := char 0x2e
def MINUS : Syntax := char 0x2d

def century : Syntax := cat [range 0x30 0x39, range 0x30 0x39]
def year : Syntax := cat [range 0x30 0x39, range 0x30 0x39]
def month : Syntax := any (cat [char 0x30, range 0x31 0x39]) [cat [char 0x31, range 0x30 0x32]]
def day : Syntax :=
  any (cat [char 0x30, range 0x31 0x39]) [cat [range 0x31 0x32, range 0x30 0x39],
    cat [char 0x33, range 0x30 0x31]]
def hour : Syntax := any (cat [range 0x30 0x31, range 0x30 0x39]) [cat [char 0x32, range 0x30 0x33]]
def minute : Syntax := cat [range 0x30 0x35, range 0x30 0x39]
def second : Syntax := cat [range 0x30 0x35, range 0x30 0x39]
def leapSecond : Syntax := cat [char 0x36, char 0x30]

def fraction : Syntax := cat [any DOT [COMMA], plus (range 0x30 0x39)]
def gDifferential : Syntax := cat [any MINUS [PLUS], hour, opt minute]
def gTimeZone : Syntax := any (char 0x5a) [gDifferential]
def generalizedTime : Syntax :=
  cat [century, year, month, day, hour, opt (cat [minute, opt (any second [leapSecond])]), opt fraction,
    gTimeZone]

def uDifferential : Syntax := cat [any MINUS [PLUS], hour, minute]
def uTimeZone : Syntax := any (char 0x5a) [uDifferential]
def utcTime : Syntax := cat [year, month, day, hour, minute, opt second, opt uTimeZone]

theorem productive_generalizedTime : generalizedTime.Productive := by decide

theorem productive_utcTime : utcTime.Productive := by decide

end Times

/-- The rules of `oid.rl` are those that `dn.rl` has for attribute types. -/
def Oid.oid : Syntax := Dn.oid

theorem Oid.productive_oid : Oid.oid.Productive := by decide

def isGeneralizedTime (input : Bytes) : Bool := Syntax.accepted Times.generalizedTime input

def isUtcTime (input : Bytes) : Bool := Syntax.accepted Times.utcTime input

def isOid (input : Bytes) : Bool := Syntax.accepted Oid.oid input

def validateGeneralizedTime (value : Option Bytes) : Bool := validate isGeneralizedTime value

def validateUtcTime (value : Option Bytes) : Bool := validate isUtcTime value

def validateOid (value : Option Bytes) : Bool := validate isOid value

/-- The three validators accept exactly the sentences of their grammars among the texts
that are no proper beginnings of sentences. -/
theorem validateTimesAndOids_iff (value : Bytes) :
    ((validateGeneralizedTime (some value) = true ↔ value ≠ [] ∧ value ∈ Times.generalizedTime.language) ↔
        ¬Syntax.Cut Times.generalizedTime value) ∧
      ((validateUtcTime (some value) = true ↔ value ≠ [] ∧ value ∈ Times.utcTime.language) ↔
        ¬Syntax.Cut Times.utcTime value) ∧
      ((validateOid (some value) = true ↔ value ≠ [] ∧ value ∈ Oid.oid.language) ↔ ¬Syntax.Cut Oid.oid value) :=
  ⟨validate_accepted_iff Times.productive_generalizedTime value, validate_accepted_iff Times.productive_utcTime value,
    validate_accepted_iff Oid.productive_oid value⟩

/-- A date without its time zone, a month, an identifier that ends in a dot and a single arc
are accepted. -/
theorem validateTimesAndOids_cut :
    ¬(validateGeneralizedTime (some (ascii "2024010112")) = true ↔
        ascii "2024010112" ≠ [] ∧ ascii "2024010112" ∈ Times.generalizedTime.language) ∧
      ¬(validateUtcTime (some (ascii "2401")) = true ↔
        ascii "2401" ≠ [] ∧ ascii "2401" ∈ Times.utcTime.language) ∧
      ¬(validateOid (some (ascii "2.")) = true ↔ ascii "2." ≠ [] ∧ ascii "2." ∈ Oid.oid.language) ∧
      ¬(validateOid (some (ascii "2")) = true ↔ ascii "2" ≠ [] ∧ ascii "2" ∈ Oid.oid.language) := by
  simp only [← accepts_iff]
  decide

end Libdomain.Syntaxes
