import Libdomain.Parsers.AttributeTypeDescription

/-! # Object class descriptions

The machine of `object_class_description.rl` and its use in `parse_object_class`. The
superior classes of a description and the attributes it requires and allows are collected
in one array. A keyword may follow the name of a superior class without a space, so its
first letter inside the name ends the name as well.
-/
namespace Libdomain.Parsers.ObjectClassDescription
open Libdomain.Connection Libdomain.Ragel Libdomain.Ragel.Expr Libdomain.Parsers

inductive Action
  | start
  | numericoidEnd
  | nameEnd
  | oidEnd
  | writeSups
  | writeMust
  | writeMay
  | setStructural
  | setAuxiliary
  deriving DecidableEq

/-- The fields of an `LDAPObjectClass` that the actions set. -/
structure LdapObjectClass where
  ocOid : Option Bytes := none
  ocNames : Option (List (Option Bytes)) := none
  ocSupOids : Option (List (Option Bytes)) := none
  ocKind : Int := 0
  ocAtOidsMust : Option (List (Option Bytes)) := none
  ocAtOidsMay : Option (List (Option Bytes)) := none
  deriving DecidableEq

/-- The locals of `parse_object_class_description`. -/
structure Parser where
  symbolStart : ℕ := 0
  nameIndex : ℕ := 0
  oidIndex : ℕ := 0
  oids : Option (List (Option Bytes)) := none
  result : LdapObjectClass := {}

/-- `talloc_strndup` of what lies between `symbol_start` and `p`, and `symbol_start = p`. -/
def Parser.capture (s : Parser) (before : Bytes) (store : Parser → Bytes → Parser) : Parser :=
  { if s.symbolStart ≠ before.length then store s (before.drop s.symbolStart) else s with
    symbolStart := before.length }

def Parser.addName (s : Parser) (name : Bytes) : Parser :=
  { s with
    result := { s.result with ocNames := some (appendString s.result.ocNames s.nameIndex name) }
    nameIndex := s.nameIndex + 1 }

def Parser.addOid (s : Parser) (oid : Bytes) : Parser :=
  { s with oids := some (appendString s.oids s.oidIndex oid), oidIndex := s.oidIndex + 1 }

/-- `write_sups`, `write_must` and `write_may` hand the array over to the result. -/
def Parser.handOver (s : Parser) (store : LdapObjectClass → List (Option Bytes) → LdapObjectClass) : Parser :=
  s.oids.elim s fun oids => { s with result := store s.result oids, oidIndex := 0, oids := none }

def act : Action → Bytes → Parser → Parser
  | .start, before, s => { s with symbolStart := before.length }
  | .numericoidEnd, before, s =>
    s.capture before fun s oid => { s with result := { s.result with ocOid := some oid } }
  | .nameEnd, before, s => s.capture before Parser.addName
  | .oidEnd, before, s => s.capture before Parser.addOid
  | .writeSups, _, s => s.handOver fun result oids => { result with ocSupOids := some oids }
  | .writeMust, _, s => s.handOver fun result oids => { result with ocAtOidsMust := some oids }
  | .writeMay, _, s => s.handOver fun result oids => { result with ocAtOidsMay := some oids }
  | .setStructural, _, s => { s with result := { s.result with ocKind := 1 } }
  | .setAuxiliary, _, s => { s with result := { s.result with ocKind := 2 } }

abbrev Rule := Expr UInt8 Action

def WSP : Rule := star SPACE
def oid : Rule := leave (enter .start (any descr [numericoid])) .oidEnd
def oidlist : Rule := cat [oid, star (cat [WSP, DOLLAR, WSP, oid])]
def oids : Rule := any oid [cat [LPAREN, WSP, oidlist, WSP, RPAREN]]
def names : Rule := cat [nocase (ascii "NAME"), qdescrs .start .nameEnd]
def sup : Rule := cat [nocase (ascii "SUP"), whsp, leave oids .writeSups, whsp]
def kind : Rule :=
  cat [any (nocase (ascii "ABSTRACT")) [leave (nocase (ascii "STRUCTURAL")) .setStructural,
    leave (nocase (ascii "AUXILIARY")) .setAuxiliary], whsp]
def must : Rule := cat [nocase (ascii "MUST"), whsp, oids, whsp]
def may : Rule := cat [nocase (ascii "MAY"), whsp, oids]
def objectClassDescription : Rule :=
  cat [LPAREN, leave whsp .start, leave numericoid .numericoidEnd, whsp, opt names, opt sup, opt kind,
    opt must, opt may, whsp, RPAREN]
def label : Rule := cat [nocase (ascii "objectClasses"), COLON, whsp]
def main : Rule := cat [opt label, objectClassDescription]

theorem productive_main : main.Productive := by decide

def parseObjectClassDescription (input : Bytes) : Option LdapObjectClass :=
  (main.run act input {}).map Parser.result

def parseObjectClass : Option Bytes → Option LdapObjectClass
  | none => none
  | some value => if value.length = 0 then none else parseObjectClassDescription value

abbrev Oid := { u : Bytes // u ∈ (any descr [numericoid] : Rule).language }

/-- A text of `oids`. The other members of a list stand behind a dollar sign with spaces
around it. -/
inductive Oids
  | one (oid : Oid)
  | list (before : ℕ) (oid : Oid) (others : List (ℕ × ℕ × Oid)) (after : ℕ)

def Oids.values : Oids → List Bytes
  | .one oid => [oid.1]
  | .list _ oid others _ => oid.1 :: others.map fun x => x.2.2.1

def otherText (x : ℕ × ℕ × Oid) : Bytes := spaces x.1 ++ (0x24 :: (spaces x.2.1 ++ x.2.2.1))

def Oids.text : Oids → Bytes
  | .one oid => oid.1
  | .list before oid others after =>
    0x28 :: (spaces before ++ (oid.1 ++ (others.flatMap otherText ++ (spaces after ++ [0x29]))))

inductive Kind
  | abstract (word : Keyword "ABSTRACT")
  | structural (word : Keyword "STRUCTURAL")
  | auxiliary (word : Keyword "AUXILIARY")

def Kind.text : Kind → Bytes
  | .abstract word => word.1
  | .structural word => word.1
  | .auxiliary word => word.1

def Kind.value : Kind → Int
  | .abstract _ => 0
  | .structural _ => 1
  | .auxiliary _ => 2

structure Text where
  label : Option (Keyword "objectClasses" × ℕ)
  beforeOid : ℕ
  oid : { u : Bytes // u ∈ (numericoid : Rule).language }
  afterOid : ℕ
  names : Option (Keyword "NAME" × QDescrs)
  sup : Option (Keyword "SUP" × ℕ × Oids × ℕ)
  kind : Option (Kind × ℕ)
  must : Option (Keyword "MUST" × ℕ × Oids × ℕ)
  may : Option (Keyword "MAY" × ℕ × Oids)
  last : ℕ

def namesText : Option (Keyword "NAME" × QDescrs) → Bytes
  | none => []
  | some (word, names) => word.1 ++ names.text

def oidsText {word : String} : Option (Keyword word × ℕ × Oids × ℕ) → Bytes
  | none => []
  | some (word, before, oids, after) => word.1 ++ (spaces before ++ (oids.text ++ spaces after))

def kindText : Option (Kind × ℕ) → Bytes
  | none => []
  | some (kind, after) => kind.text ++ spaces after

def mayText : Option (Keyword "MAY" × ℕ × Oids) → Bytes
  | none => []
  | some (word, before, oids) => word.1 ++ (spaces before ++ oids.text)

def Text.description (t : Text) : Bytes :=
  0x28 :: (spaces t.beforeOid ++ (t.oid.1 ++ (spaces t.afterOid ++
    (namesText t.names ++ (oidsText t.sup ++ (kindText t.kind ++ (oidsText t.must ++
      (mayText t.may ++ (spaces t.last ++ [0x29])))))))))

def Text.text (t : Text) : Bytes := labelText t.label ++ t.description

def Text.value (t : Text) : LdapObjectClass where
  ocOid := some t.oid.1
  ocNames := (t.names.map fun x => x.2.names).bind arrayOf
  ocSupOids := (t.sup.map fun x => x.2.2.1.values).bind arrayOf
  ocKind := t.kind.elim 0 fun x => x.1.value
  ocAtOidsMust := (t.must.map fun x => x.2.2.1.values).bind arrayOf
  ocAtOidsMay := (t.may.map fun x => x.2.2.values).bind arrayOf

theorem renders_oid : Renders oid (Subtype.val : Oid → Bytes) :=
  ((renders_self (any descr [numericoid])).enter Action.start).leave Action.oidEnd

theorem renders_oids : Renders oids Oids.text := by
  have hother : Renders (cat [WSP, DOLLAR, WSP, oid]) otherText := by
    have hparts : Renders (cat [WSP, DOLLAR, WSP, oid]) _ :=
      renders_whsp.cons ((renders_char 0x24).cons (renders_whsp.cons (renders_oid.cons renders_nil)))
    refine hparts.of_texts ?_ ?_
    · rintro ⟨m, -, n, u, -⟩
      exact ⟨(m, n, u), by simp [otherText]⟩
    · rintro ⟨m, n, u⟩
      exact ⟨(m, (), n, u, ()), by simp [otherText]⟩
  have hlist : Renders oidlist _ := renders_oid.cons (hother.star.cons renders_nil)
  have hparts : Renders oids _ := renders_oid.alt ((renders_char 0x28).cons (renders_whsp.cons (hlist.cons
    (renders_whsp.cons ((renders_char 0x29).cons renders_nil)))))
  refine hparts.of_texts ?_ ?_
  · rintro (u | ⟨-, m, ⟨u, others, -⟩, n, -, -⟩)
    · exact ⟨.one u, rfl⟩
    · exact ⟨.list m u others n, by simp [Oids.text]⟩
  · rintro (u | ⟨m, u, others, n⟩)
    · exact ⟨.inl u, rfl⟩
    · exact ⟨.inr ((), m, (u, others, ()), n, (), ()), by simp [Oids.text]⟩

theorem renders_names : Renders (opt names) namesText := by
  have hparts : Renders (opt names) _ := ((renders_nocase _).cons ((renders_qdescrs _ _).cons renders_nil)).opt
  refine hparts.of_texts ?_ ?_
  · rintro (_ | ⟨word, q, -⟩)
    · exact ⟨none, rfl⟩
    · exact ⟨some (word, q), by simp [namesText]⟩
  · rintro (_ | ⟨word, q⟩)
    · exact ⟨none, rfl⟩
    · exact ⟨some (word, q, ()), by simp [namesText]⟩

theorem renders_clause (word : String) {e : Rule} (he : Renders e Oids.text) :
    Renders (opt (cat [nocase (ascii word), whsp, e, whsp])) fun x : Option (Keyword word × ℕ × Oids × ℕ) =>
      oidsText x := by
  refine ((renders_nocase _).cons (renders_whsp.cons (he.cons (renders_whsp.cons renders_nil)))).opt.of_texts ?_ ?_
  · rintro (_ | ⟨u, m, oids, n, -⟩)
    · exact ⟨none, rfl⟩
    · exact ⟨some (u, m, oids, n), by simp [oidsText]⟩
  · rintro (_ | ⟨u, m, oids, n⟩)
    · exact ⟨none, rfl⟩
    · exact ⟨some (u, m, oids, n, ()), by simp [oidsText]⟩

theorem renders_kind : Renders (opt kind) kindText := by
  have hkinds := (renders_nocase (ascii "ABSTRACT")).alt
    (((renders_nocase (ascii "STRUCTURAL")).leave Action.setStructural).alt
      ((renders_nocase (ascii "AUXILIARY")).leave Action.setAuxiliary))
  have hparts : Renders (opt kind) _ := (hkinds.cons (renders_whsp.cons renders_nil)).opt
  refine hparts.of_texts ?_ ?_
  · rintro (_ | ⟨word | word | word, n, -⟩)
    · exact ⟨none, rfl⟩
    · exact ⟨some (.abstract word, n), by simp [kindText, Kind.text]⟩
    · exact ⟨some (.structural word, n), by simp [kindText, Kind.text]⟩
    · exact ⟨some (.auxiliary word, n), by simp [kindText, Kind.text]⟩
  · rintro (_ | ⟨word | word | word, n⟩)
    · exact ⟨none, rfl⟩
    · exact ⟨some (.inl word, n, ()), by simp [kindText, Kind.text]⟩
    · exact ⟨some (.inr (.inl word), n, ()), by simp [kindText, Kind.text]⟩
    · exact ⟨some (.inr (.inr word), n, ()), by simp [kindText, Kind.text]⟩

theorem renders_may : Renders (opt may) mayText := by
  have hparts : Renders (opt may) _ :=
    ((renders_nocase _).cons (renders_whsp.cons (renders_oids.cons renders_nil))).opt
  refine hparts.of_texts ?_ ?_
  · rintro (_ | ⟨word, m, oids, -⟩)
    · exact ⟨none, rfl⟩
    · exact ⟨some (word, m, oids), by simp [mayText]⟩
  · rintro (_ | ⟨word, m, oids⟩)
    · exact ⟨none, rfl⟩
    · exact ⟨some (word, m, oids, ()), by simp [mayText]⟩

theorem renders_main : Renders main Text.text := by
  have hdescription := (renders_char 0x28).cons ((renders_whsp.leave Action.start).cons
    (((renders_self numericoid).leave Action.numericoidEnd).cons (renders_whsp.cons (renders_names.cons
      ((renders_clause "SUP" (renders_oids.leave Action.writeSups)).cons (renders_kind.cons
        ((renders_clause "MUST" renders_oids).cons (renders_may.cons (renders_whsp.cons
          ((renders_char 0x29).cons renders_nil))))))))))
  have hmain : Renders main _ := (renders_label "objectClasses").cons (hdescription.cons renders_nil)
  refine hmain.of_texts ?_ ?_
  · rintro ⟨label, ⟨-, m, oid, j, names, sup, kind, must, may, last, -, -⟩, -⟩
    exact ⟨⟨label, m, oid, j, names, sup, kind, must, may, last⟩, by simp [Text.text, Text.description]⟩
  · rintro ⟨label, m, oid, j, names, sup, kind, must, may, last⟩
    exact ⟨⟨label, ⟨(), m, oid, j, names, sup, kind, must, may, last, (), ()⟩, ()⟩,
      by simp [Text.text, Text.description]⟩

/-- A text is accepted when it is the beginning of a sentence. -/
theorem parseObjectClass_isSome (value : Bytes) : (parseObjectClass (some value)).isSome = true ↔
    value ≠ [] ∧ ∃ w, value ++ w ∈ main.language := by
  unfold parseObjectClass parseObjectClassDescription
  by_cases hvalue : value = []
  · simp [hvalue]
  · have hlength : value.length ≠ 0 := by simpa using hvalue
    simp only [if_neg hlength, Option.isSome_map, Expr.run_isSome_iff productive_main, hvalue, ne_eq,
      not_false_eq_true, true_and]

/-- The text is no proper beginning of a sentence, and a sentence is not empty. -/
def Settled (sentences : Language UInt8) (value : Bytes) : Prop :=
  value = [] ∨ value ∈ sentences ∨ ¬∃ w, value ++ w ∈ sentences

theorem settled_iff {sentences : Language UInt8} (hnil : [] ∉ sentences) {value : Bytes} {accepted : Prop}
    (h : accepted ↔ value ≠ [] ∧ ∃ w, value ++ w ∈ sentences) :
    (accepted ↔ value ∈ sentences) ↔ Settled sentences value := by
  rw [h, Settled]
  by_cases hvalue : value = []
  · simp [hvalue, hnil]
  · by_cases hmem : value ∈ sentences
    · have hfollow : ∃ w, value ++ w ∈ sentences := ⟨[], by simpa using hmem⟩
      simp [hvalue, hmem, hfollow]
    · simp [hvalue, hmem]

/-- Each of the two parsers accepts exactly the sentences of its grammar among the texts
that are no proper beginnings of sentences. -/
theorem parse_settled (value : Bytes) :
    (((AttributeTypeDescription.parseAttributeType (some value)).isSome = true ↔
        value ∈ AttributeTypeDescription.main.language) ↔
      Settled AttributeTypeDescription.main.language value) ∧
    (((parseObjectClass (some value)).isSome = true ↔ value ∈ main.language) ↔ Settled main.language value) := by
  constructor
  · have hnil : [] ∉ AttributeTypeDescription.main.language := by simp [Expr.nil_mem_language]; decide
    exact settled_iff hnil (AttributeTypeDescription.parseAttributeType_isSome value)
  · have hnil : [] ∉ main.language := by simp [Expr.nil_mem_language]; decide
    exact settled_iff hnil (parseObjectClass_isSome value)

/-- Descriptions that end after the beginning of the numeric OID are accepted. -/
theorem parse_truncated :
    ¬(((AttributeTypeDescription.parseAttributeType (some (ascii "( 1"))).isSome = true ↔
        ascii "( 1" ∈ AttributeTypeDescription.main.language) ∨
      ((parseObjectClass (some (ascii "( 1"))).isSome = true ↔ ascii "( 1" ∈ main.language)) := by
  have hattribute : AttributeTypeDescription.parseAttributeType (some (ascii "( 1")) = some {} := by decide
  have hclass : parseObjectClass (some (ascii "( 1")) = some {} := by decide
  rw [hattribute, hclass, ← accepts_iff, ← accepts_iff]
  decide

theorem Text.ne_nil (t : Text) : t.text ≠ [] := by
  simp [Text.text, Text.description]

theorem exists_run (t : Text) : ∃ s, main.run act t.text {} = some s ∧
    parseObjectClass (some t.text) = some s.result := by
  have hsome : (main.run act t.text ({} : Parser)).isSome = true := by
    rw [Expr.run_isSome_iff productive_main]
    exact ⟨[], (renders_main _).mpr ⟨t, (List.append_nil _).symm⟩⟩
  obtain ⟨s, hs⟩ := Option.isSome_iff_exists.mp hsome
  have hlength : t.text.length ≠ 0 := by simpa using t.ne_nil
  exact ⟨s, hs, by rw [parseObjectClass, if_neg hlength, parseObjectClassDescription, hs]; rfl⟩

/-- `write_must` and `write_may` are embedded nowhere. -/
theorem not_written : Action.writeMust ∉ main.actions ∧ Action.writeMay ∉ main.actions := by decide

theorem capture_result (s : Parser) (before : Bytes) (store : Parser → Bytes → Parser) {P : LdapObjectClass → Prop}
    (hs : P s.result) (hstore : ∀ u, P (store s u).result) : P (s.capture before store).result := by
  unfold Parser.capture
  by_cases hmoved : s.symbolStart ≠ before.length
  · rw [if_pos hmoved]
    exact hstore _
  · rw [if_neg hmoved]
    exact hs

def NoAttributes (result : LdapObjectClass) : Prop := result.ocAtOidsMust = none ∧ result.ocAtOidsMay = none

theorem act_noAttributes {a : Action} (ha : a ∈ main.actions) (before : Bytes) (s : Parser)
    (hs : NoAttributes s.result) : NoAttributes (act a before s).result := by
  cases a with
  | start => exact hs
  | numericoidEnd => exact capture_result s before _ hs fun _ => hs
  | nameEnd => exact capture_result s before _ hs fun _ => hs
  | oidEnd => exact capture_result s before _ hs fun _ => hs
  | writeSups =>
    rw [act, Parser.handOver]
    cases s.oids with
    | none => exact hs
    | some oids => exact hs
  | writeMust => exact absurd ha not_written.1
  | writeMay => exact absurd ha not_written.2
  | setStructural => exact hs
  | setAuxiliary => exact hs

theorem run_noAttributes {input : Bytes} {s : Parser} (h : main.run act input {} = some s) :
    NoAttributes s.result := by
  have hI : ∀ i a, 0 ≤ i → main.actions[i]? = some a → ∀ before s, NoAttributes s.result →
      NoAttributes (act a before s).result :=
    fun i a _ ha before s hs => act_noAttributes (List.mem_of_getElem? ha) before s hs
  exact exec_keeps (I := fun s : Parser => NoAttributes s.result) hI (fun k _ x _ => Nat.zero_le x.1) ⟨rfl, rfl⟩ h

def Text.supOids (t : Text) : List Bytes := t.sup.elim [] fun x => x.2.2.1.values
def Text.mustOids (t : Text) : List Bytes := t.must.elim [] fun x => x.2.2.1.values
def Text.mayOids (t : Text) : List Bytes := t.may.elim [] fun x => x.2.2.values

/-- The required and the allowed attributes are those of the text, and none of them is
taken for a superior class. -/
structure AttributesOf (t : Text) (r : LdapObjectClass) : Prop where
  must : r.ocAtOidsMust = t.value.ocAtOidsMust
  may : r.ocAtOidsMay = t.value.ocAtOidsMay
  apart : ∀ u ∈ t.mustOids ++ t.mayOids, u ∉ t.supOids → some u ∉ r.ocSupOids.getD []

theorem arrayOf_values (oids : Oids) : arrayOf oids.values ≠ none := by
  cases oids <;> simp [Oids.values, arrayOf]

/-- The attributes are those of the text only where it has none. -/
theorem parseObjectClass_attributes (w : Bytes) : (w ∈ main.language ↔ ∃ t : Text, t.text = w) ∧ ∀ t : Text,
    t.text = w → ((∃ r, parseObjectClass (some w) = some r ∧ AttributesOf t r) ↔ t.must = none ∧ t.may = none) := by
  refine ⟨renders_main w, ?_⟩
  rintro t rfl
  obtain ⟨s, hrun, hparse⟩ := exists_run t
  obtain ⟨hmust, hmay⟩ := run_noAttributes hrun
  rw [hparse]
  constructor
  · rintro ⟨r, hr, h⟩
    cases hr
    have hmust' := hmust.symm.trans h.must
    have hmay' := hmay.symm.trans h.may
    constructor
    · cases hx : t.must with
      | none => rfl
      | some x =>
        simp only [Text.value, hx, Option.map_some, Option.bind_some] at hmust'
        exact absurd hmust'.symm (arrayOf_values _)
    · cases hx : t.may with
      | none => rfl
      | some x =>
        simp only [Text.value, hx, Option.map_some, Option.bind_some] at hmay'
        exact absurd hmay'.symm (arrayOf_values _)
  · rintro ⟨hnone, hnone'⟩
    have hattributes : AttributesOf t s.result :=
      { must := by rw [hmust, Text.value, hnone]; rfl
        may := by rw [hmay, Text.value, hnone']; rfl
        apart := by simp [Text.mustOids, Text.mayOids, hnone, hnone'] }
    exact ⟨s.result, rfl, hattributes⟩

/-- The required attribute of a description is lost. -/
theorem parseObjectClass_must : ¬∀ t : Text, ∃ r, parseObjectClass (some t.text) = some r ∧ AttributesOf t r := by
  intro h
  have hnumber : ascii "1.2" ∈ (numericoid : Rule).language := by
    rw [← accepts_iff]
    decide
  have hname : ascii "cn" ∈ (any descr [numericoid] : Rule).language := by
    rw [← accepts_iff]
    decide
  let t : Text :=
    ⟨none, 1, ⟨_, hnumber⟩, 1, none, none, none, some (⟨_, spelled_self _⟩, 1, .one ⟨_, hname⟩, 1), none, 0⟩
  have hparse : parseObjectClass (some t.text) = some { ocOid := some (ascii "1.2") } := by
    have htext : t.text = ascii "( 1.2 MUST cn )" := rfl
    rw [htext]
    decide
  obtain ⟨r, hr, hattributes⟩ := h t
  rw [hparse] at hr
  cases hr
  have hmust : (none : Option (List (Option Bytes))) = some [some (ascii "cn"), none] := hattributes.must
  cases hmust

end Libdomain.Parsers.ObjectClassDescription
