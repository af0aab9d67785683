import Libdomain.Parsers.QuotedNames

/-! # Attribute type descriptions

The machine of `attribute_type_description.rl` and its use in `parse_attribute_type`.
-/
namespace Libdomain.Parsers.AttributeTypeDescription
open Libdomain.Connection Libdomain.Ragel Libdomain.Ragel.Expr Libdomain.Parsers

inductive Action
  | start
  | oidEnd
  | nameEnd
  | syntaxEnd
  | singleValue
  | noUserModification
  deriving DecidableEq

/-- The fields of an `LDAPAttributeType` that the parser sets. -/
structure LdapAttributeType where
  atOid : Option Bytes := none
  atNames : Option (List (Option Bytes)) := none
  atSyntaxOid : Option Bytes := none
  atSingleValue : Int := 0
  atNoUserMod : Int := 0
  deriving DecidableEq

/-- The locals of `parse_attribute_type_description`. -/
structure Parser where
  symbolStart : ℕ := 0
  nameIndex : ℕ := 0
  result : LdapAttributeType := {}

/-- `talloc_strndup` of what lies between `symbol_start` and `p`, and `symbol_start = p`. -/
def Parser.capture (s : Parser) (before : Bytes) (store : Parser → Bytes → Parser) : Parser :=
  { if s.symbolStart ≠ before.length then store s (before.drop s.symbolStart) else s with
    symbolStart := before.length }

def Parser.addName (s : Parser) (name : Bytes) : Parser :=
  { s with
    result := { s.result with atNames := some (appendString s.result.atNames s.nameIndex name) }
    nameIndex := s.nameIndex + 1 }

def act : Action → Bytes → Parser → Parser
  | .start, before, s => { s with symbolStart := before.length }
  | .oidEnd, before, s =>
    s.capture before fun s oid => { s with result := { s.result with atOid := some oid } }
  | .nameEnd, before, s => s.capture before Parser.addName
  | .syntaxEnd, before, s =>
    s.capture before fun s oid => { s with result := { s.result with atSyntaxOid := some oid } }
  | .singleValue, _, s => { s with result := { s.result with atSingleValue := 1 } }
  | .noUserModification, _, s => { s with result := { s.result with atNoUserMod := 1 } }

abbrev Rule := Expr UInt8 Action

def syntaxoid : Rule :=
  cat [leave SQUOTE .start, leave (any numericoid [nocase (ascii "OctetString")]) .syntaxEnd, SQUOTE]
def names : Rule := cat [nocase (ascii "NAME"), qdescrs .start .nameEnd]
def syntaxClause : Rule := cat [nocase (ascii "SYNTAX"), whsp, syntaxoid, whsp]
def singleValue : Rule := cat [leave (nocase (ascii "SINGLE-VALUE")) .singleValue, whsp]
def noUserModification : Rule :=
  cat [leave (nocase (ascii "NO-USER-MODIFICATION")) .noUserModification, whsp]
def attributeTypeDescription : Rule :=
  cat [LPAREN, leave whsp .start, leave numericoid .oidEnd, whsp, opt names, opt syntaxClause,
    opt singleValue, opt noUserModification, whsp, RPAREN]
def label : Rule := cat [nocase (ascii "attributeTypes"), COLON, whsp]
def main : Rule := cat [opt label, attributeTypeDescription]

theorem productive_main : main.Productive := by decide

def parseAttributeTypeDescription (input : Bytes) : Option LdapAttributeType :=
  (main.run act input {}).map Parser.result

def parseAttributeType : Option Bytes → Option LdapAttributeType
  | none => none
  | some value => if value.length = 0 then none else parseAttributeTypeDescription value

structure Text where
  label : Option (Keyword "attributeTypes" × ℕ)
  beforeOid : ℕ
  oid : { u : Bytes // u ∈ (numericoid : Rule).language }
  afterOid : ℕ
  names : Option (Keyword "NAME" × QDescrs)
  syntaxOid : Option (Keyword "SYNTAX" × ℕ ×
    { u : Bytes // u ∈ (any numericoid [nocase (ascii "OctetString")] : Rule).language } × ℕ)
  singleValue : Option (Keyword "SINGLE-VALUE" × ℕ)
  noUserModification : Option (Keyword "NO-USER-MODIFICATION" × ℕ)
  last : ℕ

def namesText : Option (Keyword "NAME" × QDescrs) → Bytes
  | none => []
  | some (word, names) => word.1 ++ names.text

def syntaxText : Option (Keyword "SYNTAX" × ℕ ×
    { u : Bytes // u ∈ (any numericoid [nocase (ascii "OctetString")] : Rule).language } × ℕ) → Bytes
  | none => []
  | some (word, before, oid, after) =>
    word.1 ++ (spaces before ++ (0x27 :: (oid.1 ++ (0x27 :: spaces after))))

def flagText {word : String} : Option (Keyword word × ℕ) → Bytes
  | none => []
  | some (word, after) => word.1 ++ spaces after

def Text.text (t : Text) : Bytes :=
  labelText t.label ++ (0x28 :: (spaces t.beforeOid ++ (t.oid.1 ++ (spaces t.afterOid ++
    (namesText t.names ++ (syntaxText t.syntaxOid ++ (flagText t.singleValue ++
      (flagText t.noUserModification ++ (spaces t.last ++ [0x29])))))))))

def Text.value (t : Text) : LdapAttributeType where
  atOid := some t.oid.1
  atNames := (t.names.map fun x => x.2.names).bind arrayOf
  atSyntaxOid := t.syntaxOid.map fun x => x.2.2.1.1
  atSingleValue := if t.singleValue.isSome then 1 else 0
  atNoUserMod := if t.noUserModification.isSome then 1 else 0

/-- What the clauses of a description change. -/
abbrev Fields := ℕ × LdapAttributeType

def fields (s : Parser) : Fields := (s.nameIndex, s.result)

theorem capture_start (store : Parser → Bytes → Parser) (before u : Bytes) (s : Parser) (hu : u ≠ []) :
    (act .start before s).capture (before ++ u) store =
      { store { s with symbolStart := before.length } u with symbolStart := (before ++ u).length } := by
  have hmoved : (before.length ≠ (before ++ u).length) := by
    simpa using hu
  simp only [Parser.capture, act, if_pos hmoved, List.drop_left]

/-- The rest of the rule after its numeric OID, and after the optional clauses. -/
def afterSingleValue : Item UInt8 Action := (opt noUserModification).parts 11 ++ frames 12 [whsp, RPAREN]
def afterSyntax : Item UInt8 Action := (opt singleValue).parts 10 ++ afterSingleValue
def afterNames : Item UInt8 Action := (opt syntaxClause).parts 8 ++ afterSyntax
def afterOid : Item UInt8 Action := (opt names).parts 2 ++ afterNames

theorem absorbs_afterSingleValue : Absorbs afterSingleValue :=
  absorbs_opt (absorbs_whsp (absorbs_of_still rfl) 12) rfl rfl

theorem absorbs_afterSyntax : Absorbs afterSyntax := absorbs_opt absorbs_afterSingleValue rfl rfl

theorem absorbs_afterNames : Absorbs afterNames := absorbs_opt absorbs_afterSyntax rfl rfl

theorem absorbs_afterOid : Absorbs afterOid := absorbs_opt absorbs_afterNames rfl rfl

theorem quiet_afterOid : Quiet afterOid := quiet_of_heads (by decide)

theorem quiet_afterSingleValue : Quiet afterSingleValue := quiet_of_heads (by decide)

def writeFlag (set : LdapAttributeType → LdapAttributeType) (present : Bool) (r : Fields) : Fields :=
  if present then (r.1, set r.2) else r

theorem reads_noUserModification (x : Option (Keyword "NO-USER-MODIFICATION" × ℕ)) (last : ℕ) :
    Reads main.actions act fields [ascii "NO-USER-MODIFICATION"] afterSingleValue
      (flagText x ++ (spaces last ++ [0x29]))
      fun r s' => fields s' = writeFlag (fun r => { r with atNoUserMod := 1 }) x.isSome r := by
  have hclosing : Reads main.actions act fields [] (frames 12 [whsp, RPAREN]) (spaces last ++ [0x29])
      fun r s' => fields s' = r :=
    Reads.closing 12 last
  cases x with
  | none => exact hclosing.absent rfl rfl (by simp) (by decide)
  | some x =>
    have hread := hclosing.flag (g := fun r => (r.1, { r.2 with atNoUserMod := 1 }))
      (absorbs_whsp (absorbs_of_still rfl) 12) (quiet_whsp (quiet_parts rfl rfl _ _) 12)
      (e := noUserModification) (n := 11) rfl rfl rfl (fun _ _ => rfl) (by decide) (by decide) x.1.2 x.2
    rw [flagText, List.append_assoc]
    exact hread

theorem reads_singleValue (x : Option (Keyword "SINGLE-VALUE" × ℕ)) {r : Bytes} {Q : Fields → Parser → Prop}
    (h : Reads main.actions act fields [ascii "NO-USER-MODIFICATION"] afterSingleValue r Q) :
    Reads main.actions act fields [ascii "SINGLE-VALUE", ascii "NO-USER-MODIFICATION"] afterSyntax
      (flagText x ++ r) (Q ∘ writeFlag (fun r => { r with atSingleValue := 1 }) x.isSome) := by
  cases x with
  | none => exact h.absent rfl rfl (by decide) (by decide)
  | some x =>
    have hread := h.flag (g := fun r => (r.1, { r.2 with atSingleValue := 1 }))
      absorbs_afterSingleValue quiet_afterSingleValue
      (e := singleValue) (n := 10) rfl rfl rfl (fun _ _ => rfl) (by decide) (by decide) x.1.2 x.2
    rw [flagText, List.append_assoc]
    exact hread

def writeOid (r : Fields) (oid : Bytes) : Fields := (r.1, { r.2 with atOid := some oid })

def writeSyntaxOid (r : Fields) (oid : Bytes) : Fields := (r.1, { r.2 with atSyntaxOid := some oid })

def writeName (r : Fields) (name : Bytes) : Fields :=
  (r.1 + 1, { r.2 with atNames := some (appendString r.2.atNames r.1 name) })

theorem fields_syntaxEnd (before u : Bytes) (s : Parser) (hu : u ≠ []) :
    fields (act .syntaxEnd (before ++ u) (act .start before s)) = writeSyntaxOid (fields s) u := by
  change fields ((act .start before s).capture (before ++ u) _) = _
  rw [capture_start _ before u s hu]
  rfl

theorem fields_nameEnd (before u : Bytes) (s : Parser) (hu : u ≠ []) :
    fields (act .nameEnd (before ++ u) (act .start before s)) = writeName (fields s) u := by
  change fields ((act .start before s).capture (before ++ u) _) = _
  rw [capture_start _ before u s hu]
  rfl

def writeSyntax (x : Option (Keyword "SYNTAX" × ℕ ×
    { u : Bytes // u ∈ (any numericoid [nocase (ascii "OctetString")] : Rule).language } × ℕ)) (r : Fields) : Fields :=
  x.elim r fun x => writeSyntaxOid r x.2.2.1.1

def writeNames (x : Option (Keyword "NAME" × QDescrs)) (r : Fields) : Fields :=
  (x.elim [] fun x => x.2.names).foldl writeName r

theorem reads_syntax (x : Option (Keyword "SYNTAX" × ℕ ×
      { u : Bytes // u ∈ (any numericoid [nocase (ascii "OctetString")] : Rule).language } × ℕ))
    {words : List Bytes} (hwords : ∀ other ∈ words, Differs other (ascii "SYNTAX")) {r : Bytes}
    {Q : Fields → Parser → Prop} (h : Reads main.actions act fields words afterSyntax r Q) :
    Reads main.actions act fields (ascii "SYNTAX" :: words) afterNames (syntaxText x ++ r) (Q ∘ writeSyntax x) := by
  cases x with
  | none => exact h.absent rfl rfl hwords (by decide)
  | some x =>
    obtain ⟨word, j, oid, j'⟩ := x
    let quoted : Item UInt8 Action := frames 8 [leave SQUOTE .start,
      leave (any numericoid [nocase (ascii "OctetString")]) .syntaxEnd, SQUOTE]
    have hdelimits : Delimits main.actions .start .syntaxEnd 8 := ⟨rfl, rfl⟩
    have hclause : ∀ before d rest s, spaces j' ++ r = d :: rest → ∃ s' m,
        fields s' = writeSyntaxOid (fields s) oid.1 ∧
        exec main.actions act [(whsp.parts 8 ++ (quoted ++ whsp.parts 10)) ++ afterSyntax] before
            ((spaces j ++ (0x27 :: (oid.1 ++ [0x27]))) ++ d :: rest) s =
          exec main.actions act [whsp.parts m ++ afterSyntax] (before ++ (spaces j ++ (0x27 :: (oid.1 ++ [0x27]))))
            (d :: rest) s' := by
      intro before d rest s _
      obtain ⟨s', hfields, hexec⟩ := exec_quoted fields_syntaxEnd
        (e := any numericoid [nocase (ascii "OctetString")]) (by decide) rfl rfl (by decide) hdelimits oid.2
        (whsp.parts 10 ++ afterSyntax) (before ++ spaces j) (d :: rest) s
      refine ⟨s', 10, hfields, ?_⟩
      have hspaces : exec main.actions act [whsp.parts 8 ++ (quoted ++ (whsp.parts 10 ++ afterSyntax))] before
            (spaces j ++ (0x27 :: (oid.1 ++ (0x27 :: d :: rest)))) s =
          exec main.actions act [quoted ++ (whsp.parts 10 ++ afterSyntax)] (before ++ spaces j)
            (0x27 :: (oid.1 ++ (0x27 :: d :: rest))) s := exec_spaces (absorbs_of_still rfl) j (by simp)
      simp only [List.append_assoc, List.cons_append, List.nil_append] at hspaces hexec ⊢
      rw [hspaces, hexec]
    have hread := h.present (g := fun r => writeSyntaxOid r oid.1) absorbs_afterSyntax (e := syntaxClause) (n := 8)
      rfl rfl (by decide) (by decide) word.2 j' hclause
    have htext : syntaxText (some (word, j, oid, j')) ++ r =
        word.1 ++ ((spaces j ++ (0x27 :: (oid.1 ++ [0x27]))) ++ (spaces j' ++ r)) := by
      simp [syntaxText]
    rw [htext]
    exact hread

theorem reads_names (x : Option (Keyword "NAME" × QDescrs)) {words : List Bytes}
    (hwords : ∀ other ∈ words, Differs other (ascii "NAME")) {r : Bytes}
    {Q : Fields → Parser → Prop} (h : Reads main.actions act fields words afterNames r Q) :
    Reads main.actions act fields (ascii "NAME" :: words) afterOid (namesText x ++ r) (Q ∘ writeNames x) := by
  cases x with
  | none => exact h.absent rfl rfl hwords (by decide)
  | some x =>
    obtain ⟨word, q⟩ := x
    have hdelimits : ∀ n ∈ [2, 4, 6], Delimits main.actions .start .nameEnd n := by decide
    have hread := h.present (g := fun r => q.names.foldl writeName r) absorbs_afterNames (e := names) (n := 2)
      rfl rfl (by decide) (by decide) word.2 q.trailing
      (fun before d rest s _ => exec_names fields_nameEnd (hdelimits 2 (by simp)) (hdelimits 4 (by simp))
        (hdelimits 6 (by simp)) q afterNames before (d :: rest) s)
    have htext : namesText (some (word, q)) ++ r = word.1 ++ (q.core ++ (spaces q.trailing ++ r)) := by
      simp [namesText, QDescrs.text_eq]
    rw [htext]
    exact hread

def Text.write (t : Text) (r : Fields) : Fields :=
  writeFlag (fun r => { r with atNoUserMod := 1 }) t.noUserModification.isSome
    (writeFlag (fun r => { r with atSingleValue := 1 }) t.singleValue.isSome
      (writeSyntax t.syntaxOid (writeNames t.names r)))

theorem reads_clauses (t : Text) : ∃ words, Reads main.actions act fields words afterOid
    (namesText t.names ++ (syntaxText t.syntaxOid ++ (flagText t.singleValue ++
      (flagText t.noUserModification ++ (spaces t.last ++ [0x29]))))) fun r s' => fields s' = t.write r := by
  have hlast := reads_noUserModification t.noUserModification t.last
  have hsingle := reads_singleValue t.singleValue hlast
  have hsyntax := reads_syntax t.syntaxOid (by decide) hsingle
  have hnames := reads_names t.names (by decide) hsyntax
  exact ⟨_, hnames⟩

theorem digits_afterOid (c : UInt8) (hc : (numericoid : Rule).covers c = true) : next c afterOid = [] := by
  have hapart : Apart (numericoid : Rule) [] afterOid := by decide
  exact hapart.next_eq_nil hc (by simp)

def Text.description (t : Text) : Bytes :=
  0x28 :: (spaces t.beforeOid ++ (t.oid.1 ++ (spaces t.afterOid ++
    (namesText t.names ++ (syntaxText t.syntaxOid ++ (flagText t.singleValue ++
      (flagText t.noUserModification ++ (spaces t.last ++ [0x29]))))))))

theorem exec_description (t : Text) (before : Bytes) (s : Parser) : ∃ s',
    exec main.actions act [attributeTypeDescription.parts 0] before t.description s = some s' ∧
      fields s' = t.write (writeOid (fields s) t.oid.1) := by
  obtain ⟨words, hclauses⟩ := reads_clauses t
  have hcapture : ∀ before u s, u ≠ [] →
      fields (act .oidEnd (before ++ u) (act .start before s)) = writeOid (fields s) u := by
    intro before u s hu
    change fields ((act .start before s).capture (before ++ u) _) = _
    rw [capture_start _ before u s hu]
    rfl
  exact hclauses.opening absorbs_afterOid quiet_afterOid digits_afterOid (by decide) hcapture t.oid.2 t.beforeOid
    t.afterOid before s

theorem foldl_writeName (names : List Bytes) (r : LdapAttributeType) (known : List Bytes) :
    names.foldl writeName (known.length, { r with atNames := arrayOf known }) =
      ((known ++ names).length, { r with atNames := arrayOf (known ++ names) }) := by
  induction names generalizing known with
  | nil => simp
  | cons name names ih =>
    have hstep : writeName (known.length, { r with atNames := arrayOf known }) name =
        ((known ++ [name]).length, { r with atNames := arrayOf (known ++ [name]) }) := by
      rw [writeName, appendString_arrayOf, arrayOf_append, List.length_append]
      rfl
    rw [List.foldl_cons, hstep, ih]
    simp

/-- Into an empty structure the clauses write what the text says. -/
theorem write_value (t : Text) : (t.write (writeOid (0, {}) t.oid.1)).2 = t.value := by
  have hnames : writeNames t.names (writeOid (0, {}) t.oid.1) =
      ((t.names.elim [] fun x => x.2.names).length,
        { atOid := some t.oid.1, atNames := arrayOf (t.names.elim [] fun x => x.2.names) }) :=
    foldl_writeName _ { atOid := some t.oid.1 } []
  have harray : arrayOf (t.names.elim [] fun x => x.2.names) =
      (t.names.map fun x => x.2.names).bind arrayOf := by
    cases t.names <;> rfl
  simp only [Text.write, hnames, Text.value, harray, writeFlag]
  cases t.syntaxOid <;> cases t.singleValue <;> cases t.noUserModification <;> rfl

theorem Text.text_eq (t : Text) : t.text = labelText t.label ++ t.description := rfl

theorem renders_names : Renders (opt names) namesText := by
  refine ((renders_nocase _).cons ((renders_qdescrs _ _).cons renders_nil)).opt.of_texts ?_ ?_
  · rintro (_ | ⟨word, q, -⟩)
    · exact ⟨none, rfl⟩
    · exact ⟨some (word, q), by simp [namesText]⟩
  · rintro (_ | ⟨word, q⟩)
    · exact ⟨none, rfl⟩
    · exact ⟨some (word, q, ()), by simp [namesText]⟩

theorem renders_syntaxClause : Renders (opt syntaxClause) syntaxText := by
  have hsyntaxoid : Renders syntaxoid _ := ((renders_char 0x27).leave Action.start).cons
    (((renders_self _).leave Action.syntaxEnd).cons ((renders_char 0x27).cons renders_nil))
  have hclause : Renders syntaxClause _ := (renders_nocase _).cons (renders_whsp.cons (hsyntaxoid.cons
    (renders_whsp.cons renders_nil)))
  refine hclause.opt.of_texts ?_ ?_
  · rintro (_ | ⟨word, j, ⟨-, oid, -, -⟩, j', -⟩)
    · exact ⟨none, rfl⟩
    · exact ⟨some (word, j, oid, j'), by simp [syntaxText]⟩
  · rintro (_ | ⟨word, j, oid, j'⟩)
    · exact ⟨none, rfl⟩
    · exact ⟨some (word, j, ((), oid, (), ()), j', ()), by simp [syntaxText]⟩

theorem renders_flag (word : String) (a : Action) :
    Renders (opt (cat [leave (nocase (ascii word)) a, whsp])) fun x : Option (Keyword word × ℕ) => flagText x := by
  refine (((renders_nocase _).leave a).cons (renders_whsp.cons renders_nil)).opt.of_texts ?_ ?_
  · rintro (_ | ⟨u, j, -⟩)
    · exact ⟨none, rfl⟩
    · exact ⟨some (u, j), by simp [flagText]⟩
  · rintro (_ | ⟨u, j⟩)
    · exact ⟨none, rfl⟩
    · exact ⟨some (u, j, ()), by simp [flagText]⟩

theorem renders_main : Renders main Text.text := by
  have hdescription := (renders_char 0x28).cons ((renders_whsp.leave Action.start).cons
    (((renders_self numericoid).leave Action.oidEnd).cons (renders_whsp.cons (renders_names.cons
      (renders_syntaxClause.cons ((renders_flag "SINGLE-VALUE" .singleValue).cons
        ((renders_flag "NO-USER-MODIFICATION" .noUserModification).cons (renders_whsp.cons
          ((renders_char 0x29).cons renders_nil)))))))))
  have hmain : Renders main _ := (renders_label "attributeTypes").cons (hdescription.cons renders_nil)
  refine hmain.of_texts ?_ ?_
  · rintro ⟨label, ⟨-, m, oid, j, names, syntaxOid, single, noUser, last, -, -⟩, -⟩
    exact ⟨⟨label, m, oid, j, names, syntaxOid, single, noUser, last⟩, by simp [Text.text]⟩
  · rintro ⟨label, m, oid, j, names, syntaxOid, single, noUser, last⟩
    exact ⟨⟨label, ⟨(), m, oid, j, names, syntaxOid, single, noUser, last, (), ()⟩, ()⟩, by simp [Text.text]⟩

/-- The sentences of the grammar are the texts, and each of them is parsed to what it says. -/
theorem parseAttributeType_text : (∀ w, w ∈ main.language ↔ ∃ t : Text, t.text = w) ∧
    ∀ t : Text, parseAttributeType (some t.text) = some t.value := by
  refine ⟨renders_main, fun t => ?_⟩
  have hne : t.text.length ≠ 0 := by
    rw [Text.text_eq, Text.description]
    simp
  obtain ⟨before, hlabel⟩ : ∃ before, exec main.actions act [(opt label).parts 0 ++
        opening .start .oidEnd afterOid] [] (labelText t.label ++ t.description) {} =
      exec main.actions act [opening .start .oidEnd afterOid] before t.description {} :=
    exec_label (by decide) (by decide) (e := label) rfl rfl t.label .start .oidEnd afterOid _ _
  obtain ⟨s', hexec, hfields⟩ := exec_description t before {}
  have hrun : main.run act t.text {} = some s' := hlabel.trans hexec
  have hvalue : s'.result = t.value := by
    rw [← write_value]
    exact congrArg Prod.snd hfields
  rw [parseAttributeType, if_neg hne, parseAttributeTypeDescription, hrun, ← hvalue]
  rfl

/-- A text is accepted when it is the beginning of a sentence. -/
theorem parseAttributeType_isSome (value : Bytes) : (parseAttributeType (some value)).isSome = true ↔
    value ≠ [] ∧ ∃ w, value ++ w ∈ main.language := by
  unfold parseAttributeType parseAttributeTypeDescription
  by_cases hvalue : value = []
  · simp [hvalue]
  · have hlength : value.length ≠ 0 := by simpa using hvalue
    simp only [if_neg hlength, Option.isSome_map, Expr.run_isSome_iff productive_main, hvalue, ne_eq,
      not_false_eq_true, true_and]

end Libdomain.Parsers.AttributeTypeDescription
