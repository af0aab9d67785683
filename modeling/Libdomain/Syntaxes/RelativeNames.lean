import Libdomain.Ragel.Rendering
import Libdomain.Ragel.Scan
import Libdomain.Syntaxes.DistinguishedName

/-! # The parts of a distinguished name

A distinguished name as the list of its relative names, each of them one or more pairs of
an attribute type and a value. A name has one text, and a text is that of one name.
-/
namespace Libdomain.Syntaxes
open Libdomain.Connection Libdomain.Ragel Libdomain.Ragel.Expr

namespace Dn

/-- A text of `attributeTypeAndValue`. -/
structure Pair where
  type : { u : Bytes // u ∈ attributeType.language }
  value : { u : Bytes // u ∈ attributeValue.language }

def Pair.text (p : Pair) : Bytes := p.type.1 ++ (0x3d :: p.value.1)

/-- A text of `relativeDistinguishedName`. -/
abbrev Rdn := Pair × List Pair

def Rdn.others (ps : List Pair) : Bytes := ps.flatMap fun p => 0x2b :: p.text

def Rdn.text (r : Rdn) : Bytes := r.1.text ++ Rdn.others r.2

/-- A text of `distinguishedName`. -/
abbrev Name := List Rdn

def Name.others (rs : List Rdn) : Bytes := rs.flatMap fun r => 0x2c :: Rdn.text r

def Name.text : Name → Bytes
  | [] => []
  | r :: rs => Rdn.text r ++ Name.others rs

def isHex (c : UInt8) : Bool := 0x30 ≤ c && c ≤ 0x39 || 0x41 ≤ c && c ≤ 0x46 || 0x61 ≤ c && c ≤ 0x66

def hexDigit (c : UInt8) : UInt8 := if c ≤ 0x39 then c - 0x30 else if c ≤ 0x46 then c - 0x37 else c - 0x57

def hexByte (c d : UInt8) : UInt8 := hexDigit c * 16 + hexDigit d

/-- What a `string` stands for: an escaped character for itself, or for the byte given by
two hexadecimal digits. -/
def unescape : Bytes → Bytes
  | [] => []
  | [c] => if c = 0x5c then [] else [c]
  | [c, d] => if c = 0x5c then [d] else c :: unescape [d]
  | c :: d :: e :: w =>
    if c = 0x5c then if isHex d && isHex e then hexByte d e :: unescape w else d :: unescape (e :: w)
    else c :: unescape (d :: e :: w)

/-- The bytes of a `hexstring` behind its sharp sign. -/
def hexBytes : Bytes → Bytes
  | c :: d :: w => hexByte c d :: hexBytes w
  | _ => []

/-- What an `attributeValue` stands for. -/
def decode (value : Bytes) : Bytes := if value.head? = some 0x23 then hexBytes value.tail else unescape value

theorem unescape_cons {c : UInt8} (h : c ≠ 0x5c) (w : Bytes) : unescape (c :: w) = c :: unescape w := by
  rcases w with _ | ⟨d, _ | ⟨e, w⟩⟩
  · simp [unescape, h]
  · simp [unescape, h]
  · simp [unescape, h]

theorem unescape_length (w : Bytes) : (unescape w).length ≤ w.length := by
  fun_induction unescape w with
  | case1 => simp
  | case2 => simp
  | case3 c h => simp
  | case4 => simp
  | case5 c d h ih => simp only [List.length_cons, List.length_nil] at ih ⊢; omega
  | case6 d e w hhex ih => simp only [List.length_cons] at ih ⊢; omega
  | case7 d e w hhex ih => simp only [List.length_cons] at ih ⊢; omega
  | case8 c d e w h ih => simp only [List.length_cons] at ih ⊢; omega

theorem unescape_escape (w : Bytes) : (unescape (0x5c :: w)).length ≤ w.length := by
  rcases w with _ | ⟨d, _ | ⟨e, w⟩⟩
  · simp [unescape]
  · simp [unescape]
  · have hlength := unescape_length w
    have hlength' := unescape_length (e :: w)
    rw [unescape, if_pos rfl]
    split_ifs
    · simp only [List.length_cons]
      omega
    · simp only [List.length_cons] at hlength' ⊢
      omega

/-- Only a text without escapes stands for itself. -/
theorem unescape_eq_self (w : Bytes) : unescape w = w ↔ 0x5c ∉ w := by
  induction w with
  | nil => simp [unescape]
  | cons c w ih =>
    by_cases hc : c = 0x5c
    · subst hc
      have hlength := unescape_escape w
      simp only [List.mem_cons_self, not_true_eq_false, iff_false]
      intro h
      rw [h, List.length_cons] at hlength
      omega
    · rw [unescape_cons hc, List.cons.injEq, ih, List.mem_cons]
      simp [eq_comm, hc]

theorem hexBytes_length (w : Bytes) : (hexBytes w).length ≤ w.length := by
  fun_induction hexBytes w with
  | case1 c d w ih => simp only [List.length_cons]; omega
  | case2 => simp

/-- Names that need no escapes. -/
def Plain (name : Bytes) : Prop := name ∈ string.language ∧ 0x5c ∉ name

theorem plain_iff (name : Bytes) : name ∈ attributeValue.language ∧ decode name = name ↔ Plain name := by
  have hvalue : name ∈ attributeValue.language ↔ name ∈ string.language ∨ name ∈ hexstring.language := Iff.rfl
  have hsharp : name ∈ hexstring.language → name.head? = some 0x23 := by
    intro h
    obtain ⟨u, ⟨c, hlo, hhi, rfl⟩, v, -, rfl⟩ := Language.mem_mul.mp h
    rw [UInt8.le_antisymm hhi hlo]
    rfl
  have hlead : name ∈ string.language → name.head? ≠ some 0x23 := by
    rintro (h | rfl)
    · obtain ⟨u, hu, v, -, rfl⟩ := Language.mem_mul.mp h
      rcases hu with hu | hu
      · cases u with
        | nil => exact absurd ((leadchar.nil_mem_language).mp hu) (by decide)
        | cons c u =>
          have hcovers := covers_of_mem hu c List.mem_cons_self
          rintro ⟨⟩
          cases hcovers
      · obtain ⟨u', ⟨c, hlo, hhi, rfl⟩, v', -, rfl⟩ := Language.mem_mul.mp hu
        rw [UInt8.le_antisymm hhi hlo]
        simp
    · simp
  rw [hvalue, decode]
  constructor
  · rintro ⟨h | h, hdecode⟩
    · rw [if_neg (hlead h), unescape_eq_self] at hdecode
      exact ⟨h, hdecode⟩
    · rw [if_pos (hsharp h)] at hdecode
      have hlength := hexBytes_length name.tail
      rw [hdecode, List.length_tail] at hlength
      have hne : name ≠ [] := by
        intro hnil
        have hhead := hsharp h
        rw [hnil] at hhead
        cases hhead
      have hpos := List.length_pos_of_ne_nil hne
      omega
  · rintro ⟨h, hescape⟩
    rw [if_neg (hlead h), unescape_eq_self]
    exact ⟨.inl h, hescape⟩

/-- Plus signs and commas separate the pairs of a name. -/
def Separates (c : UInt8) : Prop := c = 0x2b ∨ c = 0x2c

/-- A value, read from the left: single characters and escaped ones. -/
inductive Tokens : Bytes → Prop
  | nil : Tokens []
  | plain {c : UInt8} {w : Bytes} : c ≠ 0x5c → ¬Separates c → Tokens w → Tokens (c :: w)
  | escaped {c : UInt8} {w : Bytes} : Tokens w → Tokens (0x5c :: c :: w)

theorem Tokens.append {v w : Bytes} (hv : Tokens v) (hw : Tokens w) : Tokens (v ++ w) := by
  induction hv with
  | nil => exact hw
  | plain hc hsep _ ih => exact .plain hc hsep ih
  | escaped _ ih => exact .escaped ih

theorem Tokens.of_plain {w : Bytes} (h : ∀ c ∈ w, c ≠ 0x5c ∧ ¬Separates c) : Tokens w := by
  induction w with
  | nil => exact .nil
  | cons c w ih =>
    obtain ⟨hc, hw⟩ := List.forall_mem_cons.mp h
    exact .plain hc.1 hc.2 (ih hw)

/-- An expression none of whose characters is a backslash or a separator. -/
theorem Tokens.of_covers {e : Syntax} (h : ∀ c ∈ [0x5c, 0x2b, 0x2c], e.covers c = false) {w : Bytes}
    (hw : w ∈ e.language) : Tokens w := by
  apply Tokens.of_plain
  intro c hc
  have hcovers := covers_of_mem hw c hc
  have hother : ∀ d ∈ [0x5c, 0x2b, 0x2c], c ≠ d := by
    rintro d hd rfl
    rw [h c hd] at hcovers
    cases hcovers
  refine ⟨hother _ (by simp), ?_⟩
  rintro (rfl | rfl)
  · exact hother 0x2b (by simp) rfl
  · exact hother 0x2c (by simp) rfl

theorem tokens_pair {w : Bytes} (h : w ∈ pair.language) : Tokens w := by
  obtain ⟨u, ⟨c, hlo, hhi, rfl⟩, v, hv, rfl⟩ := Language.mem_mul.mp h
  rw [UInt8.le_antisymm hhi hlo]
  rcases hv with hv | hv | hv
  · obtain ⟨d, rfl⟩ := mem_class (e := ESC) rfl hv
    exact .escaped .nil
  · obtain ⟨d, rfl⟩ := mem_class (e := special) rfl hv
    exact .escaped .nil
  · obtain ⟨x, hx, y, hy, rfl⟩ := Language.mem_mul.mp hv
    obtain ⟨d, rfl⟩ := mem_class (e := HEX) rfl hx
    exact .escaped (Tokens.of_covers (by decide) hy)

theorem tokens_star {e : Syntax} (h : ∀ w ∈ e.language, Tokens w) {w : Bytes} (hw : w ∈ e.star.language) :
    Tokens w := by
  obtain ⟨ws, rfl, hws⟩ := Language.mem_kstar.mp hw
  clear hw
  induction ws with
  | nil => exact .nil
  | cons u ws ih =>
    rw [List.flatten_cons]
    exact (h u (hws u List.mem_cons_self)).append (ih fun v hv => hws v (List.mem_cons_of_mem u hv))

theorem tokens_value {w : Bytes} (h : w ∈ attributeValue.language) : Tokens w := by
  have hclass : ∀ e : Syntax, (∀ c ∈ [0x5c, 0x2b, 0x2c], e.covers c = false) →
      ∀ w ∈ (any e [pair]).language, Tokens w := by
    rintro e he w (hw | hw)
    · exact Tokens.of_covers he hw
    · exact tokens_pair hw
  rcases h with (h | rfl) | h
  · obtain ⟨u, hu, v, hv, rfl⟩ := Language.mem_mul.mp h
    refine (hclass leadchar (by decide) u hu).append ?_
    rcases hv with hv | rfl
    · obtain ⟨x, hx, y, hy, rfl⟩ := Language.mem_mul.mp hv
      exact (tokens_star (hclass stringchar (by decide)) hx).append (hclass trailchar (by decide) y hy)
    · exact .nil
  · exact .nil
  · exact Tokens.of_covers (e := hexstring) (by decide) h

/-- What stands behind a value: nothing, or a separator. -/
def Behind (rest : Bytes) : Prop := ∀ c w, rest = c :: w → Separates c

/-- A value ends before the first separator that is not escaped. -/
theorem Tokens.unique {v v' rest rest' : Bytes} (hv : Tokens v) (hv' : Tokens v') (hrest : Behind rest)
    (hrest' : Behind rest') (h : v ++ rest = v' ++ rest') : v = v' ∧ rest = rest' := by
  induction hv generalizing v' with
  | nil =>
    cases hv' with
    | nil => exact ⟨rfl, h⟩
    | plain hc hsep _ => exact absurd (hrest _ _ h) hsep
    | escaped _ => exact absurd (hrest _ _ h) (by simp [Separates])
  | @plain c w hc hsep _ ih =>
    cases hv' with
    | nil => exact absurd (hrest' _ _ h.symm) hsep
    | @plain d w' hd hsep' hw' =>
      obtain ⟨rfl, htail⟩ := List.cons.inj h
      obtain ⟨rfl, rfl⟩ := ih hw' htail
      exact ⟨rfl, rfl⟩
    | @escaped d w' hw' =>
      obtain ⟨hescape, -⟩ := List.cons.inj h
      exact absurd hescape hc
  | @escaped c w _ ih =>
    cases hv' with
    | nil => exact absurd (hrest' _ _ h.symm) (by simp [Separates])
    | @plain d w' hd hsep' hw' =>
      obtain ⟨hescape, -⟩ := List.cons.inj h
      exact absurd hescape.symm hd
    | @escaped d w' hw' =>
      obtain ⟨-, hsecond⟩ := List.cons.inj h
      obtain ⟨rfl, htail⟩ := List.cons.inj hsecond
      obtain ⟨rfl, rfl⟩ := ih hw' htail
      exact ⟨rfl, rfl⟩

theorem type_unique {u u' rest rest' : Bytes} (hu : 0x3d ∉ u) (hu' : 0x3d ∉ u')
    (h : u ++ 0x3d :: rest = u' ++ 0x3d :: rest') : u = u' ∧ rest = rest' := by
  induction u generalizing u' with
  | nil =>
    cases u' with
    | nil => exact ⟨rfl, (List.cons.inj h).2⟩
    | cons c u' =>
      obtain ⟨rfl, -⟩ := List.cons.inj h
      exact absurd List.mem_cons_self hu'
  | cons c u ih =>
    cases u' with
    | nil =>
      obtain ⟨rfl, -⟩ := List.cons.inj h
      exact absurd List.mem_cons_self hu
    | cons d u' =>
      obtain ⟨rfl, htail⟩ := List.cons.inj h
      obtain ⟨rfl, rfl⟩ := ih (fun hmem => hu (List.mem_cons_of_mem _ hmem))
        (fun hmem => hu' (List.mem_cons_of_mem _ hmem)) htail
      exact ⟨rfl, rfl⟩

theorem Pair.unique {p p' : Pair} {rest rest' : Bytes} (hrest : Behind rest) (hrest' : Behind rest')
    (h : p.text ++ rest = p'.text ++ rest') : p = p' ∧ rest = rest' := by
  obtain ⟨⟨u, hu⟩, ⟨v, hv⟩⟩ := p
  obtain ⟨⟨u', hu'⟩, ⟨v', hv'⟩⟩ := p'
  have hequals : ∀ u ∈ attributeType.language, 0x3d ∉ u := by
    intro u hu hmem
    have hcovers := covers_of_mem hu 0x3d hmem
    cases hcovers
  rw [Pair.text, Pair.text, List.append_assoc, List.append_assoc] at h
  obtain ⟨rfl, hvalues⟩ := type_unique (hequals u hu) (hequals u' hu') h
  obtain ⟨rfl, htail⟩ := (tokens_value hv).unique (tokens_value hv') hrest hrest' hvalues
  exact ⟨rfl, htail⟩

theorem behind_others (ps : List Pair) (rs : List Rdn) : Behind (Rdn.others ps ++ Name.others rs) := by
  rintro c w h
  cases ps with
  | cons p ps =>
    obtain ⟨rfl, -⟩ := List.cons.inj h
    exact .inl rfl
  | nil =>
    cases rs with
    | nil => cases h
    | cons r rs =>
      obtain ⟨rfl, -⟩ := List.cons.inj h
      exact .inr rfl

theorem others_plus (p : Pair) (ps : List Pair) (rs : List Rdn) :
    Rdn.others (p :: ps) ++ Name.others rs = 0x2b :: (p.text ++ (Rdn.others ps ++ Name.others rs)) := by
  simp [Rdn.others]

theorem others_comma (r : Rdn) (rs : List Rdn) :
    Rdn.others [] ++ Name.others (r :: rs) = 0x2c :: (r.1.text ++ (Rdn.others r.2 ++ Name.others rs)) := by
  simp [Rdn.others, Name.others, Rdn.text]

theorem others_unique {ps ps' : List Pair} {rs rs' : List Rdn}
    (h : Rdn.others ps ++ Name.others rs = Rdn.others ps' ++ Name.others rs') : ps = ps' ∧ rs = rs' := by
  have hnil : Rdn.others [] ++ Name.others [] = [] := rfl
  -- the induction is on the text, since a comma leads on to the pairs of the next relative name
  generalize htext : Rdn.others ps ++ Name.others rs = text at h
  induction hn : text.length using Nat.strong_induction_on generalizing text ps ps' rs rs' with
  | _ n ih =>
    subst hn
    have hnext : ∀ (p p' : Pair) (qs qs' : List Pair) (ss ss' : List Rdn) (c : UInt8),
        text = c :: (p.text ++ (Rdn.others qs ++ Name.others ss)) →
        text = c :: (p'.text ++ (Rdn.others qs' ++ Name.others ss')) → p = p' ∧ qs = qs' ∧ ss = ss' := by
      intro p p' qs qs' ss ss' c hleft hright
      have heq := (List.cons.inj (hleft.symm.trans hright)).2
      obtain ⟨rfl, htail⟩ := Pair.unique (behind_others qs ss) (behind_others qs' ss') heq
      have hshorter : (Rdn.others qs ++ Name.others ss).length < text.length := by
        rw [hleft]
        simp only [List.length_cons, List.length_append]
        omega
      exact ⟨rfl, ih _ hshorter _ rfl htail rfl⟩
    cases ps with
    | cons p ps =>
      rw [others_plus] at htext
      cases ps' with
      | cons p' ps' =>
        rw [others_plus] at h
        obtain ⟨rfl, rfl, rfl⟩ := hnext p p' ps ps' rs rs' _ htext.symm h
        exact ⟨rfl, rfl⟩
      | nil =>
        cases rs' with
        | nil =>
          rw [hnil, ← htext] at h
          cases h
        | cons r' rs' =>
          rw [others_comma, ← htext] at h
          cases h
    | nil =>
      cases rs with
      | nil =>
        rw [hnil] at htext
        subst htext
        cases ps' with
        | cons p' ps' =>
          rw [others_plus] at h
          cases h
        | nil =>
          cases rs' with
          | nil => exact ⟨rfl, rfl⟩
          | cons r' rs' =>
            rw [others_comma] at h
            cases h
      | cons r rs =>
        rw [others_comma] at htext
        cases ps' with
        | cons p' ps' =>
          rw [others_plus, ← htext] at h
          cases h
        | nil =>
          cases rs' with
          | nil =>
            rw [hnil, ← htext] at h
            cases h
          | cons r' rs' =>
            rw [others_comma] at h
            obtain ⟨hfirst, hpairs, rfl⟩ := hnext r.1 r'.1 r.2 r'.2 rs rs' _ htext.symm h
            exact ⟨rfl, by rw [Prod.ext hfirst hpairs]⟩

/-- A text is that of one name. -/
theorem Name.text_injective {d d' : Name} (h : d.text = d'.text) : d = d' := by
  have hne : ∀ (r : Rdn) (rs : List Rdn), Name.text (r :: rs) ≠ [] := by
    intro r rs
    simp [Name.text, Rdn.text, Pair.text]
  cases d with
  | nil =>
    cases d' with
    | nil => rfl
    | cons r' rs' => exact absurd h.symm (hne r' rs')
  | cons r rs =>
    cases d' with
    | nil => exact absurd h (hne r rs)
    | cons r' rs' =>
      rw [Name.text, Name.text, Rdn.text, Rdn.text, List.append_assoc, List.append_assoc] at h
      obtain ⟨hfirst, htail⟩ := Pair.unique (behind_others r.2 rs) (behind_others r'.2 rs') h
      obtain ⟨hpairs, rfl⟩ := others_unique htail
      rw [Prod.ext hfirst hpairs]

theorem renders_pair : Renders attributeTypeAndValue Pair.text := by
  have hparts : Renders attributeTypeAndValue _ :=
    (renders_self attributeType).cons ((renders_char 0x3d).cons ((renders_self attributeValue).cons renders_nil))
  refine hparts.of_texts ?_ ?_
  · rintro ⟨u, -, v, -⟩
    exact ⟨⟨u, v⟩, by simp [Pair.text]⟩
  · rintro ⟨u, v⟩
    exact ⟨(u, (), v, ()), by simp [Pair.text]⟩

theorem renders_rdn : Renders relativeDistinguishedName Rdn.text := by
  have hothers : Renders (star (cat [PLUS, attributeTypeAndValue])) Rdn.others := by
    have hparts : Renders (cat [PLUS, attributeTypeAndValue]) _ :=
      (renders_char 0x2b).cons (renders_pair.cons renders_nil)
    refine hparts.star.of_texts (fun ps => ⟨ps.map fun x => x.2.1, ?_⟩) fun ps => ⟨ps.map fun p => ((), p, ()), ?_⟩
    · simp [Rdn.others, List.flatMap_map]
    · simp [Rdn.others, List.flatMap_map]
  have hparts : Renders relativeDistinguishedName _ := renders_pair.cons (hothers.cons renders_nil)
  refine hparts.of_texts ?_ ?_
  · rintro ⟨p, ps, -⟩
    exact ⟨(p, ps), by simp [Rdn.text]⟩
  · rintro ⟨p, ps⟩
    exact ⟨(p, ps, ()), by simp [Rdn.text]⟩

/-- The distinguished names are the texts of names. -/
theorem renders_name : Renders distinguishedName Name.text := by
  have hothers : Renders (star (cat [COMMA, relativeDistinguishedName])) Name.others := by
    have hparts : Renders (cat [COMMA, relativeDistinguishedName]) _ :=
      (renders_char 0x2c).cons (renders_rdn.cons renders_nil)
    refine hparts.star.of_texts (fun rs => ⟨rs.map fun x => x.2.1, ?_⟩) fun rs => ⟨rs.map fun r => ((), r, ()), ?_⟩
    · simp [Name.others, List.flatMap_map]
    · simp [Name.others, List.flatMap_map]
  have hparts : Renders distinguishedName _ := (renders_rdn.cons (hothers.cons renders_nil)).opt
  refine hparts.of_texts ?_ ?_
  · rintro (_ | ⟨r, rs, -⟩)
    · exact ⟨[], rfl⟩
    · exact ⟨r :: rs, by simp [Name.text]⟩
  · rintro (_ | ⟨r, rs⟩)
    · exact ⟨none, rfl⟩
    · exact ⟨some (r, rs, ()), by simp [Name.text]⟩

end Dn

end Libdomain.Syntaxes
