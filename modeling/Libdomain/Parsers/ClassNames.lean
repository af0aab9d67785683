import Libdomain.Parsers.SuperiorClasses

/-! # The OID and the names of an object class

Whatever `parse_object_class` makes of the clauses behind them, the OID and the names of a
description are read as they are written.
-/
namespace Libdomain.Parsers.ObjectClassDescription
open Libdomain.Connection Libdomain.Ragel Libdomain.Ragel.Expr Libdomain.Parsers

/-- What the schema reads of an object class. -/
def LdapObjectClass.keys (c : LdapObjectClass) : Option Bytes × Option (List (Option Bytes)) := (c.ocOid, c.ocNames)

/-- The actions behind the names leave the OID and the names alone. -/
theorem act_keys {a : Action} (ha : a ∈ main.actions.drop 8) (before : Bytes) (s : Parser) :
    (act a before s).result.keys = s.result.keys := by
  have hactions : ∀ a ∈ main.actions.drop 8,
      a ∈ [Action.start, .oidEnd, .writeSups, .setStructural, .setAuxiliary] := by decide
  have ha := hactions a ha
  simp only [List.mem_cons, List.not_mem_nil, or_false] at ha
  rcases ha with rfl | rfl | rfl | rfl | rfl
  · rfl
  · exact capture_result s before Parser.addOid (P := fun r => r.keys = s.result.keys) rfl fun _ => rfl
  · rw [act, Parser.handOver]
    cases s.oids <;> rfl
  · rfl
  · rfl

def behindNames (sup : Option (Keyword "SUP" × ℕ × Oids × ℕ)) (kind : Option (Kind × ℕ))
    (must : Option (Keyword "MUST" × ℕ × Oids × ℕ)) (may : Option (Keyword "MAY" × ℕ × Oids)) (last : ℕ) : Bytes :=
  oidsText sup ++ (kindText kind ++ (oidsText must ++ (mayText may ++ (spaces last ++ [0x29]))))

theorem behindNames_mem (x : Option (Keyword "SUP" × ℕ × Oids × ℕ)) (y : Option (Kind × ℕ))
    (z : Option (Keyword "MUST" × ℕ × Oids × ℕ)) (u : Option (Keyword "MAY" × ℕ × Oids)) (last : ℕ) :
    behindNames x y z u last ∈ (cat [opt sup, opt kind, opt must, opt may, whsp, RPAREN]).language := by
  have hrenders : Renders (cat [opt sup, opt kind, opt must, opt may, whsp, RPAREN]) _ :=
    (renders_clause "SUP" (renders_oids.leave Action.writeSups)).cons (renders_kind.cons
      ((renders_clause "MUST" renders_oids).cons (renders_may.cons (renders_whsp.cons
        ((renders_char 0x29).cons renders_nil)))))
  exact (hrenders _).mpr ⟨(x, y, z, u, last, (), ()), rfl⟩

def laterWords : List Bytes :=
  [ascii "SUP", ascii "ABSTRACT", ascii "STRUCTURAL", ascii "AUXILIARY", ascii "MUST", ascii "MAY"]

theorem opens_behindNames (x : Option (Keyword "SUP" × ℕ × Oids × ℕ)) (y : Option (Kind × ℕ))
    (z : Option (Keyword "MUST" × ℕ × Oids × ℕ)) (u : Option (Keyword "MAY" × ℕ × Oids)) (last : ℕ) :
    ∃ j i, behindNames x y z u last = spaces j ++ behindNames x y z u i ∧ Opens laterWords (behindNames x y z u i) := by
  have hword : ∀ {word : Bytes} {text : Bytes}, word ∈ laterWords → IsKeyword word → Spelled text word → ∀ rest,
      Opens laterWords (text ++ rest) :=
    fun hmem hkeyword hspelled rest => .inr ⟨_, hmem, hkeyword, _, hspelled, rest, rfl⟩
  cases x with
  | some x =>
    refine ⟨0, last, rfl, ?_⟩
    rw [behindNames, oidsText, List.append_assoc]
    exact hword (by simp [laterWords]) (by decide : IsKeyword (ascii "SUP")) x.1.2 _
  | none =>
    cases y with
    | some y =>
      refine ⟨0, last, rfl, ?_⟩
      rw [behindNames, oidsText, kindText, List.nil_append, List.append_assoc]
      exact hword (by cases y.1 <;> simp [Kind.word, laterWords]) y.1.isKeyword y.1.spelled _
    | none =>
      cases z with
      | some z =>
        refine ⟨0, last, rfl, ?_⟩
        rw [behindNames, oidsText, kindText, oidsText, List.nil_append, List.nil_append, List.append_assoc]
        exact hword (by simp [laterWords]) (by decide : IsKeyword (ascii "MUST")) z.1.2 _
      | none =>
        cases u with
        | some u =>
          refine ⟨0, last, rfl, ?_⟩
          rw [behindNames, oidsText, kindText, oidsText, mayText, List.nil_append, List.nil_append, List.nil_append,
            List.append_assoc]
          exact hword (by simp [laterWords]) (by decide : IsKeyword (ascii "MAY")) u.1.2 _
        | none => exact ⟨last, 0, rfl, .inl ⟨[], rfl⟩⟩

theorem reads_behindNames (t : Text) : Reads main.actions act fields laterWords afterNames
    (behindNames t.sup t.kind t.must t.may t.last) fun r s' => s'.result.keys = r.result.keys := by
  have hkeeps : ∀ i a, 8 ≤ i → main.actions[i]? = some a → ∀ before (s₀ s : Parser),
      s.result.keys = s₀.result.keys → (act a before s).result.keys = s₀.result.keys := by
    intro i a hi ha before s₀ s hs
    rw [act_keys (later_actions (fun _ h => h) hi ha), hs]
  obtain ⟨j, i, htext, hopens⟩ := opens_behindNames t.sup t.kind t.must t.may t.last
  rw [htext]
  refine Reads.of_word (behindNames_mem t.sup t.kind t.must t.may i) hopens (fun before s s' hexec => ?_) j
  have habove : ∀ k ∈ [afterNames], Item.Above 8 k := List.forall_mem_singleton.mpr
    (above_parts (le_refl 8) (cat [opt sup, opt kind, opt must, opt may, whsp, RPAREN]))
  exact exec_keeps (I := fun t : Parser => t.result.keys = s.result.keys)
    (fun i a hi ha before t ht => hkeeps i a hi ha before s t ht) habove rfl hexec

/-- The OID and the names of an object class are those of its text, whatever it says besides. -/
theorem parseObjectClass_keys (t : Text) :
    (parseObjectClass (some t.text)).map LdapObjectClass.keys = some t.value.keys := by
  have hnames := reads_names t.names (by decide) (reads_behindNames t)
  obtain ⟨s, hrun, hkeys⟩ := exec_text t hnames
  obtain ⟨s', hrun', hparse⟩ := exists_run t
  cases hrun.symm.trans hrun'
  have hwrite : writeNames t.names (writeOid {} t.oid.1) =
      { nameIndex := (t.names.elim [] fun x => x.2.names).length
        result := { ocOid := some t.oid.1, ocNames := arrayOf (t.names.elim [] fun x => x.2.names) } } :=
    foldl_addName _ _ [] rfl rfl
  have hvalue : t.value.keys = (some t.oid.1, arrayOf (t.names.elim [] fun x => x.2.names)) := by
    rw [LdapObjectClass.keys, Text.value]
    cases t.names <;> rfl
  rw [hparse, Option.map_some, hkeys, hwrite, hvalue]
  rfl

end Libdomain.Parsers.ObjectClassDescription
