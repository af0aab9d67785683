import Libdomain.Parsers.ObjectClassDescription

/-! # The superior classes of a description

What `parse_object_class` makes of the OID, the names, the superior classes and the kind of
an object class. Lists and numeric OIDs of superior classes are read as they are written;
a single name is cut where a keyword could begin.
-/
namespace Libdomain.Parsers.ObjectClassDescription
open Libdomain.Connection Libdomain.Ragel Libdomain.Ragel.Expr Libdomain.Parsers

def fields (s : Parser) : Parser := { s with symbolStart := 0 }

/-- The rest of the rule after its numeric OID, and after the optional clauses. -/
def afterKind : Item UInt8 Action := (cat [opt must, opt may, whsp, RPAREN]).parts 17
def afterSup : Item UInt8 Action := (opt kind).parts 15 ++ afterKind
def afterNames : Item UInt8 Action := (opt sup).parts 8 ++ afterSup
def afterOid : Item UInt8 Action := (opt names).parts 2 ++ afterNames

theorem absorbs_afterKind : Absorbs afterKind :=
  absorbs_opt (absorbs_opt (absorbs_whsp (absorbs_of_still rfl) 29) rfl rfl) rfl rfl

theorem absorbs_afterSup : Absorbs afterSup := absorbs_opt absorbs_afterKind rfl rfl

theorem absorbs_afterNames : Absorbs afterNames := absorbs_opt absorbs_afterSup rfl rfl

theorem absorbs_afterOid : Absorbs afterOid := absorbs_opt absorbs_afterNames rfl rfl

theorem quiet_afterKind : Quiet afterKind := quiet_of_heads (by decide)
theorem quiet_afterSup : Quiet afterSup := quiet_of_heads (by decide)
theorem quiet_afterOid : Quiet afterOid := quiet_of_heads (by decide)

theorem later_actions {m : ℕ} {l : List Action} (h : ∀ a ∈ main.actions.drop m, a ∈ l) {i : ℕ} {a : Action}
    (hi : m ≤ i) (ha : main.actions[i]? = some a) : a ∈ l := by
  apply h
  rw [List.mem_iff_getElem?]
  exact ⟨i - m, by rw [List.getElem?_drop, Nat.add_sub_cancel' hi, ha]⟩

theorem act_result {a : Action} (ha : a ∈ [Action.start, Action.oidEnd]) (before : Bytes) (s : Parser) :
    (act a before s).result = s.result := by
  rcases List.mem_pair.mp ha with rfl | rfl
  · rfl
  · exact capture_result s before Parser.addOid (P := fun r => r = s.result) rfl fun _ => rfl

theorem reads_attributes (x : Option (Keyword "MUST" × ℕ × Oids × ℕ)) (y : Option (Keyword "MAY" × ℕ × Oids))
    (last : ℕ) : Reads main.actions act fields [ascii "MUST", ascii "MAY"] afterKind
      (oidsText x ++ (mayText y ++ (spaces last ++ [0x29]))) fun r s' => s'.result = r.result := by
  have hkeeps : ∀ i a, 17 ≤ i → main.actions[i]? = some a → ∀ before (s₀ s : Parser), s.result = s₀.result →
      (act a before s).result = s₀.result := by
    intro i a hi ha before s₀ s hs
    rw [act_result (later_actions (by decide) hi ha), hs]
  have hQ : ∀ (body before : Bytes) (s s' : Parser), exec main.actions act [afterKind] before body s = some s' →
      s'.result = (fields s).result := by
    intro body before s s' hexec
    have habove : ∀ k ∈ [afterKind], Item.Above 17 k := List.forall_mem_singleton.mpr (above_parts (le_refl 17) _)
    exact exec_keeps (I := fun t : Parser => t.result = s.result)
      (fun i a hi ha before t ht => hkeeps i a hi ha before s t ht) habove rfl hexec
  have hrenders : Renders (cat [opt must, opt may, whsp, RPAREN]) _ :=
    (renders_clause "MUST" renders_oids).cons (renders_may.cons (renders_whsp.cons
      ((renders_char 0x29).cons renders_nil)))
  have hword : ∀ j, oidsText x ++ (mayText y ++ (spaces j ++ [0x29])) ∈
      (cat [opt must, opt may, whsp, RPAREN]).language :=
    fun j => (hrenders _).mpr ⟨(x, y, j, (), ()), rfl⟩
  cases x with
  | some x =>
    have hopens : Opens [ascii "MUST", ascii "MAY"] (oidsText (some x) ++ (mayText y ++ (spaces last ++ [0x29]))) :=
      .inr ⟨ascii "MUST", by simp, by decide, x.1.1, x.1.2, _, by rw [oidsText, List.append_assoc]⟩
    exact Reads.of_word (hword last) hopens (hQ _) 0
  | none =>
    cases y with
    | some y =>
      have hopens : Opens [ascii "MUST", ascii "MAY"] (mayText (some y) ++ (spaces last ++ [0x29])) :=
        .inr ⟨ascii "MAY", by simp, by decide, y.1.1, y.1.2, _, by rw [mayText, List.append_assoc]⟩
      exact Reads.of_word (hword last) hopens (hQ _) 0
    | none => exact Reads.of_word (hword 0) (.inl ⟨[], rfl⟩) (hQ _) last

def Kind.word : Kind → Bytes
  | .abstract _ => ascii "ABSTRACT"
  | .structural _ => ascii "STRUCTURAL"
  | .auxiliary _ => ascii "AUXILIARY"

/-- What is left to read after the keyword. -/
def Kind.rest : Kind → Item UInt8 Action
  | .abstract _ => []
  | .structural _ => [(15, leave .empty .setStructural)]
  | .auxiliary _ => [(16, leave .empty .setAuxiliary)]

/-- The keyword of an object class that is not abstract sets its kind. -/
def Kind.write : Kind → Parser → Parser
  | .abstract _, r => r
  | .structural _, r => { r with result := { r.result with ocKind := 1 } }
  | .auxiliary _, r => { r with result := { r.result with ocKind := 2 } }

def afterKeyword : Item UInt8 Action := whsp.parts 17 ++ afterKind

theorem Kind.spelled (x : Kind) : Spelled x.text x.word := by
  cases x with
  | abstract word => exact word.2
  | structural word => exact word.2
  | auxiliary word => exact word.2

theorem Kind.isKeyword (x : Kind) : IsKeyword x.word := by
  have hwords : ∀ word ∈ [ascii "ABSTRACT", ascii "STRUCTURAL", ascii "AUXILIARY"], IsKeyword word := by decide
  exact hwords _ (by cases x <;> simp [Kind.word])

theorem Kind.spelled_cons (x : Kind) : ∃ c d u, x.text = c :: d :: u ∧ c ∈ variants (x.word.getD 0 0) ∧
    d ∈ variants (x.word.getD 1 0) := by
  obtain ⟨c, c', tail, hcons⟩ := x.isKeyword.cons
  have hspelled := x.spelled
  rw [hcons] at hspelled ⊢
  generalize x.text = u at hspelled ⊢
  cases hspelled with
  | @cons d _ u _ hd hu =>
    cases hu with
    | @cons d' _ u _ hd' hu => exact ⟨d, d', u, rfl, hd, hd'⟩

/-- The other keywords and the attributes begin otherwise. -/
theorem exec_keyword (x : Kind) (before rest : Bytes) (s : Parser) :
    exec main.actions act [afterSup] before (x.text ++ rest) s =
      exec main.actions act [x.rest ++ afterKeyword] (before ++ x.text) rest s := by
  let isAbstract : Item UInt8 Action := (nocase (ascii "ABSTRACT")).parts 15 ++ afterKeyword
  let isStructural : Item UInt8 Action := (nocase (ascii "STRUCTURAL")).parts 15 ++
    ((15, leave .empty .setStructural) :: afterKeyword)
  let isAuxiliary : Item UInt8 Action := (nocase (ascii "AUXILIARY")).parts 16 ++
    ((16, leave .empty .setAuxiliary) :: afterKeyword)
  have hexec : ∀ rest, exec main.actions act [afterSup] before rest s =
      exec main.actions act [isAbstract, isStructural, isAuxiliary, afterKind] before rest s := by
    intro rest
    apply exec_congr
    intro c _ _ t
    have hopt : next c afterSup = next c (kind.parts 15 ++ afterKind) ++ next c afterKind := next_alt c 15 rfl _
    have hfirst : next c (kind.parts 15 ++ afterKind) = next c isAbstract ++
        next c ((any (leave (nocase (ascii "STRUCTURAL")) Action.setStructural)
          [leave (nocase (ascii "AUXILIARY")) .setAuxiliary]).parts 15 ++ afterKeyword) := next_alt c 15 rfl _
    have hsecond : next c ((any (leave (nocase (ascii "STRUCTURAL")) Action.setStructural)
          [leave (nocase (ascii "AUXILIARY")) .setAuxiliary]).parts 15 ++ afterKeyword) =
        next c isStructural ++ next c isAuxiliary := by
      refine (next_alt c 15 rfl _).trans ?_
      rfl
    simp only [moves, List.flatMap_cons, List.flatMap_nil, List.append_nil, hopt, hfirst, hsecond,
      List.append_assoc]
  obtain ⟨c, d, u, htext, hc, hd⟩ := x.spelled_cons
  have hspelled := x.spelled
  rw [hexec, htext]
  rw [htext] at hspelled
  cases x with
  | abstract word =>
    have hothers : ∀ c ∈ variants 0x41, ∀ d ∈ variants 0x42, ∀ y ∈ [] ++ [isStructural, isAuxiliary, afterKind],
        ∀ t ∈ next c y, t.1 = [] ∧ next d t.2 = [] := by decide
    have honly : exec main.actions act ([] ++ isAbstract :: [isStructural, isAuxiliary, afterKind]) before
        (c :: d :: (u ++ rest)) s = exec main.actions act [isAbstract] before (c :: d :: (u ++ rest)) s :=
      exec_only₂ (hothers c hc d hd)
    exact honly.trans (exec_nocase hspelled)
  | structural word =>
    have hothers : ∀ c ∈ variants 0x53, ∀ d ∈ variants 0x54, ∀ y ∈ [isAbstract] ++ [isAuxiliary, afterKind],
        ∀ t ∈ next c y, t.1 = [] ∧ next d t.2 = [] := by decide
    have honly : exec main.actions act ([isAbstract] ++ isStructural :: [isAuxiliary, afterKind]) before
        (c :: d :: (u ++ rest)) s = exec main.actions act [isStructural] before (c :: d :: (u ++ rest)) s :=
      exec_only₂ (hothers c hc d hd)
    exact honly.trans (exec_nocase hspelled)
  | auxiliary word =>
    have hothers : ∀ c ∈ variants 0x41, ∀ d ∈ variants 0x55, ∀ y ∈ [isAbstract, isStructural] ++ [afterKind],
        ∀ t ∈ next c y, t.1 = [] ∧ next d t.2 = [] := by decide
    have honly : exec main.actions act ([isAbstract, isStructural] ++ isAuxiliary :: [afterKind]) before
        (c :: d :: (u ++ rest)) s = exec main.actions act [isAuxiliary] before (c :: d :: (u ++ rest)) s :=
      exec_only₂ (hothers c hc d hd)
    exact honly.trans (exec_nocase hspelled)

theorem fields_rest (x : Kind) {c : UInt8} (before rest : Bytes) (s : Parser) : ∃ s',
    fields s' = x.write (fields s) ∧ exec main.actions act [x.rest ++ afterKeyword] before (c :: rest) s =
      exec main.actions act [afterKeyword] before (c :: rest) s' := by
  have hquiet : Quiet afterKeyword := quiet_whsp quiet_afterKind 17
  cases x with
  | abstract word => exact ⟨s, rfl, rfl⟩
  | structural word => exact ⟨act .setStructural before s, rfl, exec_out_quiet rfl hquiet⟩
  | auxiliary word => exact ⟨act .setAuxiliary before s, rfl, exec_out_quiet rfl hquiet⟩

theorem reads_kind (x : Option (Kind × ℕ)) {r : Bytes} {Q : Parser → Parser → Prop}
    (h : Reads main.actions act fields [ascii "MUST", ascii "MAY"] afterKind r Q) :
    Reads main.actions act fields [ascii "ABSTRACT", ascii "STRUCTURAL", ascii "AUXILIARY", ascii "MUST", ascii "MAY"]
      afterSup (kindText x ++ r) fun s => Q (x.elim s fun x => x.1.write s) := by
  cases x with
  | none =>
    obtain ⟨j, body, hr, hbody, hexec⟩ := h
    obtain ⟨c, w, rfl, hc⟩ := hbody.first
    refine ⟨j, c :: w, hr, ((hbody.cons _).cons _).cons _, fun before s => ?_⟩
    have hfirst : c ∈ [0x29, 0x4d, 0x6d] := by
      rcases hc with rfl | ⟨word, hword, hc⟩
      · simp
      · rcases List.mem_pair.mp hword with rfl | rfl
        · exact List.mem_cons_of_mem _ hc
        · exact List.mem_cons_of_mem _ hc
    have hnone : ∀ c ∈ [0x29, 0x4d, 0x6d], next c (kind.parts 15 ++ afterKind) = [] := by decide
    have habsent : exec main.actions act [afterSup] before (c :: w) s =
        exec main.actions act [afterKind] before (c :: w) s :=
      (exec_opt rfl).trans (exec_right (hnone c hfirst))
    rw [habsent]
    exact hexec before s
  | some x =>
    obtain ⟨x, j⟩ := x
    have hopens : Opens [ascii "ABSTRACT", ascii "STRUCTURAL", ascii "AUXILIARY", ascii "MUST", ascii "MAY"]
        (x.text ++ (spaces j ++ r)) := by
      refine .inr ⟨x.word, ?_, x.isKeyword, x.text, x.spelled, _, rfl⟩
      cases x <;> simp [Kind.word]
    refine ⟨0, x.text ++ (spaces j ++ r), by simp [kindText, spaces], hopens, fun before s => ?_⟩
    obtain ⟨c, w, hw⟩ := h.nonempty j
    obtain ⟨s₁, hwrite, hrest⟩ := fields_rest x (before ++ x.text) w s (c := c)
    obtain ⟨s₂, hexec, hQ⟩ := h.spaces absorbs_afterKind 17 j (before ++ x.text) s₁
    refine ⟨s₂, ?_, ?_⟩
    · rw [exec_keyword, hw, hrest, ← hw]
      exact hexec
    · rw [hwrite] at hQ
      exact hQ

theorem capture_start (store : Parser → Bytes → Parser) (before u : Bytes) (s : Parser) (hu : u ≠ []) :
    (act .start before s).capture (before ++ u) store =
      { store { s with symbolStart := before.length } u with symbolStart := (before ++ u).length } := by
  have hmoved : before.length ≠ (before ++ u).length := by
    simpa using hu
  simp only [Parser.capture, act, if_pos hmoved, List.drop_left]

theorem fields_oidEnd (before u : Bytes) (s : Parser) (hu : u ≠ []) :
    fields (act .oidEnd (before ++ u) (act .start before s)) = (fields s).addOid u := by
  change fields ((act .start before s).capture (before ++ u) _) = _
  rw [capture_start _ before u s hu]
  rfl

def writeSups (result : LdapObjectClass) (oids : List (Option Bytes)) : LdapObjectClass :=
  { result with ocSupOids := some oids }

theorem fields_writeSups (before : Bytes) (s : Parser) :
    fields (act .writeSups before s) = (fields s).handOver writeSups := by
  obtain ⟨symbolStart, nameIndex, oidIndex, oids, result⟩ := s
  cases oids <;> rfl

abbrev oidToken : Rule := any descr [numericoid]

def handOver : Item UInt8 Action := (14, leave .empty .writeSups) :: (whsp.parts 15 ++ afterSup)

def others : Item UInt8 Action :=
  (star (cat [WSP, DOLLAR, WSP, oid])).parts 12 ++ (WSP.parts 14 ++ (RPAREN.parts 14 ++ handOver))

theorem token_apart {k : Item UInt8 Action} (hk : Apart oidToken [] k) (u v : Bytes) (hu : u ∈ oidToken.language)
    (c : UInt8) (w : Bytes) (hw : u = v ++ c :: w) : next c k = [] :=
  hk.next_eq_nil (covers_of_mem hu c (by simp [hw])) (by simp)

theorem Oid.cons (u : Oid) : ∃ c w, u.1 = c :: w ∧ oidToken.covers c = true := by
  have hne : u.1 ≠ [] := by
    intro h
    have hnil := u.2
    rw [h, Expr.nil_mem_language] at hnil
    cases hnil
  obtain ⟨c, w, hcons⟩ := List.exists_cons_of_ne_nil hne
  exact ⟨c, w, hcons, covers_of_mem u.2 c (by simp [hcons])⟩

theorem Oid.not_space (u : Oid) (w v : Bytes) : u.1 ++ w ≠ 0x20 :: v := by
  obtain ⟨c, tail, hcons, hcovers⟩ := Oid.cons u
  rw [hcons]
  rintro ⟨⟩
  cases hcovers

theorem exec_member {n : ℕ} (hn : Delimits main.actions .start .oidEnd n) (u : Oid) {d : UInt8}
    (hd : oidToken.covers d = false) (before rest : Bytes) (s : Parser) : ∃ s',
    fields s' = (fields s).addOid u.1 ∧ exec main.actions act [oid.parts n ++ others] before (u.1 ++ d :: rest) s =
      exec main.actions act [others] (before ++ u.1) (d :: rest) s' := by
  have hquiet : Quiet others := quiet_of_heads (by decide)
  apply exec_entered fields_oidEnd (by decide) rfl rfl hn u.2
  · exact fun v c w hw _ => token_apart (by decide) u.1 v u.2 c w hw
  · intro t ht
    simp [hquiet d t ht]
  · intro v hv
    have hcovers := covers_of_mem hv d (by simp)
    rw [hd] at hcovers
    cases hcovers

theorem head_others (xs : List (ℕ × ℕ × Oid)) (j : ℕ) (rest : Bytes) :
    ∃ d w, xs.flatMap otherText ++ (spaces j ++ (0x29 :: rest)) = d :: w ∧ oidToken.covers d = false := by
  cases xs with
  | nil =>
    cases j with
    | zero => exact ⟨0x29, _, rfl, by decide⟩
    | succ j => exact ⟨0x20, _, rfl, by decide⟩
  | cons x xs =>
    obtain ⟨m, n, u⟩ := x
    cases m with
    | zero => exact ⟨0x24, _, rfl, by decide⟩
    | succ m => exact ⟨0x20, _, rfl, by decide⟩

theorem exec_others (xs : List (ℕ × ℕ × Oid)) (j : ℕ) (before rest : Bytes) (s : Parser) : ∃ s',
    fields s' = (xs.map fun x => x.2.2.1).foldl Parser.addOid (fields s) ∧
      exec main.actions act [others] before (xs.flatMap otherText ++ (spaces j ++ (0x29 :: rest))) s =
        exec main.actions act [handOver] (before ++ (xs.flatMap otherText ++ (spaces j ++ [0x29]))) rest s' := by
  let another : Item UInt8 Action := DOLLAR.parts 12 ++ (WSP.parts 12 ++ (oid.parts 12 ++ others))
  let closing : Item UInt8 Action := RPAREN.parts 14 ++ handOver
  have hspaces : ∀ (m : ℕ) (c : UInt8) (w before : Bytes) (s : Parser), c ≠ 0x20 →
      exec main.actions act [others] before (spaces m ++ c :: w) s =
        exec main.actions act [another, closing] (before ++ spaces m) (c :: w) s := by
    intro m c w before s hc
    have hstar : exec main.actions act [others] before (spaces m ++ c :: w) s =
        exec main.actions act ([(12, another), (14, closing)].map fun k => (star (char 0x20)).parts k.1 ++ k.2) before
          (List.replicate m 0x20 ++ c :: w) s := exec_star rfl
    have hstill : moves ([(12, another), (14, closing)].map Prod.snd) 0x20 = [] := by decide
    rw [hstar, exec_pad (List.cons_ne_nil _ _) (by rw [hstill]; simp) m (by simp [hc])]
    rfl
  induction xs generalizing before s with
  | nil =>
    refine ⟨s, rfl, ?_⟩
    have hclose : ∀ before, exec main.actions act [another, closing] before (0x29 :: rest) s =
        exec main.actions act [handOver] (before ++ [0x29]) rest s := by
      intro before
      have hanother : next 0x29 another = [] := by decide
      rw [exec_right hanother]
      exact exec_char
    rw [List.flatMap_nil, List.nil_append, hspaces _ _ _ _ _ (by decide), hclose]
    simp
  | cons x xs ih =>
    obtain ⟨m, n, u⟩ := x
    obtain ⟨d, w, hw, hd⟩ := head_others xs j rest
    have hdollar : exec main.actions act [another, closing] (before ++ spaces m)
          (0x24 :: (spaces n ++ (u.1 ++ d :: w))) s =
        exec main.actions act [WSP.parts 12 ++ (oid.parts 12 ++ others)] (before ++ spaces m ++ [0x24])
          (spaces n ++ (u.1 ++ d :: w)) s := by
      have hclosing : next 0x24 closing = [] := by decide
      rw [exec_left hclosing]
      exact exec_char
    have hstill : next 0x20 (oid.parts 12 ++ others) = [] := by decide
    have hbehind : exec main.actions act [WSP.parts 12 ++ (oid.parts 12 ++ others)] (before ++ spaces m ++ [0x24])
          (spaces n ++ (u.1 ++ d :: w)) s =
        exec main.actions act [oid.parts 12 ++ others] (before ++ spaces m ++ [0x24] ++ spaces n) (u.1 ++ d :: w) s :=
      exec_spaces (absorbs_of_still hstill) n (Oid.not_space u _)
    obtain ⟨s₁, hfields₁, hexec₁⟩ := exec_member (n := 12) (by decide) u hd
      (before ++ spaces m ++ [0x24] ++ spaces n) w s
    obtain ⟨s₂, hfields₂, hexec₂⟩ := ih (before ++ spaces m ++ [0x24] ++ spaces n ++ u.1) s₁
    refine ⟨s₂, by rw [hfields₂, hfields₁]; rfl, ?_⟩
    have htext : ((m, n, u) :: xs).flatMap otherText ++ (spaces j ++ (0x29 :: rest)) =
        spaces m ++ (0x24 :: (spaces n ++ (u.1 ++ d :: w))) := by
      rw [← hw]
      simp [otherText]
    rw [htext, hspaces _ _ _ _ _ (by decide), hdollar, hbehind, hexec₁, ← hw, hexec₂]
    simp [otherText]

/-- A keyword that can follow the superior classes begins with the character. -/
def begins (c : UInt8) : Bool := c ∈ variants 0x41 ++ variants 0x53 ++ variants 0x4d

/-- A single name that is cut: behind its first character it has one of a keyword. -/
def Oids.Cut : Oids → Prop
  | .one u => ∃ c ∈ u.1.tail, begins c = true
  | .list _ _ _ _ => False

theorem exec_single (u : Oid) (hcut : ¬(Oids.one u).Cut) {d : UInt8} (hd : oidToken.covers d = false)
    (before rest : Bytes) (s : Parser) : ∃ s', fields s' = (fields s).addOid u.1 ∧
      exec main.actions act [oid.parts 8 ++ handOver] before (u.1 ++ d :: rest) s =
        exec main.actions act [handOver] (before ++ u.1) (d :: rest) s' := by
  apply exec_entered fields_oidEnd (by decide) rfl rfl (by decide) u.2
  · intro v c w hw hv
    have hapart : Apart oidToken (variants 0x41 ++ variants 0x53 ++ variants 0x4d) handOver := by decide
    have hcovers := covers_of_mem u.2 c (by simp [hw])
    have htail : c ∈ u.1.tail := by
      cases v with
      | nil => rw [Expr.nil_mem_language] at hv; cases hv
      | cons b v => rw [hw]; simp
    have hbegins : begins c = false := by
      by_contra h
      exact hcut ⟨c, htail, by simpa using h⟩
    have hexcept : c ∉ variants 0x41 ++ variants 0x53 ++ variants 0x4d := of_decide_eq_false hbegins
    exact hapart.next_eq_nil hcovers hexcept
  · intro t ht
    have hall : ∀ x ∈ Item.heads handOver, ∀ m ∈ x.1, 8 + 1 < m ∧ main.actions[m]? ≠ some Action.oidEnd := by decide
    obtain ⟨x, hx, hstamps, -⟩ := Item.mem_heads ht
    rw [hstamps]
    exact hall x hx
  · intro v hv
    have hcovers := covers_of_mem hv d (by simp)
    rw [hd] at hcovers
    cases hcovers

/-- Superior classes are read, if they are not cut. -/
theorem exec_oids (x : Oids) (hcut : ¬x.Cut) {d : UInt8} (hd : oidToken.covers d = false) (before rest : Bytes)
    (s : Parser) : ∃ s', fields s' = x.values.foldl Parser.addOid (fields s) ∧
      exec main.actions act [oids.parts 8 ++ handOver] before (x.text ++ d :: rest) s =
        exec main.actions act [handOver] (before ++ x.text) (d :: rest) s' := by
  let list : Item UInt8 Action := LPAREN.parts 10 ++ (WSP.parts 10 ++ (oid.parts 10 ++ others))
  have halt : ∀ w, exec main.actions act [oids.parts 8 ++ handOver] before w s =
      exec main.actions act [oid.parts 8 ++ handOver, list] before w s := fun w => exec_alt rfl
  cases x with
  | one u =>
    obtain ⟨c, w, hcons, hcovers⟩ := Oid.cons u
    have hlist : next c list = [] := by
      have hother : c ≠ 0x28 := by
        rintro rfl
        cases hcovers
      exact (next_char c 10 0x28 _).trans (if_neg hother)
    have hleft : exec main.actions act [oid.parts 8 ++ handOver, list] before (u.1 ++ d :: rest) s =
        exec main.actions act [oid.parts 8 ++ handOver] before (u.1 ++ d :: rest) s := by
      rw [hcons]
      exact exec_left hlist
    obtain ⟨s', hfields, hexec⟩ := exec_single u hcut hd before rest s
    exact ⟨s', hfields, (halt _).trans (hleft.trans hexec)⟩
  | list m u xs j =>
    obtain ⟨c, w, hw, hc⟩ := head_others xs j (d :: rest)
    have hopen : exec main.actions act [oid.parts 8 ++ handOver, list] before
          (0x28 :: (spaces m ++ (u.1 ++ c :: w))) s =
        exec main.actions act [WSP.parts 10 ++ (oid.parts 10 ++ others)] (before ++ [0x28])
          (spaces m ++ (u.1 ++ c :: w)) s := by
      have hsingle : next 0x28 (oid.parts 8 ++ handOver) = [] := by decide
      rw [exec_right hsingle]
      exact exec_char
    have hstill : next 0x20 (oid.parts 10 ++ others) = [] := by decide
    have hbehind : exec main.actions act [WSP.parts 10 ++ (oid.parts 10 ++ others)] (before ++ [0x28])
          (spaces m ++ (u.1 ++ c :: w)) s =
        exec main.actions act [oid.parts 10 ++ others] (before ++ [0x28] ++ spaces m) (u.1 ++ c :: w) s :=
      exec_spaces (absorbs_of_still hstill) m (Oid.not_space u _)
    obtain ⟨s₁, hfields₁, hexec₁⟩ := exec_member (n := 10) (by decide) u hc (before ++ [0x28] ++ spaces m) w s
    obtain ⟨s₂, hfields₂, hexec₂⟩ := exec_others xs j (before ++ [0x28] ++ spaces m ++ u.1) (d :: rest) s₁
    refine ⟨s₂, by rw [hfields₂, hfields₁]; rfl, ?_⟩
    have htext : (Oids.list m u xs j).text ++ d :: rest = 0x28 :: (spaces m ++ (u.1 ++ c :: w)) := by
      rw [← hw]
      simp [Oids.text]
    rw [htext, halt, hopen, hbehind, hexec₁, ← hw, hexec₂]
    simp [Oids.text]

def writeSup (x : Option (Keyword "SUP" × ℕ × Oids × ℕ)) (r : Parser) : Parser :=
  x.elim r fun x => (x.2.2.1.values.foldl Parser.addOid r).handOver writeSups

def writeNames (x : Option (Keyword "NAME" × QDescrs)) (r : Parser) : Parser :=
  (x.elim [] fun x => x.2.names).foldl Parser.addName r

/-- The clause of the superior classes is read, if spaces follow and no name is cut. -/
theorem reads_sup (x : Option (Keyword "SUP" × ℕ × Oids × ℕ)) (hspace : ∀ y ∈ x, 0 < y.2.2.2)
    (hcut : ∀ y ∈ x, ¬y.2.2.1.Cut) {words : List Bytes} (hwords : ∀ other ∈ words, Differs other (ascii "SUP"))
    {r : Bytes} {Q : Parser → Parser → Prop} (h : Reads main.actions act fields words afterSup r Q) :
    Reads main.actions act fields (ascii "SUP" :: words) afterNames (oidsText x ++ r) (Q ∘ writeSup x) := by
  cases x with
  | none => exact h.absent rfl rfl hwords (by decide)
  | some x =>
    obtain ⟨word, m, x, j⟩ := x
    have hclause : ∀ before d rest s, spaces j ++ r = d :: rest → ∃ s' n,
        fields s' = (x.values.foldl Parser.addOid (fields s)).handOver writeSups ∧
        exec main.actions act [(whsp.parts 8 ++ (oids.parts 8 ++ ((14, leave .empty .writeSups) :: whsp.parts 15))) ++
            afterSup] before ((spaces m ++ x.text) ++ d :: rest) s =
          exec main.actions act [whsp.parts n ++ afterSup] (before ++ (spaces m ++ x.text)) (d :: rest) s' := by
      intro before d rest s hrest
      have hd : d = 0x20 := by
        obtain ⟨i, hi⟩ := Nat.exists_eq_succ_of_ne_zero (hspace _ rfl).ne'
        have hj : j = i + 1 := hi
        rw [hj] at hrest
        exact (List.cons.inj hrest).1.symm
      subst hd
      obtain ⟨s', hfields, hexec⟩ := exec_oids x (hcut _ rfl) (d := 0x20) (by decide) (before ++ spaces m) rest s
      refine ⟨act .writeSups (before ++ spaces m ++ x.text) s', 15, by rw [fields_writeSups, hfields], ?_⟩
      have hstill : next 0x20 (oids.parts 8 ++ handOver) = [] := by decide
      have hbegin : ∀ w, x.text ++ 0x20 :: rest ≠ 0x20 :: w := by
        intro w
        cases x with
        | one u => exact Oid.not_space u _ w
        | list => simp [Oids.text]
      have hspaces : exec main.actions act [whsp.parts 8 ++ (oids.parts 8 ++ handOver)] before
            (spaces m ++ (x.text ++ 0x20 :: rest)) s =
          exec main.actions act [oids.parts 8 ++ handOver] (before ++ spaces m) (x.text ++ 0x20 :: rest) s :=
        exec_spaces (absorbs_of_still hstill) m hbegin
      have hwrite : exec main.actions act [handOver] (before ++ spaces m ++ x.text) (0x20 :: rest) s' =
          exec main.actions act [whsp.parts 15 ++ afterSup] (before ++ spaces m ++ x.text) (0x20 :: rest)
            (act .writeSups (before ++ spaces m ++ x.text) s') :=
        exec_out_quiet rfl (quiet_whsp quiet_afterSup 15)
      have hread := hspaces.trans (hexec.trans hwrite)
      rw [List.append_assoc (spaces m), ← List.append_assoc before]
      exact hread
    have hread := h.present (g := fun r => (x.values.foldl Parser.addOid r).handOver writeSups) absorbs_afterSup
      (e := sup) (n := 8) rfl rfl (by decide) (by decide) word.2 j hclause
    have htext : oidsText (some (word, m, x, j)) ++ r = word.1 ++ ((spaces m ++ x.text) ++ (spaces j ++ r)) := by
      simp [oidsText]
    rw [htext]
    exact hread

theorem fields_nameEnd (before u : Bytes) (s : Parser) (hu : u ≠ []) :
    fields (act .nameEnd (before ++ u) (act .start before s)) = (fields s).addName u := by
  change fields ((act .start before s).capture (before ++ u) _) = _
  rw [capture_start _ before u s hu]
  rfl

theorem reads_names (x : Option (Keyword "NAME" × QDescrs)) {words : List Bytes}
    (hwords : ∀ other ∈ words, Differs other (ascii "NAME")) {r : Bytes} {Q : Parser → Parser → Prop}
    (h : Reads main.actions act fields words afterNames r Q) :
    Reads main.actions act fields (ascii "NAME" :: words) afterOid (namesText x ++ r) (Q ∘ writeNames x) := by
  cases x with
  | none => exact h.absent rfl rfl hwords (by decide)
  | some x =>
    obtain ⟨word, q⟩ := x
    have hdelimits : ∀ n ∈ [2, 4, 6], Delimits main.actions .start .nameEnd n := by decide
    have hread := h.present (g := fun r => q.names.foldl Parser.addName r) absorbs_afterNames (e := names) (n := 2)
      rfl rfl (by decide) (by decide) word.2 q.trailing
      (fun before d rest s _ => exec_names fields_nameEnd (hdelimits 2 (by simp)) (hdelimits 4 (by simp))
        (hdelimits 6 (by simp)) q afterNames before (d :: rest) s)
    have htext : namesText (some (word, q)) ++ r = word.1 ++ (q.core ++ (spaces q.trailing ++ r)) := by
      simp [namesText, QDescrs.text_eq]
    rw [htext]
    exact hread

def writeOid (r : Parser) (oid : Bytes) : Parser := { r with result := { r.result with ocOid := some oid } }

theorem exec_text (t : Text) {words : List Bytes} {Q : Parser → Parser → Prop}
    (h : Reads main.actions act fields words afterOid (namesText t.names ++ (oidsText t.sup ++ (kindText t.kind ++
      (oidsText t.must ++ (mayText t.may ++ (spaces t.last ++ [0x29])))))) Q) :
    ∃ s, main.run act t.text {} = some s ∧ Q (writeOid {} t.oid.1) s := by
  obtain ⟨before, hlabel⟩ : ∃ before, exec main.actions act [(opt label).parts 0 ++
        opening .start .numericoidEnd afterOid] [] (labelText t.label ++ t.description) ({} : Parser) =
      exec main.actions act [opening .start .numericoidEnd afterOid] before t.description {} :=
    exec_label (by decide) (by decide) (e := label) rfl rfl t.label .start .numericoidEnd afterOid _ _
  have hcapture : ∀ before u s, u ≠ [] →
      fields (act .numericoidEnd (before ++ u) (act .start before s)) = writeOid (fields s) u := by
    intro before u s hu
    change fields ((act .start before s).capture (before ++ u) _) = _
    rw [capture_start _ before u s hu]
    rfl
  have hdigits : ∀ c, (numericoid : Rule).covers c = true → next c afterOid = [] := by
    intro c hc
    have hapart : Apart (numericoid : Rule) [] afterOid := by decide
    exact hapart.next_eq_nil hc (by simp)
  obtain ⟨s, hexec, hQ⟩ := h.opening absorbs_afterOid quiet_afterOid hdigits (by decide) hcapture t.oid.2 t.beforeOid
    t.afterOid before {}
  exact ⟨s, hlabel.trans hexec, hQ⟩

def Text.write (t : Text) (r : Parser) : Parser :=
  let r := writeSup t.sup (writeNames t.names r)
  t.kind.elim r fun x => x.1.write r

theorem reads_clauses (t : Text) (hspace : ∀ y ∈ t.sup, 0 < y.2.2.2) (hcut : ∀ y ∈ t.sup, ¬y.2.2.1.Cut) :
    ∃ words, Reads main.actions act fields words afterOid (namesText t.names ++ (oidsText t.sup ++
      (kindText t.kind ++ (oidsText t.must ++ (mayText t.may ++ (spaces t.last ++ [0x29]))))))
      fun r s' => s'.result = (t.write r).result := by
  have hattributes := reads_attributes t.must t.may t.last
  have hkind := reads_kind t.kind hattributes
  have hsup := reads_sup t.sup hspace hcut (by decide) hkind
  have hnames := reads_names t.names (by decide) hsup
  exact ⟨_, hnames⟩

theorem foldl_addName (names : List Bytes) (r : Parser) (known : List Bytes) (hindex : r.nameIndex = known.length)
    (hnames : r.result.ocNames = arrayOf known) :
    names.foldl Parser.addName r = { r with
      nameIndex := (known ++ names).length
      result := { r.result with ocNames := arrayOf (known ++ names) } } := by
  induction names generalizing r known with
  | nil => simp [← hindex, ← hnames]
  | cons name names ih =>
    have hadd : (r.addName name).result.ocNames = arrayOf (known ++ [name]) := by
      rw [arrayOf_append, ← appendString_arrayOf, ← hindex, ← hnames]
      rfl
    have hlength : (r.addName name).nameIndex = (known ++ [name]).length := by
      simp [Parser.addName, hindex]
    rw [List.foldl_cons, ih (r.addName name) (known ++ [name]) hlength hadd]
    simp [Parser.addName]

theorem foldl_addOid (oids : List Bytes) (r : Parser) (known : List Bytes) (hindex : r.oidIndex = known.length)
    (hoids : r.oids = arrayOf known) :
    oids.foldl Parser.addOid r = { r with
      oidIndex := (known ++ oids).length
      oids := arrayOf (known ++ oids) } := by
  induction oids generalizing r known with
  | nil => simp [← hindex, ← hoids]
  | cons oid oids ih =>
    have hadd : (r.addOid oid).oids = arrayOf (known ++ [oid]) := by
      rw [arrayOf_append, ← appendString_arrayOf, ← hindex, ← hoids]
      rfl
    have hlength : (r.addOid oid).oidIndex = (known ++ [oid]).length := by
      simp [Parser.addOid, hindex]
    rw [List.foldl_cons, ih (r.addOid oid) (known ++ [oid]) hlength hadd]
    simp [Parser.addOid]

/-- Into an empty structure the clauses write what the text says. -/
theorem write_value (t : Text) : (t.write (writeOid {} t.oid.1)).result =
    { t.value with ocAtOidsMust := none, ocAtOidsMay := none } := by
  have hnames : writeNames t.names (writeOid {} t.oid.1) =
      { nameIndex := (t.names.elim [] fun x => x.2.names).length
        result := { ocOid := some t.oid.1, ocNames := arrayOf (t.names.elim [] fun x => x.2.names) } } :=
    foldl_addName _ _ [] rfl rfl
  have hnames' : arrayOf (t.names.elim [] fun x => x.2.names) = (t.names.map fun x => x.2.names).bind arrayOf := by
    cases t.names <;> rfl
  have hsup : (writeSup t.sup (writeNames t.names (writeOid {} t.oid.1))).result =
      { ocOid := some t.oid.1, ocNames := (t.names.map fun x => x.2.names).bind arrayOf
        ocSupOids := (t.sup.map fun x => x.2.2.1.values).bind arrayOf } := by
    rw [writeSup, hnames, hnames']
    cases t.sup with
    | none => rfl
    | some x =>
      obtain ⟨oids, hoids⟩ := Option.ne_none_iff_exists'.mp (arrayOf_values x.2.2.1)
      simp only [Option.elim_some, Option.map_some, Option.bind_some]
      rw [foldl_addOid _ _ [] rfl rfl, Parser.handOver, List.nil_append, hoids]
      rfl
  simp only [Text.write, Text.value]
  cases t.kind with
  | none => exact hsup
  | some x =>
    obtain ⟨kind, j⟩ := x
    cases kind <;> simp [Kind.write, Kind.value, hsup]

end Libdomain.Parsers.ObjectClassDescription
