import Libdomain.Parsers.SuperiorClasses

/-! # Cut names

Where the name of a single superior class is cut, what is captured from there on is
shorter than the name, and the whole name never gets into the result.
-/
namespace Libdomain.Parsers.ObjectClassDescription
open Libdomain.Connection Libdomain.Ragel Libdomain.Ragel.Expr Libdomain.Parsers

/-- All strings of the array are shorter than the given length. -/
def Short (length : ℕ) (array : Option (List (Option Bytes))) : Prop :=
  ∀ u, some u ∈ array.getD [] → u.length < length

theorem Short.append {length : ℕ} {array : Option (List (Option Bytes))} (h : Short length array) (n : ℕ)
    {u : Bytes} (hu : u.length < length) : Short length (some (appendString array n u)) := by
  intro v hv
  have hmem : some v ∈ (tallocRealloc array (n + 2)).set n (some u) := by
    rcases List.mem_or_eq_of_mem_set hv with hv | hv
    · exact hv
    · cases hv
  rcases List.mem_or_eq_of_mem_set hmem with hv | hv
  · refine h v ?_
    have htakeD : ∀ (l : List (Option Bytes)) m, some v ∈ l.takeD m none → some v ∈ l := by
      intro l m
      induction m generalizing l with
      | zero => simp
      | succ m ih =>
        cases l with
        | nil => simp
        | cons x l =>
          rw [List.takeD_succ, List.mem_cons, List.mem_cons]
          exact Or.imp_right (ih l)
    exact htakeD _ _ hv
  · cases hv
    exact hu

/-- Nothing longer has been captured than what lies behind the position. -/
structure Pieces (length position : ℕ) (s : Parser) : Prop where
  start : position ≤ s.symbolStart
  oids : Short length s.oids
  sups : Short length s.result.ocSupOids

theorem Pieces.capture {length position : ℕ} {s : Parser} (h : Pieces length position s) {before : Bytes}
    (hposition : position ≤ before.length) {store : Parser → Bytes → Parser}
    (hstore : Short length (store s (before.drop s.symbolStart)).oids ∧
      Short length (store s (before.drop s.symbolStart)).result.ocSupOids) :
    Pieces length position (s.capture before store) := by
  unfold Parser.capture
  by_cases hmoved : s.symbolStart ≠ before.length
  · rw [if_pos hmoved]
    exact ⟨hposition, hstore.1, hstore.2⟩
  · rw [if_neg hmoved]
    exact ⟨hposition, h.oids, h.sups⟩

theorem Pieces.act {length position : ℕ} {s : Parser} (h : Pieces length position s) {before : Bytes}
    (hposition : position ≤ before.length) (hlength : before.length < position + length) (a : Action) :
    Pieces length position (act a before s) := by
  have hpiece : (before.drop s.symbolStart).length < length := by
    have hstart := h.start
    rw [List.length_drop]
    omega
  have hhandOver : ∀ store : LdapObjectClass → List (Option Bytes) → LdapObjectClass,
      (∀ r oids, Short length r.ocSupOids → Short length (some oids) → Short length (store r oids).ocSupOids) →
      Pieces length position (s.handOver store) := by
    intro store hstore
    unfold Parser.handOver
    cases hoids : s.oids with
    | none => exact h
    | some oids =>
      have hshort := h.oids
      rw [hoids] at hshort
      exact ⟨h.start, by simp [Short], hstore _ _ h.sups hshort⟩
  cases a with
  | start => exact ⟨hposition, h.oids, h.sups⟩
  | numericoidEnd =>
    change Pieces length position (s.capture before fun s oid =>
      { s with result := { s.result with ocOid := some oid } })
    exact h.capture hposition ⟨h.oids, h.sups⟩
  | nameEnd =>
    change Pieces length position (s.capture before Parser.addName)
    exact h.capture hposition ⟨h.oids, h.sups⟩
  | oidEnd =>
    have hadded : Short length (s.addOid (before.drop s.symbolStart)).oids := h.oids.append _ hpiece
    change Pieces length position (s.capture before Parser.addOid)
    exact h.capture hposition ⟨hadded, h.sups⟩
  | writeSups =>
    exact hhandOver (fun r oids => { r with ocSupOids := some oids }) fun _ _ _ hoids => hoids
  | writeMust =>
    exact hhandOver (fun r oids => { r with ocAtOidsMust := some oids }) fun _ _ hsups _ => hsups
  | writeMay =>
    exact hhandOver (fun r oids => { r with ocAtOidsMay := some oids }) fun _ _ hsups _ => hsups
  | setStructural => exact ⟨h.start, h.oids, h.sups⟩
  | setAuxiliary => exact ⟨h.start, h.oids, h.sups⟩

theorem act_symbolStart (a : Action) (before : Bytes) (s : Parser) :
    (act a before s).symbolStart = s.symbolStart ∨ (act a before s).symbolStart = before.length := by
  have hhandOver : ∀ store : LdapObjectClass → List (Option Bytes) → LdapObjectClass,
      (s.handOver store).symbolStart = s.symbolStart := by
    intro store
    unfold Parser.handOver
    cases s.oids <;> rfl
  cases a with
  | start => exact .inr rfl
  | numericoidEnd => exact .inr rfl
  | nameEnd => exact .inr rfl
  | oidEnd => exact .inr rfl
  | writeSups => exact .inl (hhandOver _)
  | writeMust => exact .inl (hhandOver _)
  | writeMay => exact .inl (hhandOver _)
  | setStructural => exact .inl rfl
  | setAuxiliary => exact .inl rfl

def inName : Item UInt8 Action := (star keychar).parts 9 ++ ((9, leave .empty .oidEnd) :: handOver)

/-- A path is still in the name, or past the superior classes. -/
def Inside (k : Item UInt8 Action) : Prop := k = inName ∨ Item.Above 15 k

theorem next_inName (c : UInt8) : next c inName = next c ((keychar : Rule).parts 9 ++ inName) ++
    ((next c (whsp.parts 15 ++ afterSup)).map (prepend [14])).map (prepend [9]) := by
  refine (next_star c 9 rfl _).trans ?_
  rw [next_out, handOver, next_out]
  rfl

theorem above_afterSup : Item.Above 15 (whsp.parts 15 ++ afterSup) := by
  have hall : (whsp.parts 15 ++ afterSup).all (fun x => 15 ≤ x.1) = true := by decide
  exact fun x hx => of_decide_eq_true (List.all_eq_true.mp hall x hx)

theorem next_past (c : UInt8) : ∀ t ∈ ((next c (whsp.parts 15 ++ afterSup)).map (prepend [14])).map (prepend [9]),
    9 ∈ t.1 ∧ Item.Above 15 t.2 := by
  intro t ht
  obtain ⟨t', ht', rfl⟩ := List.mem_map.mp ht
  obtain ⟨t'', ht'', rfl⟩ := List.mem_map.mp ht'
  exact ⟨by simp [prepend], (above_afterSup.next c t'' ht'').2⟩

theorem inside_next {k : Item UInt8 Action} (h : Inside k) (c : UInt8) : ∀ t ∈ next c k, Inside t.2 := by
  intro t ht
  rcases h with rfl | h
  · rw [next_inName] at ht
    rcases List.mem_append.mp ht with ht | ht
    · rw [((next_class rfl c 9 inName t).mp ht).2]
      exact .inl rfl
    · exact .inr (next_past c t ht).2
  · exact .inr (h.next c t ht).2

/-- How far a name of which a part is known to be cut off has been read: the cut, when it is
behind, moved the beginning of the symbol. -/
structure Cutting (length position cut : ℕ) (v : Bytes) (alive : List (Item UInt8 Action)) (s : Parser) : Prop where
  inName : inName ∈ alive
  inside : ∀ k ∈ alive, Inside k
  pieces : Pieces length position s
  moved : cut < v.length → position < s.symbolStart

theorem Cutting.step {length position cut : ℕ} {v : Bytes} {alive : List (Item UInt8 Action)} {s : Parser}
    (h : Cutting length position cut v alive s) {before : Bytes} (hposition : before.length = position + 1)
    {c : UInt8} (hchar : (keychar : Rule).covers c = true) (hlength : v.length + 1 < length)
    (hcut : v.length = cut → begins c = true) :
    Cutting length position cut (v ++ [c]) ((moves alive c).map Prod.snd)
      ((fired main.actions (moves alive c)).foldl (fun s a => act a (before ++ v) s) s) := by
  have hbefore : (before ++ v).length = position + 1 + v.length := by rw [List.length_append, hposition]
  have hstay : ([], ObjectClassDescription.inName) ∈ moves alive c := by
    refine List.mem_flatMap.mpr ⟨_, h.inName, ?_⟩
    rw [next_inName]
    exact List.mem_append_left _ ((next_class rfl c 9 _ _).mpr ⟨hchar, rfl⟩)
  have hkeeps : ∀ a s, position < s.symbolStart → position < (act a (before ++ v) s).symbolStart := by
    intro a s hs
    rcases act_symbolStart a (before ++ v) s with heq | heq
    · omega
    · omega
  refine ⟨List.mem_map.mpr ⟨_, hstay, rfl⟩, ?_, ?_, ?_⟩
  · intro k hk
    obtain ⟨t, ht, rfl⟩ := List.mem_map.mp hk
    obtain ⟨k, hk, ht⟩ := List.mem_flatMap.mp ht
    exact inside_next (h.inside k hk) c t ht
  · exact foldl_keeps _ h.pieces fun a _ s hs => hs.act (by omega) (by omega) a
  · intro hmoved
    rw [List.length_append, List.length_singleton] at hmoved
    by_cases hnow : v.length = cut
    · have hpast : ∃ t ∈ moves alive c, 9 ∈ t.1 := by
        have hall : ∀ c ∈ variants 0x41 ++ variants 0x53 ++ variants 0x4d,
            (next c (whsp.parts 15 ++ afterSup)).isEmpty = false := by decide
        have hnonempty := hall c (of_decide_eq_true (hcut hnow))
        have hsome : next c (whsp.parts 15 ++ afterSup) ≠ [] := by simpa using hnonempty
        obtain ⟨t, ht⟩ := List.exists_mem_of_ne_nil _ hsome
        refine ⟨prepend [9] (prepend [14] t), List.mem_flatMap.mpr ⟨_, h.inName, ?_⟩, by simp [prepend]⟩
        rw [next_inName]
        exact List.mem_append_right _ (List.mem_map_of_mem (List.mem_map_of_mem ht))
      obtain ⟨t, ht, hstamp⟩ := hpast
      have hfired : Action.oidEnd ∈ fired main.actions (moves alive c) := fired_of_mem rfl ht hstamp
      have hreach : ∀ s, position < (act .oidEnd (before ++ v) s).symbolStart := by
        intro s
        have hsymbol : (act .oidEnd (before ++ v) s).symbolStart = (before ++ v).length := rfl
        omega
      exact foldl_reaches hfired hreach hkeeps s
    · exact foldl_keeps (I := fun s : Parser => position < s.symbolStart) _ (h.moved (by omega))
        fun a _ s hs => hkeeps a s hs

/-- A name that is cut is no numeric OID. -/
theorem cut_cons {u : Oid} (hcut : (Oids.one u).Cut) : ∃ c w, u.1 = c :: w ∧ (leadkeychar : Rule).covers c = true ∧
    ∀ d ∈ w, (keychar : Rule).covers d = true := by
  obtain ⟨b, hb, hbegins⟩ := hcut
  rcases u.2 with hdescr | hnumeric
  · obtain ⟨v, hv, w, hw, huw⟩ := Language.mem_mul.mp (hdescr : u.1 ∈ (cat [leadkeychar, star keychar] : Rule).language)
    obtain ⟨c, rfl⟩ : ∃ c, v = [c] := by
      rcases hv with ⟨c, -, -, rfl⟩ | ⟨c, -, -, rfl⟩
      · exact ⟨c, rfl⟩
      · exact ⟨c, rfl⟩
    have hstar : ∀ d ∈ w, (star keychar : Rule).covers d = true := covers_of_mem hw
    exact ⟨c, w, huw.symm, covers_of_mem hv c (by simp), hstar⟩
  · have hcovers := covers_of_mem hnumeric b (List.mem_of_mem_tail hb)
    have hall : ∀ c ∈ variants 0x41 ++ variants 0x53 ++ variants 0x4d, (numericoid : Rule).covers c = false := by decide
    have hnone := hall b (of_decide_eq_true hbegins)
    change (numericoid : Rule).covers b = true at hcovers
    rw [hnone] at hcovers
    cases hcovers

theorem exec_first {c : UInt8} (hc : (leadkeychar : Rule).covers c = true) (before rest : Bytes) (s : Parser) :
    exec main.actions act [oids.parts 8 ++ handOver] before (c :: rest) s =
      exec main.actions act [inName] (before ++ [c]) rest (act .start before s) := by
  let list : Item UInt8 Action := LPAREN.parts 10 ++ (WSP.parts 10 ++ (oid.parts 10 ++ others))
  have hlist : next c list = [] := by
    have hother : c ≠ 0x28 := by
      rintro rfl
      cases hc
    exact (next_char c 10 0x28 _).trans (if_neg hother)
  have hsingle : exec main.actions act [oids.parts 8 ++ handOver] before (c :: rest) s =
      exec main.actions act [oid.parts 8 ++ handOver] before (c :: rest) s :=
    (exec_alt rfl).trans (exec_left hlist)
  have hstart : exec main.actions act [oid.parts 8 ++ handOver] before (c :: rest) s =
      exec main.actions act [oidToken.parts 9 ++ ((9, leave .empty .oidEnd) :: handOver)] before (c :: rest)
        (act .start before s) :=
    (exec_in rfl).trans (exec_out_quiet rfl (quiet_parts rfl rfl 9 _))
  have hmoves : ∀ t, t ∈ moves [oidToken.parts 9 ++ ((9, leave .empty .oidEnd) :: handOver)] c ↔ t = ([], inName) := by
    intro t
    have hdescr : next c ((descr : Rule).parts 9 ++ ((9, leave .empty .oidEnd) :: handOver)) =
        next c ((leadkeychar : Rule).parts 9 ++ inName) := rfl
    have hnumeric : next c ((numericoid : Rule).parts 9 ++ ((9, leave .empty .oidEnd) :: handOver)) = [] := by
      have hapart : Apart (leadkeychar : Rule) [] ((numericoid : Rule).parts 9 ++
          ((9, leave .empty .oidEnd) :: handOver)) := by decide
      exact hapart.next_eq_nil hc (by simp)
    have halt : next c (oidToken.parts 9 ++ ((9, leave .empty .oidEnd) :: handOver)) =
        next c ((descr : Rule).parts 9 ++ ((9, leave .empty .oidEnd) :: handOver)) ++
          next c ((numericoid : Rule).parts 9 ++ ((9, leave .empty .oidEnd) :: handOver)) := next_alt c 9 rfl _
    rw [moves, List.flatMap_singleton, halt, hnumeric, List.append_nil, hdescr, next_class rfl]
    simp [hc]
  rw [hsingle, hstart, exec_step hmoves]

/-- A cut name does not get into the result. -/
theorem exec_cut {u : Oid} (hcut : (Oids.one u).Cut) {before rest : Bytes} {s s' : Parser} (hoids : s.oids = none)
    (hsups : s.result.ocSupOids = none)
    (he : exec main.actions act [oids.parts 8 ++ handOver] before (u.1 ++ 0x20 :: rest) s = some s') :
    s'.result.ocSupOids ≠ some [some u.1, none] := by
  obtain ⟨c, w, hu, hfirst, hchars⟩ := cut_cons hcut
  obtain ⟨b, hb, hbegins⟩ : ∃ b ∈ w, begins b = true := by
    obtain ⟨b, hb, hbegins⟩ := hcut
    exact ⟨b, by rw [hu] at hb; exact hb, hbegins⟩
  obtain ⟨f, g, hw⟩ := List.append_of_mem hb
  have hlength : u.1.length = w.length + 1 := by rw [hu, List.length_cons]
  rw [hu, List.cons_append, exec_first hfirst] at he
  have hfront : Cutting u.1.length before.length f.length [] [inName] (act .start before s) := by
    have hshort : ∀ array : Option (List (Option Bytes)), array = none → Short u.1.length array := by
      rintro _ rfl v hv
      cases hv
    exact ⟨List.mem_singleton.mpr rfl, by simp [Inside],
      ⟨le_refl before.length, hshort _ hoids, hshort _ hsups⟩, by simp⟩
  have hstep : ∀ v d w' alive s, w = v ++ d :: w' → Cutting u.1.length before.length f.length v alive s →
      Cutting u.1.length before.length f.length (v ++ [d]) ((moves alive d).map Prod.snd)
        ((fired main.actions (moves alive d)).foldl (fun s a => act a (before ++ [c] ++ v) s) s) := by
    intro v d w' alive s hv hI
    have hd : d ∈ w := by rw [hv]; simp
    have hlengths : w.length = v.length + (w'.length + 1) := by rw [hv]; simp
    refine hI.step (by simp) (hchars d hd) (by omega) ?_
    intro hat
    have hinj := List.append_inj (hv.symm.trans hw) hat
    rw [(List.cons.inj hinj.2).1]
    exact hbegins
  obtain ⟨alive, s₁, hcutting, hexec⟩ := exec_induct hstep hfront he
  have hbehind : f.length < w.length := by rw [hw]; simp
  have hpieces : Pieces u.1.length (before.length + 1) s₁ :=
    ⟨hcutting.moved hbehind, hcutting.pieces.oids, hcutting.pieces.sups⟩
  have hposition : (before ++ [c] ++ w).length = before.length + u.1.length := by
    simp only [List.length_append, List.length_singleton]
    omega
  have habove : ∀ k ∈ (moves alive 0x20).map Prod.snd, Item.Above 15 k := by
    intro k hk
    obtain ⟨t, ht, rfl⟩ := List.mem_map.mp hk
    obtain ⟨k, hk, ht⟩ := List.mem_flatMap.mp ht
    rcases hcutting.inside k hk with rfl | hk
    · rw [next_inName] at ht
      rcases List.mem_append.mp ht with ht | ht
      · cases ((next_class rfl 0x20 9 inName t).mp ht).1
      · exact (next_past 0x20 t ht).2
    · exact (hk.next 0x20 t ht).2
  have hkeeps : ∀ i a, 15 ≤ i → main.actions[i]? = some a → ∀ before (s : Parser),
      Short u.1.length s.result.ocSupOids → Short u.1.length (act a before s).result.ocSupOids := by
    intro i a hi ha before s hs
    have hmem : a ∈ [Action.start, .oidEnd, .setStructural, .setAuxiliary] := later_actions (by decide) hi ha
    simp only [List.mem_cons, List.not_mem_nil, or_false] at hmem
    rcases hmem with rfl | rfl | rfl | rfl
    · exact hs
    · exact capture_result s before Parser.addOid (P := fun r => Short u.1.length r.ocSupOids) hs fun _ => hs
    · exact hs
    · exact hs
  rw [exec_cons] at hexec
  split_ifs at hexec
  have hlast : Short u.1.length s'.result.ocSupOids := by
    refine exec_keeps (I := fun s : Parser => Short u.1.length s.result.ocSupOids) hkeeps habove ?_ hexec
    exact (foldl_keeps _ hpieces fun a _ s hs => hs.act (by omega) (by omega) a).sups
  intro hwhole
  rw [hwhole] at hlast
  exact absurd (hlast u.1 (by simp)) (by omega)

theorem reads_cut (word : Keyword "SUP") (m : ℕ) {u : Oid} (hcut : (Oids.one u).Cut) {j : ℕ} (hj : 0 < j)
    (x : Option (Kind × ℕ)) (y : Option (Keyword "MUST" × ℕ × Oids × ℕ)) (z : Option (Keyword "MAY" × ℕ × Oids))
    (last : ℕ) : Reads main.actions act fields [ascii "SUP"] afterNames
      (oidsText (some (word, m, .one u, j)) ++ (kindText x ++ (oidsText y ++ (mayText z ++ (spaces last ++ [0x29])))))
      fun r s' => r.oids = none → r.result.ocSupOids = none → s'.result.ocSupOids ≠ some [some u.1, none] := by
  have hrenders : Renders (cat [opt sup, opt kind, opt must, opt may, whsp, RPAREN]) _ :=
    (renders_clause "SUP" (renders_oids.leave Action.writeSups)).cons (renders_kind.cons
      ((renders_clause "MUST" renders_oids).cons (renders_may.cons (renders_whsp.cons
        ((renders_char 0x29).cons renders_nil)))))
  obtain ⟨i, rfl⟩ := Nat.exists_eq_succ_of_ne_zero hj.ne'
  let rest := spaces i ++ (kindText x ++ (oidsText y ++ (mayText z ++ (spaces last ++ [0x29]))))
  have htext : oidsText (some (word, m, .one u, i + 1)) ++ (kindText x ++ (oidsText y ++ (mayText z ++
      (spaces last ++ [0x29])))) = word.1 ++ (spaces m ++ (u.1 ++ 0x20 :: rest)) := by
    simp [oidsText, Oids.text, rest, spaces, List.replicate_succ]
  have hopens : Opens [ascii "SUP"] (word.1 ++ (spaces m ++ (u.1 ++ 0x20 :: rest))) :=
    .inr ⟨ascii "SUP", by simp, by decide, word.1, word.2, _, rfl⟩
  have hmem : word.1 ++ (spaces m ++ (u.1 ++ 0x20 :: rest)) ∈
      (cat [opt sup, opt kind, opt must, opt may, whsp, RPAREN]).language := by
    rw [← htext]
    exact (hrenders _).mpr ⟨(some (word, m, .one u, i + 1), x, y, z, last, (), ()), rfl⟩
  rw [htext]
  refine Reads.of_word (n := 8) hmem hopens ?_ 0
  intro before s s' hexec hoids hsups
  have hword : exec main.actions act [afterNames] before (word.1 ++ (spaces m ++ (u.1 ++ 0x20 :: rest))) s =
      exec main.actions act [whsp.parts 8 ++ (oids.parts 8 ++ handOver)] (before ++ word.1)
        (spaces m ++ (u.1 ++ 0x20 :: rest)) s :=
    exec_present (e := sup) (n := 8) (c := 0x53) (d := 0x55) rfl rfl (by decide) word.2
  have hstill : next 0x20 (oids.parts 8 ++ handOver) = [] := by decide
  have hspaces : exec main.actions act [whsp.parts 8 ++ (oids.parts 8 ++ handOver)] (before ++ word.1)
        (spaces m ++ (u.1 ++ 0x20 :: rest)) s =
      exec main.actions act [oids.parts 8 ++ handOver] (before ++ word.1 ++ spaces m) (u.1 ++ 0x20 :: rest) s :=
    exec_spaces (absorbs_of_still hstill) m (Oid.not_space u _)
  exact exec_cut (s := s) hcut hoids hsups (hspaces.symm.trans (hword.symm.trans hexec))

/-- Spaces stand behind the superior classes. -/
def Text.Separated (t : Text) : Prop := ∀ x ∈ t.sup, 0 < x.2.2.2

/-- The OID, the names, the superior classes and the kind are those of the text. -/
structure ClassOf (t : Text) (r : LdapObjectClass) : Prop where
  oid : r.ocOid = t.value.ocOid
  names : r.ocNames = t.value.ocNames
  sups : r.ocSupOids = t.value.ocSupOids
  kind : r.ocKind = t.value.ocKind

/-- A description is parsed to what it says exactly when the name of its superior class, if
it is a single one, is not cut. -/
theorem parseObjectClass_class (t : Text) (h : t.Separated) :
    (∃ r, parseObjectClass (some t.text) = some r ∧ ClassOf t r) ↔ ∀ x ∈ t.sup, ¬x.2.2.1.Cut := by
  obtain ⟨s, hrun, hparse⟩ := exists_run t
  constructor
  · rintro ⟨r, hr, hclass⟩ ⟨word, m, x, j⟩ hx hcut
    rw [hparse] at hr
    cases hr
    cases x with
    | list => exact hcut
    | one u =>
      have hread := reads_cut word m hcut (h _ hx) t.kind t.must t.may t.last
      rw [← Option.mem_def.mp hx] at hread
      obtain ⟨s', hrun', hlost⟩ := exec_text t (reads_names t.names (by decide) hread)
      rw [hrun] at hrun'
      cases hrun'
      have hnames : writeNames t.names (writeOid {} t.oid.1) = _ := foldl_addName _ _ [] rfl rfl
      have hsups := hclass.sups
      rw [Text.value, Option.mem_def.mp hx] at hsups
      rw [Function.comp_apply, hnames] at hlost
      exact hlost rfl rfl hsups
  · intro hcut
    obtain ⟨words, hread⟩ := reads_clauses t h hcut
    obtain ⟨s', hrun', hresult⟩ := exec_text t hread
    rw [hrun] at hrun'
    cases hrun'
    rw [write_value] at hresult
    exact ⟨s.result, hparse, by rw [hresult], by rw [hresult], by rw [hresult], by rw [hresult]⟩

def ofSuperior (u : Oid) : Text where
  label := none
  beforeOid := 1
  oid := ⟨ascii "1.2", (accepts_iff _ _).mp (by decide)⟩
  afterOid := 1
  names := none
  sup := some (⟨ascii "SUP", spelled_self _⟩, 1, .one u, 1)
  kind := none
  must := none
  may := none
  last := 0

theorem parseObjectClass_class_top : ∃ u : Oid, u.1 = ascii "top" ∧
    ∃ r, parseObjectClass (some (ofSuperior u).text) = some r ∧ ClassOf (ofSuperior u) r := by
  have hname : ascii "top" ∈ oidToken.language := (accepts_iff _ _).mp (by decide)
  have hseparated : (ofSuperior ⟨_, hname⟩).Separated := by
    rintro _ ⟨⟩
    exact Nat.one_pos
  refine ⟨⟨_, hname⟩, rfl, (parseObjectClass_class _ hseparated).mpr ?_⟩
  rintro _ ⟨⟩ ⟨c, hc, hbegins⟩
  have hnone : ∀ c ∈ (ascii "top").tail, begins c = false := by decide
  rw [hnone c hc] at hbegins
  cases hbegins

/-- The superior class `leaf` comes out as `af`. -/
theorem parseObjectClass_leaf : ¬∀ t : Text, t.Separated → ∃ r, parseObjectClass (some t.text) = some r ∧ ClassOf t r := by
  intro h
  have hname : ascii "leaf" ∈ oidToken.language := (accepts_iff _ _).mp (by decide)
  have hseparated : (ofSuperior ⟨_, hname⟩).Separated := by
    rintro _ ⟨⟩
    exact Nat.one_pos
  have hparse : parseObjectClass (some (ofSuperior ⟨_, hname⟩).text) =
      some { ocOid := some (ascii "1.2"), ocSupOids := some [some (ascii "af"), none] } := by
    have htext : (ofSuperior ⟨_, hname⟩).text = ascii "( 1.2 SUP leaf )" := rfl
    rw [htext]
    decide
  obtain ⟨r, hr, hclass⟩ := h _ hseparated
  rw [hparse] at hr
  cases hr
  have hsups : some [some (ascii "af"), none] = some [some (ascii "leaf"), none] := hclass.sups
  exact absurd hsups (by decide)

end Libdomain.Parsers.ObjectClassDescription
