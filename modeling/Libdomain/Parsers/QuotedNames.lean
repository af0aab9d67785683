import Libdomain.Parsers.Description

/-! # Quoted names

The rules `qdescr`, `qdescrlist` and `qdescrs`, which both grammars use for the names of
a schema element, and how a machine reads them.
-/
namespace Libdomain.Parsers
open Libdomain.Connection Libdomain.Ragel Libdomain.Ragel.Expr

variable {A : Type}

def qdescr (start nameEnd : A) : Expr UInt8 A :=
  cat [whsp, leave SQUOTE start, leave descr nameEnd, SQUOTE, whsp]

def qdescrlist (start nameEnd : A) : Expr UInt8 A :=
  opt (cat [qdescr start nameEnd, star (qdescr start nameEnd)])

def qdescrs (start nameEnd : A) : Expr UInt8 A :=
  any (qdescr start nameEnd) [cat [whsp, LPAREN, qdescrlist start nameEnd, RPAREN, whsp]]

structure QDescr where
  before : ℕ
  name : Bytes
  after : ℕ
  valid : name ∈ (descr : Expr UInt8 Empty).language

def QDescr.text (q : QDescr) : Bytes :=
  spaces q.before ++ (0x27 :: (q.name ++ (0x27 :: spaces q.after)))

inductive QDescrs
  | one (q : QDescr)
  | list (before : ℕ) (qs : List QDescr) (after : ℕ)

def QDescrs.names : QDescrs → List Bytes
  | .one q => [q.name]
  | .list _ qs _ => qs.map QDescr.name

def QDescrs.text : QDescrs → Bytes
  | .one q => q.text
  | .list before qs after =>
    spaces before ++ (0x28 :: (qs.flatMap QDescr.text ++ (0x29 :: spaces after)))

theorem renders_qdescr (start nameEnd : A) : Renders (qdescr start nameEnd) QDescr.text := by
  have hparts := renders_whsp.cons (((renders_char 0x27).leave start).cons (((renders_self descr).leave nameEnd).cons
    ((renders_char 0x27).cons (renders_whsp.cons renders_nil))))
  refine hparts.of_texts ?_ ?_
  · rintro ⟨m, -, name, -, n, -⟩
    exact ⟨⟨m, name.1, n, name.2⟩, by simp [QDescr.text]⟩
  · rintro ⟨m, name, n, hname⟩
    exact ⟨⟨m, (), ⟨name, hname⟩, (), n, ()⟩, by simp [QDescr.text]⟩

theorem renders_qdescrlist (start nameEnd : A) :
    Renders (qdescrlist start nameEnd) fun qs : List QDescr => qs.flatMap QDescr.text := by
  have hqdescr := renders_qdescr start nameEnd
  refine (hqdescr.cons (hqdescr.star.cons renders_nil)).opt.of_texts ?_ ?_
  · rintro (_ | ⟨q, qs, -⟩)
    · exact ⟨[], rfl⟩
    · exact ⟨q :: qs, by simp⟩
  · rintro (_ | ⟨q, qs⟩)
    · exact ⟨none, rfl⟩
    · exact ⟨some (q, qs, ()), by simp⟩

/-- These are all texts of the rule. -/
theorem renders_qdescrs (start nameEnd : A) : Renders (qdescrs start nameEnd) QDescrs.text := by
  have hlist := renders_whsp.cons ((renders_char 0x28).cons ((renders_qdescrlist start nameEnd).cons
    ((renders_char 0x29).cons (renders_whsp.cons renders_nil))))
  refine ((renders_qdescr start nameEnd).alt hlist).of_texts ?_ ?_
  · rintro (q | ⟨m, -, qs, -, n, -⟩)
    · exact ⟨.one q, rfl⟩
    · exact ⟨.list m qs n, by simp [QDescrs.text]⟩
  · rintro (q | ⟨m, qs, n⟩)
    · exact ⟨.inl q, rfl⟩
    · exact ⟨.inr ⟨m, (), qs, (), n, ()⟩, by simp [QDescrs.text]⟩

theorem productive_descr : (descr : Expr UInt8 A).Productive :=
  (by decide : (descr : Expr UInt8 Empty).Productive)

variable {σ ρ : Type} [DecidableEq A] {actions : List A} {act : A → Bytes → σ → σ} {result : σ → ρ}
  {start nameEnd : A} {addName : ρ → Bytes → ρ}

section

variable (hcapture : ∀ before u s, u ≠ [] →
  result (act nameEnd (before ++ u) (act start before s)) = addName (result s) u)
include hcapture

theorem exec_quoted {e : Expr UInt8 A} (hp : e.Productive) (ha : e.actions = []) (hnull : e.nullable = false)
    (hquote : e.covers 0x27 = false) {n : ℕ} (hn : Delimits actions start nameEnd n) {name : Bytes}
    (hname : name ∈ e.language) (k : Item UInt8 A) (before rest : Bytes) (s : σ) :
    ∃ s', result s' = addName (result s) name ∧
      exec actions act [frames n [leave SQUOTE start, leave e nameEnd, SQUOTE] ++ k] before
          (0x27 :: (name ++ (0x27 :: rest))) s =
        exec actions act [k] (before ++ 0x27 :: (name ++ [0x27])) rest s' := by
  let closing : Item UInt8 A := SQUOTE.parts (n + 2) ++ k
  have hclosing : ∀ c, next c closing = if c = 0x27 then [([], k)] else [] := fun c => next_char c _ _ _
  have hsize : e.size = 0 := by simp [Expr.size, ha]
  have hframes : frames n [leave SQUOTE start, leave e nameEnd, SQUOTE] ++ k =
      SQUOTE.parts n ++ ((n, leave empty start) :: (e.parts (n + 1) ++
        ((n + 1, leave empty nameEnd) :: closing))) := by
    have hleave : (leave SQUOTE start : Expr UInt8 A).size = 1 := rfl
    have hleave' : (leave e nameEnd).size = 1 := by simp [Expr.size, Expr.actions, ha]
    simp only [frames, hleave, hleave', Expr.parts, hsize, Nat.add_zero, List.append_assoc,
      List.append_nil, closing]
    rfl
  have happart : ∀ c, e.covers c = true → next c closing = [] := by
    intro c hc
    have hother : c ≠ 0x27 := by
      rintro rfl
      rw [hquote] at hc
      cases hc
    rw [hclosing, if_neg hother]
  obtain ⟨s', hresult, hexec⟩ := exec_delimited hcapture hp ha hnull hn hname (quiet_parts rfl rfl _ _) happart
    (before ++ [0x27]) rest hquote s
  have hlast : exec actions act [closing] (before ++ [0x27] ++ name) (0x27 :: rest) s' =
      exec actions act [k] (before ++ [0x27] ++ name ++ [0x27]) rest s' := exec_char
  refine ⟨s', hresult, ?_⟩
  rw [hframes, SQUOTE, exec_char, hexec, hlast]
  simp

theorem exec_quoted_descr {n : ℕ} (hn : Delimits actions start nameEnd n) {name : Bytes}
    (hname : name ∈ (descr : Expr UInt8 A).language) (k : Item UInt8 A) (before rest : Bytes) (s : σ) :
    ∃ s', result s' = addName (result s) name ∧
      exec actions act [frames n [leave SQUOTE start, leave descr nameEnd, SQUOTE, whsp] ++ k] before
          (0x27 :: (name ++ (0x27 :: rest))) s =
        exec actions act [whsp.parts (n + 2) ++ k] (before ++ 0x27 :: (name ++ [0x27])) rest s' :=
  exec_quoted hcapture productive_descr rfl rfl rfl hn hname (whsp.parts (n + 2) ++ k) before rest s

theorem exec_qdescr {n : ℕ} (hn : Delimits actions start nameEnd n)
    {name : Bytes} (hname : name ∈ (descr : Expr UInt8 A).language) (m : ℕ) (k : Item UInt8 A)
    (before rest : Bytes) (s : σ) :
    ∃ s', result s' = addName (result s) name ∧
      exec actions act [(qdescr start nameEnd).parts n ++ k] before
          (spaces m ++ (0x27 :: (name ++ (0x27 :: rest)))) s =
        exec actions act [whsp.parts (n + 2) ++ k] (before ++ spaces m ++ 0x27 :: (name ++ [0x27])) rest s' := by
  obtain ⟨s', hresult, hexec⟩ :=
    exec_quoted_descr hcapture hn hname k (before ++ spaces m) rest s
  refine ⟨s', hresult, ?_⟩
  rw [← hexec]
  have hstill : next 0x20 (frames n [leave SQUOTE start, leave descr nameEnd, SQUOTE, whsp] ++ k) = [] :=
    next_char 0x20 n 0x27 _
  exact exec_spaces (absorbs_of_still hstill) m (by simp)

/-- The names of a list after the first one, and the end of the list. -/
theorem exec_qdescrs {n : ℕ} (hn : Delimits actions start nameEnd n)
    (n' : ℕ) (k : Item UInt8 A) (qs : List QDescr) (m j : ℕ) (before rest : Bytes) (s : σ) :
    ∃ s', result s' = (qs.map QDescr.name).foldl addName (result s) ∧
      exec actions act [whsp.parts m ++ ((star (qdescr start nameEnd)).parts n ++ (RPAREN.parts n' ++ k))]
          before (spaces j ++ (qs.flatMap QDescr.text ++ (0x29 :: rest))) s =
        exec actions act [k] (before ++ spaces j ++ qs.flatMap QDescr.text ++ [0x29]) rest s' := by
  let X : Item UInt8 A := (star (qdescr start nameEnd)).parts n ++ (RPAREN.parts n' ++ k)
  have hstar : ∀ d, next d X =
      next d ((qdescr start nameEnd).parts n ++ X) ++ next d (RPAREN.parts n' ++ k) :=
    fun d => next_star d n rfl _
  have hclose : ∀ d, next d (RPAREN.parts n' ++ k) = if d = 0x29 then [([], k)] else [] :=
    fun d => next_char d n' _ _
  have hfirst : ∀ d, next d ((qdescr start nameEnd).parts n ++ X) =
      (if d = 0x20 then [([], (qdescr start nameEnd).parts n ++ X)] else []) ++
        next d (frames n [leave SQUOTE start, leave descr nameEnd, SQUOTE, whsp] ++ X) :=
    fun d => next_whsp d n _
  have hquote : ∀ d, d ≠ 0x27 →
      next d (frames n [leave SQUOTE start, leave descr nameEnd, SQUOTE, whsp] ++ X) = [] := by
    intro d hd
    exact (next_char d n 0x27 _).trans (if_neg hd)
  have habsorbs : Absorbs X := by
    intro t ht
    rw [hstar, hclose, if_neg (by decide), List.append_nil, hfirst, if_pos rfl,
      hquote 0x20 (by decide), List.append_nil, List.mem_singleton] at ht
    subst ht
    refine ⟨rfl, fun d => ?_⟩
    rw [hstar]
    exact List.subset_append_left _ _
  induction qs generalizing m j before s with
  | nil =>
    refine ⟨s, rfl, ?_⟩
    have hnot : next 0x29 ((qdescr start nameEnd).parts n ++ X) = [] := by
      rw [hfirst, if_neg (by decide), hquote 0x29 (by decide)]
      rfl
    have hexec : ∀ before, exec actions act [X] before (0x29 :: rest) s =
        exec actions act [k] (before ++ [0x29]) rest s := by
      intro before
      rw [exec_star rfl, exec_right hnot]
      exact exec_char
    rw [List.flatMap_nil, List.nil_append, List.append_nil, exec_spaces habsorbs j (by simp), hexec]
  | cons q qs ih =>
    have hname : q.name ∈ (descr : Expr UInt8 A).language := q.valid
    have htext : spaces j ++ ((q :: qs).flatMap QDescr.text ++ (0x29 :: rest)) =
        spaces (j + q.before) ++ (0x27 :: (q.name ++ (0x27 ::
          (spaces q.after ++ (qs.flatMap QDescr.text ++ (0x29 :: rest)))))) := by
      rw [← spaces_add]
      simp [QDescr.text]
    obtain ⟨s₁, hresult₁, hexec₁⟩ := exec_qdescr hcapture hn hname 0 X
      (before ++ spaces (j + q.before)) (spaces q.after ++ (qs.flatMap QDescr.text ++ (0x29 :: rest))) s
    obtain ⟨s₂, hresult₂, hexec₂⟩ := ih (n + 2) q.after
      (before ++ spaces (j + q.before) ++ spaces 0 ++ 0x27 :: (q.name ++ [0x27])) s₁
    refine ⟨s₂, by rw [hresult₂, hresult₁]; rfl, ?_⟩
    have hleft : ∀ before w, exec actions act [X] before (0x27 :: w) s =
        exec actions act [(qdescr start nameEnd).parts n ++ X] before (0x27 :: w) s := by
      intro before w
      rw [exec_star rfl, exec_left]
      rw [hclose, if_neg (by decide)]
    rw [htext, exec_spaces habsorbs _ (by simp), hleft]
    refine (hexec₁.trans hexec₂).trans ?_
    have hspaces : spaces (j + q.before) = spaces j ++ spaces q.before := List.replicate_add ..
    have hzero : spaces 0 = [] := rfl
    rw [hspaces, hzero]
    simp [QDescr.text]

theorem exec_qdescrlist {n : ℕ} (hn : Delimits actions start nameEnd n) (hn₂ : Delimits actions start nameEnd (n + 2))
    (n' : ℕ) (k : Item UInt8 A) (qs : List QDescr) (before rest : Bytes) (s : σ) :
    ∃ s', result s' = (qs.map QDescr.name).foldl addName (result s) ∧
      exec actions act [(qdescrlist start nameEnd).parts n ++ (RPAREN.parts n' ++ k)] before
          (qs.flatMap QDescr.text ++ (0x29 :: rest)) s =
        exec actions act [k] (before ++ qs.flatMap QDescr.text ++ [0x29]) rest s' := by
  let closing : Item UInt8 A := RPAREN.parts n' ++ k
  have hclosing : ∀ d, d ≠ 0x29 → next d closing = [] :=
    fun d hd => (next_char d n' 0x29 _).trans (if_neg hd)
  have hopt : exec actions act [(qdescrlist start nameEnd).parts n ++ closing] before
        (qs.flatMap QDescr.text ++ (0x29 :: rest)) s =
      exec actions act [(qdescr start nameEnd).parts n ++ ((star (qdescr start nameEnd)).parts (n + 2) ++ closing),
        closing] before (qs.flatMap QDescr.text ++ (0x29 :: rest)) s := exec_opt rfl
  rw [hopt]
  cases qs with
  | nil =>
    refine ⟨s, rfl, ?_⟩
    have hnot : next 0x29 ((qdescr start nameEnd).parts n ++
        ((star (qdescr start nameEnd)).parts (n + 2) ++ closing)) = [] := by
      change next 0x29 (whsp.parts n ++ (frames n [leave SQUOTE start, leave descr nameEnd, SQUOTE, whsp] ++
        ((star (qdescr start nameEnd)).parts (n + 2) ++ closing))) = []
      rw [next_whsp, if_neg (by decide), List.nil_append]
      exact next_char 0x29 n 0x27 _
    have hclose : exec actions act [closing] before (0x29 :: rest) s =
        exec actions act [k] (before ++ [0x29]) rest s := exec_char
    rw [List.flatMap_nil, List.nil_append, exec_right hnot, hclose, List.append_nil]
  | cons q qs =>
    -- the first name begins with a space or a quote, so the list does not end here
    obtain ⟨c, w, hhead, hc⟩ : ∃ c w, (q :: qs).flatMap QDescr.text ++ (0x29 :: rest) = c :: w ∧ c ≠ 0x29 := by
      rw [List.flatMap_cons, QDescr.text]
      cases q.before with
      | zero => exact ⟨0x27, _, rfl, by decide⟩
      | succ m => exact ⟨0x20, _, rfl, by decide⟩
    have htext : (q :: qs).flatMap QDescr.text ++ (0x29 :: rest) =
        spaces q.before ++ (0x27 :: (q.name ++ (0x27 :: (spaces q.after ++
          (qs.flatMap QDescr.text ++ (0x29 :: rest)))))) := by
      simp [QDescr.text]
    obtain ⟨s₁, hresult₁, hexec₁⟩ := exec_qdescr hcapture hn q.valid q.before
      ((star (qdescr start nameEnd)).parts (n + 2) ++ closing) before
      (spaces q.after ++ (qs.flatMap QDescr.text ++ (0x29 :: rest))) s
    obtain ⟨s₂, hresult₂, hexec₂⟩ := exec_qdescrs hcapture hn₂ n' k qs (n + 2) q.after
      (before ++ spaces q.before ++ 0x27 :: (q.name ++ [0x27])) rest s₁
    refine ⟨s₂, by rw [hresult₂, hresult₁]; rfl, ?_⟩
    rw [hhead, exec_left (hclosing c hc), ← hhead, htext, hexec₁, hexec₂]
    simp [QDescr.text]

def QDescrs.core : QDescrs → Bytes
  | .one q => spaces q.before ++ (0x27 :: (q.name ++ [0x27]))
  | .list before qs _ => spaces before ++ (0x28 :: (qs.flatMap QDescr.text ++ [0x29]))

def QDescrs.trailing : QDescrs → ℕ
  | .one q => q.after
  | .list _ _ after => after

omit hcapture [DecidableEq A] in
theorem QDescrs.text_eq (q : QDescrs) : q.text = q.core ++ spaces q.trailing := by
  cases q with
  | one q => simp [text, core, trailing, QDescr.text]
  | list before qs after => simp [text, core, trailing]

/-- All names are read, one after the other. -/
theorem exec_names {n : ℕ} (hn : Delimits actions start nameEnd n)
    (hn₂ : Delimits actions start nameEnd (n + 2)) (hn₄ : Delimits actions start nameEnd (n + 4))
    (q : QDescrs) (k : Item UInt8 A) (before rest : Bytes) (s : σ) :
    ∃ s' m, result s' = q.names.foldl addName (result s) ∧
      exec actions act [(qdescrs start nameEnd).parts n ++ k] before (q.core ++ rest) s =
        exec actions act [whsp.parts m ++ k] (before ++ q.core) rest s' := by
  let quoted : Item UInt8 A := frames n [leave SQUOTE start, leave descr nameEnd, SQUOTE, whsp] ++ k
  let inner : Item UInt8 A := (qdescrlist start nameEnd).parts (n + 2) ++ (RPAREN.parts (n + 6) ++ (whsp.parts (n + 6) ++ k))
  let list : Item UInt8 A := LPAREN.parts (n + 2) ++ inner
  have hquoted : ∀ d, d ≠ 0x27 → next d quoted = [] :=
    fun d hd => (next_char d n 0x27 _).trans (if_neg hd)
  have hlist : ∀ d, d ≠ 0x28 → next d list = [] :=
    fun d hd => (next_char d (n + 2) 0x28 _).trans (if_neg hd)
  have hspaces : ∀ (j : ℕ) (c : UInt8) (w : Bytes), c ≠ 0x20 →
      exec actions act [(qdescrs start nameEnd).parts n ++ k] before (spaces j ++ c :: w) s =
        exec actions act [quoted, list] (before ++ spaces j) (c :: w) s := by
    intro j c w hc
    have halt : exec actions act [(qdescrs start nameEnd).parts n ++ k] before (spaces j ++ c :: w) s =
        exec actions act ([(n, quoted), (n + 2, list)].map fun k => (star (char 0x20)).parts k.1 ++ k.2) before
          (List.replicate j 0x20 ++ c :: w) s := exec_alt rfl
    rw [halt, exec_pad (List.cons_ne_nil _ _) _ j (by simp [hc])]
    · rfl
    · have hstill : moves ([(n, quoted), (n + 2, list)].map Prod.snd) 0x20 = [] := by
        simp [moves, hquoted 0x20 (by decide), hlist 0x20 (by decide)]
      rw [hstill]
      simp
  cases q with
  | one q =>
    have htext : (QDescrs.one q).core ++ rest = spaces q.before ++ (0x27 :: (q.name ++ (0x27 :: rest))) := by
      simp [QDescrs.core]
    obtain ⟨s', hresult, hexec⟩ := exec_quoted_descr hcapture hn q.valid k (before ++ spaces q.before) rest s
    refine ⟨s', n + 2, hresult, ?_⟩
    rw [htext, hspaces _ _ _ (by decide), exec_left (hlist _ (by decide)), hexec]
    simp [QDescrs.core]
  | list j qs after =>
    have htext : (QDescrs.list j qs after).core ++ rest =
        spaces j ++ (0x28 :: (qs.flatMap QDescr.text ++ (0x29 :: rest))) := by
      simp [QDescrs.core]
    have hopen : exec actions act [list] (before ++ spaces j) (0x28 :: (qs.flatMap QDescr.text ++ (0x29 :: rest))) s =
        exec actions act [inner] (before ++ spaces j ++ [0x28]) (qs.flatMap QDescr.text ++ (0x29 :: rest)) s :=
      exec_char
    obtain ⟨s', hresult, hexec⟩ := exec_qdescrlist hcapture hn₂ hn₄ (n + 6) (whsp.parts (n + 6) ++ k) qs
      (before ++ spaces j ++ [0x28]) rest s
    refine ⟨s', n + 6, hresult, ?_⟩
    rw [htext, hspaces _ _ _ (by decide), exec_right (hquoted _ (by decide)), hopen, hexec]
    simp [QDescrs.core]

end

end Libdomain.Parsers
