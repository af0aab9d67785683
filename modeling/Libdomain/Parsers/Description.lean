import Libdomain.Connection.State
import Libdomain.Ragel.Rendering
import Libdomain.Ragel.Scan

/-! # Descriptions of schema elements

What `attribute_type_description.rl` and `object_class_description.rl` have in common:
their lexical rules, the arrays their actions fill, and the way their machines read
optional clauses separated by optional spaces.
-/
namespace Libdomain.Parsers
open Libdomain.Connection Libdomain.Ragel Libdomain.Ragel.Expr

variable {A : Type}

def DOT : Expr UInt8 A := char 0x2e
def SQUOTE : Expr UInt8 A := char 0x27
def LDIGIT : Expr UInt8 A := range 0x31 0x39
def DIGIT : Expr UInt8 A := any (char 0x30) [LDIGIT]
def SPACE : Expr UInt8 A := char 0x20
def ALPHA : Expr UInt8 A := any (range 0x41 0x5a) [range 0x61 0x7a]
def HYPHEN : Expr UInt8 A := char 0x2d
def LPAREN : Expr UInt8 A := char 0x28
def RPAREN : Expr UInt8 A := char 0x29
def DOLLAR : Expr UInt8 A := char 0x24
def COLON : Expr UInt8 A := char 0x3a
def leadkeychar : Expr UInt8 A := ALPHA
def keychar : Expr UInt8 A := any ALPHA [DIGIT, HYPHEN]
def keystring : Expr UInt8 A := cat [leadkeychar, star keychar]
def whsp : Expr UInt8 A := star SPACE
def number : Expr UInt8 A := any DIGIT [cat [LDIGIT, plus DIGIT]]
def numericoid : Expr UInt8 A := cat [number, plus (cat [DOT, number])]
def descr : Expr UInt8 A := keystring

def isLetter (c : UInt8) : Bool := 0x41 ≤ c && c ≤ 0x5a || 0x61 ≤ c && c ≤ 0x7a

/-- What a character of a literal that ignores case stands for. -/
def variants (c : UInt8) : List UInt8 := if isLetter c then [c, c ^^^ 0x20] else [c]

def letter (c : UInt8) : Expr UInt8 A := any (char c) ((variants c).tail.map char)

/-- A literal that ignores case. -/
def nocase (word : Bytes) : Expr UInt8 A := cat (word.map letter)

def spaces (n : ℕ) : Bytes := List.replicate n 0x20

theorem spaces_add (m n : ℕ) (r : Bytes) : spaces m ++ (spaces n ++ r) = spaces (m + n) ++ r := by
  rw [← List.append_assoc, spaces, spaces, List.replicate_append_replicate]
  rfl

/-- `talloc_realloc` to an array of the given length; what it adds is set to `NULL` here. -/
def tallocRealloc (array : Option (List (Option Bytes))) (n : ℕ) : List (Option Bytes) :=
  (array.getD []).takeD n none

/-- The array at a `NULL`-terminated list of strings. -/
def nullTerminated (strings : List Bytes) : List (Option Bytes) := strings.map some ++ [none]

/-- The array that holds a list of strings, if any. -/
def arrayOf (strings : List Bytes) : Option (List (Option Bytes)) :=
  if strings = [] then none else some (nullTerminated strings)

/-- A string is appended to an array of the given length, as all actions do it. -/
def appendString (array : Option (List (Option Bytes))) (n : ℕ) (s : Bytes) : List (Option Bytes) :=
  ((tallocRealloc array (n + 2)).set n (some s)).set (n + 1) none

theorem takeD_nullTerminated (strings : List Bytes) :
    (nullTerminated strings).takeD (strings.length + 2) none = nullTerminated strings ++ [none] := by
  have htake : ∀ l : List (Option Bytes), l.takeD (l.length + 1) none = l ++ [none] := by
    intro l
    induction l with
    | nil => rfl
    | cons x l ih => simpa [List.takeD] using ih
  have hlength : strings.length + 2 = (nullTerminated strings).length + 1 := by simp [nullTerminated]
  rw [hlength, htake]

theorem arrayOf_append (strings : List Bytes) (s : Bytes) :
    arrayOf (strings ++ [s]) = some (nullTerminated (strings ++ [s])) := by
  simp [arrayOf]

theorem appendString_arrayOf (strings : List Bytes) (s : Bytes) :
    appendString (arrayOf strings) strings.length s = nullTerminated (strings ++ [s]) := by
  unfold appendString tallocRealloc arrayOf
  split_ifs with h
  · subst h
    rfl
  · rw [Option.getD_some, takeD_nullTerminated]
    have hset : ∀ l : List (Option Bytes), ((l ++ [none] ++ [none]).set l.length (some s)).set (l.length + 1)
        none = l ++ [some s, none] := by
      intro l
      induction l with
      | nil => rfl
      | cons x l => simp
    simpa only [nullTerminated, List.map_append, List.map_cons, List.map_nil, List.append_assoc, List.length_map,
      List.cons_append, List.nil_append] using hset (strings.map some)

theorem byte_between (c d : UInt8) : (c ≤ d ∧ d ≤ c) ↔ d = c := by
  constructor
  · exact fun h => UInt8.le_antisymm h.2 h.1
  · rintro rfl
    exact ⟨UInt8.le_refl _, UInt8.le_refl _⟩

theorem next_char (d : UInt8) (n : ℕ) (c : UInt8) (k : Item UInt8 A) :
    next d ((char c).parts n ++ k) = if d = c then [([], k)] else [] := by
  rw [next_parts, char, next_range]
  simp only [byte_between]

theorem next_letter (d : UInt8) (n : ℕ) (c : UInt8) (k : Item UInt8 A) (t : Transition UInt8 A) :
    t ∈ next d ((letter c).parts n ++ k) ↔ d ∈ variants c ∧ t = ([], k) := by
  unfold letter variants
  split_ifs
  · have hparts : (any (char c) ([c, c ^^^ 0x20].tail.map char) : Expr UInt8 A) =
        alt (char c) (char (c ^^^ 0x20)) := rfl
    rw [hparts, next_alt d n rfl, next_char, next_char]
    simp only [List.mem_append, List.mem_ite_nil_right, List.mem_cons, List.not_mem_nil, or_false]
    tauto
  · have hparts : (any (char c) ([c].tail.map char) : Expr UInt8 A) = char c := rfl
    rw [hparts, next_char]
    by_cases hc : d = c
    · simp [hc]
    · simp [hc]

theorem size_letter (c : UInt8) : (letter c : Expr UInt8 A).size = 0 := by
  unfold letter variants
  split_ifs <;> rfl

/-- A way to write a literal that ignores case. -/
def Spelled (u word : Bytes) : Prop := List.Forall₂ (fun d c => d ∈ variants c) u word

theorem renders_whsp : Renders (whsp : Expr UInt8 A) spaces := by
  have hspaces : ∀ l : List Unit, (l.flatMap fun _ => [0x20]) = spaces l.length := by
    intro l
    induction l with
    | nil => rfl
    | cons x l ih => rw [List.flatMap_cons, ih]; rfl
  refine (renders_char 0x20).star.of_texts (fun l => ⟨l.length, (hspaces l).symm⟩) fun n => ?_
  exact ⟨List.replicate n (), (hspaces _).trans (by rw [List.length_replicate])⟩

theorem renders_letter (c : UInt8) :
    Renders (letter c : Expr UInt8 A) fun d : { d // d ∈ variants c } => [d.1] := by
  by_cases hc : isLetter c = true
  · have hparts : (letter c : Expr UInt8 A) = alt (char c) (char (c ^^^ 0x20)) := by
      simp [letter, variants, hc, any]
    have hvariants : variants c = [c, c ^^^ 0x20] := if_pos hc
    rw [hparts, hvariants]
    refine ((renders_char c).alt (renders_char _)).of_texts ?_ ?_
    · rintro (_ | _)
      · exact ⟨⟨c, by simp⟩, rfl⟩
      · exact ⟨⟨c ^^^ 0x20, by simp⟩, rfl⟩
    · rintro ⟨d, hd⟩
      rcases List.mem_pair.mp hd with rfl | rfl
      · exact ⟨.inl (), rfl⟩
      · exact ⟨.inr (), rfl⟩
  · have hparts : (letter c : Expr UInt8 A) = char c := by
      simp [letter, variants, hc, any]
    have hvariants : variants c = [c] := if_neg hc
    rw [hparts, hvariants]
    refine (renders_char c).of_texts (fun _ => ⟨⟨c, by simp⟩, rfl⟩) ?_
    rintro ⟨d, hd⟩
    cases List.mem_singleton.mp hd
    exact ⟨(), rfl⟩

theorem renders_nocase (word : Bytes) :
    Renders (nocase word : Expr UInt8 A) fun u : { u // Spelled u word } => u.1 := by
  rw [nocase]
  induction word with
  | nil =>
    refine renders_nil.of_texts (fun _ => ⟨⟨[], .nil⟩, rfl⟩) ?_
    rintro ⟨u, hu⟩
    cases hu
    exact ⟨(), rfl⟩
  | cons c word ih =>
    refine ((renders_letter c).cons ih).of_texts ?_ ?_
    · rintro ⟨⟨d, hd⟩, ⟨u, hu⟩⟩
      exact ⟨⟨d :: u, .cons hd hu⟩, rfl⟩
    · rintro ⟨u, hu⟩
      cases hu with
      | @cons d _ u _ hd hu => exact ⟨(⟨d, hd⟩, ⟨u, hu⟩), rfl⟩

variable {σ : Type} [DecidableEq A] {actions : List A} {act : A → List UInt8 → σ → σ}

theorem exec_nocase {u word : Bytes} (h : Spelled u word) {n : ℕ} {k : Item UInt8 A}
    {before rest : Bytes} {s : σ} :
    exec actions act [(nocase word).parts n ++ k] before (u ++ rest) s =
      exec actions act [k] (before ++ u) rest s := by
  rw [nocase, parts_cat]
  induction h generalizing n before with
  | nil => simp [frames]
  | @cons d c u word hd _ ih =>
    have hframes : frames n ((c :: word).map letter) ++ k =
        (letter c).parts n ++ (frames (A := A) n (word.map letter) ++ k) := by
      simp [frames, size_letter]
    have hmoves : ∀ t, t ∈ moves [(letter c).parts n ++ (frames (A := A) n (word.map letter) ++ k)] d ↔
        t = ([], frames n (word.map letter) ++ k) := by
      intro t
      rw [moves, List.flatMap_singleton, next_letter]
      simp [hd]
    rw [hframes, List.cons_append, exec_step hmoves, ih]
    simp

theorem spelled_self (word : Bytes) : Spelled word word := by
  have hself : ∀ c, c ∈ variants c := by
    intro c
    unfold variants
    split_ifs <;> simp
  exact List.forall₂_same.mpr fun c _ => hself c

/-- The first two characters of a keyword do not go with another one. -/
def Differs (word word' : Bytes) : Prop :=
  ∀ d ∈ variants (word.getD 0 0), ∀ d' ∈ variants (word.getD 1 0),
    d ∉ variants (word'.getD 0 0) ∨ d' ∉ variants (word'.getD 1 0)

instance (word word' : Bytes) : Decidable (Differs word word') :=
  inferInstanceAs (Decidable (∀ d ∈ variants (word.getD 0 0), ∀ d' ∈ variants (word.getD 1 0), _ ∨ _))

/-- The keyword has two characters, and the first one is neither a space nor the
closing parenthesis. -/
def IsKeyword (word : Bytes) : Prop :=
  2 ≤ word.length ∧ 0x20 ∉ variants (word.getD 0 0) ∧ 0x29 ∉ variants (word.getD 0 0)

instance (word : Bytes) : Decidable (IsKeyword word) := inferInstanceAs (Decidable (_ ∧ _))

theorem IsKeyword.cons {word : Bytes} (h : IsKeyword word) : ∃ c c' tail, word = c :: c' :: tail := by
  rcases word with _ | ⟨c, _ | ⟨c', tail⟩⟩
  · exact absurd h.1 (by simp)
  · exact absurd h.1 (by simp)
  · exact ⟨c, c', tail, rfl⟩

/-- What is left of a description after its optional spaces: one of the keywords that
can follow, or the end. -/
def Opens (words : List Bytes) (body : Bytes) : Prop :=
  (∃ w, body = 0x29 :: w) ∨
    ∃ word ∈ words, IsKeyword word ∧ ∃ u, Spelled u word ∧ ∃ w, body = u ++ w

theorem Opens.cons {words : List Bytes} {body : Bytes} (h : Opens words body) (word : Bytes) :
    Opens (word :: words) body := by
  rcases h with h | ⟨other, hother, h⟩
  · exact .inl h
  · exact .inr ⟨other, List.mem_cons_of_mem word hother, h⟩

theorem Opens.first {words : List Bytes} {body : Bytes} (h : Opens words body) :
    ∃ c w, body = c :: w ∧ (c = 0x29 ∨ ∃ word ∈ words, c ∈ variants (word.getD 0 0)) := by
  rcases h with ⟨w, rfl⟩ | ⟨word, hword, hkeyword, u, hu, w, rfl⟩
  · exact ⟨0x29, w, rfl, .inl rfl⟩
  · obtain ⟨c, c', tail, rfl⟩ := hkeyword.cons
    cases hu with
    | @cons d _ u _ hd hu => exact ⟨d, u ++ w, rfl, .inr ⟨_, hword, hd⟩⟩

theorem Opens.head {words : List Bytes} {body : Bytes} (h : Opens words body) :
    ∃ c w, body = c :: w ∧ c ≠ 0x20 := by
  rcases h with ⟨w, rfl⟩ | ⟨word, -, ⟨hlength, hspace, -⟩, u, hu, w, rfl⟩
  · exact ⟨0x29, w, rfl, by decide⟩
  · cases hu with
    | nil => exact absurd hlength (by decide)
    | @cons d c u word hd hu =>
      refine ⟨d, u ++ w, rfl, ?_⟩
      rintro rfl
      exact hspace hd

omit [DecidableEq A] in
theorem next_keyword {e : Expr UInt8 A} {c c' : UInt8} {word : Bytes} {n : ℕ} {r k : Item UInt8 A}
    (he : e.parts n = (nocase (c :: c' :: word)).parts n ++ r) (d : UInt8) (t : Transition UInt8 A) :
    t ∈ next d (e.parts n ++ k) ↔
      d ∈ variants c ∧ t = ([], (nocase (c' :: word)).parts n ++ (r ++ k)) := by
  have hframes : e.parts n ++ k = (letter c).parts n ++
      ((nocase (A := A) (c' :: word)).parts n ++ (r ++ k)) := by
    rw [he, nocase, parts_cat, nocase, parts_cat]
    simp [frames, size_letter]
  rw [hframes, next_letter]

theorem exec_absent {e : Expr UInt8 A} (hnull : e.nullable = false) {c c' : UInt8} {word : Bytes} {n : ℕ}
    {r k : Item UInt8 A} (he : e.parts n = (nocase (c :: c' :: word)).parts n ++ r) {words : List Bytes}
    (hdiffers : ∀ other ∈ words, Differs other (c :: c' :: word)) (hword : IsKeyword (c :: c' :: word))
    {body : Bytes} (hbody : Opens words body) {before : Bytes} {s : σ} :
    exec actions act [e.opt.parts n ++ k] before body s = exec actions act [k] before body s := by
  rw [exec_opt hnull]
  rcases hbody with ⟨w, rfl⟩ | ⟨other, hother, hkeyword, u, hu, w, rfl⟩
  · apply exec_right
    rw [List.eq_nil_iff_forall_not_mem]
    exact fun t ht => hword.2.2 ((next_keyword he _ t).mp ht).1
  · obtain ⟨x, y, tail, rfl⟩ := hkeyword.cons
    cases hu with
    | @cons d _ u _ hd hu =>
      cases hu with
      | @cons d' _ u _ hd' hu =>
        apply exec_right₂
        intro t ht
        obtain ⟨hmatch, rfl⟩ := (next_keyword he _ t).mp ht
        refine ⟨rfl, ?_⟩
        have hother' := (hdiffers _ hother d hd d' hd').resolve_left (not_not.mpr hmatch)
        rw [List.eq_nil_iff_forall_not_mem]
        intro t' ht'
        have hletter : (nocase (A := A) (c' :: word)).parts n ++ (r ++ k) =
            (letter c').parts n ++ (frames n (word.map letter) ++ (r ++ k)) := by
          rw [nocase, parts_cat]
          simp [frames, size_letter]
        rw [hletter, next_letter] at ht'
        exact hother' ht'.1

theorem exec_present {e : Expr UInt8 A} (hnull : e.nullable = false) {c d : UInt8} {word : Bytes} {n : ℕ}
    {r k : Item UInt8 A} (he : e.parts n = (nocase (c :: d :: word)).parts n ++ r)
    (hk : ∀ x ∈ variants c, ∀ y ∈ variants d, ∀ t ∈ next x k, t.1 = [] ∧ next y t.2 = [])
    {u : Bytes} (hu : Spelled u (c :: d :: word)) {before rest : Bytes} {s : σ} :
    exec actions act [e.opt.parts n ++ k] before (u ++ rest) s =
      exec actions act [r ++ k] (before ++ u) rest s := by
  have hleft : exec actions act [e.opt.parts n ++ k] before (u ++ rest) s =
      exec actions act [e.parts n ++ k] before (u ++ rest) s := by
    rw [exec_opt hnull]
    cases hu with
    | @cons x _ u _ hx hu =>
      cases hu with
      | @cons y _ u _ hy hu => exact exec_left₂ (hk x hx y hy)
  rw [hleft, he, List.append_assoc, exec_nocase hu]

/-- A token without actions ends where neither it nor anything after it shares characters
with its surroundings. -/
theorem exec_token {e : Expr UInt8 A} (hp : e.Productive) (ha : e.actions = []) {u : Bytes}
    (hu : u ∈ e.language) {n : ℕ} {k : Item UInt8 A} (hk : ∀ c, e.covers c = true → next c k = [])
    {rest : Bytes} (hrest : ∀ c w, rest = c :: w → e.covers c = false) {before : Bytes} {s : σ} :
    exec actions act [e.parts n ++ k] before (u ++ rest) s =
      exec actions act [k] (before ++ u) rest s := by
  apply exec_read hp ha hu
  · intro v c w hw _
    exact hk c (covers_of_mem hu c (by simp [hw]))
  · intro c w hw v hv
    have hcovers := covers_of_mem hv c (by simp)
    rw [hrest c w hw] at hcovers
    cases hcovers

/-- Where the path can read a space, nothing is possible afterwards that was not before. -/
def Absorbs (k : Item UInt8 A) : Prop := ∀ t ∈ next 0x20 k, t.1 = [] ∧ ∀ d, next d t.2 ⊆ next d k

def Quiet (k : Item UInt8 A) : Prop := ∀ c, ∀ t ∈ next c k, t.1 = []

omit [DecidableEq A] in
theorem quiet_of_heads {k : Item UInt8 A} (h : ∀ x ∈ Item.heads k, x.1 = []) : Quiet k := by
  intro c t ht
  obtain ⟨x, hx, hstamps, -⟩ := Item.mem_heads ht
  rw [hstamps, h x hx]

/-- The path cannot begin with a character of the expression, other than the given ones. -/
def Apart {B : Type} (e : Expr UInt8 B) (except : List UInt8) (k : Item UInt8 A) : Prop :=
  ∀ x ∈ Item.heads k, x.2.1 = x.2.2 ∧ x.2.1 ∈ except ∨ ∀ r ∈ e.classes, x.2.2 < r.1 ∨ r.2 < x.2.1

instance {B : Type} (e : Expr UInt8 B) (except : List UInt8) (k : Item UInt8 A) : Decidable (Apart e except k) :=
  inferInstanceAs (Decidable (∀ x ∈ Item.heads k, _))

omit [DecidableEq A] in
theorem Apart.next_eq_nil {B : Type} {e : Expr UInt8 B} {except : List UInt8} {k : Item UInt8 A}
    (h : Apart e except k) {c : UInt8} (hcovers : e.covers c = true) (hexcept : c ∉ except) : next c k = [] := by
  by_contra hne
  obtain ⟨t, ht⟩ := List.exists_mem_of_ne_nil _ hne
  obtain ⟨x, hx, -, hlo, hhi⟩ := Item.mem_heads ht
  obtain ⟨r, hr, hrlo, hrhi⟩ := covers_iff.mp hcovers
  rcases h x hx with ⟨heq, hmem⟩ | hall
  · rw [← heq] at hhi
    exact hexcept (UInt8.le_antisymm hlo hhi ▸ hmem)
  · rcases hall r hr with hlt | hlt
    · exact absurd (UInt8.le_trans hrlo hhi) (UInt8.not_le.mpr hlt)
    · exact absurd (UInt8.le_trans hlo hrhi) (UInt8.not_le.mpr hlt)

omit [DecidableEq A] in
theorem absorbs_of_still {k : Item UInt8 A} (h : next 0x20 k = []) : Absorbs k := by
  simp [Absorbs, h]

omit [DecidableEq A] in
theorem next_whsp (d : UInt8) (n : ℕ) (k : Item UInt8 A) : next d (whsp.parts n ++ k) =
    (if d = 0x20 then [([], whsp.parts n ++ k)] else []) ++ next d k := by
  rw [whsp, SPACE, next_star d n rfl, next_char]

omit [DecidableEq A] in
theorem absorbs_whsp {k : Item UInt8 A} (h : Absorbs k) (n : ℕ) : Absorbs (whsp.parts n ++ k) := by
  have hsub : ∀ d, next d k ⊆ next d (whsp.parts n ++ k) := fun d => next_skip rfl rfl k
  intro t ht
  rw [next_whsp, if_pos rfl] at ht
  rcases List.mem_append.mp ht with ht | ht
  · rw [List.mem_singleton.mp ht]
    exact ⟨rfl, fun d => List.Subset.refl _⟩
  · exact ⟨(h t ht).1, fun d => List.Subset.trans ((h t ht).2 d) (hsub d)⟩

omit [DecidableEq A] in
theorem absorbs_opt {k : Item UInt8 A} (h : Absorbs k) {e : Expr UInt8 A} (hnull : e.nullable = false) {n : ℕ}
    (hstill : next 0x20 (e.parts n ++ k) = []) : Absorbs (e.opt.parts n ++ k) := by
  have hnext : ∀ d, next d (e.opt.parts n ++ k) = next d (e.parts n ++ k) ++ next d k :=
    fun d => next_alt d n hnull k
  intro t ht
  rw [hnext, hstill, List.nil_append] at ht
  refine ⟨(h t ht).1, fun d => ?_⟩
  rw [hnext]
  exact List.subset_append_of_subset_right _ ((h t ht).2 d)

omit [DecidableEq A] in
theorem quiet_whsp {k : Item UInt8 A} (h : Quiet k) (n : ℕ) : Quiet (whsp.parts n ++ k) := by
  intro c t ht
  rw [next_whsp] at ht
  rcases List.mem_append.mp ht with ht | ht
  · obtain ⟨-, ht⟩ := List.mem_ite_nil_right.mp ht
    rw [List.mem_singleton.mp ht]
  · exact h c t ht

theorem exec_spaces {k : Item UInt8 A} (hk : Absorbs k) {n : ℕ} (m : ℕ) {before rest : Bytes}
    (hrest : ∀ w, rest ≠ 0x20 :: w) {s : σ} :
    exec actions act [whsp.parts n ++ k] before (spaces m ++ rest) s =
      exec actions act [k] (before ++ spaces m) rest s := by
  change exec actions act ([(n, k)].map fun k => (star (char 0x20)).parts k.1 ++ k.2) before
    (List.replicate m 0x20 ++ rest) s = _
  rw [exec_pad (List.cons_ne_nil _ _) (by simpa [moves, Absorbs] using hk) m hrest]
  rfl

/-- A leaving action before a path that is quiet. -/
theorem exec_out_quiet {n : ℕ} {a : A} (ha : actions[n]? = some a) {k : Item UInt8 A} (hk : Quiet k)
    {c : UInt8} {before rest : Bytes} {s : σ} :
    exec actions act [(n, .leave .empty a) :: k] before (c :: rest) s =
      exec actions act [k] before (c :: rest) (act a before s) := by
  apply exec_out ha
  intro t ht
  simp [hk c t ht]

omit [DecidableEq A] in
theorem quiet_parts {e : Expr UInt8 A} (ha : e.actions = []) (hnull : e.nullable = false) (n : ℕ)
    (k : Item UInt8 A) : Quiet (e.parts n ++ k) := by
  intro c t ht
  have hnext : e.first c n k = (e.first c n []).map fun t => (t.1, t.2 ++ k) := first_append c e n [] k
  rw [next_parts, next, hnull, if_neg Bool.false_ne_true, List.append_nil, hnext] at ht
  obtain ⟨t', ht', rfl⟩ := List.mem_map.mp ht
  exact (first_silent ha (by simp [Item.Silent]) t' ht').1

/-- A token is delimited by the actions at the position and after it. -/
def Delimits (actions : List A) (start stop : A) (n : ℕ) : Prop :=
  actions[n]? = some start ∧ actions[n + 1]? = some stop

instance (actions : List A) (start stop : A) (n : ℕ) : Decidable (Delimits actions start stop n) :=
  inferInstanceAs (Decidable (_ ∧ _))

variable {ρ : Type} {result : σ → ρ}

theorem exec_delimited {start stop : A} {write : ρ → Bytes → ρ}
    (hcapture : ∀ before u s, u ≠ [] → result (act stop (before ++ u) (act start before s)) = write (result s) u)
    {e : Expr UInt8 A} (hp : e.Productive) (ha : e.actions = []) (hnull : e.nullable = false) {n : ℕ}
    (hn : Delimits actions start stop n) {u : Bytes} (hu : u ∈ e.language) {k : Item UInt8 A} (hquiet : Quiet k)
    (hk : ∀ c, e.covers c = true → next c k = []) (before : Bytes) {d : UInt8} (rest : Bytes)
    (hd : e.covers d = false) (s : σ) :
    ∃ s', result s' = write (result s) u ∧
      exec actions act [(n, leave empty start) :: (e.parts (n + 1) ++ ((n + 1, leave empty stop) :: k))] before
          (u ++ d :: rest) s =
        exec actions act [k] (before ++ u) (d :: rest) s' := by
  have hne : u ≠ [] := by
    rintro rfl
    rw [Expr.nil_mem_language, hnull] at hu
    cases hu
  refine ⟨_, hcapture before u s hne, ?_⟩
  have htoken : ∀ s, exec actions act [e.parts (n + 1) ++ ((n + 1, leave empty stop) :: k)] before
        (u ++ d :: rest) s =
      exec actions act [(n + 1, leave empty stop) :: k] (before ++ u) (d :: rest) s := by
    intro s
    apply exec_token hp ha hu
    · intro c hc
      rw [next_out, hk c hc]
      rfl
    · rintro c w ⟨⟩
      exact hd
  obtain ⟨c, w, hcons⟩ := List.exists_cons_of_ne_nil hne
  have hhead : u ++ d :: rest = c :: (w ++ d :: rest) := by rw [hcons]; rfl
  rw [hhead, exec_out_quiet hn.1 (quiet_parts ha hnull _ _), ← hhead, htoken, exec_out_quiet hn.2 hquiet]

theorem exec_entered {start stop : A} {write : ρ → Bytes → ρ}
    (hcapture : ∀ before u s, u ≠ [] → result (act stop (before ++ u) (act start before s)) = write (result s) u)
    {e : Expr UInt8 A} (hp : e.Productive) (ha : e.actions = []) (hnull : e.nullable = false) {n : ℕ}
    (hn : Delimits actions start stop n) {u : Bytes} (hu : u ∈ e.language) {k : Item UInt8 A}
    (hk : ∀ v c w, u = v ++ c :: w → v ∈ e.language → next c k = []) {d : UInt8}
    (hlater : ∀ t ∈ next d k, ∀ m ∈ t.1, n + 1 < m ∧ actions[m]? ≠ some stop)
    (hd : ∀ v, u ++ d :: v ∉ e.language) (before rest : Bytes) (s : σ) :
    ∃ s', result s' = write (result s) u ∧
      exec actions act [(leave (enter start e) stop).parts n ++ k] before (u ++ d :: rest) s =
        exec actions act [k] (before ++ u) (d :: rest) s' := by
  have hne : u ≠ [] := by
    rintro rfl
    rw [Expr.nil_mem_language, hnull] at hu
    cases hu
  refine ⟨_, hcapture before u s hne, ?_⟩
  have hparts : (leave (enter start e) stop).parts n ++ k =
      (enter start e).parts n ++ ((n + 1, leave empty stop) :: k) := by
    have hsize : (enter start e).size = 1 := by simp [Expr.size, Expr.actions, ha]
    rw [Expr.parts, hsize, List.append_assoc]
    rfl
  have htoken : ∀ s, exec actions act [e.parts (n + 1) ++ ((n + 1, leave empty stop) :: k)] before
        (u ++ d :: rest) s =
      exec actions act [(n + 1, leave empty stop) :: k] (before ++ u) (d :: rest) s := by
    intro s
    apply exec_read hp ha hu
    · intro v c w hw hv
      rw [next_out, hk v c w hw hv]
      rfl
    · rintro c w ⟨⟩ v
      exact hd v
  obtain ⟨c, w, hcons⟩ := List.exists_cons_of_ne_nil hne
  have hhead : u ++ d :: rest = c :: (w ++ d :: rest) := by rw [hcons]; rfl
  rw [hparts, exec_in hnull, hhead, exec_out_quiet hn.1 (quiet_parts ha hnull _ _), ← hhead, htoken,
    exec_out hn.2 hlater]

/-- From a path the machine reads the rest of a description, less the spaces it begins
with, and its last state stands in the given relation to the result at the beginning. -/
def Reads (actions : List A) (act : A → Bytes → σ → σ) (result : σ → ρ) (words : List Bytes)
    (k : Item UInt8 A) (r : Bytes) (Q : ρ → σ → Prop) : Prop :=
  ∃ j body, r = spaces j ++ body ∧ Opens words body ∧
    ∀ before s, ∃ s', exec actions act [k] before body s = some s' ∧ Q (result s) s'

theorem Reads.closing (n : ℕ) (j : ℕ) :
    Reads actions act result [] (frames n [whsp, RPAREN]) (spaces j ++ [0x29])
      fun r s' => result s' = r := by
  refine ⟨j, [0x29], rfl, .inl ⟨[], rfl⟩, fun before s => ⟨s, ?_, rfl⟩⟩
  have hspaces : exec actions act [frames n [whsp, RPAREN]] before (spaces 0 ++ [0x29]) s =
      exec actions act [RPAREN.parts n ++ []] (before ++ spaces 0) [0x29] s :=
    exec_spaces (absorbs_of_still rfl) 0 (by simp)
  rw [RPAREN, exec_char] at hspaces
  exact hspaces

/-- The rest is a word of the expression to be read, and every run on it ends as given. -/
theorem Reads.of_word {words : List Bytes} {e : Expr UInt8 A} {n : ℕ} {body : Bytes} (hbody : body ∈ e.language)
    (hopens : Opens words body) {Q : ρ → σ → Prop}
    (hQ : ∀ before s s', exec actions act [e.parts n] before body s = some s' → Q (result s) s') (j : ℕ) :
    Reads actions act result words (e.parts n) (spaces j ++ body) Q := by
  refine ⟨j, body, rfl, hopens, fun before s => ?_⟩
  obtain ⟨s', hexec⟩ := exec_word hbody n before s
  exact ⟨s', hexec, hQ before s s' hexec⟩

theorem Reads.absent {words : List Bytes} {k : Item UInt8 A} {r : Bytes} {Q : ρ → σ → Prop}
    (h : Reads actions act result words k r Q) {e : Expr UInt8 A} (hnull : e.nullable = false)
    {word : Bytes} {n : ℕ} {k' : Item UInt8 A} (he : e.parts n = (nocase word).parts n ++ k')
    (hdiffers : ∀ other ∈ words, Differs other word) (hword : IsKeyword word) :
    Reads actions act result (word :: words) (e.opt.parts n ++ k) r Q := by
  obtain ⟨j, body, hr, hbody, hexec⟩ := h
  obtain ⟨c, c', tail, rfl⟩ := hword.cons
  refine ⟨j, body, hr, hbody.cons _, fun before s => ?_⟩
  rw [exec_absent hnull he hdiffers hword hbody]
  exact hexec before s

/-- Spaces may be added in front of the rest. -/
theorem Reads.spaces {words : List Bytes} {k : Item UInt8 A} {r : Bytes} {Q : ρ → σ → Prop}
    (h : Reads actions act result words k r Q) (hk : Absorbs k) (n m : ℕ) (before : Bytes) (s : σ) :
    ∃ s', exec actions act [whsp.parts n ++ k] before (spaces m ++ r) s = some s' ∧
      Q (result s) s' := by
  obtain ⟨j, body, rfl, hbody, hexec⟩ := h
  obtain ⟨c, w, rfl, hc⟩ := hbody.head
  rw [spaces_add, exec_spaces hk _ (by simp [hc])]
  exact hexec _ s

theorem Reads.nonempty {words : List Bytes} {k : Item UInt8 A} {r : Bytes} {Q : ρ → σ → Prop}
    (h : Reads actions act result words k r Q) (m : ℕ) : ∃ c w, Parsers.spaces m ++ r = c :: w := by
  obtain ⟨j, body, rfl, hbody, -⟩ := h
  obtain ⟨c, w, rfl, -⟩ := hbody.head
  apply List.exists_cons_of_ne_nil
  simp

theorem Reads.apart {words : List Bytes} {k : Item UInt8 A} {r : Bytes} {Q : ρ → σ → Prop}
    (h : Reads actions act result words k r Q) (hk : Absorbs k) (n m : ℕ) {e : Expr UInt8 A}
    (he : ∀ c, e.covers c = true → next c (whsp.parts n ++ k) = []) (s : σ) :
    ∃ c w, Parsers.spaces m ++ r = c :: w ∧ e.covers c = false := by
  obtain ⟨c, w, hw⟩ := h.nonempty m
  obtain ⟨s', hexec, -⟩ := h.spaces hk n m [] s
  refine ⟨c, w, hw, ?_⟩
  by_contra hcovers
  have hdead := he c (by simpa using hcovers)
  rw [hw, exec_cons, moves, List.flatMap_singleton, hdead, if_pos rfl] at hexec
  cases hexec

theorem Reads.present {words : List Bytes} {k : Item UInt8 A} {r : Bytes} {Q : ρ → σ → Prop}
    (h : Reads actions act result words k r Q) (habsorbs : Absorbs k) {e : Expr UInt8 A}
    (hnull : e.nullable = false) {word : Bytes} {n : ℕ} {k' : Item UInt8 A}
    (he : e.parts n = (nocase word).parts n ++ k')
    (hk : ∀ d ∈ variants (word.getD 0 0), ∀ d' ∈ variants (word.getD 1 0),
      ∀ t ∈ next d k, t.1 = [] ∧ next d' t.2 = [])
    (hword : IsKeyword word) {u : Bytes} (hu : Spelled u word) {v : Bytes} {g : ρ → ρ}
    (j : ℕ) (hclause : ∀ before d rest s, Parsers.spaces j ++ r = d :: rest → ∃ s' m, result s' = g (result s) ∧
      exec actions act [k' ++ k] before (v ++ d :: rest) s =
        exec actions act [whsp.parts m ++ k] (before ++ v) (d :: rest) s') :
    Reads actions act result (word :: words) (e.opt.parts n ++ k)
      (u ++ (v ++ (Parsers.spaces j ++ r))) (Q ∘ g) := by
  obtain ⟨c, c', tail, rfl⟩ := hword.cons
  refine ⟨0, u ++ (v ++ (Parsers.spaces j ++ r)), rfl,
    .inr ⟨_, List.mem_cons_self, hword, u, hu, _, rfl⟩, fun before s => ?_⟩
  rw [exec_present hnull he hk hu]
  obtain ⟨d, rest, hrest⟩ := h.nonempty j
  obtain ⟨s', m, hresult, hexec⟩ := hclause (before ++ u) d rest s hrest
  obtain ⟨s'', hexec', hresult'⟩ := h.spaces habsorbs m j (before ++ u ++ v) s'
  rw [← hrest] at hexec
  exact ⟨s'', hexec.trans hexec', by rw [Function.comp_apply, ← hresult]; exact hresult'⟩

theorem Reads.flag {words : List Bytes} {k : Item UInt8 A} {r : Bytes} {Q : ρ → σ → Prop} {g : ρ → ρ}
    (h : Reads actions act result words k r Q) (habsorbs : Absorbs k) (hquiet : Quiet k) {e : Expr UInt8 A}
    (hnull : e.nullable = false) {word : Bytes} {n : ℕ} {a : A}
    (he : e.parts n = (nocase word).parts n ++ ((n, leave empty a) :: whsp.parts (n + 1)))
    (ha : actions[n]? = some a) (hg : ∀ before s, result (act a before s) = g (result s))
    (hk : ∀ d ∈ variants (word.getD 0 0), ∀ d' ∈ variants (word.getD 1 0),
      ∀ t ∈ next d k, t.1 = [] ∧ next d' t.2 = [])
    (hword : IsKeyword word) {u : Bytes} (hu : Spelled u word) (j : ℕ) :
    Reads actions act result (word :: words) (e.opt.parts n ++ k) (u ++ (Parsers.spaces j ++ r)) (Q ∘ g) := by
  have hclause : ∀ before d rest s, Parsers.spaces j ++ r = d :: rest → ∃ s' m, result s' = g (result s) ∧
      exec actions act [((n, leave empty a) :: whsp.parts (n + 1)) ++ k] before ([] ++ d :: rest) s =
        exec actions act [whsp.parts m ++ k] (before ++ []) (d :: rest) s' := by
    intro before d rest s _
    refine ⟨act a before s, n + 1, hg before s, ?_⟩
    rw [List.append_nil]
    exact exec_out_quiet ha (quiet_whsp hquiet (n + 1))
  exact h.present habsorbs hnull he hk hword hu j hclause

/-- The state after the opening parenthesis and the spaces, numeric OID and spaces behind it. -/
def opening (start oidEnd : A) (k : Item UInt8 A) : Item UInt8 A :=
  LPAREN.parts 0 ++ (whsp.parts 0 ++ ((0, leave empty start) :: (numericoid.parts 1 ++
    ((1, leave empty oidEnd) :: (whsp.parts 2 ++ k)))))

theorem Reads.opening {words : List Bytes} {k : Item UInt8 A} {r : Bytes} {Q : ρ → σ → Prop}
    (h : Reads actions act result words k r Q) (habsorbs : Absorbs k) (hquiet : Quiet k)
    (hdigits : ∀ c, (numericoid : Expr UInt8 A).covers c = true → next c k = []) {start oidEnd : A}
    (hdelimits : Delimits actions start oidEnd 0) {write : ρ → Bytes → ρ}
    (hcapture : ∀ before u s, u ≠ [] → result (act oidEnd (before ++ u) (act start before s)) = write (result s) u)
    {oid : Bytes} (hoid : oid ∈ (numericoid : Expr UInt8 A).language) (m j : ℕ) (before : Bytes) (s : σ) :
    ∃ s', exec actions act [Parsers.opening start oidEnd k] before
          (0x28 :: (Parsers.spaces m ++ (oid ++ (Parsers.spaces j ++ r)))) s = some s' ∧
      Q (write (result s) oid) s' := by
  let number : Item UInt8 A := (0, leave empty start) :: (numericoid.parts 1 ++
    ((1, leave empty oidEnd) :: (whsp.parts 2 ++ k)))
  have hproductive : (numericoid : Expr UInt8 A).Productive :=
    (by decide : (numericoid : Expr UInt8 Empty).Productive)
  have hlast : ∀ c, (numericoid : Expr UInt8 A).covers c = true → next c (whsp.parts 2 ++ k) = [] := by
    intro c hc
    have hother : c ≠ 0x20 := by
      rintro rfl
      cases hc
    rw [next_whsp, if_neg hother, hdigits c hc]
    rfl
  have hstill : next 0x20 number = [] := by
    have hnone : next 0x20 (numericoid.parts 1 ++ ((1, leave empty oidEnd) :: (whsp.parts 2 ++ k))) = [] := by
      rw [next_parts]
      rfl
    rw [next_out, hnone]
    rfl
  have hdigit : ∀ w, oid ++ (Parsers.spaces j ++ r) ≠ 0x20 :: w := by
    intro w hw
    cases oid with
    | nil => rw [Expr.nil_mem_language] at hoid; cases hoid
    | cons c oid =>
      cases hw
      have hcovers := covers_of_mem hoid 0x20 List.mem_cons_self
      cases hcovers
  obtain ⟨d, v, hrest, hcovers⟩ := h.apart habsorbs 2 j hlast s
  obtain ⟨s₁, hresult₁, hexec₁⟩ := exec_delimited hcapture hproductive rfl rfl hdelimits hoid
    (quiet_whsp hquiet 2) hlast (before ++ [0x28] ++ Parsers.spaces m) v hcovers s
  obtain ⟨s₂, hexec₂, hresult₂⟩ := h.spaces habsorbs 2 j (before ++ [0x28] ++ Parsers.spaces m ++ oid) s₁
  refine ⟨s₂, ?_, by rw [← hresult₁]; exact hresult₂⟩
  have hparen : exec actions act [Parsers.opening start oidEnd k] before
        (0x28 :: (Parsers.spaces m ++ (oid ++ (Parsers.spaces j ++ r)))) s =
      exec actions act [whsp.parts 0 ++ number] (before ++ [0x28])
        (Parsers.spaces m ++ (oid ++ (Parsers.spaces j ++ r))) s := exec_char
  rw [hparen, exec_spaces (absorbs_of_still hstill) m hdigit, hrest]
  rw [hrest] at hexec₂
  exact hexec₁.trans hexec₂

abbrev Keyword (word : String) := { u : Bytes // Spelled u (ascii word) }

def labelText {word : String} : Option (Keyword word × ℕ) → Bytes
  | none => []
  | some (u, after) => u.1 ++ (0x3a :: Parsers.spaces after)

omit [DecidableEq A] in
theorem renders_label (word : String) :
    Renders (opt (cat [nocase (ascii word), COLON, whsp]) : Expr UInt8 A)
      fun x : Option (Keyword word × ℕ) => labelText x := by
  refine ((renders_nocase _).cons ((renders_char 0x3a).cons (renders_whsp.cons renders_nil))).opt.of_texts ?_ ?_
  · rintro (_ | ⟨u, -, j, -⟩)
    · exact ⟨none, rfl⟩
    · exact ⟨some (u, j), by simp [labelText]⟩
  · rintro (_ | ⟨u, j⟩)
    · exact ⟨none, rfl⟩
    · exact ⟨some (u, (), j, ()), by simp [labelText]⟩

theorem exec_label {word : String} (hword : IsKeyword (ascii word))
    (hother : 0x28 ∉ variants ((ascii word).getD 0 0)) {e : Expr UInt8 A} (hnull : e.nullable = false)
    (he : e.parts 0 = (nocase (ascii word)).parts 0 ++ (COLON.parts 0 ++ whsp.parts 0))
    (x : Option (Keyword word × ℕ)) (start oidEnd : A) (k : Item UInt8 A) (w : Bytes) (s : σ) : ∃ before,
    exec actions act [e.opt.parts 0 ++ Parsers.opening start oidEnd k] [] (labelText x ++ 0x28 :: w) s =
      exec actions act [Parsers.opening start oidEnd k] before (0x28 :: w) s := by
  have hopening : ∀ d, d ≠ 0x28 → next d (Parsers.opening start oidEnd k) = [] := by
    intro d hd
    exact (next_char d 0 0x28 _).trans (if_neg hd)
  obtain ⟨c, c', tail, hcons⟩ := hword.cons
  rw [hcons] at he hother
  cases x with
  | none =>
    refine ⟨[], ?_⟩
    have hnone : next 0x28 (e.parts 0 ++ Parsers.opening start oidEnd k) = [] := by
      rw [List.eq_nil_iff_forall_not_mem]
      exact fun t ht => hother ((next_keyword he 0x28 t).mp ht).1
    rw [exec_opt hnull]
    exact exec_right hnone
  | some x =>
    obtain ⟨⟨u, hspelled⟩, j⟩ := x
    have hu : Spelled u (c :: c' :: tail) := hcons ▸ hspelled
    refine ⟨[] ++ u ++ [0x3a] ++ Parsers.spaces j, ?_⟩
    have hleft : exec actions act [e.opt.parts 0 ++ Parsers.opening start oidEnd k] []
          (u ++ (0x3a :: (Parsers.spaces j ++ 0x28 :: w))) s =
        exec actions act [e.parts 0 ++ Parsers.opening start oidEnd k] []
          (u ++ (0x3a :: (Parsers.spaces j ++ 0x28 :: w))) s := by
      rw [exec_opt hnull]
      cases hu with
      | @cons d _ u _ hd hu =>
        apply exec_left
        apply hopening
        rintro rfl
        exact hother hd
    have hcolon : ∀ before rest, exec actions act [COLON.parts 0 ++ (whsp.parts 0 ++ Parsers.opening start oidEnd k)]
          before (0x3a :: rest) s =
        exec actions act [whsp.parts 0 ++ Parsers.opening start oidEnd k] (before ++ [0x3a]) rest s :=
      fun before rest => exec_char
    have htext : labelText (some (⟨u, hspelled⟩, j)) ++ 0x28 :: w = u ++ (0x3a :: (Parsers.spaces j ++ 0x28 :: w)) := by
      simp [labelText]
    rw [htext, hleft, he, List.append_assoc, List.append_assoc, exec_nocase hu, hcolon,
      exec_spaces (absorbs_of_still (hopening _ (by decide))) j (by simp)]

end Libdomain.Parsers
