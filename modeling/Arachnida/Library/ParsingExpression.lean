import Mathlib.Tactic
import Mathlib.Data.List.TakeWhile

/-!
Parsing expressions with ordered alternatives, greedy repetitions and actions that run at once.

* `Expression`: expressions over rules.  There is a state that actions change and that counts are
  read from; a failure does not restore it.
* `parse`: what becomes of a text, with a bound on the depth; `Parses`: with some bound.
  `Parses.unique`: the bound does not matter.
* `Parses.seq`, `Parses.alt_right`, `Parses.many_next`, ...: the rules for what an expression does;
  `seq_matched`, `Parses.many_induction`, ...: where a match comes from.
* `Derives`: the parts that a match is made of.  `Derives.text`: what is matched by an expression
  of certain classes and rules has **every property of texts that these have**, if `++` keeps it;
  `Derives.width_le`: it is not shorter than the grammar says.
* `Parses.withState`: **without actions the state does not matter.**
* `IsClass`: expressions that are a class of characters, and what repetitions make of them.
-/

namespace Library

/-- A parsing expression over the rules `R`: for the characters `α`, with a state `σ` and actions
that may throw an `ε`. -/
inductive Expression (R α σ ε : Type) where
  /-- Nothing. -/
  | eps
  /-- A character of a class. -/
  | chr (p : α → Bool)
  | seq (a b : Expression R α σ ε)
  /-- Preferably `a`. -/
  | alt (a b : Expression R α σ ε)
  /-- What `a` matches, unless `b` matches as much. -/
  | diff (a b : Expression R α σ ε)
  /-- As often as it matches. -/
  | many (a : Expression R α σ ε)
  /-- As often as the state says. -/
  | counted (count : σ → ℕ) (a : Expression R α σ ε)
  /-- The action gets what `a` has matched. -/
  | act (a : Expression R α σ ε) (f : σ → List α → Except ε σ)
  | rule (r : R)

/-- What becomes of a text: the rest behind a match, no match, or an exception. -/
inductive Outcome (α σ ε : Type) where
  | matched (rest : List α) (s : σ)
  | failed (s : σ)
  | thrown (e : ε)
  deriving DecidableEq

variable {R α σ ε : Type}

namespace Expression

/-- So often. -/
def times : ℕ → Expression R α σ ε → Expression R α σ ε
  | 0, _ => eps
  | n + 1, a => seq a (times n a)

/-- At least once. -/
def plus (a : Expression R α σ ε) : Expression R α σ ε := seq a (many a)

/-- If it matches. -/
def opt (a : Expression R α σ ε) : Expression R α σ ε := alt a eps

/-- At most so often. -/
def upTo : ℕ → Expression R α σ ε → Expression R α σ ε
  | 0, _ => eps
  | n + 1, a => opt (seq a (upTo n a))

/-- At least `n` times and at most `m` times. -/
def between (n m : ℕ) (a : Expression R α σ ε) : Expression R α σ ε :=
  seq (times n a) (upTo (m - n) a)

/-- The characters of a literal. -/
def str [DecidableEq α] : List α → Expression R α σ ε
  | [] => eps
  | c :: l => seq (chr (· = c)) (str l)

/-- A list of `a`s with `b`s between them. -/
def list (a b : Expression R α σ ε) : Expression R α σ ε := seq a (many (seq b a))

instance : AndThen (Expression R α σ ε) := ⟨fun a b => seq a (b ())⟩

instance : OrElse (Expression R α σ ε) := ⟨fun a b => alt a (b ())⟩

instance : Sub (Expression R α σ ε) := ⟨diff⟩

instance : Mod (Expression R α σ ε) := ⟨list⟩

end Expression

namespace Outcome

/-- What follows behind a match. -/
def onMatch (f : List α → σ → Option (Outcome α σ ε)) : Outcome α σ ε → Option (Outcome α σ ε)
  | matched rest s => f rest s
  | failed s => some (failed s)
  | thrown e => some (thrown e)

/-- What follows if there is no match. -/
def onFail (f : σ → Option (Outcome α σ ε)) : Outcome α σ ε → Option (Outcome α σ ε)
  | matched rest s => some (matched rest s)
  | failed s => f s
  | thrown e => some (thrown e)

/-- The same with another state. -/
def withState (t : σ) : Outcome α σ ε → Outcome α σ ε
  | matched rest _ => matched rest t
  | failed _ => failed t
  | thrown e => thrown e

end Outcome

open Expression Outcome

/-- What becomes of a text, for expressions of a limited depth.  No rest of a text is longer than
the text, so that the shorter rest is behind the longer match. -/
def parse (G : R → Expression R α σ ε) :
    ℕ → Expression R α σ ε → σ → List α → Option (Outcome α σ ε)
  | 0, _, _, _ => none
  | _ + 1, .eps, s, l => some (matched l s)
  | _ + 1, .chr _, s, [] => some (failed s)
  | _ + 1, .chr p, s, c :: l => some (if p c then matched l s else failed s)
  | n + 1, .seq a b, s, l => (parse G n a s l).bind (onMatch fun rest s => parse G n b s rest)
  | n + 1, .alt a b, s, l => (parse G n a s l).bind (onFail fun s => parse G n b s l)
  | n + 1, .diff a b, s, l => (parse G n a s l).bind (onMatch fun rest s =>
      (parse G n b s l).bind fun
        | matched rest' s => some (if rest.length < rest'.length then matched rest s else failed s)
        | failed s => some (matched rest s)
        | thrown e => some (thrown e))
  | n + 1, .many a, s, l => (parse G n a s l).bind fun
      | matched rest s => parse G n (.many a) s rest
      | failed s => some (matched l s)
      | thrown e => some (thrown e)
  | n + 1, .counted count a, s, l => parse G n (times (count s) a) s l
  | n + 1, .act a f, s, l => (parse G n a s l).bind (onMatch fun rest s =>
      match f s (l.take (l.length - rest.length)) with
      | .ok s => some (matched rest s)
      | .error e => some (thrown e))
  | n + 1, .rule r, s, l => parse G n (G r) s l

/-- What becomes of a text. -/
def Parses (G : R → Expression R α σ ε) (e : Expression R α σ ε) (s : σ) (l : List α)
    (o : Outcome α σ ε) : Prop := ∃ n, parse G n e s l = some o

variable {G : R → Expression R α σ ε} {e a b : Expression R α σ ε} {s s' s'' : σ}
  {l m k : List α} {o o' : Outcome α σ ε} {n : ℕ}

/-! ### Bounds -/

lemma parse_seq : parse G (n + 1) (.seq a b) s l
    = (parse G n a s l).bind (onMatch fun rest s => parse G n b s rest) := rfl

lemma parse_alt : parse G (n + 1) (.alt a b) s l
    = (parse G n a s l).bind (onFail fun s => parse G n b s l) := rfl

lemma parse_diff : parse G (n + 1) (.diff a b) s l
    = (parse G n a s l).bind (onMatch fun rest s => (parse G n b s l).bind fun
        | matched rest' s => some (if rest.length < rest'.length then matched rest s else failed s)
        | failed s => some (matched rest s)
        | thrown e => some (thrown e)) := rfl

lemma parse_many : parse G (n + 1) (.many a) s l = (parse G n a s l).bind fun
    | matched rest s => parse G n (.many a) s rest
    | failed s => some (matched l s)
    | thrown e => some (thrown e) := rfl

lemma parse_act {f : σ → List α → Except ε σ} : parse G (n + 1) (.act a f) s l
    = (parse G n a s l).bind (onMatch fun rest s =>
        match f s (l.take (l.length - rest.length)) with
        | .ok s => some (matched rest s)
        | .error e => some (thrown e)) := rfl

/-- A higher bound makes no difference. -/
lemma parse_succ (h : parse G n e s l = some o) : parse G (n + 1) e s l = some o := by
  induction n generalizing e s l o with
  | zero => cases h
  | succ n ih =>
      cases e with
      | eps => exact h
      | chr p => cases l <;> exact h
      | seq a b =>
          obtain ⟨oa, ha, h⟩ := Option.bind_eq_some_iff.mp h
          refine Option.bind_eq_some_iff.mpr ⟨oa, ih ha, ?_⟩
          cases oa with
          | matched rest s => exact ih h
          | failed s => exact h
          | thrown e => exact h
      | alt a b =>
          obtain ⟨oa, ha, h⟩ := Option.bind_eq_some_iff.mp h
          refine Option.bind_eq_some_iff.mpr ⟨oa, ih ha, ?_⟩
          cases oa with
          | matched rest s => exact h
          | failed s => exact ih h
          | thrown e => exact h
      | diff a b =>
          obtain ⟨oa, ha, h⟩ := Option.bind_eq_some_iff.mp h
          refine Option.bind_eq_some_iff.mpr ⟨oa, ih ha, ?_⟩
          cases oa with
          | matched rest s =>
              obtain ⟨ob, hb, h⟩ := Option.bind_eq_some_iff.mp h
              exact Option.bind_eq_some_iff.mpr ⟨ob, ih hb, h⟩
          | failed s => exact h
          | thrown e => exact h
      | many a =>
          obtain ⟨oa, ha, h⟩ := Option.bind_eq_some_iff.mp h
          refine Option.bind_eq_some_iff.mpr ⟨oa, ih ha, ?_⟩
          cases oa with
          | matched rest s => exact ih h
          | failed s => exact h
          | thrown e => exact h
      | counted count a => exact ih (e := times (count s) a) h
      | act a f =>
          obtain ⟨oa, ha, h⟩ := Option.bind_eq_some_iff.mp h
          exact Option.bind_eq_some_iff.mpr ⟨oa, ih ha, h⟩
      | rule r => exact ih (e := G r) h

lemma parse_le {n' : ℕ} (hn : n ≤ n') (h : parse G n e s l = some o) :
    parse G n' e s l = some o := by
  induction n', hn using Nat.le_induction with
  | base => exact h
  | succ n' _ ih => exact parse_succ ih

/-- One bound is enough for two. -/
lemma Parses.both (h : Parses G a s l o) (h' : Parses G b s' m o') :
    ∃ n, parse G n a s l = some o ∧ parse G n b s' m = some o' := by
  obtain ⟨n, hn⟩ := h
  obtain ⟨n', hn'⟩ := h'
  exact ⟨max n n', parse_le (le_max_left n n') hn, parse_le (le_max_right n n') hn'⟩

/-- **A text becomes one thing.** -/
theorem Parses.unique (h : Parses G e s l o) (h' : Parses G e s l o') : o = o' := by
  obtain ⟨n, hn, hn'⟩ := h.both h'
  exact Option.some.inj (hn.symm.trans hn')

/-! ### What the expressions do -/

section Rules

variable {p : α → Bool} {c : α} {r : R} {count : σ → ℕ} {f : σ → List α → Except ε σ}

lemma Parses.eps : Parses G .eps s l (matched l s) := ⟨1, rfl⟩

/-- What a class makes of a text. -/
def ofClass (p : α → Bool) (s : σ) : List α → Outcome α σ ε
  | [] => failed s
  | c :: l => if p c then matched l s else failed s

lemma Parses.chr : Parses G (.chr p) s l (ofClass p s l) := by
  cases l <;> exact ⟨1, rfl⟩

lemma Parses.seq {rest : List α} (ha : Parses G a s l (matched rest s'))
    (hb : Parses G b s' rest o) : Parses G (.seq a b) s l o := by
  obtain ⟨n, hna, hnb⟩ := ha.both hb
  refine ⟨n + 1, ?_⟩
  rw [parse_seq, hna]
  exact hnb

lemma Parses.seq_failed (ha : Parses G a s l (failed s')) :
    Parses G (.seq a b) s l (failed s') := by
  obtain ⟨n, hn⟩ := ha
  exact ⟨n + 1, by rw [parse_seq, hn]; rfl⟩

lemma Parses.alt_left {rest : List α} (ha : Parses G a s l (matched rest s')) :
    Parses G (.alt a b) s l (matched rest s') := by
  obtain ⟨n, hn⟩ := ha
  exact ⟨n + 1, by rw [parse_alt, hn]; rfl⟩

lemma Parses.alt_right (ha : Parses G a s l (failed s')) (hb : Parses G b s' l o) :
    Parses G (.alt a b) s l o := by
  obtain ⟨n, hna, hnb⟩ := ha.both hb
  refine ⟨n + 1, ?_⟩
  rw [parse_alt, hna]
  exact hnb

lemma Parses.diff {rest : List α} (ha : Parses G a s l (matched rest s'))
    (hb : Parses G b s' l (failed s'')) : Parses G (.diff a b) s l (matched rest s'') := by
  obtain ⟨n, hna, hnb⟩ := ha.both hb
  refine ⟨n + 1, ?_⟩
  rw [parse_diff, hna, Option.bind_some, onMatch, hnb]
  rfl

lemma Parses.diff_matched {rest rest' : List α} (ha : Parses G a s l (matched rest s'))
    (hb : Parses G b s' l (matched rest' s'')) (hle : rest'.length ≤ rest.length) :
    Parses G (.diff a b) s l (failed s'') := by
  obtain ⟨n, hna, hnb⟩ := ha.both hb
  refine ⟨n + 1, ?_⟩
  rw [parse_diff, hna, Option.bind_some, onMatch, hnb]
  exact congrArg some (if_neg (by omega))

lemma Parses.diff_failed (ha : Parses G a s l (failed s')) :
    Parses G (.diff a b) s l (failed s') := by
  obtain ⟨n, hn⟩ := ha
  exact ⟨n + 1, by rw [parse_diff, hn]; rfl⟩

lemma Parses.many_stop (ha : Parses G a s l (failed s')) :
    Parses G (.many a) s l (matched l s') := by
  obtain ⟨n, hn⟩ := ha
  exact ⟨n + 1, by rw [parse_many, hn]; rfl⟩

lemma Parses.many_next {rest : List α} (ha : Parses G a s l (matched rest s'))
    (hb : Parses G (.many a) s' rest o) : Parses G (.many a) s l o := by
  obtain ⟨n, hna, hnb⟩ := ha.both hb
  refine ⟨n + 1, ?_⟩
  rw [parse_many, hna]
  exact hnb

lemma Parses.act (ha : Parses G a s (l ++ m) (matched m s')) (hf : f s' l = .ok s'') :
    Parses G (.act a f) s (l ++ m) (matched m s'') := by
  obtain ⟨n, hn⟩ := ha
  have htake : (l ++ m).take ((l ++ m).length - m.length) = l := by
    rw [List.length_append, Nat.add_sub_cancel, List.take_left]
  exact ⟨n + 1, by rw [parse_act, hn, Option.bind_some, onMatch, htake, hf]⟩

lemma Parses.act_failed (ha : Parses G a s l (failed s')) :
    Parses G (.act a f) s l (failed s') := by
  obtain ⟨n, hn⟩ := ha
  exact ⟨n + 1, by rw [parse_act, hn]; rfl⟩

lemma parses_counted : Parses G (.counted count a) s l o ↔ Parses G (times (count s) a) s l o := by
  constructor
  · rintro ⟨_ | n, hn⟩
    · cases hn
    · exact ⟨n, hn⟩
  · rintro ⟨n, hn⟩
    exact ⟨n + 1, hn⟩

lemma parses_rule : Parses G (.rule r) s l o ↔ Parses G (G r) s l o := by
  constructor
  · rintro ⟨_ | n, hn⟩
    · cases hn
    · exact ⟨n, hn⟩
  · rintro ⟨n, hn⟩
    exact ⟨n + 1, hn⟩

/-! ### Where a match comes from -/

lemma eps_matched {rest : List α} (h : Parses G .eps s l (matched rest s')) : rest = l ∧ s' = s :=
  Outcome.matched.inj (h.unique Parses.eps)

lemma ofClass_matched {rest : List α}
    (h : (ofClass p s l : Outcome α σ ε) = matched rest s') :
    s' = s ∧ ∃ c, p c = true ∧ l = c :: rest := by
  cases l with
  | nil => cases h
  | cons c l =>
      rw [ofClass] at h
      split at h
      · next hc =>
          obtain ⟨rfl, rfl⟩ := Outcome.matched.inj h
          exact ⟨rfl, c, hc, rfl⟩
      · cases h

lemma chr_matched {rest : List α} (h : Parses G (.chr p) s l (matched rest s')) :
    s' = s ∧ ∃ c, p c = true ∧ l = c :: rest := ofClass_matched (Parses.chr.unique h)

lemma seq_matched {rest : List α} (h : Parses G (.seq a b) s l (matched rest s')) :
    ∃ m t, Parses G a s l (matched m t) ∧ Parses G b t m (matched rest s') := by
  obtain ⟨_ | n, hn⟩ := h
  · cases hn
  · obtain ⟨oa, ha, hb⟩ := Option.bind_eq_some_iff.mp hn
    cases oa with
    | matched m t => exact ⟨m, t, ⟨n, ha⟩, n, hb⟩
    | failed t => cases hb
    | thrown e => cases hb

lemma alt_matched {rest : List α} (h : Parses G (.alt a b) s l (matched rest s')) :
    Parses G a s l (matched rest s') ∨ ∃ t, Parses G b t l (matched rest s') := by
  obtain ⟨_ | n, hn⟩ := h
  · cases hn
  · obtain ⟨oa, ha, hb⟩ := Option.bind_eq_some_iff.mp hn
    cases oa with
    | matched m t => exact .inl ⟨n, ha.trans hb⟩
    | failed t => exact .inr ⟨t, n, hb⟩
    | thrown e => cases hb

/-- What is left out of a repetition is left out because it does not match. -/
lemma opt_matched {rest : List α} (h : Parses G (opt a) s l (matched rest s')) :
    Parses G a s l (matched rest s') ∨ rest = l :=
  (alt_matched h).imp_right fun ⟨_, hb⟩ => (eps_matched hb).1

/-- **What a repetition matches**, from the end of it. -/
lemma Parses.many_induction {rest : List α} {M : σ → List α → Prop}
    (h : Parses G (.many a) s l (matched rest s'))
    (stop : ∀ t, Parses G a t rest (failed s') → M t rest)
    (next : ∀ t m t' m', Parses G a t m (matched m' t') →
      Parses G (.many a) t' m' (matched rest s') → M t' m' → M t m) : M s l := by
  obtain ⟨n, hn⟩ := h
  induction n generalizing s l with
  | zero => cases hn
  | succ n ih =>
      obtain ⟨oa, ha, hmany⟩ := Option.bind_eq_some_iff.mp hn
      cases oa with
      | matched m t => exact next s l t m ⟨n, ha⟩ ⟨n, hmany⟩ (ih hmany)
      | failed t =>
          obtain ⟨rfl, rfl⟩ := Outcome.matched.inj (Option.some.inj hmany)
          exact stop s ⟨n, ha⟩
      | thrown e => cases hmany

/-- A repetition ends where there is no further match. -/
lemma many_matched {rest : List α} (h : Parses G (.many a) s l (matched rest s')) :
    ∃ t, Parses G a t rest (failed s') :=
  h.many_induction (M := fun _ _ => ∃ t, Parses G a t rest (failed s')) (fun t ht => ⟨t, ht⟩)
    fun _ _ _ _ _ _ ih => ih

end Rules

/-- The parts that a match is made of. -/
inductive Derives (G : R → Expression R α σ ε) : Expression R α σ ε → List α → List α → Prop where
  | eps (l : List α) : Derives G .eps l l
  | chr {p : α → Bool} {c : α} (hc : p c = true) (l : List α) : Derives G (.chr p) (c :: l) l
  | seq {a b : Expression R α σ ε} {l m k : List α} (ha : Derives G a l m) (hb : Derives G b m k) :
      Derives G (.seq a b) l k
  | alt_left {a b : Expression R α σ ε} {l k : List α} (ha : Derives G a l k) :
      Derives G (.alt a b) l k
  | alt_right {a b : Expression R α σ ε} {l k : List α} (hb : Derives G b l k) :
      Derives G (.alt a b) l k
  | diff {a b : Expression R α σ ε} {l k : List α} (ha : Derives G a l k) :
      Derives G (.diff a b) l k
  | many_stop (a : Expression R α σ ε) (l : List α) : Derives G (.many a) l l
  | many_next {a : Expression R α σ ε} {l m k : List α} (ha : Derives G a l m)
      (hmany : Derives G (.many a) m k) : Derives G (.many a) l k
  | counted {count : σ → ℕ} {n : ℕ} {a : Expression R α σ ε} {l k : List α}
      (ha : Derives G (times n a) l k) : Derives G (.counted count a) l k
  | act {a : Expression R α σ ε} {f : σ → List α → Except ε σ} {l k : List α}
      (ha : Derives G a l k) : Derives G (.act a f) l k
  | rule {r : R} {s s' : σ} {l k : List α} (h : Parses G (.rule r) s l (matched k s'))
      (hr : Derives G (G r) l k) : Derives G (.rule r) l k

/-- **A match has its parts.** -/
theorem Parses.derives (h : Parses G e s l (matched k s')) : Derives G e l k := by
  obtain ⟨n, hn⟩ := h
  induction n generalizing e s l k s' with
  | zero => cases hn
  | succ n ih =>
      cases e with
      | eps =>
          obtain ⟨rfl, -⟩ := eps_matched ⟨n + 1, hn⟩
          exact .eps k
      | chr p =>
          obtain ⟨-, c, hc, rfl⟩ := chr_matched ⟨n + 1, hn⟩
          exact .chr hc k
      | seq a b =>
          obtain ⟨oa, ha, hn⟩ := Option.bind_eq_some_iff.mp hn
          cases oa with
          | matched m t => exact .seq (ih ha) (ih hn)
          | failed t => cases hn
          | thrown e => cases hn
      | alt a b =>
          obtain ⟨oa, ha, hn⟩ := Option.bind_eq_some_iff.mp hn
          cases oa with
          | matched m t => exact .alt_left (ih (ha.trans hn))
          | failed t => exact .alt_right (ih hn)
          | thrown e => cases hn
      | diff a b =>
          obtain ⟨oa, ha, hn⟩ := Option.bind_eq_some_iff.mp hn
          cases oa with
          | matched m t =>
              obtain ⟨ob, -, hn⟩ := Option.bind_eq_some_iff.mp hn
              cases ob with
              | matched m' t' =>
                  dsimp only at hn
                  split_ifs at hn
                  · obtain ⟨rfl, -⟩ := Outcome.matched.inj (Option.some.inj hn)
                    exact .diff (ih ha)
                  · cases hn
              | failed t' =>
                  obtain ⟨rfl, -⟩ := Outcome.matched.inj (Option.some.inj hn)
                  exact .diff (ih ha)
              | thrown e => cases hn
          | failed t => cases hn
          | thrown e => cases hn
      | many a =>
          obtain ⟨oa, ha, hn⟩ := Option.bind_eq_some_iff.mp hn
          cases oa with
          | matched m t => exact .many_next (ih ha) (ih hn)
          | failed t =>
              obtain ⟨rfl, -⟩ := Outcome.matched.inj (Option.some.inj hn)
              exact .many_stop a l
          | thrown e => cases hn
      | counted count a => exact .counted (ih hn)
      | act a f =>
          obtain ⟨oa, ha, hn⟩ := Option.bind_eq_some_iff.mp hn
          cases oa with
          | matched m t =>
              rw [onMatch] at hn
              split at hn
              · obtain ⟨rfl, -⟩ := Outcome.matched.inj (Option.some.inj hn)
                exact .act (ih ha)
              · cases hn
          | failed t => cases hn
          | thrown e => cases hn
      | rule r => exact .rule ⟨n + 1, hn⟩ (ih hn)

/-- What is left is the end of the text. -/
lemma Derives.suffix (h : Derives G e l k) : k <:+ l := by
  induction h with
  | eps l => exact List.suffix_refl l
  | chr hc l => exact List.suffix_cons _ l
  | seq _ _ iha ihb => exact ihb.trans iha
  | alt_left _ ih => exact ih
  | alt_right _ ih => exact ih
  | diff _ ih => exact ih
  | many_stop a l => exact List.suffix_refl l
  | many_next _ _ iha ihmany => exact ihmany.trans iha
  | counted _ ih => exact ih
  | act _ ih => exact ih
  | rule _ _ ih => exact ih

lemma Parses.suffix (h : Parses G e s l (matched k s')) : k <:+ l := h.derives.suffix

/-- A repetition has a first match, unless it matches nothing. -/
lemma many_first {rest : List α} (h : Parses G (.many a) s l (matched rest s')) :
    rest = l ∨ ∃ m t, Parses G a s l (matched m t) :=
  h.many_induction (M := fun t m => rest = m ∨ ∃ m' t', Parses G a t m (matched m' t'))
    (fun _ _ => .inl rfl) fun _ _ t' m' ha _ _ => .inr ⟨m', t', ha⟩

/-- And a last one. -/
lemma many_last {rest : List α} (h : Parses G (.many a) s l (matched rest s')) :
    rest = l ∨ ∃ t m t', m <:+ l ∧ Parses G a t m (matched rest t') := by
  refine h.many_induction (M := fun _ m => rest = m ∨ ∃ t m' t', m' <:+ m ∧
    Parses G a t m' (matched rest t')) (fun _ _ => .inl rfl) fun t m t' m' ha _ ih => ?_
  rcases ih with rfl | ⟨u, k, u', hsuffix, hlast⟩
  · exact .inr ⟨t, m, t', List.suffix_refl m, ha⟩
  · exact .inr ⟨u, k, u', hsuffix.trans ha.suffix, hlast⟩

/-! ### Expressions of certain classes and rules -/

namespace Expression

/-- An expression of certain classes and rules, with actions and counts or without. -/
def within (classes : (α → Bool) → Bool) (rules : R → Bool) (stateful : Bool) :
    Expression R α σ ε → Bool
  | eps => true
  | chr p => classes p
  | seq a b => within classes rules stateful a && within classes rules stateful b
  | alt a b => within classes rules stateful a && within classes rules stateful b
  | diff a b => within classes rules stateful a && within classes rules stateful b
  | many a => within classes rules stateful a
  | counted _ a => stateful && within classes rules stateful a
  | act a _ => stateful && within classes rules stateful a
  | rule r => rules r

lemma within_times {classes : (α → Bool) → Bool} {rules : R → Bool} {stateful : Bool}
    (h : a.within classes rules stateful = true) (n : ℕ) :
    (times n a).within classes rules stateful = true := by
  induction n with
  | zero => rfl
  | succ n ih => rw [times, within, h, ih, Bool.and_self]

end Expression

section Within

variable {classes : (α → Bool) → Bool} {rules : R → Bool} {stateful : Bool}

/-- **What is matched** has every property of texts that the characters and the rules have. -/
theorem Derives.text {P : List α → Prop} (hnil : P [])
    (happend : ∀ t t', P t → P t' → P (t ++ t'))
    (hclasses : ∀ p, classes p = true → ∀ c, p c = true → P [c])
    (hrules : ∀ r, rules r = true → (G r).within classes rules stateful = true ∨
      ∀ s l k s', Parses G (.rule r) s l (matched k s') → ∃ t, P t ∧ l = t ++ k)
    (h : Derives G e l k) (he : e.within classes rules stateful = true) :
    ∃ t, P t ∧ l = t ++ k := by
  -- two matches, one behind the other
  have hboth : ∀ {l m k : List α}, (∃ t, P t ∧ l = t ++ m) → (∃ t, P t ∧ m = t ++ k) →
      ∃ t, P t ∧ l = t ++ k := by
    rintro l m k ⟨t, ht, rfl⟩ ⟨t', ht', rfl⟩
    exact ⟨t ++ t', happend t t' ht ht', (List.append_assoc _ _ _).symm⟩
  induction h with
  | eps l => exact ⟨[], hnil, rfl⟩
  | @chr p c hc l => exact ⟨[c], hclasses p he c hc, rfl⟩
  | seq _ _ iha ihb =>
      obtain ⟨ha, hb⟩ := Bool.and_eq_true_iff.mp he
      exact hboth (iha ha) (ihb hb)
  | alt_left _ ih => exact ih (Bool.and_eq_true_iff.mp he).1
  | alt_right _ ih => exact ih (Bool.and_eq_true_iff.mp he).2
  | diff _ ih => exact ih (Bool.and_eq_true_iff.mp he).1
  | many_stop a l => exact ⟨[], hnil, rfl⟩
  | many_next _ _ iha ihmany => exact hboth (iha he) (ihmany he)
  | counted _ ih => exact ih (within_times (Bool.and_eq_true_iff.mp he).2 _)
  | act _ ih => exact ih (Bool.and_eq_true_iff.mp he).2
  | @rule r s s' l k h _ ih =>
      rcases hrules r he with hr | hr
      · exact ih hr
      · exact hr s l k s' h

/-- **Without actions** the state makes no difference. -/
theorem parse_withState (hrules : ∀ r, rules r = true → (G r).within classes rules false = true)
    (he : e.within classes rules false = true) (s t : σ) (l : List α) (n : ℕ) :
    parse G n e t l = (parse G n e s l).map (withState t) := by
  induction n generalizing e s t l with
  | zero => rfl
  | succ n ih =>
      cases e with
      | eps => rfl
      | chr p =>
          cases l with
          | nil => rfl
          | cons c l =>
              change some _ = some _
              split_ifs <;> rfl
      | seq a b =>
          obtain ⟨ha, hb⟩ := Bool.and_eq_true_iff.mp he
          rw [parse_seq, parse_seq, ih ha s t l]
          rcases parse G n a s l with _ | ⟨m, s'⟩ | s' | e
          · rfl
          · exact ih hb s' t m
          · rfl
          · rfl
      | alt a b =>
          obtain ⟨ha, hb⟩ := Bool.and_eq_true_iff.mp he
          rw [parse_alt, parse_alt, ih ha s t l]
          rcases parse G n a s l with _ | ⟨m, s'⟩ | s' | e
          · rfl
          · rfl
          · exact ih hb s' t l
          · rfl
      | diff a b =>
          obtain ⟨ha, hb⟩ := Bool.and_eq_true_iff.mp he
          rw [parse_diff, parse_diff, ih ha s t l]
          rcases parse G n a s l with _ | ⟨m, s'⟩ | s' | e
          · rfl
          · simp only [Option.map_some, Option.bind_some, withState, onMatch]
            rw [ih hb s' t l]
            rcases parse G n b s' l with _ | ⟨m', s''⟩ | s'' | e
            · rfl
            · change some _ = some _
              split_ifs <;> rfl
            · rfl
            · rfl
          · rfl
          · rfl
      | many a =>
          rw [parse_many, parse_many, ih (e := a) he s t l]
          rcases parse G n a s l with _ | ⟨m, s'⟩ | s' | e
          · rfl
          · exact ih he s' t m
          · rfl
          · rfl
      | counted count a => cases he
      | act a f => cases he
      | rule r => exact ih (hrules r he) s t l

/-- What is read without actions is read so in every state. -/
theorem Parses.withState (hrules : ∀ r, rules r = true → (G r).within classes rules false = true)
    (he : e.within classes rules false = true) (h : Parses G e s l o) (t : σ) :
    Parses G e t l (o.withState t) := by
  obtain ⟨n, hn⟩ := h
  exact ⟨n, by rw [parse_withState hrules he s t l n, hn]; rfl⟩

end Within

/-! ### The least width -/

namespace Expression

/-- At least so many characters are matched, if it is so for the rules. -/
def width (w : R → ℕ) : Expression R α σ ε → ℕ
  | eps => 0
  | chr _ => 1
  | seq a b => width w a + width w b
  | alt a b => min (width w a) (width w b)
  | diff a _ => width w a
  | many _ => 0
  | counted _ _ => 0
  | act a _ => width w a
  | rule r => w r

end Expression

/-- **What is matched is not shorter** than the grammar says. -/
theorem Derives.width_le {w : R → ℕ} (hw : ∀ r, w r ≤ (G r).width w) (h : Derives G e l k) :
    e.width w + k.length ≤ l.length := by
  induction h with
  | eps l => rw [width, Nat.zero_add]
  | chr hc l => rw [width, List.length_cons, Nat.add_comm]
  | seq _ _ iha ihb => rw [width]; omega
  | alt_left _ ih => rw [width]; omega
  | alt_right _ ih => rw [width]; omega
  | diff _ ih => exact ih
  | many_stop a l => rw [width, Nat.zero_add]
  | many_next ha hmany _ _ =>
      have hsuffix := (hmany.suffix.trans ha.suffix).length_le
      rw [width]
      omega
  | counted ha _ =>
      have hsuffix := ha.suffix.length_le
      rw [width]
      omega
  | act _ ih => exact ih
  | @rule r s s' l k _ _ ih => exact (Nat.add_le_add_right (hw r) _).trans ih

/-! ### Classes of characters -/

/-- An expression that is a class of characters. -/
def IsClass (G : R → Expression R α σ ε) (e : Expression R α σ ε) (p : α → Bool) : Prop :=
  ∀ s l, Parses G e s l (ofClass p s l)

namespace IsClass

variable {p q : α → Bool}

lemma chr : IsClass G (.chr p) p := fun _ _ => Parses.chr

lemma rule {r : R} (h : IsClass G (G r) p) : IsClass G (.rule r) p :=
  fun s l => parses_rule.mpr (h s l)

/-- A character of the class is matched. -/
lemma takes (h : IsClass G e p) {c : α} (hc : p c = true) (s : σ) (l : List α) :
    Parses G e s (c :: l) (matched l s) := by
  have hparse := h s (c :: l)
  rwa [ofClass, if_pos hc] at hparse

/-- Nothing else is. -/
lemma fails (h : IsClass G e p) (hl : ∀ c ∈ l.head?, p c = false) (s : σ) :
    Parses G e s l (failed s) := by
  have hparse := h s l
  cases l with
  | nil => exact hparse
  | cons c l =>
      have hc : ¬ p c = true := Bool.eq_false_iff.mp (hl c rfl)
      rwa [ofClass, if_neg hc] at hparse

/-- What is matched is a character of the class. -/
lemma taken (h : IsClass G e p) {k : List α} (hmatched : Parses G e s l (matched k s')) :
    ∃ c, p c = true ∧ l = c :: k := (ofClass_matched (hmatched.unique (h s l)).symm).2

/-- By cases on the next character. -/
lemma of_cases (hmatch : ∀ c, p c = true → ∀ s l, Parses G e s (c :: l) (matched l s))
    (hfail : ∀ l, (∀ c ∈ l.head?, p c = false) → ∀ s, Parses G e s l (failed s)) :
    IsClass G e p := by
  intro s l
  cases l with
  | nil => exact hfail [] (fun c hc => by cases hc) s
  | cons c l =>
      rw [ofClass]
      split_ifs with hc
      · exact hmatch c hc s l
      · refine hfail (c :: l) (fun d hd => ?_) s
        obtain rfl := Option.some.inj hd
        exact Bool.eq_false_iff.mpr hc

lemma alt (ha : IsClass G a p) (hb : IsClass G b q) : IsClass G (.alt a b) fun c => p c || q c := by
  refine of_cases (fun c hc s l => ?_) fun l hl s => ?_
  · by_cases hp : p c = true
    · exact (ha.takes hp s l).alt_left
    · have hq : q c = true := (Bool.or_eq_true_iff.mp hc).resolve_left hp
      exact (ha.fails (fun d hd => by
        obtain rfl := Option.some.inj hd
        exact Bool.eq_false_iff.mpr hp) s).alt_right (hb.takes hq s l)
  · exact (ha.fails (fun c hc => (Bool.or_eq_false_iff.mp (hl c hc)).1) s).alt_right
      (hb.fails (fun c hc => (Bool.or_eq_false_iff.mp (hl c hc)).2) s)

lemma diff (ha : IsClass G a p) (hb : IsClass G b q) :
    IsClass G (.diff a b) fun c => p c && !q c := by
  refine of_cases (fun c hc s l => ?_) fun l hl s => ?_
  · obtain ⟨hp, hq⟩ := Bool.and_eq_true_iff.mp hc
    refine (ha.takes hp s l).diff (hb.fails (fun d hd => ?_) s)
    obtain rfl := Option.some.inj hd
    exact (Bool.not_eq_true' (q c)).mp hq
  · by_cases hp : ∃ c ∈ l.head?, p c = true
    · obtain ⟨c, hc, hp⟩ := hp
      cases l with
      | nil => cases hc
      | cons d l =>
          obtain rfl := Option.some.inj hc
          have hq := hl d hc
          rw [hp, Bool.true_and, Bool.not_eq_false'] at hq
          exact (ha.takes hp s l).diff_matched (hb.takes hq s l) le_rfl
    · push Not at hp
      exact (ha.fails (fun c hc => Bool.eq_false_iff.mpr (hp c hc)) s).diff_failed

/-- A repetition of a class takes all of it. -/
lemma many (h : IsClass G e p) {t : List α} (ht : ∀ c ∈ t, p c = true)
    (hl : ∀ c ∈ l.head?, p c = false) (s : σ) : Parses G (.many e) s (t ++ l) (matched l s) := by
  induction t with
  | nil => exact (h.fails hl s).many_stop
  | cons c t ih =>
      exact (h.takes (ht c (by simp)) s (t ++ l)).many_next (ih fun d hd => ht d (by simp [hd]))

lemma plus (h : IsClass G e p) {t : List α} (hne : t ≠ []) (ht : ∀ c ∈ t, p c = true)
    (hl : ∀ c ∈ l.head?, p c = false) (s : σ) :
    Parses G (Expression.plus e) s (t ++ l) (matched l s) := by
  cases t with
  | nil => exact absurd rfl hne
  | cons c t =>
      exact (h.takes (ht c (by simp)) s (t ++ l)).seq
        (h.many (fun d hd => ht d (by simp [hd])) hl s)

lemma times (h : IsClass G e p) {t : List α} (ht : ∀ c ∈ t, p c = true) (s : σ) (l : List α) :
    Parses G (Expression.times t.length e) s (t ++ l) (matched l s) := by
  induction t with
  | nil => exact Parses.eps
  | cons c t ih =>
      exact (h.takes (ht c (by simp)) s (t ++ l)).seq (ih fun d hd => ht d (by simp [hd]))

/-- What a repetition of a class has matched. -/
lemma plus_matched (h : IsClass G e p) {k : List α}
    (hplus : Parses G (Expression.plus e) s l (matched k s')) :
    ∃ t ≠ [], (∀ c ∈ t, p c = true) ∧ l = t ++ k := by
  have htake : ∀ c ∈ l.takeWhile p, p c = true := fun c hc => List.mem_takeWhile_imp hc
  have hdrop : ∀ c ∈ (l.dropWhile p).head?, p c = false := by
    intro c hc
    have hhead := List.head?_dropWhile_not p l
    rw [Option.mem_def.mp hc] at hhead
    exact hhead
  have hl : l = l.takeWhile p ++ l.dropWhile p := List.takeWhile_append_dropWhile.symm
  by_cases hne : l.takeWhile p = []
  · rw [hne, List.nil_append] at hl
    rw [← hl] at hdrop
    cases hplus.unique (h.fails hdrop s).seq_failed
  · have hparse := h.plus hne htake hdrop s
    rw [← hl] at hparse
    obtain ⟨rfl, -⟩ := Outcome.matched.inj (hplus.unique hparse)
    exact ⟨l.takeWhile p, hne, htake, hl⟩

end IsClass

end Library
