import Arachnida.Library.ParsingExpression

/-!
Which parsing expressions come to an end.

* `Halts`: something becomes of the text.
* `halts_seq`, `halts_alt`, `halts_many`: when that is so, by the parts of the expression.
* `Expression.wellFounded`: no rule comes back to itself in front of a character, and what is
  repeated matches at least one.
* `halts_of_wellFounded`: **every text comes to an end** with such rules.
* `NeverFails`, `NeverFails.not_halts`: **a repetition of what never fails comes to no end.**
-/

namespace Library

open Expression Outcome

variable {R α σ ε : Type} {G : R → Expression R α σ ε} {e a b : Expression R α σ ε} {s s' : σ}
  {l m k : List α} {n : ℕ}

/-- Something becomes of a text. -/
def Halts (G : R → Expression R α σ ε) (e : Expression R α σ ε) (s : σ) (l : List α) : Prop :=
  ∃ o, Parses G e s l o

/-! ### By the parts -/

section Parts

lemma halts_seq : Halts G (.seq a b) s l ↔
    Halts G a s l ∧ ∀ m t, Parses G a s l (matched m t) → Halts G b t m := by
  constructor
  · rintro ⟨o, _ | n, hn⟩
    · cases hn
    · obtain ⟨oa, ha, hn⟩ := Option.bind_eq_some_iff.mp hn
      refine ⟨⟨oa, n, ha⟩, fun m t hm => ?_⟩
      obtain rfl := hm.unique ⟨n, ha⟩
      exact ⟨o, n, hn⟩
  · rintro ⟨⟨oa, ha⟩, hb⟩
    cases oa with
    | matched m t =>
        obtain ⟨o, ho⟩ := hb m t ha
        exact ⟨o, ha.seq ho⟩
    | failed t => exact ⟨_, ha.seq_failed⟩
    | thrown x =>
        obtain ⟨n, hn⟩ := ha
        exact ⟨thrown x, n + 1, by rw [parse_seq, hn]; rfl⟩

lemma halts_alt : Halts G (.alt a b) s l ↔
    Halts G a s l ∧ ∀ t, Parses G a s l (failed t) → Halts G b t l := by
  constructor
  · rintro ⟨o, _ | n, hn⟩
    · cases hn
    · obtain ⟨oa, ha, hn⟩ := Option.bind_eq_some_iff.mp hn
      refine ⟨⟨oa, n, ha⟩, fun t ht => ?_⟩
      obtain rfl := ht.unique ⟨n, ha⟩
      exact ⟨o, n, hn⟩
  · rintro ⟨⟨oa, ha⟩, hb⟩
    cases oa with
    | matched m t => exact ⟨_, ha.alt_left⟩
    | failed t =>
        obtain ⟨o, ho⟩ := hb t ha
        exact ⟨o, ha.alt_right ho⟩
    | thrown x =>
        obtain ⟨n, hn⟩ := ha
        exact ⟨thrown x, n + 1, by rw [parse_alt, hn]; rfl⟩

lemma Halts.diff (ha : Halts G a s l) (hb : ∀ t, Halts G b t l) : Halts G (.diff a b) s l := by
  obtain ⟨oa, ha⟩ := ha
  cases oa with
  | matched m t =>
      obtain ⟨ob, hb⟩ := hb t
      obtain ⟨n, hna, hnb⟩ := ha.both hb
      cases ob with
      | matched m' t' =>
          exact ⟨if m.length < m'.length then matched m t' else failed t', n + 1, by
            rw [parse_diff, hna, Option.bind_some, onMatch, hnb]
            rfl⟩
      | failed t' => exact ⟨_, ha.diff hb⟩
      | thrown x =>
          exact ⟨thrown x, n + 1, by
            rw [parse_diff, hna, Option.bind_some, onMatch, hnb]
            rfl⟩
  | failed t => exact ⟨_, ha.diff_failed⟩
  | thrown x =>
      obtain ⟨n, hn⟩ := ha
      exact ⟨thrown x, n + 1, by rw [parse_diff, hn]; rfl⟩

lemma Halts.act {f : σ → List α → Except ε σ} (ha : Halts G a s l) : Halts G (.act a f) s l := by
  obtain ⟨oa, n, hn⟩ := ha
  cases oa with
  | matched m t =>
      cases hf : f t (l.take (l.length - m.length)) with
      | ok t' => exact ⟨matched m t', n + 1, by rw [parse_act, hn, Option.bind_some, onMatch, hf]⟩
      | error x => exact ⟨thrown x, n + 1, by rw [parse_act, hn, Option.bind_some, onMatch, hf]⟩
  | failed t => exact ⟨failed t, n + 1, by rw [parse_act, hn]; rfl⟩
  | thrown x => exact ⟨thrown x, n + 1, by rw [parse_act, hn]; rfl⟩

lemma halts_rule {r : R} : Halts G (.rule r) s l ↔ Halts G (G r) s l :=
  exists_congr fun _ => parses_rule

lemma halts_counted {count : σ → ℕ} :
    Halts G (.counted count a) s l ↔ Halts G (times (count s) a) s l :=
  exists_congr fun _ => parses_counted

lemma halts_many_step : Halts G (.many a) s l ↔
    Halts G a s l ∧ ∀ m t, Parses G a s l (matched m t) → Halts G (.many a) t m := by
  constructor
  · rintro ⟨o, _ | n, hn⟩
    · cases hn
    · obtain ⟨oa, ha, hn⟩ := Option.bind_eq_some_iff.mp hn
      refine ⟨⟨oa, n, ha⟩, fun m t hm => ?_⟩
      obtain rfl := hm.unique ⟨n, ha⟩
      exact ⟨o, n, hn⟩
  · rintro ⟨⟨oa, ha⟩, hmany⟩
    cases oa with
    | matched m t =>
        obtain ⟨o, ho⟩ := hmany m t ha
        exact ⟨o, ha.many_next ho⟩
    | failed t => exact ⟨_, ha.many_stop⟩
    | thrown x =>
        obtain ⟨n, hn⟩ := ha
        exact ⟨thrown x, n + 1, by rw [parse_many, hn]; rfl⟩

/-- Whatever is matched is shorter than the text. -/
def Consumes (G : R → Expression R α σ ε) (a : Expression R α σ ε) : Prop :=
  ∀ s l m t, Parses G a s l (matched m t) → m.length < l.length

lemma consumes_of_width {w : R → ℕ} (hw : ∀ r, w r ≤ (G r).width w) (ha : 0 < a.width w) :
    Consumes G a := by
  intro s l m t h
  have hwidth := h.derives.width_le hw
  omega

/-- **A repetition comes to an end** exactly when what is repeated does, however often it has been
matched. -/
theorem halts_many (ha : Consumes G a) : Halts G (.many a) s l ↔
    ∀ n m t, Parses G (times n a) s l (matched m t) → Halts G a t m := by
  constructor
  · intro h n
    induction n generalizing s l with
    | zero =>
        intro m t hm
        obtain ⟨rfl, rfl⟩ := eps_matched hm
        exact (halts_many_step.mp h).1
    | succ n ih =>
        intro m t hm
        obtain ⟨m', t', hfirst, hrest⟩ := seq_matched hm
        exact ih ((halts_many_step.mp h).2 m' t' hfirst) m t hrest
  · intro h
    induction hlength : l.length using Nat.strong_induction_on generalizing s l with
    | _ length ih =>
        subst hlength
        refine halts_many_step.mpr ⟨h 0 l s Parses.eps, fun m t hm => ?_⟩
        exact ih m.length (ha s l m t hm) (fun n m' t' hm' => h (n + 1) m' t' (hm.seq hm')) rfl

end Parts

/-! ### Rules that come to an end -/

namespace Expression

/-- No rule but those of `front` in front of a character, no rule but those of `later` behind one,
and every repetition is one of a character at least. -/
def wellFounded (w : R → ℕ) (later front : R → Bool) : Expression R α σ ε → Bool
  | eps => true
  | chr _ => true
  | seq a b => wellFounded w later front a &&
      wellFounded w later (if width w a = 0 then front else later) b
  | alt a b => wellFounded w later front a && wellFounded w later front b
  | diff a b => wellFounded w later front a && wellFounded w later front b
  | many a => wellFounded w later front a && 0 < width w a
  | counted _ a => wellFounded w later front a
  | act a _ => wellFounded w later front a
  | rule r => front r

end Expression

section WellFounded

variable {w : R → ℕ} {later front front' : R → Bool}

lemma wellFounded_mono (hfront : ∀ r, front r = true → front' r = true)
    (h : e.wellFounded w later front = true) : e.wellFounded w later front' = true := by
  induction e generalizing front front' with
  | eps => rfl
  | chr p => rfl
  | seq a b iha ihb =>
      obtain ⟨ha, hb⟩ := Bool.and_eq_true_iff.mp h
      refine Bool.and_eq_true_iff.mpr ⟨iha hfront ha, ihb ?_ hb⟩
      intro r hr
      split_ifs at hr ⊢
      · exact hfront r hr
      · exact hr
  | alt a b iha ihb =>
      obtain ⟨ha, hb⟩ := Bool.and_eq_true_iff.mp h
      exact Bool.and_eq_true_iff.mpr ⟨iha hfront ha, ihb hfront hb⟩
  | diff a b iha ihb =>
      obtain ⟨ha, hb⟩ := Bool.and_eq_true_iff.mp h
      exact Bool.and_eq_true_iff.mpr ⟨iha hfront ha, ihb hfront hb⟩
  | many a iha =>
      obtain ⟨ha, hwidth⟩ := Bool.and_eq_true_iff.mp h
      exact Bool.and_eq_true_iff.mpr ⟨iha hfront ha, hwidth⟩
  | counted count a iha => exact iha hfront h
  | act a f iha => exact iha hfront h
  | rule r => exact hfront r h

lemma wellFounded_times (h : e.wellFounded w later front = true)
    (hlater : e.wellFounded w later later = true) (n : ℕ) :
    (times n e).wellFounded w later front = true ∧
      (times n e).wellFounded w later later = true := by
  induction n with
  | zero => exact ⟨rfl, rfl⟩
  | succ n ih =>
      refine ⟨Bool.and_eq_true_iff.mpr ⟨h, ?_⟩, Bool.and_eq_true_iff.mpr ⟨hlater, ?_⟩⟩
      · split_ifs
        · exact ih.1
        · exact ih.2
      · rw [ite_self]
        exact ih.2

/-- A text comes to an end if it does for the rules in front of its first character, and every
shorter text does. -/
lemma halts_of_front (hw : ∀ r, w r ≤ (G r).width w)
    (hfront : ∀ r, front r = true → later r = true)
    (hrules : ∀ r, front r = true → ∀ s, Halts G (.rule r) s l)
    (hshort : ∀ m : List α, m.length < l.length → ∀ e : Expression R α σ ε,
      e.wellFounded w later later = true → ∀ s, Halts G e s m)
    (he : e.wellFounded w later front = true) (s : σ) : Halts G e s l := by
  -- what follows behind a match, that may have matched nothing
  have hbehind : ∀ {a b : Expression R α σ ε} {s t : σ} {m : List α},
      Parses G a s l (matched m t) → (∀ t, Halts G b t l) →
      b.wellFounded w later later = true → Halts G b t m := by
    intro a b s t m hm hl hb
    rcases hm.suffix.length_le.lt_or_eq with hlt | heq
    · exact hshort m hlt b hb t
    · obtain rfl := hm.suffix.eq_of_length heq
      exact hl t
  induction e generalizing s with
  | eps => exact ⟨_, Parses.eps⟩
  | chr p => exact ⟨_, Parses.chr⟩
  | seq a b iha ihb =>
      obtain ⟨ha, hb⟩ := Bool.and_eq_true_iff.mp he
      refine halts_seq.mpr ⟨iha ha s, fun m t hm => ?_⟩
      by_cases hzero : a.width w = 0
      · rw [if_pos hzero] at hb
        exact hbehind hm (ihb hb) (wellFounded_mono hfront hb)
      · rw [if_neg hzero] at hb
        exact hshort m (consumes_of_width hw (Nat.pos_of_ne_zero hzero) s l m t hm) b hb t
  | alt a b iha ihb =>
      obtain ⟨ha, hb⟩ := Bool.and_eq_true_iff.mp he
      exact halts_alt.mpr ⟨iha ha s, fun t _ => ihb hb t⟩
  | diff a b iha ihb =>
      obtain ⟨ha, hb⟩ := Bool.and_eq_true_iff.mp he
      exact (iha ha s).diff (ihb hb)
  | many a iha =>
      obtain ⟨ha, hwidth⟩ := Bool.and_eq_true_iff.mp he
      refine halts_many_step.mpr ⟨iha ha s, fun m t hm => ?_⟩
      have hlt := consumes_of_width hw (of_decide_eq_true hwidth) s l m t hm
      exact hshort m hlt (.many a) (wellFounded_mono hfront he) t
  | counted count a iha =>
      have htimes := wellFounded_times (e := a) he (wellFounded_mono hfront he)
      have hends : ∀ n s, Halts G (times n a) s l := by
        intro n
        induction n with
        | zero => exact fun s => ⟨_, Parses.eps⟩
        | succ n ih =>
            exact fun s => halts_seq.mpr ⟨iha he s, fun m t hm => hbehind hm ih (htimes n).2⟩
      exact halts_counted.mpr (hends (count s) s)
  | act a f iha => exact (iha he s).act
  | rule r => exact hrules r he s

/-- **Every text comes to an end**, with rules that come to none but lower ones in front of a
character. -/
theorem halts_of_wellFounded {rank : R → ℕ} (hw : ∀ r, w r ≤ (G r).width w)
    (hrules : ∀ r, later r = true →
      (G r).wellFounded w later (fun r' => later r' && rank r' < rank r) = true)
    (he : e.wellFounded w later later = true) (s : σ) (l : List α) : Halts G e s l := by
  induction hlength : l.length using Nat.strong_induction_on generalizing e s l with
  | _ length ihl =>
      subst hlength
      have hshort : ∀ m : List α, m.length < l.length → ∀ e : Expression R α σ ε,
          e.wellFounded w later later = true → ∀ s, Halts G e s m :=
        fun m hm e he s => ihl m.length hm he s m rfl
      refine halts_of_front hw (fun _ hr => hr) (fun r hr s => ?_) hshort he s
      -- the rules, by their rank
      induction hrank : rank r using Nat.strong_induction_on generalizing r s with
      | _ n ihr =>
          subst hrank
          refine halts_rule.mpr (halts_of_front hw (fun r' hr' => ?_) (fun r' hr' s => ?_) hshort
            (hrules r hr) s)
          · exact (Bool.and_eq_true_iff.mp hr').1
          · obtain ⟨hlater, hlower⟩ := Bool.and_eq_true_iff.mp hr'
            exact ihr (rank r') (of_decide_eq_true hlower) r' hlater s rfl

end WellFounded

/-! ### Repetitions that come to no end -/

/-- There is always a match. -/
def NeverFails (G : R → Expression R α σ ε) (e : Expression R α σ ε) : Prop :=
  ∀ s l t, ¬ Parses G e s l (failed t)

namespace NeverFails

lemma many : NeverFails G (.many a) := by
  rintro s l t ⟨n, hn⟩
  induction n generalizing s l with
  | zero => cases hn
  | succ n ih =>
      obtain ⟨oa, ha, hn⟩ := Option.bind_eq_some_iff.mp hn
      cases oa with
      | matched m t => exact ih t m hn
      | failed t => cases hn
      | thrown x => cases hn

lemma alt_left (ha : NeverFails G a) : NeverFails G (.alt a b) := by
  rintro s l t ⟨_ | n, hn⟩
  · cases hn
  · obtain ⟨oa, hoa, hn⟩ := Option.bind_eq_some_iff.mp hn
    cases oa with
    | matched m t => cases hn
    | failed t => exact ha s l t ⟨n, hoa⟩
    | thrown x => cases hn

lemma rule {r : R} (h : NeverFails G (G r)) : NeverFails G (.rule r) :=
  fun s l t hfail => h s l t (parses_rule.mp hfail)

end NeverFails

/-- Without actions nothing is thrown. -/
lemma not_thrown {classes : (α → Bool) → Bool} {rules : R → Bool}
    (hrules : ∀ r, rules r = true → (G r).within classes rules false = true)
    (he : e.within classes rules false = true) (s : σ) (l : List α) (x : ε) :
    ¬ Parses G e s l (thrown x) := by
  rintro ⟨n, hn⟩
  induction n generalizing e s l with
  | zero => cases hn
  | succ n ih =>
      cases e with
      | eps => cases hn
      | chr p =>
          cases l with
          | nil => cases hn
          | cons c l =>
              rw [parse] at hn
              split_ifs at hn <;> cases hn
      | seq a b =>
          obtain ⟨ha, hb⟩ := Bool.and_eq_true_iff.mp he
          obtain ⟨oa, hoa, hn⟩ := Option.bind_eq_some_iff.mp hn
          cases oa with
          | matched m t => exact ih hb t m hn
          | failed t => cases hn
          | thrown y => exact ih ha s l (hoa.trans hn)
      | alt a b =>
          obtain ⟨ha, hb⟩ := Bool.and_eq_true_iff.mp he
          obtain ⟨oa, hoa, hn⟩ := Option.bind_eq_some_iff.mp hn
          cases oa with
          | matched m t => cases hn
          | failed t => exact ih hb t l hn
          | thrown y => exact ih ha s l (hoa.trans hn)
      | diff a b =>
          obtain ⟨ha, hb⟩ := Bool.and_eq_true_iff.mp he
          obtain ⟨oa, hoa, hn⟩ := Option.bind_eq_some_iff.mp hn
          cases oa with
          | matched m t =>
              obtain ⟨ob, hob, hn⟩ := Option.bind_eq_some_iff.mp hn
              cases ob with
              | matched m' t' =>
                  dsimp only at hn
                  split_ifs at hn <;> cases hn
              | failed t' => cases hn
              | thrown y => exact ih hb t l (hob.trans hn)
          | failed t => cases hn
          | thrown y => exact ih ha s l (hoa.trans hn)
      | many a =>
          obtain ⟨oa, hoa, hn⟩ := Option.bind_eq_some_iff.mp hn
          cases oa with
          | matched m t => exact ih (e := .many a) he t m hn
          | failed t => cases hn
          | thrown y => exact ih (e := a) he s l (hoa.trans hn)
      | counted count a => cases he
      | act a f => cases he
      | rule r => exact ih (hrules r he) s l hn

/-- **A repetition of what never fails comes to no end.** -/
theorem NeverFails.not_halts (ha : NeverFails G a)
    (hthrown : ∀ s l x, ¬ Parses G a s l (thrown x)) (s : σ) (l : List α) :
    ¬ Halts G (.many a) s l := by
  rintro ⟨o, n, hn⟩
  induction n generalizing s l with
  | zero => cases hn
  | succ n ih =>
      obtain ⟨oa, hoa, hn⟩ := Option.bind_eq_some_iff.mp hn
      cases oa with
      | matched m t => exact ih t m hn
      | failed t => exact ha s l t ⟨n, hoa⟩
      | thrown x => exact hthrown s l x ⟨n, hoa⟩

end Library
