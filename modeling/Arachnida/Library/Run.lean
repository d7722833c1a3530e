import Mathlib.Tactic

/-!
Runs of a system whose steps are actions, given one after the other.

`step s a s'` says that the action `a` can lead from the state `s` to the state `s'`; an action may
lead to several states, or to none, which ends the run.

* `Always`: a property of every state of a run; `EveryStep`: a property of every step, that is of
  an action and the state it happens in.
* `RunTo`: the states a run can end in.
* `always_of_everyStep`: **the invariant rule**, what the steps with a property keep holds always.
* `always_iff_everyStep`: the rule where the steps with the property are exactly those that keep
  the invariant; `always_iff_everyStep_of_invariant`: the same for a property that an invariant
  helps to keep.
* `stepOf`: the steps of a partial function.
* `RunTo.simulated`: **the simulation rule**, a run of a system that another one follows step by
  step is a run of the other one.
* `RunTo.potential`: **the potential rule**, where every step is paid for by what it takes from a
  potential and what its action brings, so is every run.
-/

namespace Library

universe u v
variable {σ : Type u} {α : Type v} (step : σ → α → σ → Prop)

/-- `P` holds in every state of the run. -/
def Always (P : σ → Prop) : σ → List α → Prop
  | s, [] => P s
  | s, a :: as => P s ∧ ∀ s', step s a s' → Always P s' as

/-- `Q` holds of every step of the run. -/
def EveryStep (Q : σ → α → Prop) : σ → List α → Prop
  | _, [] => True
  | s, a :: as => ∀ s', step s a s' → Q s a ∧ EveryStep Q s' as

/-- The run can end in the last state. -/
def RunTo : σ → List α → σ → Prop
  | s, [], s' => s = s'
  | s, a :: as, s' => ∃ m, step s a m ∧ RunTo m as s'

variable {step} {P P' Inv : σ → Prop} {N Q : σ → α → Prop} {s s' : σ} {as : List α}

lemma Always.mono (hP : ∀ s, P s → P' s) (h : Always step P s as) : Always step P' s as := by
  induction as generalizing s with
  | nil => exact hP s h
  | cons a as ih => exact ⟨hP s h.1, fun s' hs' => ih (h.2 s' hs')⟩

lemma Always.and (h : Always step P s as) (h' : Always step P' s as) :
    Always step (fun s => P s ∧ P' s) s as := by
  induction as generalizing s with
  | nil => exact ⟨h, h'⟩
  | cons a as ih => exact ⟨⟨h.1, h'.1⟩, fun s' hs' => ih (h.2 s' hs') (h'.2 s' hs')⟩

lemma Always.head (h : Always step P s as) : P s := by
  cases as with
  | nil => exact h
  | cons a as => exact h.1

/-- What holds always holds at the end. -/
lemma Always.last (h : Always step P s as) (hs' : RunTo step s as s') : P s' := by
  induction as generalizing s with
  | nil => exact hs' ▸ h
  | cons a as ih =>
      obtain ⟨m, hm, hrest⟩ := hs'
      exact ih (h.2 m hm) hrest

/-- A step property that holds in every state of the actions of a run. -/
lemma everyStep_of_forall (h : ∀ a ∈ as, ∀ s, Q s a) : EveryStep step Q s as := by
  induction as generalizing s with
  | nil => trivial
  | cons a as ih =>
      exact fun s' _ => ⟨h a (by simp) s, ih fun b hb => h b (by simp [hb])⟩

lemma EveryStep.and (h : EveryStep step N s as) (h' : EveryStep step Q s as) :
    EveryStep step (fun s a => N s a ∧ Q s a) s as := by
  induction as generalizing s with
  | nil => trivial
  | cons a as ih =>
      intro s' hs'
      obtain ⟨hn, hrest⟩ := h s' hs'
      obtain ⟨hq, hrest'⟩ := h' s' hs'
      exact ⟨⟨hn, hq⟩, ih hrest hrest'⟩

/-- **The invariant rule.** -/
theorem always_of_everyStep (keeps : ∀ s a s', Inv s → Q s a → step s a s' → Inv s')
    (hs : Inv s) (h : EveryStep step Q s as) : Always step Inv s as := by
  induction as generalizing s with
  | nil => exact hs
  | cons a as ih =>
      refine ⟨hs, fun s' hs' => ?_⟩
      obtain ⟨hq, hrest⟩ := h s' hs'
      exact ih (keeps s a s' hs hq hs') hrest

/-- **The invariant rule, exactly**: in a run whose steps are all in `N`, the invariant holds
always if and only if every step has the property that keeps it. -/
theorem always_iff_everyStep
    (keeps : ∀ s a s', Inv s → N s a → step s a s' → (Inv s' ↔ Q s a)) (hs : Inv s)
    (hN : EveryStep step N s as) : Always step Inv s as ↔ EveryStep step Q s as := by
  induction as generalizing s with
  | nil => exact ⟨fun _ => trivial, fun _ => hs⟩
  | cons a as ih =>
      constructor
      · intro h s' hs'
        obtain ⟨hn, hrest⟩ := hN s' hs'
        have hinv := h.2 s' hs'
        exact ⟨(keeps s a s' hs hn hs').mp hinv.head, (ih hinv.head hrest).mp hinv⟩
      · intro h
        refine ⟨hs, fun s' hs' => ?_⟩
        obtain ⟨hn, hrest⟩ := hN s' hs'
        obtain ⟨hq, hlater⟩ := h s' hs'
        exact (ih ((keeps s a s' hs hn hs').mpr hq) hrest).mpr hlater

/-- The rule for a property that needs an invariant beside it: the steps that keep the property are
exactly those with `Q`. -/
theorem always_iff_everyStep_of_invariant
    (keeps : ∀ s a s', Inv s → P s → step s a s' → Inv s' ∧ (P s' ↔ Q s a)) (hs : Inv s)
      (hp : P s) :
    Always step P s as ↔ EveryStep step Q s as := by
  induction as generalizing s with
  | nil => exact ⟨fun _ => trivial, fun _ => hp⟩
  | cons a as ih =>
      constructor
      · intro h s' hs'
        obtain ⟨hinv, hiff⟩ := keeps s a s' hs hp hs'
        have hlater := h.2 s' hs'
        exact ⟨hiff.mp hlater.head, (ih hinv hlater.head).mp hlater⟩
      · intro h
        refine ⟨hp, fun s' hs' => ?_⟩
        obtain ⟨hinv, hiff⟩ := keeps s a s' hs hp hs'
        obtain ⟨hq, hlater⟩ := h s' hs'
        exact (ih hinv (hiff.mpr hq)).mpr hlater

/-- A property that an invariant gives every step, and that keeps the invariant. -/
theorem everyStep_of_invariant
    (keeps : ∀ s a s', Inv s → N s a → step s a s' → Q s a ∧ Inv s') (hs : Inv s)
    (hN : EveryStep step N s as) : EveryStep step Q s as := by
  induction as generalizing s with
  | nil => trivial
  | cons a as ih =>
      intro s' hs'
      obtain ⟨hn, hrest⟩ := hN s' hs'
      obtain ⟨hq, hinv⟩ := keeps s a s' hs hn hs'
      exact ⟨hq, ih hinv hrest⟩

/-- The steps of a partial function. -/
def stepOf (f : σ → α → Option σ) (s : σ) (a : α) (s' : σ) : Prop := f s a = some s'

lemma runTo_stepOf {f : σ → α → Option σ} (h : as.foldlM f s = some s') :
    RunTo (stepOf f) s as s' := by
  induction as generalizing s with
  | nil => exact Option.some.inj h
  | cons a as ih =>
      rw [List.foldlM_cons, Option.bind_eq_bind, Option.bind_eq_some_iff] at h
      obtain ⟨m, hm, hrest⟩ := h
      exact ⟨m, hm, ih hrest⟩

/-- A total function has one run, its fold. -/
lemma runTo_total {f : σ → α → σ} : RunTo (stepOf fun s a => some (f s a)) s as s' ↔
    as.foldl f s = s' := by
  induction as generalizing s with
  | nil => exact Iff.rfl
  | cons a as ih =>
      rw [List.foldl_cons, ← ih]
      constructor
      · rintro ⟨m, hm, hrest⟩
        obtain rfl := Option.some.inj hm
        exact hrest
      · exact fun hrest => ⟨_, rfl, hrest⟩

/-- The same steps with other states and other actions. -/
lemma runTo_map {σ' α' : Type*} {f : σ → α → Option σ} {f' : σ' → α' → Option σ'} {S : σ → σ'}
    {A : α → α'} (hS : Function.Injective S) (hf : ∀ s a, f' (S s) (A a) = (f s a).map S) :
    RunTo (stepOf f') (S s) (as.map A) (S s') ↔ RunTo (stepOf f) s as s' := by
  induction as generalizing s with
  | nil => exact hS.eq_iff
  | cons a as ih =>
      constructor
      · rintro ⟨m', hm', hrest⟩
        rw [stepOf, hf, Option.map_eq_some_iff] at hm'
        obtain ⟨m, hm, rfl⟩ := hm'
        exact ⟨m, hm, ih.mp hrest⟩
      · rintro ⟨m, hm, hrest⟩
        refine ⟨S m, ?_, ih.mpr hrest⟩
        rw [stepOf, hf, show f s a = some m from hm, Option.map_some]

/-- **The simulation rule**: what the steps carry from one system to another, runs carry. -/
theorem RunTo.simulated {σ' : Type*} {step' : σ' → α → σ' → Prop} {R : σ → σ' → Prop}
    (follows : ∀ s a s' t, R s t → step s a s' → ∃ t', step' t a t' ∧ R s' t') {t : σ'}
    (hrun : RunTo step s as s') (hR : R s t) : ∃ t', RunTo step' t as t' ∧ R s' t' := by
  induction as generalizing s t with
  | nil =>
      obtain rfl : s = s' := hrun
      exact ⟨t, rfl, hR⟩
  | cons a as ih =>
      obtain ⟨m, hm, hrest⟩ := hrun
      obtain ⟨u, hu, hmu⟩ := follows s a m t hR hm
      obtain ⟨t', ht', hR'⟩ := ih hrest hmu
      exact ⟨t', ⟨u, hu, ht'⟩, hR'⟩

/-- Two runs, one behind the other. -/
lemma runTo_append {bs : List α} :
    RunTo step s (as ++ bs) s' ↔ ∃ m, RunTo step s as m ∧ RunTo step m bs s' := by
  induction as generalizing s with
  | nil => simp [RunTo]
  | cons a as ih =>
      constructor
      · rintro ⟨m', hm', hrest⟩
        obtain ⟨m, hm, hbs⟩ := ih.mp hrest
        exact ⟨m, ⟨m', hm', hm⟩, hbs⟩
      · rintro ⟨m, ⟨m', hm', hm⟩, hbs⟩
        exact ⟨m', hm', ih.mpr ⟨m, hm, hbs⟩⟩

/-- What every step keeps holds at the end of a run. -/
lemma RunTo.invariant (keeps : ∀ s a s', Inv s → step s a s' → Inv s') (hrun : RunTo step s as s')
    (hs : Inv s) : Inv s' := by
  induction as generalizing s with
  | nil => exact hrun ▸ hs
  | cons a as ih =>
      obtain ⟨m, hm, hrest⟩ := hrun
      exact ih hrest (keeps s a m hs hm)

/-- **The potential rule**: what the actions of a run cost is at most what there is at its beginning
and what the actions bring. -/
theorem RunTo.potential {potential : σ → ℕ} {cost gain : α → ℕ}
    (keeps : ∀ s a s', Inv s → step s a s' → Inv s')
    (pays : ∀ s a s', Inv s → step s a s' → potential s' + cost a ≤ potential s + gain a)
    (hrun : RunTo step s as s') (hs : Inv s) :
    potential s' + (as.map cost).sum ≤ potential s + (as.map gain).sum := by
  induction as generalizing s with
  | nil => exact hrun ▸ le_rfl
  | cons a as ih =>
      obtain ⟨m, hm, hrest⟩ := hrun
      have hfirst := pays s a m hs hm
      have hlater := ih hrest (keeps s a m hs hm)
      simp only [List.map_cons, List.sum_cons]
      omega

end Library
