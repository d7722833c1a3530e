import Mathlib.Tactic

/-!
Loops given by their pass: one pass either leaves the state of the next pass or the result of
the loop.  A `do … while`, a `goto` back to a label and a tail recursion all have this form.

* `MeasuredLoop`: a loop that carries its own termination argument, a measure which every pass
  that continues decreases; `run` is therefore total, and executable.
* `run_eq`, `run_of_inl`, `run_of_inr`: the loop unfolded once.
* `run_rec`: the induction rule, a relation between a state and the result of the loop started
  there holds if the last pass establishes it and every other pass carries it back.
* `run_invariant`: the invariant rule.
* `run_map`: two loops whose passes correspond.
* `iterate`: so many passes; `MeasuredLoop.iterate_run`: as many as the measure are enough.
* `Returns`: the results of a loop that need not terminate, with `Returns.invariant` and
  `Returns.deterministic`; `not_returns_of_stuck` is how such a loop fails to.
-/

namespace Library

universe u v

/-- A loop with state `σ` and result `ρ` that terminates by a measure on its state. -/
structure MeasuredLoop (σ : Type u) (ρ : Type v) where
  pass : σ → σ ⊕ ρ
  measure : σ → ℕ
  decreasing : ∀ {s s' : σ}, pass s = .inl s' → measure s' < measure s

namespace MeasuredLoop

variable {σ : Type u} {ρ : Type v} (L : MeasuredLoop σ ρ)

/-- The loop run for fewer than `n` further passes, `n` being above the measure. -/
def runWithin : (n : ℕ) → (s : σ) → L.measure s < n → ρ
  | 0, _, h => absurd h (Nat.not_lt_zero _)
  | n + 1, s, h =>
      match hs : L.pass s with
      | .inl s' => runWithin n s' (by have := L.decreasing hs; omega)
      | .inr r => r

/-- The result of the loop. -/
def run (s : σ) : ρ := L.runWithin (L.measure s + 1) s (Nat.lt_succ_self _)

lemma runWithin_of_inl {n : ℕ} {s s' : σ} (h : L.measure s < n + 1) (hs : L.pass s = .inl s') :
    L.runWithin (n + 1) s h = L.runWithin n s' (by have := L.decreasing hs; omega) := by
  rw [runWithin]
  split
  · next t ht =>
      obtain rfl : t = s' := by simpa [ht] using hs
      rfl
  · next r hr => simp [hr] at hs

lemma runWithin_of_inr {n : ℕ} {s : σ} {r : ρ} (h : L.measure s < n + 1)
    (hs : L.pass s = .inr r) : L.runWithin (n + 1) s h = r := by
  rw [runWithin]
  split
  · next t ht => simp [ht] at hs
  · next r' hr => simpa [hr] using hs

/-- The bound on the number of passes does not matter. -/
lemma runWithin_eq_run {n : ℕ} (s : σ) (h : L.measure s < n) : L.runWithin n s h = L.run s := by
  suffices key : ∀ n m (s : σ) (hn : L.measure s < n) (hm : L.measure s < m),
      L.runWithin n s hn = L.runWithin m s hm from key _ _ s h _
  intro n
  induction n with
  | zero => exact fun m s hn => absurd hn (Nat.not_lt_zero _)
  | succ n ih =>
      intro m s hn hm
      cases m with
      | zero => exact absurd hm (Nat.not_lt_zero _)
      | succ m =>
          cases hs : L.pass s with
          | inl s' => rw [L.runWithin_of_inl hn hs, L.runWithin_of_inl hm hs, ih m s']
          | inr r => rw [L.runWithin_of_inr hn hs, L.runWithin_of_inr hm hs]

lemma run_of_inl {s s' : σ} (hs : L.pass s = .inl s') : L.run s = L.run s' := by
  rw [run, L.runWithin_of_inl _ hs, runWithin_eq_run]

lemma run_of_inr {s : σ} {r : ρ} (hs : L.pass s = .inr r) : L.run s = r := by
  rw [run, L.runWithin_of_inr _ hs]

/-- The loop is one pass, followed by the loop again where the pass says so. -/
lemma run_eq (s : σ) : L.run s = (L.pass s).elim L.run id := by
  cases hs : L.pass s with
  | inl s' => rw [L.run_of_inl hs]; rfl
  | inr r => rw [L.run_of_inr hs]; rfl

/-- **Induction along a run**: the last pass establishes the relation between state and result,
every earlier pass carries it back. -/
theorem run_rec {P : σ → ρ → Prop} (last : ∀ s r, L.pass s = .inr r → P s r)
    (next : ∀ s s', L.pass s = .inl s' → P s' (L.run s') → P s (L.run s')) (s : σ) :
    P s (L.run s) := by
  induction hn : L.measure s using Nat.strong_induction_on generalizing s with
  | _ n ih =>
      cases hs : L.pass s with
      | inl s' =>
          rw [L.run_of_inl hs]
          exact next s s' hs (ih _ (hn ▸ L.decreasing hs) s' rfl)
      | inr r => rw [L.run_of_inr hs]; exact last s r hs

/-- **The invariant rule**: what every continuing pass keeps and the last one turns into `Q`. -/
theorem run_invariant {I : σ → Prop} {Q : ρ → Prop}
    (keeps : ∀ s s', I s → L.pass s = .inl s' → I s') (done : ∀ s r, I s → L.pass s = .inr r → Q r)
    {s : σ} (hs : I s) : Q (L.run s) :=
  L.run_rec (P := fun s r => I s → Q r) (fun s r h hI => done s r hI h)
    (fun s s' h ih hI => ih (keeps s s' hI h)) s hs

/-- **Simulation**: what holds between the passes of two loops holds between their results. -/
theorem run_map {σ' : Type*} {ρ' : Type*} (L' : MeasuredLoop σ' ρ') {f : σ → σ'} {g : ρ → ρ'}
    (h : ∀ s, L'.pass (f s) = (L.pass s).map f g) (s : σ) : L'.run (f s) = g (L.run s) := by
  refine L.run_rec (P := fun s r => L'.run (f s) = g r) ?_ ?_ s
  · intro s r hr
    exact L'.run_of_inr (by rw [h, hr]; rfl)
  · intro s s' hs ih
    rw [← ih]
    exact L'.run_of_inl (by rw [h, hs]; rfl)

end MeasuredLoop

/-! ### Loops that need not terminate -/

variable {σ : Type u} {ρ : Type v}

/-- At most `n` passes of a loop. -/
def iterate (pass : σ → σ ⊕ ρ) : ℕ → σ → σ ⊕ ρ
  | 0, s => .inl s
  | n + 1, s => (pass s).elim (iterate pass n) .inr

/-- A loop with a measure leaves within as many passes. -/
lemma MeasuredLoop.iterate_run (L : MeasuredLoop σ ρ) {n : ℕ} {s : σ} (h : L.measure s < n) :
    iterate L.pass n s = .inr (L.run s) := by
  induction n generalizing s with
  | zero => omega
  | succ n ih =>
      cases hs : L.pass s with
      | inl s' =>
          have hlt := L.decreasing hs
          rw [L.run_of_inl hs]
          simpa [iterate, hs] using ih (by omega)
      | inr r => simp [iterate, hs, L.run_of_inr hs]

/-- The loop started at `s` leaves with result `r`. -/
def Returns (pass : σ → σ ⊕ ρ) (s : σ) (r : ρ) : Prop := ∃ n, iterate pass n s = .inr r

section Returns

variable {pass : σ → σ ⊕ ρ} {s s' : σ} {r r' : ρ}

lemma returns_of_inr (h : pass s = .inr r) : Returns pass s r := ⟨1, by simp [iterate, h]⟩

lemma returns_of_inl (h : pass s = .inl s') (hr : Returns pass s' r) : Returns pass s r := by
  obtain ⟨n, hn⟩ := hr
  exact ⟨n + 1, by simp [iterate, h, hn]⟩

/-- The loop unfolded once, from its result. -/
lemma Returns.elim (h : Returns pass s r) :
    pass s = .inr r ∨ ∃ s', pass s = .inl s' ∧ Returns pass s' r := by
  obtain ⟨n, hn⟩ := h
  cases n with
  | zero => cases hn
  | succ n =>
      cases hs : pass s with
      | inl s' => exact .inr ⟨s', rfl, n, by simpa [iterate, hs] using hn⟩
      | inr r' => exact .inl (by simpa [iterate, hs] using hn)

/-- **The invariant rule** for a loop that need not terminate. -/
theorem Returns.invariant {I : σ → Prop} {Q : ρ → Prop}
    (keeps : ∀ s s', I s → pass s = .inl s' → I s') (done : ∀ s r, I s → pass s = .inr r → Q r)
    (h : Returns pass s r) (hs : I s) : Q r := by
  obtain ⟨n, hn⟩ := h
  induction n generalizing s with
  | zero => cases hn
  | succ n ih =>
      cases hp : pass s with
      | inl s' => exact ih (keeps s s' hs hp) (by simpa [iterate, hp] using hn)
      | inr r' =>
          obtain rfl : r' = r := by simpa [iterate, hp] using hn
          exact done s r' hs hp

/-- A loop has one result at most. -/
theorem Returns.deterministic (h : Returns pass s r) (h' : Returns pass s r') : r = r' := by
  obtain ⟨n, hn⟩ := h
  induction n generalizing s with
  | zero => cases hn
  | succ n ih =>
      rcases h'.elim with hs | ⟨s', hs, hr⟩
      · simpa [iterate, hs, eq_comm] using hn
      · exact ih hr (by simpa [iterate, hs] using hn)

/-- A pass that changes nothing is repeated for ever. -/
lemma not_returns_of_stuck (h : pass s = .inl s) : ¬ Returns pass s r := by
  intro hr
  refine hr.invariant (I := fun t => t = s) (Q := fun _ => False) ?_ ?_ rfl
  · rintro t t' rfl ht
    exact (Sum.inl.inj (h.symm.trans ht)).symm
  · rintro t r rfl ht
    cases h.symm.trans ht

end Returns

end Library
