import Arachnida.Library.Loop

/-!
Readers of a stream of messages that arrives in pieces.

A reader holds a state, which contains the bytes that are still to be read, and takes one message
after the other from it until it fails or has to wait for more.  Input extends the state.

* `Reader.read`: all messages that the state holds, and how reading ended.
* `Reader.feed`: input that arrives in several pieces, all that is there being read after each.
* `Reader.outcome_extend`: if every step stands for a longer input, reading may be suspended
  and resumed.
* `Reader.feed_flatten`: **segmentation**, the messages and the failure do not depend on how the
  input is cut.
-/

namespace Library

universe u v w

/-- What one attempt to take a message from a state comes to. -/
inductive Progress (σ : Type u) (α : Type v) (ε : Type w) where
  | failed (e : ε)
  | waiting (s : σ)
  | complete (a : α) (s : σ)

/-- A reader; a message that is taken makes its state smaller. -/
structure Reader (σ : Type u) (α : Type v) (ε : Type w) where
  step : σ → Progress σ α ε
  size : σ → ℕ
  size_lt : ∀ {s s' : σ} {a : α}, step s = .complete a s' → size s' < size s

namespace Reader

variable {σ : Type u} {α : Type v} {ε : Type w} (R : Reader σ α ε)

/-- The loop that takes one message after the other. -/
def loop : MeasuredLoop (List α × σ) (List α × Except ε σ) where
  pass := fun p =>
    match R.step p.2 with
    | .failed e => .inr (p.1, .error e)
    | .waiting s => .inr (p.1, .ok s)
    | .complete a s => .inl (p.1 ++ [a], s)
  measure := fun p => R.size p.2
  decreasing := by
    intro p p' h
    split at h <;> simp only [reduceCtorEq, Sum.inl.injEq] at h
    next hs => rw [← h]; exact R.size_lt hs

/-- The messages in a state, and the failure or the state in which more is waited for. -/
def read (s : σ) : List α × Except ε σ := R.loop.run ([], s)

lemma loop_run (as : List α) (s : σ) :
    R.loop.run (as, s) = (as ++ (R.read s).1, (R.read s).2) := by
  suffices key : ∀ p : List α × σ, ∀ bs, R.loop.run (bs ++ p.1, p.2)
      = (bs ++ (R.loop.run p).1, (R.loop.run p).2) by
    simpa [read] using key ([], s) as
  refine R.loop.run_rec (P := fun p r => ∀ bs, R.loop.run (bs ++ p.1, p.2) = (bs ++ r.1, r.2)) ?_ ?_
  · intro p r hp bs
    refine R.loop.run_of_inr ?_
    simp only [loop] at hp ⊢
    split at hp <;> simp_all <;> simp [← hp]
  · intro p p' hp ih bs
    rw [← ih bs]
    refine R.loop.run_of_inl ?_
    simp only [loop] at hp ⊢
    split at hp <;> simp_all
    simp [← hp]

lemma read_failed {s : σ} {e : ε} (h : R.step s = .failed e) : R.read s = ([], .error e) :=
  R.loop.run_of_inr (by simp only [loop, h])

lemma read_waiting {s s' : σ} (h : R.step s = .waiting s') : R.read s = ([], .ok s') :=
  R.loop.run_of_inr (by simp only [loop, h])

lemma read_complete {s s' : σ} {a : α} (h : R.step s = .complete a s') :
    R.read s = (a :: (R.read s').1, (R.read s').2) := by
  have hpass : R.loop.pass ([], s) = .inl ([a], s') := by simp only [loop, h, List.nil_append]
  rw [read, R.loop.run_of_inl hpass, loop_run]
  rfl

lemma read_congr {s t : σ} (h : R.step s = R.step t) : R.read s = R.read t := by
  cases ht : R.step t with
  | failed e => rw [R.read_failed ht, R.read_failed (h.trans ht)]
  | waiting s' => rw [R.read_waiting ht, R.read_waiting (h.trans ht)]
  | complete a s' => rw [R.read_complete ht, R.read_complete (h.trans ht)]

/-- **Induction over the messages in a state.** -/
theorem read_rec {P : σ → List α × Except ε σ → Prop}
    (failed : ∀ s e, R.step s = .failed e → P s ([], .error e))
    (waiting : ∀ s s', R.step s = .waiting s' → P s ([], .ok s'))
    (complete : ∀ s a s', R.step s = .complete a s' → P s' (R.read s') →
      P s (a :: (R.read s').1, (R.read s').2)) (s : σ) : P s (R.read s) := by
  induction hn : R.size s using Nat.strong_induction_on generalizing s with
  | _ n ih =>
      cases hs : R.step s with
      | failed e => rw [R.read_failed hs]; exact failed s e hs
      | waiting s' => rw [R.read_waiting hs]; exact waiting s s' hs
      | complete a s' =>
          rw [R.read_complete hs]
          exact complete s a s' hs (ih _ (hn ▸ R.size_lt hs) s' rfl)

/-! ### Input in pieces -/

/-- The messages together with the failure, if there is one. -/
def outcomeOf (r : List α × Except ε σ) : List α × Option ε :=
  (r.1, match r.2 with | .error e => some e | .ok _ => none)

/-- The messages in a state, and whether reading them fails. -/
def outcome (s : σ) : List α × Option ε := outcomeOf (R.read s)

/-- What has been read, and then what `k` makes of the state that waits. -/
def andThen (r : List α × Except ε σ) (k : σ → List α × Option ε) : List α × Option ε :=
  match r.2 with
  | .error e => (r.1, some e)
  | .ok s => (r.1 ++ (k s).1, (k s).2)

variable {β : Type*} (extend : σ → List β → σ)

/-- The pieces of an input, all that is there being read after each. -/
def feed : σ → List (List β) → List α × Except ε σ
  | s, [] => ([], .ok s)
  | s, x :: xs =>
      match R.read (extend s x) with
      | (as, .error e) => (as, .error e)
      | (as, .ok s') => (as ++ (feed s' xs).1, (feed s' xs).2)

lemma outcomeOf_feed_cons (s : σ) (x : List β) (xs : List (List β)) :
    outcomeOf (R.feed extend s (x :: xs))
      = andThen (R.read (extend s x)) fun s' => outcomeOf (R.feed extend s' xs) := by
  rw [feed]
  split <;> next h => simp [andThen, h, outcomeOf]

/-- The step `q` with more input `y` is what the step `p` without it announces. -/
def Stands (y : List β) (p q : Progress σ α ε) : Prop :=
  match p with
  | .failed e => q = .failed e
  | .waiting s => q = R.step (extend s y)
  | .complete a s => ∃ t, q = .complete a t ∧ R.outcome t = R.outcome (extend s y)

/-- **Suspension**: where every step stands, reading may be suspended and resumed with more. -/
theorem outcome_extend {y : List β} {P : σ → Prop}
    (stands : ∀ s, P s → R.Stands extend y (R.step s) (R.step (extend s y)))
    (next : ∀ s a s', P s → R.step s = .complete a s' → P s') {s : σ} (hs : P s) :
    R.outcome (extend s y) = andThen (R.read s) fun s' => R.outcome (extend s' y) := by
  refine R.read_rec (P := fun s r => P s →
    R.outcome (extend s y) = andThen r fun s' => R.outcome (extend s' y)) ?_ ?_ ?_ s hs
  · intro s e h hs
    have hstep := stands s hs
    rw [h] at hstep
    rw [outcome, R.read_failed hstep]
    rfl
  · intro s s' h hs
    have hstep := stands s hs
    rw [h] at hstep
    rw [outcome, R.read_congr hstep]
    rfl
  · intro s a s' h ih hs
    have hstep := stands s hs
    rw [h] at hstep
    obtain ⟨t, ht, hout⟩ := hstep
    have hrest := ih (next s a s' hs h)
    rw [← hout] at hrest
    rw [outcome, R.read_complete ht]
    rw [outcome, outcomeOf, Prod.mk.injEq] at hrest
    simp only [outcomeOf, hrest.1, hrest.2, andThen]
    split <;> rfl

/-- **Segmentation**: along a run that keeps `Fit`, the pieces come to the same as the whole. -/
theorem feed_flatten {Fit : σ → List (List β) → Prop}
    (settled : ∀ s, Fit s [] → R.outcome (extend s []) = ([], none))
    (suspend : ∀ s x xs, Fit s (x :: xs) → R.outcome (extend s (x ++ xs.flatten))
      = andThen (R.read (extend s x)) fun s' => R.outcome (extend s' xs.flatten))
    (next : ∀ s x xs as s', Fit s (x :: xs) → R.read (extend s x) = (as, .ok s') → Fit s' xs)
    {s : σ} {xs : List (List β)} (h : Fit s xs) :
    outcomeOf (R.feed extend s xs) = R.outcome (extend s xs.flatten) := by
  induction xs generalizing s with
  | nil => rw [List.flatten_nil, settled s h]; rfl
  | cons x xs ih =>
      rw [List.flatten_cons, suspend s x xs h, outcomeOf_feed_cons]
      cases hr : R.read (extend s x) with
      | mk as r =>
          cases r with
          | error e => rfl
          | ok s' => simp only [andThen, ih (next s x xs as s' h hr)]

end Reader

end Library
