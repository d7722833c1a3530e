import Arachnida.Library.Run
import Mathlib.Algebra.BigOperators.Fin

/-!
A value protected by a lock with one condition, in Mesa's discipline: a wait may end at any time,
and whoever waits looks again when it has the lock.

* `Monitor`: the functions, each with its body under the lock and with whether it notifies behind
  it; a body that cannot run waits.
* `Place`, `MonitorState`, `Step`: where the threads are, and what can happen next.
* `sequential`: the functions with nobody in between.
* `linearized`: **the bodies make a sequential run**; `calls_eq`: every call's body is run once.
* `Counts`: the functions that notify add one item, those that may wait take one.
* `progress`: **while there are items, somebody who came for one can take it**, by the steps of
  those inside alone: no wake-up is lost.
-/

namespace Library

open Finset

universe u v w x

/-- The functions of a monitor, under the names `ι`: `run i v` is what the body of `i` returns for
the value `v`, with the value that it leaves, or nothing where it waits. -/
structure Monitor (σ : Type u) (ι : Type v) (ρ : Type w) where
  run : ι → σ → Option (ρ × σ)
  /-- The function calls `notify_one` when it has released the lock. -/
  notifies : ι → Bool

/-- Where a thread is: outside, before the lock, in the body, in the wait, behind the wait without
the lock, or behind the lock with its notification to give. -/
inductive Place (ι : Type v) where
  | outside
  | entering (i : ι)
  | locked (i : ι)
  | asleep (i : ι)
  | woken (i : ι)
  | notifying
  deriving DecidableEq, Repr

namespace Monitor

variable {σ : Type u} {ι : Type v} {ρ : Type w} {τ : Type x}

/-- The value, the lock and the threads; `log` is the observer's: the bodies in the order in which
they were run. -/
structure State (τ : Type x) (σ : Type u) (ι : Type v) (ρ : Type w) where
  value : σ
  owner : Option τ
  place : τ → Place ι
  log : List (τ × ι × ρ)

/-- Nobody inside. -/
def State.init (value : σ) : State τ σ ι ρ := ⟨value, none, fun _ => .outside, []⟩

/-- What a thread can do; a wait also ends without a notification. -/
inductive Action (τ : Type x) (ι : Type v) where
  | call (t : τ) (i : ι)
  | acquire (t : τ)
  | run (t : τ)
  | wait (t : τ)
  | notify (t : τ) (woken : Option τ)
  | spurious (t : τ)
  deriving DecidableEq, Repr

/-- The steps of those inside: no new calls, and no wait that ends by itself. -/
def Action.Inside : Action τ ι → Prop
  | .call _ _ | .spurious _ => False
  | _ => True

variable [DecidableEq τ] (M : Monitor σ ι ρ)

/-- A thread moves on. -/
def State.move (s : State τ σ ι ρ) (t : τ) (p : Place ι) : State τ σ ι ρ :=
  { s with place := Function.update s.place t p }

/-- Behind its lock, a function that notifies does so. -/
def behind (i : ι) : Place ι := if M.notifies i then .notifying else .outside

/-- The steps. -/
inductive Step : State τ σ ι ρ → Action τ ι → State τ σ ι ρ → Prop where
  | call {s t i} : s.place t = .outside → Step s (.call t i) (s.move t (.entering i))
  | acquire {s t i} : s.place t = .entering i ∨ s.place t = .woken i → s.owner = none →
      Step s (.acquire t) { s.move t (.locked i) with owner := some t }
  | run {s t i r v} : s.place t = .locked i → M.run i s.value = some (r, v) →
      Step s (.run t)
        { s.move t (M.behind i) with value := v, owner := none, log := s.log ++ [(t, i, r)] }
  | wait {s t i} : s.place t = .locked i → M.run i s.value = none →
      Step s (.wait t) { s.move t (.asleep i) with owner := none }
  | notify {s t u i} : s.place t = .notifying → s.place u = .asleep i →
      Step s (.notify t (some u)) ((s.move t .outside).move u (.woken i))
  | notifyNobody {s t} : s.place t = .notifying → (∀ u i, s.place u ≠ .asleep i) →
      Step s (.notify t none) (s.move t .outside)
  | spurious {s t i} : s.place t = .asleep i → Step s (.spurious t) (s.move t (.woken i))

variable {M} {s s' : State τ σ ι ρ} {a : Action τ ι} {as : List (Action τ ι)} {v₀ : σ}

/-! ### The bodies, one after the other -/

/-- A body run by itself. -/
def sequential (M : Monitor σ ι ρ) (v : σ) (entry : τ × ι × ρ) (v' : σ) : Prop :=
  M.run entry.2.1 v = some (entry.2.2, v')

/-- A step runs a body, or it does not touch the value. -/
lemma Step.value_cases (h : M.Step s a s') :
    (s'.value = s.value ∧ s'.log = s.log) ∨
    ∃ entry, s'.log = s.log ++ [entry] ∧ M.sequential s.value entry s'.value := by
  cases h with
  | @run t i r v _ hrun => exact .inr ⟨(t, i, r), rfl, hrun⟩
  | _ => exact .inl ⟨rfl, rfl⟩

/-- **The bodies make a sequential run**, from the first value to the present one. -/
theorem linearized (h : RunTo M.Step (State.init v₀ : State τ σ ι ρ) as s) :
    RunTo M.sequential v₀ s.log s.value := by
  have hstart : RunTo M.sequential v₀ (State.init v₀ : State τ σ ι ρ).log v₀ := rfl
  refine @RunTo.invariant _ _ _ (fun s => RunTo M.sequential v₀ s.log s.value) _ _ _ ?_ h hstart
  intro s a s' hs hstep
  obtain ⟨hvalue, hlog⟩ | ⟨entry, hlog, hone⟩ := hstep.value_cases
  · rwa [hvalue, hlog]
  · rw [hlog]
    exact runTo_append.mpr ⟨_, hs, s'.value, hone, rfl⟩

/-! ### The calls -/

/-- The function that a thread has called and whose body has still to be run. -/
def Place.pending : Place ι → List ι
  | .entering i | .locked i | .asleep i | .woken i => [i]
  | .outside | .notifying => []

/-- What a thread has called. -/
def calls (t : τ) (as : List (Action τ ι)) : List ι :=
  as.filterMap fun a => match a with
    | .call u i => if u = t then some i else none
    | _ => none

/-- The bodies that a thread has run. -/
def bodies (t : τ) (log : List (τ × ι × ρ)) : List ι :=
  (log.filter fun entry => entry.1 = t).map fun entry => entry.2.1

/-- Behind the lock nothing is pending. -/
@[simp]
lemma pending_behind (i : ι) : Place.pending (M.behind i) = [] := by
  rw [behind]
  split_ifs <;> rfl

/-- One step, seen from one thread. -/
lemma Step.calls (h : M.Step s a s') (t : τ) :
    bodies t s.log ++ Place.pending (s.place t) ++ Monitor.calls t [a]
      = bodies t s'.log ++ Place.pending (s'.place t) := by
  have hother : ∀ {u : τ} {p : Place ι}, u ≠ t → Function.update s.place u p t = s.place t :=
    fun hne => Function.update_of_ne hne.symm ..
  cases h with
  | @call u i hu =>
      rcases eq_or_ne u t with rfl | hne
      · simp [Monitor.calls, State.move, hu, Place.pending]
      · simp [Monitor.calls, State.move, hne, hother]
  | @acquire u i hu _ =>
      rcases eq_or_ne u t with rfl | hne
      · rcases hu with hu | hu <;> simp [Monitor.calls, State.move, hu, Place.pending]
      · simp [Monitor.calls, State.move, hne, hother]
  | @run u i r v hu _ =>
      rcases eq_or_ne u t with rfl | hne
      · have hpending : Place.pending (.locked i) = [i] := rfl
        simp [Monitor.calls, State.move, bodies, hu, hpending]
      · simp [Monitor.calls, State.move, bodies, hne, hother]
  | @wait u i hu _ =>
      rcases eq_or_ne u t with rfl | hne
      · simp [Monitor.calls, State.move, hu, Place.pending]
      · simp [Monitor.calls, State.move, hne, hother]
  | @notify u w i hu hw =>
      have hwt : Place.pending
            ((Function.update (Function.update s.place u .outside) w (.woken i)) t)
          = Place.pending (s.place t) := by
        rcases eq_or_ne w t with rfl | hne
        · simp [hw, Place.pending]
        · rw [Function.update_of_ne hne.symm]
          rcases eq_or_ne u t with rfl | hne
          · simp [hu, Place.pending]
          · rw [hother hne]
      simp [Monitor.calls, State.move, hwt]
  | @notifyNobody u hu _ =>
      rcases eq_or_ne u t with rfl | hne
      · simp [Monitor.calls, State.move, hu, Place.pending]
      · simp [Monitor.calls, State.move, hother hne]
  | @spurious u i hu =>
      rcases eq_or_ne u t with rfl | hne
      · simp [Monitor.calls, State.move, hu, Place.pending]
      · simp [Monitor.calls, State.move, hother hne]

/-- **Every call's body is run once**: the calls of a thread are the bodies it has run, in this
order, and the one it is in before its body. -/
theorem calls_eq (h : RunTo M.Step (State.init v₀ : State τ σ ι ρ) as s) (t : τ) :
    calls t as = bodies t s.log ++ Place.pending (s.place t) := by
  suffices key : ∀ s₀ : State τ σ ι ρ, RunTo M.Step s₀ as s →
      bodies t s₀.log ++ Place.pending (s₀.place t) ++ calls t as
        = bodies t s.log ++ Place.pending (s.place t) by
    simpa [State.init, bodies, Place.pending] using key _ h
  clear h
  induction as with
  | nil =>
      rintro s₀ rfl
      simp [calls]
  | cons a as ih =>
      rintro s₀ ⟨m, hm, hrest⟩
      have hsplit : calls t (a :: as) = calls t [a] ++ calls t as := by
        rw [calls, calls, calls, ← List.filterMap_append, List.singleton_append]
      rw [hsplit, ← List.append_assoc, hm.calls t, ih m hrest]

/-! ### The lock -/

/-- The owner of the lock is the thread in its body. -/
def Owned (s : State τ σ ι ρ) : Prop := ∀ t, s.owner = some t ↔ ∃ i, s.place t = .locked i

/-- Nobody in a body, when somebody without the lock moves. -/
lemma Owned.move (h : Owned s) {t : τ} {p : Place ι} (ht : ∀ i, s.place t ≠ .locked i)
    (hp : ∀ i, p ≠ .locked i) : Owned (s.move t p) := by
  intro u
  rcases eq_or_ne u t with rfl | hne
  · have hu := h u
    simp only [ht, exists_false, iff_false] at hu
    simpa [State.move, hp] using hu
  · simpa [State.move, hne] using h u

/-- The owner leaves its body. -/
lemma Owned.release (h : Owned s) {t : τ} {i : ι} (ht : s.place t = .locked i) {p : Place ι}
    (hp : ∀ i, p ≠ .locked i) {v : σ} {log : List (τ × ι × ρ)} :
    Owned { s.move t p with owner := none, value := v, log := log } := by
  intro u
  have howner := (h t).mpr ⟨i, ht⟩
  rcases eq_or_ne u t with rfl | hne
  · simp [State.move, hp]
  · have hu := h u
    have hnot : some t ≠ some u := fun he => hne (Option.some.inj he).symm
    simp only [howner, hnot, false_iff] at hu
    simpa [State.move, hne] using hu

lemma behind_ne_locked (i j : ι) : M.behind i ≠ .locked j := by
  rw [behind]
  split_ifs <;> simp

/-- Every step keeps the lock with the thread in its body. -/
lemma Owned.step (h : Owned s) (hstep : M.Step s a s') : Owned s' := by
  cases hstep with
  | call ht => exact h.move (by simp [ht]) (by simp)
  | @acquire t i ht hfree =>
      intro u
      rcases eq_or_ne u t with rfl | hne
      · simp [State.move]
      · have hu := h u
        simp only [hfree, reduceCtorEq, false_iff] at hu
        simpa [State.move, hne, hne.symm] using hu
  | run ht _ => exact h.release ht (behind_ne_locked _)
  | wait ht _ => exact h.release ht (by simp)
  | @notify t u i ht hu =>
      refine (h.move (by simp [ht]) (by simp)).move ?_ (by simp)
      rcases eq_or_ne u t with rfl | hne
      · simp [State.move]
      · simp [State.move, hne, hu]
  | notifyNobody ht _ => exact h.move (by simp [ht]) (by simp)
  | spurious ht => exact h.move (by simp [ht]) (by simp)

/-! ### Items and wake-ups -/

/-- `avail` counts items of which a function that notifies adds one, and any other takes one, for
which it waits. -/
structure Counts (M : Monitor σ ι ρ) (avail : σ → ℕ) : Prop where
  waits : ∀ {i v}, M.run i v = none → avail v = 0 ∧ M.notifies i = false
  adds : ∀ {i v r v'}, M.run i v = some (r, v') → M.notifies i = true → avail v' = avail v + 1
  takes : ∀ {i v r v'}, M.run i v = some (r, v') → M.notifies i = false → avail v' + 1 = avail v

/-- Those who will give a notification or look for an item before they wait. -/
def weight (M : Monitor σ ι ρ) : Place ι → ℕ
  | .locked i => if M.notifies i then 0 else 1
  | .woken i => if M.notifies i then 0 else 1
  | .notifying => 1
  | .outside | .entering _ | .asleep _ => 0

variable [Fintype τ]

/-- How many of them there are. -/
def eager (M : Monitor σ ι ρ) (s : State τ σ ι ρ) : ℕ := ∑ t, M.weight (s.place t)

/-- While somebody sleeps, there are at least as many of them as items. -/
def Awake (M : Monitor σ ι ρ) (avail : σ → ℕ) (s : State τ σ ι ρ) : Prop :=
  (∃ t i, s.place t = .asleep i) → avail s.value ≤ M.eager s

lemma eager_move (t : τ) (p : Place ι) :
    M.eager (s.move t p) + M.weight (s.place t) = M.eager s + M.weight p := by
  have hsum : ∀ f : τ → Place ι, ∑ u, M.weight (f u)
      = M.weight (f t) + ∑ u ∈ univ.erase t, M.weight (f u) :=
    fun f => (add_sum_erase _ _ (mem_univ t)).symm
  have hrest : ∑ u ∈ univ.erase t, M.weight (Function.update s.place t p u)
      = ∑ u ∈ univ.erase t, M.weight (s.place u) :=
    sum_congr rfl fun u hu => by rw [Function.update_of_ne (ne_of_mem_erase hu)]
  have hmoved := hsum (Function.update s.place t p)
  rw [hrest, Function.update_self] at hmoved
  have hhere := hsum s.place
  simp only [eager, State.move]
  omega

/-- Only functions that do not notify wait. -/
def Sleepers (M : Monitor σ ι ρ) (s : State τ σ ι ρ) : Prop :=
  ∀ t i, s.place t = .asleep i ∨ s.place t = .woken i → M.notifies i = false

/-- What holds in every state of a run. -/
structure Kept (M : Monitor σ ι ρ) (avail : σ → ℕ) (s : State τ σ ι ρ) : Prop where
  owned : Owned s
  sleepers : Sleepers M s
  awake : Awake M avail s

variable {avail : σ → ℕ}

omit [DecidableEq τ] in
lemma Kept.init : Kept M avail (State.init v₀ : State τ σ ι ρ) where
  owned := by simp [Owned, State.init]
  sleepers := by simp [Sleepers, State.init]
  awake := by simp [Awake, State.init]

omit [Fintype τ] in
/-- A thread that moves to a place where only such functions are. -/
lemma Sleepers.move (h : Sleepers M s) {t : τ} {p : Place ι}
    (hp : ∀ i, p = .asleep i ∨ p = .woken i → M.notifies i = false) : Sleepers M (s.move t p) := by
  intro u i hu
  rcases eq_or_ne u t with rfl | hne
  · exact hp i (by simpa [State.move] using hu)
  · exact h u i (by simpa [State.move, hne] using hu)

omit [Fintype τ] in
/-- Every step keeps the functions that notify out of the wait. -/
lemma Sleepers.step (hc : M.Counts avail) (h : Sleepers M s) (hstep : M.Step s a s') :
    Sleepers M s' := by
  cases hstep with
  | call => exact h.move (by simp)
  | acquire => exact h.move (by simp)
  | @run t i =>
      refine h.move fun j hj => ?_
      rw [behind] at hj
      split_ifs at hj <;> simp at hj
  | @wait t i _ hrun => exact h.move fun j hj => by simp at hj; exact hj ▸ (hc.waits hrun).2
  | @notify t u i _ hu =>
      exact (h.move (by simp)).move fun j hj => by simp at hj; exact hj ▸ h u i (.inl hu)
  | notifyNobody => exact h.move (by simp)
  | @spurious t i ht => exact h.move fun j hj => by simp at hj; exact hj ▸ h t i (.inl ht)

omit [Fintype τ] in
/-- Who sleeps after somebody has moved elsewhere has slept before. -/
lemma asleep_of_move {t u : τ} {p : Place ι} {i : ι} (hp : ∀ j, p ≠ .asleep j)
    (h : (s.move t p).place u = .asleep i) : s.place u = .asleep i := by
  rcases eq_or_ne u t with rfl | hne
  · exact absurd (by simpa [State.move] using h) (hp i)
  · simpa [State.move, hne] using h

/-- A thread that moves and is counted afterwards if it was before. -/
lemma Awake.move (h : Awake M avail s) {t : τ} {p : Place ι} (hp : ∀ i, p ≠ .asleep i)
    (hw : M.weight (s.place t) ≤ M.weight p) : Awake M avail (s.move t p) := by
  rintro ⟨u, i, hu⟩
  have hle : avail s.value ≤ M.eager s := h ⟨u, i, asleep_of_move hp hu⟩
  have hsum := M.eager_move (s := s) t p
  change avail s.value ≤ _
  omega

/-- A body that is run gives an item with its notification or takes one with its look. -/
lemma Awake.run (hc : M.Counts avail) (h : Awake M avail s) {t : τ} {i : ι} {r : ρ} {v : σ}
    (ht : s.place t = .locked i) (hrun : M.run i s.value = some (r, v)) {owner : Option τ}
    {log : List (τ × ι × ρ)} : Awake M avail
      { s.move t (M.behind i) with value := v, owner := owner, log := log } := by
  rintro ⟨u, j, hu⟩
  have hle : avail s.value ≤ M.eager s :=
    h ⟨u, j, asleep_of_move (fun k => by rw [behind]; split_ifs <;> simp) hu⟩
  have hsum := M.eager_move (s := s) t (M.behind i)
  change avail v ≤ M.eager (s.move t (M.behind i))
  rw [ht] at hsum
  cases hn : M.notifies i with
  | true =>
      have hadd := hc.adds hrun hn
      simp [weight, behind, hn] at hsum ⊢
      omega
  | false =>
      have htake := hc.takes hrun hn
      simp [weight, behind, hn] at hsum ⊢
      omega

/-- **One step loses no wake-up.** -/
lemma Kept.step (hc : M.Counts avail) (h : Kept M avail s) (hstep : M.Step s a s') :
    Kept M avail s' := by
  refine ⟨h.owned.step hstep, h.sleepers.step hc hstep, ?_⟩
  cases hstep with
  | call ht => exact h.awake.move (by simp) (by simp [ht, weight])
  | @acquire t i ht _ =>
      refine h.awake.move (by simp) ?_
      rcases ht with ht | ht
      · simp [ht, weight]
      · simp [ht, weight]
  | run ht hrun => exact h.awake.run hc ht hrun
  | wait _ hrun =>
      intro _
      exact (hc.waits hrun).1.trans_le (Nat.zero_le _)
  | @notify t u i ht hu =>
      rintro -
      have hle : avail s.value ≤ M.eager s := h.awake ⟨u, i, hu⟩
      have hne : u ≠ t := by
        rintro rfl
        cases ht.symm.trans hu
      have hfirst := M.eager_move (s := s) t .outside
      have hthen := M.eager_move (s := s.move t .outside) u (.woken i)
      have hplace : (s.move t .outside).place u = .asleep i := by simpa [State.move, hne] using hu
      rw [ht] at hfirst
      rw [hplace] at hthen
      simp only [weight, h.sleepers u i (.inl hu), Bool.false_eq_true, if_false] at hfirst hthen
      change avail s.value ≤ _
      omega
  | @notifyNobody t _ hnobody =>
      rintro ⟨u, i, hu⟩
      exact absurd (asleep_of_move (by simp) hu) (hnobody u i)
  | spurious ht => exact h.awake.move (by simp) (by simp [ht, weight])

/-- In every state of a run. -/
lemma kept (hc : M.Counts avail) (h : RunTo M.Step (State.init v₀ : State τ σ ι ρ) as s) :
    Kept M avail s :=
  h.invariant (fun _ _ _ hs hstep => hs.step hc hstep) .init

/-! ### Progress -/

/-- Some of those inside run on, without new calls and without waits that end by themselves, until
the body of a function that takes an item has been run. -/
def Takes (M : Monitor σ ι ρ) (n : ℕ) (s : State τ σ ι ρ) : Prop :=
  ∃ as s' log t i r, as.length ≤ n ∧ (∀ a ∈ as, a.Inside) ∧ RunTo M.Step s as s' ∧
    M.notifies i = false ∧ s'.log = s.log ++ log ++ [(t, i, r)]

omit [Fintype τ] in
/-- One step more in front. -/
lemma takes_of_step {n : ℕ} (hstep : M.Step s a s') (ha : a.Inside)
    (hlog : ∃ log, s'.log = s.log ++ log) (h : Takes M n s') : Takes M (n + 1) s := by
  obtain ⟨as, s'', log, t, i, r, hlen, hinside, hrun, hn, heq⟩ := h
  obtain ⟨log₀, hlog⟩ := hlog
  refine ⟨a :: as, s'', log₀ ++ log, t, i, r, by simpa using hlen, ?_, ⟨s', hstep, hrun⟩, hn, ?_⟩
  · intro b hb
    rcases List.mem_cons.mp hb with rfl | hb
    · exact ha
    · exact hinside b hb
  · rw [heq, hlog]
    simp

omit [Fintype τ] in
lemma Takes.mono {n n' : ℕ} (h : Takes M n s) (hle : n ≤ n') : Takes M n' s := by
  obtain ⟨as, s', log, t, i, r, hlen, hrest⟩ := h
  exact ⟨as, s', log, t, i, r, hlen.trans hle, hrest⟩

omit [DecidableEq τ] [Fintype τ] in
/-- With an item there, a body can be run. -/
lemma Counts.run_isSome (hc : M.Counts avail) (hav : 0 < avail s.value) (i : ι) :
    ∃ r v, M.run i s.value = some (r, v) := by
  cases hrun : M.run i s.value with
  | none => exact absurd (hc.waits hrun).1 hav.ne'
  | some p => exact ⟨p.1, p.2, rfl⟩

omit [Fintype τ] in
/-- The thread in its body takes the item. -/
lemma takes_of_locked (hc : M.Counts avail) (hav : 0 < avail s.value) {t : τ} {i : ι}
    (ht : s.place t = .locked i) (hi : M.notifies i = false) : Takes M 1 s := by
  obtain ⟨r, v, hrun⟩ := hc.run_isSome hav i
  exact ⟨[.run t], _, [], t, i, r, le_rfl, by simp [Action.Inside], ⟨_, .run ht hrun, rfl⟩, hi,
    by simp⟩

omit [Fintype τ] in
/-- A thread before the free lock takes the item. -/
lemma takes_of_free (hc : M.Counts avail) (hav : 0 < avail s.value) (hfree : s.owner = none)
    {t : τ} {i : ι} (ht : s.place t = .entering i ∨ s.place t = .woken i)
    (hi : M.notifies i = false) : Takes M 2 s := by
  have hstep : M.Step s (.acquire t) { s.move t (.locked i) with owner := some t } :=
    .acquire ht hfree
  refine takes_of_step hstep trivial ⟨[], by simp [State.move]⟩ ?_
  exact takes_of_locked (t := t) (i := i) hc hav (by simp [State.move]) hi

/-- With the lock free, somebody who came for an item can take one. -/
lemma takes_of_unowned (hc : M.Counts avail) (h : Kept M avail s) (hav : 0 < avail s.value)
    (hfree : s.owner = none) {t : τ} {i : ι} (ht : i ∈ Place.pending (s.place t))
    (hi : M.notifies i = false) : Takes M 3 s := by
  have hnobody : ∀ u j, s.place u ≠ .locked j := fun u j hu => by
    have := (h.owned u).mpr ⟨j, hu⟩
    simp [hfree] at this
  cases hp : s.place t with
  | outside => simp [hp, Place.pending] at ht
  | notifying => simp [hp, Place.pending] at ht
  | locked j => exact absurd hp (hnobody t j)
  | entering j =>
      obtain rfl : i = j := by simpa [hp, Place.pending] using ht
      exact (takes_of_free hc hav hfree (.inl hp) hi).mono (by omega)
  | woken j =>
      obtain rfl : i = j := by simpa [hp, Place.pending] using ht
      exact (takes_of_free hc hav hfree (.inr hp) hi).mono (by omega)
  | asleep j =>
      obtain rfl : i = j := by simpa [hp, Place.pending] using ht
      -- somebody is awake: with a notification for this thread, or to look for an item
      have hsum : 0 < M.eager s := hav.trans_le (h.awake ⟨t, i, hp⟩)
      obtain ⟨w, -, hw⟩ := exists_ne_zero_of_sum_ne_zero hsum.ne'
      cases hplace : s.place w with
      | outside => simp [hplace, weight] at hw
      | entering => simp [hplace, weight] at hw
      | asleep => simp [hplace, weight] at hw
      | locked j => exact absurd hplace (hnobody w j)
      | woken j =>
          have hj := h.sleepers w j (.inr hplace)
          exact (takes_of_free hc hav hfree (.inr hplace) hj).mono (by omega)
      | notifying =>
          have hstep : M.Step s (.notify w (some t)) ((s.move w .outside).move t (.woken i)) :=
            .notify hplace hp
          refine takes_of_step hstep trivial ⟨[], by simp [State.move]⟩ ?_
          exact takes_of_free (t := t) (i := i) hc hav hfree (.inr (by simp [State.move])) hi

/-- **While there are items, somebody who came for one can take it**, in at most four steps of
those inside. -/
theorem progress (hc : M.Counts avail) (h : RunTo M.Step (State.init v₀ : State τ σ ι ρ) as s)
    (hav : 0 < avail s.value) {t : τ} {i : ι} (ht : i ∈ Place.pending (s.place t))
    (hi : M.notifies i = false) : Takes M 4 s := by
  have hkept := kept hc h
  cases howner : s.owner with
  | none => exact (takes_of_unowned hc hkept hav howner ht hi).mono (by omega)
  | some w =>
      obtain ⟨j, hw⟩ := (hkept.owned w).mp howner
      cases hj : M.notifies j with
      | false => exact (takes_of_locked hc hav hw hj).mono (by omega)
      | true =>
          obtain ⟨r, v, hrun⟩ := hc.run_isSome hav j
          have hstep : M.Step s (.run w) _ := .run hw hrun
          have hne : t ≠ w := by
            rintro rfl
            obtain rfl : i = j := by simpa [hw, Place.pending] using ht
            simp [hi] at hj
          refine takes_of_step hstep trivial ⟨_, rfl⟩ ?_
          refine takes_of_unowned hc (hkept.step hc hstep) ?_ rfl ?_ hi (t := t)
          · exact (Nat.succ_pos _).trans_eq (hc.adds hrun hj).symm
          · simpa [State.move, hne] using ht

end Monitor

end Library
