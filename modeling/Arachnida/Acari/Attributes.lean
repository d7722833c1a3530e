import Arachnida.Library.Tickets

/-!
`Acari::Attributes`: slots for attributes, and the indices that are allocated for them
(`lib/Acari/Attributes.cpp`).

* `Attributes`: the slots of an object; an index is good for one of them on every object.
* `Allocation`: the counter that all threads share, which is 32 bits wide, and the calls of
  `allocateAttribute`, each of which first advances the counter and then returns or throws.
* `Allocation.follows`: the calls draw tickets from a counter that does not wrap, and forget what
  does not fit.
* `never_reused_iff`: **an index is never returned twice if and only if there are at most `2 ^ 32`
  calls**, those that throw included.
-/

namespace Arachnida.Acari

open Library

variable {α T : Type*}

/-! ### The slots -/

/-- `max_attribute_count__`. -/
def maxAttributeCount : ℕ := 8

/-- The attributes of an object. -/
@[ext]
structure Attributes (α : Type*) where
  attributes_ : List α
  size : attributes_.length = maxAttributeCount

namespace Attributes

/-- The constructor. -/
def new (empty : α) : Attributes α :=
  ⟨List.replicate maxAttributeCount empty, List.length_replicate⟩

/-- `getAttribute`, read; nothing where the assertion fails. -/
def getAttribute (attributes : Attributes α) (index : ℕ) : Option α :=
  attributes.attributes_[index]?

/-- `getAttribute`, written through. -/
def store (attributes : Attributes α) (index : ℕ) (value : α) : Attributes α :=
  ⟨attributes.attributes_.set index value, by rw [List.length_set, attributes.size]⟩

/-- What is stored under one index is not seen under another. -/
lemma getAttribute_store_of_ne (attributes : Attributes α) {index index' : ℕ}
    (h : index ≠ index') (value : α) :
    (attributes.store index value).getAttribute index' = attributes.getAttribute index' :=
  List.getElem?_set_ne h

end Attributes

/-! ### The calls -/

/-- `next_attribute_index__`, with the `retval` of each thread that is in a call, and how the calls
that have ended did so: with an index, or with `std::bad_alloc`. -/
structure Allocation (T : Type*) where
  next_attribute_index__ : UInt32
  retval : T → Option ℕ
  ended : List (Option ℕ)

namespace Allocation

/-- When the process begins. -/
def init : Allocation T := ⟨0, fun _ => none, []⟩

/-- How a call ends that has fetched this value. -/
def outcome (retval : ℕ) : Option ℕ := if maxAttributeCount ≤ retval then none else some retval

/-- `allocateAttribute`, in two steps: the `fetchAndAdd`, which is atomic, and what follows it. -/
def step [DecidableEq T] (s : Allocation T) : TicketAction T → Option (Allocation T)
  | .take t =>
      match s.retval t with
      | none => some ⟨s.next_attribute_index__ + 1,
          Function.update s.retval t (some s.next_attribute_index__.toNat), s.ended⟩
      | some _ => none
  | .leave t =>
      match s.retval t with
      | none => none
      | some retval => some { s with
          retval := Function.update s.retval t none, ended := s.ended ++ [outcome retval] }

/-- The indices that were returned. -/
def returned (s : Allocation T) : List ℕ := s.ended.filterMap id

/-- Two indices are of different slots, on every object. -/
def Apart (index index' : ℕ) : Prop := ∀ {α : Type} (attributes : Attributes α) (value : α),
  (attributes.store index value).getAttribute index' = attributes.getAttribute index'

/-- No index was returned twice, so that no two of the calls have a slot in common. -/
structure NeverReused (s : Allocation T) : Prop where
  distinct : s.returned.Nodup
  below : ∀ index ∈ s.returned, index < maxAttributeCount
  apart : s.returned.Pairwise Apart

/-- No call is going on. -/
def Quiet (s : Allocation T) : Prop := ∀ t, s.retval t = none

/-! ### The counter that wraps -/

/-- The calls have the tickets of a counter that does not wrap, less what 32 bits do not hold. -/
structure Follows (s : Allocation T) (m : Tickets T) : Prop where
  counter : s.next_attribute_index__ = UInt32.ofNat m.next
  held : ∀ t, s.retval t = (m.held t).map (· % 2 ^ 32)
  ended : s.ended = m.done.map fun k => outcome (k % 2 ^ 32)

lemma Follows.init : Follows (init : Allocation T) .init := ⟨rfl, fun _ => rfl, rfl⟩

variable [DecidableEq T]

/-- An update of both. -/
lemma update_map {retval held : T → Option ℕ} (h : ∀ t, retval t = (held t).map (· % 2 ^ 32))
    (t : T) (o : Option ℕ) (u : T) :
    Function.update retval t (o.map (· % 2 ^ 32)) u
      = (Function.update held t o u).map (· % 2 ^ 32) := by
  by_cases hu : u = t
  · subst hu
    rw [Function.update_self, Function.update_self]
  · rw [Function.update_of_ne hu, Function.update_of_ne hu, h]

/-- **Every step of a call follows a step of the tickets.** -/
lemma follows (s : Allocation T) (a : TicketAction T) (s' : Allocation T) (m : Tickets T)
    (h : Follows s m) (hs : stepOf step s a s') :
    ∃ m', stepOf Tickets.step m a m' ∧ Follows s' m' := by
  rw [stepOf] at hs
  cases a with
  | take t =>
      rw [step] at hs
      split at hs
      · next hfree =>
          obtain rfl := Option.some.inj hs
          have hm : m.held t = none := by
            rw [h.held t] at hfree
            exact Option.map_eq_none_iff.mp hfree
          refine ⟨_, Tickets.step_take hm, ?_, ?_, h.ended⟩
          · change s.next_attribute_index__ + 1 = UInt32.ofNat (m.next + 1)
            rw [h.counter, UInt32.ofNat_add]
            rfl
          · intro u
            rw [← update_map h.held, h.counter, UInt32.toNat_ofNat']
            rfl
      · cases hs
  | leave t =>
      rw [step] at hs
      split at hs
      · cases hs
      · next retval hheld =>
          obtain rfl := Option.some.inj hs
          rw [h.held t] at hheld
          obtain ⟨k, hm, rfl⟩ := Option.map_eq_some_iff.mp hheld
          refine ⟨_, Tickets.step_leave hm, h.counter, ?_, ?_⟩
          · intro u
            rw [← update_map h.held]
            rfl
          · simp [h.ended]

/-- A thread can begin a call. -/
lemma step_take {s : Allocation T} {t : T} (hfree : s.retval t = none) : stepOf step s (.take t)
    ⟨s.next_attribute_index__ + 1,
      Function.update s.retval t (some s.next_attribute_index__.toNat), s.ended⟩ := by
  rw [stepOf, step, hfree]

/-- A call can end. -/
lemma step_leave {s : Allocation T} {t : T} {retval : ℕ} (hheld : s.retval t = some retval) :
    stepOf step s (.leave t) { s with
      retval := Function.update s.retval t none, ended := s.ended ++ [outcome retval] } := by
  rw [stepOf, step, hheld]

/-! ### Runs -/

/-- The tickets behind a run of calls. -/
lemma run_tickets {s : Allocation T} {as : List (TicketAction T)}
    (hrun : RunTo (stepOf step) .init as s) :
    ∃ m : Tickets T, Follows s m ∧ m.Sound ∧ m.next = Tickets.takes as := by
  obtain ⟨m, hm, hfollows⟩ := hrun.simulated follows .init
  obtain ⟨hsound, hnext⟩ := Tickets.run_spec hm
  exact ⟨m, hfollows, hsound, hnext⟩

/-- The values that end in an index are the small ones. -/
lemma filterMap_outcome (l : List ℕ) :
    (l.map outcome).filterMap id = l.filter (· < maxAttributeCount) := by
  induction l with
  | nil => rfl
  | cons retval l ih =>
      rw [List.map_cons, List.filterMap_cons, ih, List.filter_cons, id, outcome]
      by_cases h : retval < maxAttributeCount
      · simp [h, Nat.not_le.mpr h]
      · simp [h, Nat.not_lt.mp h]

omit [DecidableEq T] in
/-- The indices that were returned are the tickets that look small. -/
lemma Follows.returned_eq {s : Allocation T} {m : Tickets T} (h : Follows s m) : s.returned
    = (m.done.filter (· % 2 ^ 32 < maxAttributeCount)).map (· % 2 ^ 32) := by
  have hended : s.ended = (m.done.map (· % 2 ^ 32)).map outcome := by
    rw [h.ended, List.map_map]
    rfl
  rw [returned, hended, filterMap_outcome, List.filter_map]
  rfl

omit [DecidableEq T] in
/-- With tickets of 32 bits no index is returned twice. -/
lemma Follows.neverReused {s : Allocation T} {m : Tickets T} (h : Follows s m) (hm : m.Sound)
    (hnext : m.next ≤ 2 ^ 32) : NeverReused s := by
  have hsmall : ∀ k ∈ m.done, k % 2 ^ 32 = k := fun k hk =>
    Nat.mod_eq_of_lt (((hm.handed_out k).mpr (.inl hk)).trans_le hnext)
  have hdistinct : s.returned.Nodup := by
    rw [h.returned_eq]
    refine List.Nodup.map_on (fun k hk j hj hkj => ?_) (hm.nodup.filter _)
    rwa [hsmall k (List.mem_of_mem_filter hk), hsmall j (List.mem_of_mem_filter hj)] at hkj
  refine ⟨hdistinct, ?_, hdistinct.imp fun hne _ attributes value =>
    attributes.getAttribute_store_of_ne hne value⟩
  · intro index hindex
    rw [h.returned_eq] at hindex
    obtain ⟨k, hk, rfl⟩ := List.mem_map.mp hindex
    exact of_decide_eq_true (List.mem_filter.mp hk).2

omit [DecidableEq T] in
/-- The ticket that has come round is returned as the first one was. -/
lemma Follows.reused {s : Allocation T} {m : Tickets T} (h : Follows s m) (hm : m.Sound)
    (hquiet : s.Quiet) (hnext : 2 ^ 32 < m.next) : ¬ NeverReused s := by
  intro hnever
  have hdone : ∀ k < m.next, k ∈ m.done := by
    intro k hk
    rcases (hm.handed_out k).mp hk with hmem | ⟨t, ht⟩
    · exact hmem
    · have hheld := h.held t
      rw [ht, hquiet t] at hheld
      cases hheld
  have hnodup := hnever.distinct
  rw [h.returned_eq] at hnodup
  have hfirst : 0 ∈ m.done.filter (· % 2 ^ 32 < maxAttributeCount) :=
    List.mem_filter.mpr ⟨hdone 0 (by omega), by decide⟩
  have hround : 2 ^ 32 ∈ m.done.filter (· % 2 ^ 32 < maxAttributeCount) :=
    List.mem_filter.mpr ⟨hdone (2 ^ 32) hnext, by decide⟩
  exact absurd (List.inj_on_of_nodup_map hnodup hfirst hround (by decide)) (by decide)

/-- **Indices are never reused** in a run of at most `2 ^ 32` calls, whatever the order of their
steps; and behind a run of any length, once every call has ended, that is so if and only if there
were no more calls. -/
theorem never_reused_iff (as : List (TicketAction T)) :
    (Tickets.takes as ≤ 2 ^ 32 → ∀ s, RunTo (stepOf step) .init as s → NeverReused s) ∧
    ∀ s, RunTo (stepOf step) .init as s → s.Quiet →
      (NeverReused s ↔ Tickets.takes as ≤ 2 ^ 32) := by
  refine ⟨fun hfew s hrun => ?_, fun s hrun hquiet => ⟨fun hnever => ?_, fun hfew => ?_⟩⟩
  · obtain ⟨m, hm, hsound, hnext⟩ := run_tickets hrun
    exact hm.neverReused hsound (hnext ▸ hfew)
  · obtain ⟨m, hm, hsound, hnext⟩ := run_tickets hrun
    rw [← hnext]
    exact not_lt.mp fun hlt => hm.reused hsound hquiet hlt hnever
  · obtain ⟨m, hm, hsound, hnext⟩ := run_tickets hrun
    exact hm.neverReused hsound (hnext ▸ hfew)

/-- A thread that calls again and again. -/
def calls : ℕ → List (TicketAction Unit)
  | 0 => []
  | n + 1 => .take () :: .leave () :: calls n

lemma takes_calls (n : ℕ) : Tickets.takes (calls n) = n := by
  induction n with
  | zero => rfl
  | succ n ih =>
      rw [Tickets.takes] at ih ⊢
      simp [calls, ih]

/-- It is never kept from it. -/
lemma calls_run (n : ℕ) {s : Allocation Unit} (hs : s.Quiet) :
    ∃ s', RunTo (stepOf step) s (calls n) s' ∧ s'.Quiet := by
  induction n generalizing s with
  | zero => exact ⟨s, rfl, hs⟩
  | succ n ih =>
      have htake := step_take (hs ())
      have hheld : Function.update s.retval () (some s.next_attribute_index__.toNat) ()
          = some s.next_attribute_index__.toNat := Function.update_self () _ _
      obtain ⟨m, hm, hidle⟩ : ∃ m, stepOf step ⟨s.next_attribute_index__ + 1,
          Function.update s.retval () (some s.next_attribute_index__.toNat), s.ended⟩ (.leave ()) m
          ∧ m.Quiet := ⟨_, step_leave (t := ()) hheld, fun u => by cases u; simp⟩
      obtain ⟨s', hrest, hquiet⟩ := ih hidle
      exact ⟨s', ⟨_, htake, m, hm, hrest⟩, hquiet⟩

/-- **After `2 ^ 32` calls the indices begin again**: the first call and the one behind them both
return zero. -/
theorem index_reused : ∃ s, RunTo (stepOf step) .init (calls (2 ^ 32 + 1)) s ∧ ¬ NeverReused s := by
  obtain ⟨s, hrun, hquiet⟩ := calls_run (2 ^ 32 + 1) (s := .init) fun _ => rfl
  obtain ⟨m, hm, hsound, hnext⟩ := run_tickets hrun
  refine ⟨s, hrun, hm.reused hsound hquiet ?_⟩
  rw [hnext, takes_calls]
  exact Nat.lt_succ_self _

end Allocation

end Arachnida.Acari
