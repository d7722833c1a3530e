import Arachnida.Library.Cursor
import Arachnida.Library.Loop

/-!
Which elements of its input a loop reads, and which of its output it writes.

* `Accesses`: positions read and written; `Accesses.Once`: none of them twice, and all of them in
  their buffers.
* `upTo`: everything up to a position of either buffer.
* `logged`: a loop with the accesses of all its passes; `Returns.of_logged`: it returns what the
  loop returns.
* `Returns.repeats`: **a loop that gets to where its accesses begin again** has done something twice
  before it returns anything.
* `positions`: the positions of a counter of 32 bits.
-/

namespace Library

universe u v
variable {σ : Type u} {ρ : Type v}

/-- Positions that are read, and positions that are written. -/
@[ext]
structure Accesses where
  reads : List ℕ
  writes : List ℕ
  deriving DecidableEq, Repr

namespace Accesses

/-- Accesses behind others. -/
def append (a b : Accesses) : Accesses := ⟨a.reads ++ b.reads, a.writes ++ b.writes⟩

/-- Nothing is read or written twice, or outside its buffer. -/
structure Once (a : Accesses) (input output : ℕ) : Prop where
  reads_once : a.reads.Nodup
  reads_lt : ∀ i ∈ a.reads, i < input
  writes_once : a.writes.Nodup
  writes_lt : ∀ i ∈ a.writes, i < output

/-- Everything up to a position of the input, and up to a position of the output. -/
def upTo (m n : ℕ) : Accesses := ⟨List.range m, List.range n⟩

lemma upTo_once {m n input output : ℕ} (hm : m ≤ input) (hn : n ≤ output) :
    (upTo m n).Once input output where
  reads_once := List.nodup_range
  reads_lt := fun _ hi => (List.mem_range.mp hi).trans_le hm
  writes_once := List.nodup_range
  writes_lt := fun _ hi => (List.mem_range.mp hi).trans_le hn

/-- The accesses go on where they have got to. -/
lemma upTo_append (m n j k : ℕ) :
    (upTo m n).append ⟨List.range' m j, List.range' n k⟩ = upTo (m + j) (n + k) := by
  have hrange : ∀ m j, List.range m ++ List.range' m j = List.range (m + j) := by
    intro m j
    rw [List.range_eq_range', List.range_eq_range', ← List.range'_append_1, Nat.zero_add]
  rw [append, upTo, upTo, hrange, hrange]

/-- What was read twice stays read twice. -/
lemma not_nodup_append_left {l : List ℕ} (h : ¬ l.Nodup) (m : List ℕ) : ¬ (l ++ m).Nodup :=
  fun hnodup => h (hnodup.sublist (List.sublist_append_left l m))

/-- A position that comes again. -/
lemma not_nodup_append {l m : List ℕ} {i : ℕ} (hl : i ∈ l) (hm : i ∈ m) : ¬ (l ++ m).Nodup := by
  intro hnodup
  exact (List.nodup_append.mp hnodup).2.2 i hl i hm rfl

end Accesses

/-! ### Loops -/

/-- A loop with the accesses of its passes. -/
def logged (pass : σ → σ ⊕ ρ) (accesses : σ → Accesses) (s : σ × Accesses) :
    (σ × Accesses) ⊕ (ρ × Accesses) :=
  (pass s.1).map (·, s.2.append (accesses s.1)) (·, s.2.append (accesses s.1))

variable {pass : σ → σ ⊕ ρ} {accesses : σ → Accesses} {s s' : σ} {r : ρ} {a b : Accesses}

lemma logged_of_inl (h : pass s = .inl s') :
    logged pass accesses (s, a) = .inl (s', a.append (accesses s)) := by
  rw [logged, h]
  rfl

lemma logged_of_inr (h : pass s = .inr r) :
    logged pass accesses (s, a) = .inr (r, a.append (accesses s)) := by
  rw [logged, h]
  rfl

/-- What a pass does to the log. -/
lemma log_of_inl {s s' : σ × Accesses} (h : logged pass accesses s = .inl s') :
    pass s.1 = .inl s'.1 ∧ s'.2 = s.2.append (accesses s.1) := by
  rw [logged] at h
  cases hp : pass s.1 with
  | inl t =>
      rw [hp] at h
      obtain rfl := Sum.inl.inj h
      exact ⟨rfl, rfl⟩
  | inr r =>
      rw [hp] at h
      cases h

/-- What the last pass does to it. -/
lemma log_of_inr {s : σ × Accesses} {r : ρ × Accesses} (h : logged pass accesses s = .inr r) :
    pass s.1 = .inr r.1 ∧ r.2 = s.2.append (accesses s.1) := by
  rw [logged] at h
  cases hp : pass s.1 with
  | inl t =>
      rw [hp] at h
      cases h
  | inr t =>
      rw [hp] at h
      obtain rfl := Sum.inr.inj h
      exact ⟨rfl, rfl⟩

/-- The log does not change what is returned. -/
lemma Returns.of_logged (h : Returns (logged pass accesses) (s, a) (r, b)) : Returns pass s r := by
  obtain ⟨n, hn⟩ := h
  refine ⟨n, ?_⟩
  induction n generalizing s a with
  | zero => cases hn
  | succ n ih =>
      rw [iterate] at hn ⊢
      cases hp : pass s with
      | inl s' =>
          rw [logged_of_inl hp] at hn
          exact ih hn
      | inr r' =>
          rw [logged_of_inr hp] at hn
          obtain rfl : r' = r := congrArg Prod.fst (Sum.inr.inj hn)
          rfl

/-- **A loop that begins again**: in `n` passes it either fails or gets to where the next accesses,
of the kind that `f` picks, repeat one of those before. -/
theorem Returns.repeats {β : Type v} {pass : σ → σ ⊕ Option β} {I : ℕ → σ × Accesses → Prop}
    {f : Accesses → List ℕ} (happend : ∀ a b, f (a.append b) = f a ++ f b) {n : ℕ}
    (next : ∀ k s, k < n → I k s → pass s.1 = .inr none ∨
      ∃ s', pass s.1 = .inl s' ∧ I (k + 1) (s', s.2.append (accesses s.1)))
    (wraps : ∀ s, I n s → ¬ (f (s.2.append (accesses s.1))).Nodup)
    {r : Option β} {b : Accesses} (h : Returns (logged pass accesses) (s, a) (r, b))
    (hs : I 0 (s, a)) : r = none ∨ ¬ (f b).Nodup := by
  have htwice : ∀ s : σ × Accesses, ¬ (f s.2).Nodup → ¬ (f (s.2.append (accesses s.1))).Nodup := by
    intro s hs
    rw [happend]
    exact Accesses.not_nodup_append_left hs _
  refine h.invariant (I := fun s => (∃ k ≤ n, I k s) ∨ ¬ (f s.2).Nodup)
    (Q := fun r => r.1 = none ∨ ¬ (f r.2).Nodup) ?_ ?_ (.inl ⟨0, Nat.zero_le n, hs⟩)
  · rintro s s' (⟨k, hk, hs⟩ | hs) hnext
    · obtain ⟨hpass, hlog⟩ := log_of_inl hnext
      rcases hk.lt_or_eq with hlt | rfl
      · rcases next k s hlt hs with hnone | ⟨m, hm, hmore⟩
        · rw [hnone] at hpass
          cases hpass
        · obtain rfl := Sum.inl.inj (hm.symm.trans hpass)
          rw [← hlog] at hmore
          exact .inl ⟨k + 1, hlt, hmore⟩
      · rw [hlog]
        exact .inr (wraps s hs)
    · rw [(log_of_inl hnext).2]
      exact .inr (htwice s hs)
  · rintro s r (⟨k, hk, hs⟩ | hs) hend
    · obtain ⟨hpass, hlog⟩ := log_of_inr hend
      rcases hk.lt_or_eq with hlt | rfl
      · rcases next k s hlt hs with hnone | ⟨m, hm, -⟩
        · exact .inl (Sum.inr.inj (hpass.symm.trans hnone))
        · rw [hm] at hpass
          cases hpass
      · rw [hlog]
        exact .inr (wraps s hs)
    · rw [(log_of_inr hend).2]
      exact .inr (htwice s hs)

/-! ### Counters -/

/-- So many positions of a counter. -/
def positions (pos : UInt32) (n : ℕ) : List ℕ :=
  (List.range n).map fun i => (pos + UInt32.ofNat i).toNat

/-- They follow each other as long as the counter does not wrap. -/
lemma positions_ofNat {p n : ℕ} (h : p + n ≤ 2 ^ 32) :
    positions (UInt32.ofNat p) n = List.range' p n := by
  rw [positions, List.range'_eq_map_range]
  refine List.map_congr_left fun i hi => ?_
  have hlt := List.mem_range.mp hi
  exact Cursor.toNat_ofNat_add_lt (by omega)

/-- The first of them is the position itself. -/
lemma mem_positions (pos : UInt32) {n : ℕ} (h : 0 < n) : pos.toNat ∈ positions pos n := by
  refine List.mem_map.mpr ⟨0, List.mem_range.mpr h, ?_⟩
  exact congrArg UInt32.toNat (UInt32.add_zero pos)

end Library
