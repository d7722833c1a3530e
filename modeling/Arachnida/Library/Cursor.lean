import Mathlib.Tactic

/-!
Buffers that are written from the left through a position of 32 bits, as `buffer[pos++] = a` does.

* `Cursor.put`, `Cursor.putAll`: one element and several; nothing where the position is not one of
  the buffer.
* `behind`: the cursor behind what is written, with what is there to be written over.
* `putAll_behind`: **what is written goes behind what was written before**, as long as the position
  does not wrap.
* `putAll_pos`, `exists_putAll`: where the position is then, and that there is room.
-/

namespace Library

universe u
variable {α : Type u}

/-- A buffer with a position. -/
structure Cursor (α : Type u) where
  buffer : List α
  pos : UInt32

namespace Cursor

/-- `buffer[pos++] = a`. -/
def put (c : Cursor α) (a : α) : Option (Cursor α) :=
  if c.pos.toNat < c.buffer.length then some ⟨c.buffer.set c.pos.toNat a, c.pos + 1⟩ else none

/-- Several elements, one after the other. -/
def putAll (c : Cursor α) (l : List α) : Option (Cursor α) := l.foldlM put c

/-- The cursor behind what is done. -/
def behind (done rest : List α) : Cursor α := ⟨done ++ rest, UInt32.ofNat done.length⟩

variable {done rest : List α}

/-- A position below the width of the counter. -/
lemma toNat_ofNat_lt {n : ℕ} (h : n < 2 ^ 32) : (UInt32.ofNat n).toNat = n := by
  rw [UInt32.toNat_ofNat', Nat.mod_eq_of_lt h]

/-- A position so far behind another. -/
lemma toNat_ofNat_add_lt {n k : ℕ} (h : n + k < 2 ^ 32) :
    (UInt32.ofNat n + UInt32.ofNat k).toNat = n + k := by
  rw [← UInt32.ofNat_add, toNat_ofNat_lt h]

lemma put_behind (h : done.length < 2 ^ 32) (a b : α) :
    (behind done (b :: rest)).put a = some (behind (done ++ [a]) rest) := by
  have hpos : (UInt32.ofNat done.length).toNat = done.length := toNat_ofNat_lt h
  rw [put, behind, if_pos (by simp [hpos])]
  simp only [hpos, behind, List.length_append, List.length_singleton, UInt32.ofNat_add]
  rw [List.set_append_right _ _ le_rfl, Nat.sub_self, List.set_cons_zero, List.append_assoc]
  rfl

/-- **What is written goes behind what was written before.** -/
lemma putAll_behind {l old : List α} (hlength : old.length = l.length)
    (h : done.length + l.length ≤ 2 ^ 32) :
    (behind done (old ++ rest)).putAll l = some (behind (done ++ l) rest) := by
  induction l generalizing done old with
  | nil =>
      obtain rfl := List.length_eq_zero_iff.mp hlength
      simp [putAll]
  | cons a l ih =>
      obtain ⟨b, old, rfl⟩ := List.exists_cons_of_length_eq_add_one hlength
      have hput : (behind done (b :: (old ++ rest))).put a
          = some (behind (done ++ [a]) (old ++ rest)) :=
        put_behind (by simp only [List.length_cons] at h; omega) a b
      have hnext : (behind (done ++ [a]) (old ++ rest)).putAll l
          = some (behind (done ++ [a] ++ l) rest) :=
        ih (by simpa using hlength)
          (by simp only [List.length_cons, List.length_append, List.length_nil] at h ⊢; omega)
      rw [putAll, List.foldlM_cons, List.cons_append, hput]
      rw [putAll, List.append_assoc] at hnext
      exact hnext

/-- The position goes up with every element, and the buffer does not grow. -/
lemma putAll_pos {c c' : Cursor α} {l : List α} (h : c.putAll l = some c') :
    c'.pos = c.pos + UInt32.ofNat l.length ∧ c'.buffer.length = c.buffer.length := by
  induction l generalizing c with
  | nil =>
      obtain rfl := Option.some.inj h
      exact ⟨(UInt32.add_zero _).symm, rfl⟩
  | cons a l ih =>
      rw [putAll, List.foldlM_cons, Option.bind_eq_bind, Option.bind_eq_some_iff] at h
      obtain ⟨m, hput, hrest⟩ := h
      rw [put, Option.ite_none_right_eq_some] at hput
      obtain rfl := Option.some.inj hput.2
      obtain ⟨hpos, hlength⟩ := ih hrest
      refine ⟨?_, by rw [hlength, List.length_set]⟩
      rw [hpos, List.length_cons, Nat.add_comm l.length, UInt32.ofNat_add, ← UInt32.add_assoc]
      rfl

/-- There is room for elements that fit. -/
lemma exists_putAll {c : Cursor α} {l : List α}
    (hroom : c.pos.toNat + l.length ≤ c.buffer.length) (h : c.pos.toNat + l.length < 2 ^ 32) :
    ∃ c', c.putAll l = some c' := by
  induction l generalizing c with
  | nil => exact ⟨c, rfl⟩
  | cons a l ih =>
      rw [List.length_cons] at hroom h
      have hput : c.put a = some ⟨c.buffer.set c.pos.toNat a, c.pos + 1⟩ := by
        rw [put, if_pos (by omega)]
      have hpos : (c.pos + 1).toNat = c.pos.toNat + 1 := by
        rw [UInt32.toNat_add]
        exact Nat.mod_eq_of_lt (by change c.pos.toNat + 1 < 2 ^ 32; omega)
      obtain ⟨c', hc'⟩ := ih (c := ⟨c.buffer.set c.pos.toNat a, c.pos + 1⟩)
        (by rw [List.length_set]; dsimp only; omega) (by dsimp only; omega)
      refine ⟨c', ?_⟩
      rw [putAll, List.foldlM_cons, hput]
      exact hc'

end Cursor

end Library
