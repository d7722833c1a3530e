import Arachnida.Library.Bytes

/-!
Writing to the pipe that wakes the worker (`lib/Spin/Private/Pipe.cpp`): what `Pipe::write` puts on
the wire for any results of `::send`.

* `write`: the `do … while`, each turn of which offers what is left to be sent **from the start of
  the buffer**.
* `write_pieces`: what a call that returns has had accepted.
* `write_iff`: **the buffer is sent byte by byte if and only if the first `::send` takes it all**;
  the bytes on the wire are those of the buffer if and only if the buffer repeats itself.
-/

namespace Arachnida.Spin.Private

open Library

/-- How a call of `Pipe::write` ends: it waits for a result of `::send`, throws, or returns with so
many bytes accepted by each `::send`. -/
inductive WriteOutcome where
  | waiting
  | threw
  | returned (pieces : List ℕ)
  deriving DecidableEq, Repr

/-- The `do … while`, for a `count`; `none` is the result `-1`. -/
def writeFrom (count : ℕ) (pieces : List ℕ) : List (Option ℕ) → WriteOutcome
  | [] => .waiting
  | none :: _ => .threw
  | some bytes_sent :: results =>
      let count := count - bytes_sent
      let pieces := pieces ++ [bytes_sent]
      if count = 0 then .returned pieces else writeFrom count pieces results

/-- `Pipe::write`. -/
def write (count : ℕ) (results : List (Option ℕ)) : WriteOutcome := writeFrom count [] results

/-- The results that `::send` may have: an error, or some of the bytes that are offered. -/
def MaySend : ℕ → List (Option ℕ) → Prop
  | _, [] => True
  | count, none :: results => MaySend count results
  | count, some k :: results => k ≤ count ∧ (count = 0 ∨ 1 ≤ k) ∧ MaySend (count - k) results

/-- The bytes that are accepted, for pieces that all begin where the buffer begins. -/
def wire (buffer : Bytes) (pieces : List ℕ) : Bytes := pieces.flatMap fun k => buffer.take k

/-- The positions in the buffer of the bytes that are accepted. -/
def positions (pieces : List ℕ) : List ℕ := pieces.flatMap List.range

/-- From a position on, every piece of the buffer is also its beginning. -/
def Repeats (buffer : Bytes) : ℕ → List ℕ → Prop
  | _, [] => True
  | start, k :: pieces => (buffer.drop start).take k = buffer.take k ∧
      Repeats buffer (start + k) pieces

/-! ### The pieces -/

/-- **The pieces of a call that returns** make up as many bytes as the buffer has, and none of them
is empty unless the buffer is. -/
lemma writeFrom_pieces {count : ℕ} {pieces pieces' : List ℕ} {results : List (Option ℕ)}
    (hmay : MaySend count results) (h : writeFrom count pieces results = .returned pieces') :
    ∃ l, pieces' = pieces ++ l ∧ l.sum = count ∧ (l = [0] ∨ l ≠ [] ∧ ∀ k ∈ l, 1 ≤ k) := by
  induction results generalizing count pieces with
  | nil => cases h
  | cons r results ih =>
      cases r with
      | none => cases h
      | some k =>
          obtain ⟨hle, hpos, hrest⟩ := hmay
          simp only [writeFrom] at h
          split at h
          · next hzero =>
              cases h
              refine ⟨[k], rfl, ?_, ?_⟩
              · rw [List.sum_singleton]
                omega
              · rcases hpos with hempty | hk
                · exact .inl (by rw [show k = 0 by omega])
                · exact .inr ⟨by simp, by simpa using hk⟩
          · next hmore =>
              obtain ⟨l, rfl, hsum, hl⟩ := ih hrest h
              refine ⟨k :: l, by simp, ?_, .inr ⟨by simp, ?_⟩⟩
              · rw [List.sum_cons, hsum]
                omega
              · rcases hl with rfl | ⟨-, hall⟩
                · exact absurd hsum.symm hmore
                · exact List.forall_mem_cons.mpr ⟨by omega, hall⟩

lemma write_pieces {count : ℕ} {pieces : List ℕ} {results : List (Option ℕ)}
    (hmay : MaySend count results) (h : write count results = .returned pieces) :
    pieces.sum = count ∧ (pieces = [0] ∨ pieces ≠ [] ∧ ∀ k ∈ pieces, 1 ≤ k) := by
  obtain ⟨l, rfl, hrest⟩ := writeFrom_pieces hmay h
  exact hrest

/-- The first piece is all of it only if it is the only one. -/
lemma head_iff {pieces : List ℕ} (h : pieces = [0] ∨ pieces ≠ [] ∧ ∀ k ∈ pieces, 1 ≤ k) :
    pieces.head? = some pieces.sum ↔ pieces = [pieces.sum] := by
  constructor
  · intro hhead
    match pieces, h with
    | [], h => simp at h
    | [k], _ => simp
    | k :: l :: rest, h =>
        have hl : 1 ≤ l := by simpa using (h.resolve_left (by simp)).2 l (by simp)
        simp only [List.head?_cons, List.sum_cons, Option.some.injEq] at hhead
        omega
  · intro hone
    rw [hone]
    simp

/-! ### What is on the wire -/

/-- The wire has what the buffer has from a position on exactly if the buffer repeats itself. -/
lemma wire_iff (buffer : Bytes) (pieces : List ℕ) : ∀ start, start + pieces.sum = buffer.length →
    (wire buffer pieces = buffer.drop start ↔ Repeats buffer start pieces) := by
  induction pieces with
  | nil =>
      intro start hsum
      have hdrop : buffer.drop start = [] := List.drop_eq_nil_of_le (by simp at hsum; omega)
      simp [wire, Repeats, hdrop]
  | cons k pieces ih =>
      intro start hsum
      rw [List.sum_cons] at hsum
      have hsplit : buffer.drop start
          = (buffer.drop start).take k ++ buffer.drop (start + k) := by
        rw [← List.drop_drop, List.take_append_drop]
      have hlength : (buffer.take k).length = ((buffer.drop start).take k).length := by
        simp only [List.length_take, List.length_drop]
        omega
      calc wire buffer (k :: pieces) = buffer.drop start
          ↔ buffer.take k ++ wire buffer pieces
              = (buffer.drop start).take k ++ buffer.drop (start + k) := by
            rw [← hsplit]
            rfl
        _ ↔ buffer.take k = (buffer.drop start).take k ∧
              wire buffer pieces = buffer.drop (start + k) :=
            ⟨fun h => List.append_inj h hlength, fun h => by rw [h.1, h.2]⟩
        _ ↔ Repeats buffer start (k :: pieces) := by
            rw [ih (start + k) (by omega), Repeats, eq_comm (a := buffer.take k)]

/-- Several pieces do not go through the positions in order: the second one begins at the first
position again. -/
lemma positions_ne {k l : ℕ} (hk : 1 ≤ k) (hl : 1 ≤ l) (rest : List ℕ) (n : ℕ) :
    positions (k :: l :: rest) ≠ List.range n := by
  intro h
  have hcons : positions (k :: l :: rest) = List.range k ++ (List.range l ++ positions rest) := rfl
  have hat : (positions (k :: l :: rest))[k]? = some 0 := by
    rw [hcons, List.getElem?_append_right (by simp), List.length_range, Nat.sub_self,
      List.getElem?_append_left (by rw [List.length_range]; omega), List.getElem?_range (by omega)]
  rw [h] at hat
  obtain ⟨hlt, hzero⟩ := List.getElem?_eq_some_iff.mp hat
  rw [List.getElem_range] at hzero
  omega

/-- **What `Pipe::write` puts on the wire**: for every buffer and all results that `::send` may
have, a call that returns has sent each byte of the buffer once and in order if and only if the
first `::send` has taken them all, and the bytes on the wire are those of the buffer if and only if
the buffer repeats its beginning at every piece. -/
theorem write_iff (buffer : Bytes) {results : List (Option ℕ)} {pieces : List ℕ}
    (hmay : MaySend buffer.length results)
    (h : write buffer.length results = .returned pieces) :
    ((wire buffer pieces = buffer ∧ positions pieces = List.range buffer.length) ↔
      pieces.head? = some buffer.length) ∧
      (wire buffer pieces = buffer ↔ Repeats buffer 0 pieces) := by
  obtain ⟨hsum, hpieces⟩ := write_pieces hmay h
  refine ⟨?_, by simpa using wire_iff buffer pieces 0 (by omega)⟩
  rw [← hsum, head_iff hpieces]
  constructor
  · rintro ⟨-, hrange⟩
    match pieces, hpieces with
    | [], hpieces => simp at hpieces
    | [k], _ => simp
    | k :: l :: rest, hpieces =>
        have hall := (hpieces.resolve_left (by simp)).2
        exact absurd hrange (positions_ne (hall k (by simp)) (hall l (by simp)) rest _)
  · intro hone
    have hwire : wire buffer [pieces.sum] = buffer := by
      rw [hsum]
      simp [wire]
    have hrange : positions [pieces.sum] = List.range pieces.sum := by simp [positions]
    exact ⟨hone ▸ hwire, by rw [hone, hrange, List.sum_singleton]⟩

/-- A buffer that repeats its beginning, sent in three pieces: the wire has its bytes, but each of
them comes from the first two positions. -/
theorem write_iff_repeats : wire [7, 8, 7, 8, 7] [2, 2, 1] = [7, 8, 7, 8, 7] ∧
    positions [2, 2, 1] ≠ List.range 5 := by
  have hmay : MaySend 5 [some 2, some 2, some 1] :=
    ⟨by decide, by decide, by decide, by decide, by decide, by decide, trivial⟩
  obtain ⟨hall, hwire⟩ := write_iff [7, 8, 7, 8, 7] hmay
    (show write 5 [some 2, some 2, some 1] = .returned [2, 2, 1] from rfl)
  have hsent : wire [7, 8, 7, 8, 7] [2, 2, 1] = [7, 8, 7, 8, 7] :=
    hwire.mpr ⟨by decide, by decide, by decide, trivial⟩
  exact ⟨hsent, fun hrange => absurd (hall.mp ⟨hsent, hrange⟩) (by decide)⟩

/-- Two bytes that are sent one at a time: the first one is sent twice. -/
theorem write_sent_twice : MaySend 2 [some 1, some 1] ∧
    write 2 [some 1, some 1] = .returned [1, 1] ∧ wire [7, 8] [1, 1] = [7, 7] ∧
    wire [7, 8] [1, 1] ≠ [7, 8] := by
  refine ⟨⟨by decide, by decide, by decide, by decide, trivial⟩, rfl, by decide, by decide⟩

/-- **A notification is one byte**, which is sent as it is. -/
theorem write_notification (sync : Byte) {results : List (Option ℕ)} {pieces : List ℕ}
    (hmay : MaySend 1 results) (h : write 1 results = .returned pieces) :
    wire [sync] pieces = [sync] := by
  obtain ⟨hsum, hpieces⟩ := write_pieces hmay h
  match pieces, hpieces with
  | [], hpieces => simp at hpieces
  | [k], _ =>
      obtain rfl : k = 1 := by simpa using hsum
      rfl
  | k :: l :: rest, hpieces =>
      have hall := (hpieces.resolve_left (by simp)).2
      have hk := hall k (by simp)
      have hl := hall l (by simp)
      simp only [List.sum_cons] at hsum
      omega

end Arachnida.Spin.Private
