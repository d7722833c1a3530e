import Arachnida.Damon.GetResponse

/-!
Reading from a connection, `Spin::Connection::read`, as the code computes it from the results of its
BIO.

* `BIOResult`: what one read of the BIO returns and stores.
* `readFrom`: from the label `read_entry_point` to the `goto` or to the end of the call; `read`: a
  call.
* `read_ends`: **how a call ends**: it has filled whole blocks, and the last result decides.
* `read_counts_iff`: **the bytes are accounted for if and only if no result is negative.**
* `closed_takes_nothing_iff`: **a call that finds the connection closed has taken no bytes if and
  only if its first result does not fill the block.**
-/

namespace Arachnida.Spin

open Library Damon

/-- `Connection::default_read_block_size__`. -/
@[irreducible]
def default_read_block_size : ℕ := 4096

/-- `INT_MAX`. -/
def intMax : ℕ := 2 ^ 31 - 1

/-- The size that a vector of bytes cannot exceed. -/
def maxSize : ℕ := 2 ^ 63 - 1

/-- What `BIO::read` for `n` bytes comes to: its result, the bytes that it has stored and the
flags.  A result that is not positive stores nothing. -/
structure BIOResult (n : ℕ) where
  value : ℤ
  stored : Bytes
  shouldRetry : Bool
  shouldRead : Bool
  shouldWrite : Bool
  value_le : value ≤ n
  le_value : -2 ^ 31 ≤ value
  length_stored : stored.length = value.toNat

/-- The exceptions: what the code throws, the failing assertion, and a vector that cannot grow. -/
inductive ReadException where
  | connectionClosed
  | assertion
  | lengthError
  deriving DecidableEq, Repr

/-- How a call ends, with the results that it has not asked for: not yet, since it waits for a
result of the BIO, with an exception, or with the number of bytes, the reason and the buffer. -/
inductive ReadOutcome (n : ℕ) where
  | waiting
  | threw (x : ReadException) (rest : List (BIOResult n))
  | returned (bytes_read_into_buffer reason : ℕ) (buffer : Bytes) (rest : List (BIOResult n))

/-- The variables of `read`. -/
structure ReadState where
  buffer : Bytes
  start_offset : ℕ
  bytes_read_into_buffer : ℕ
  reason : ℕ
  continue_until_retry : Bool

/-- Bytes stored in the buffer from a position on. -/
def storeAt (buffer : Bytes) (offset : ℕ) (data : Bytes) : Bytes :=
  buffer.take offset ++ data ++ buffer.drop (offset + data.length)

/-- An `int` added to a `std::size_t`. -/
def addInt (size : ℕ) (value : ℤ) : ℕ := ((size + value) % 2 ^ 64).toNat

/-- The flags that are added to the reason of a read that is short. -/
def retryReason {n : ℕ} (r : BIOResult n) : ℕ :=
  Reason.should_retry__.value ||| (if r.shouldRead then Reason.should_read__.value else 0) |||
    (if r.shouldWrite then Reason.should_write__.value else 0)

/-- From the label `read_entry_point` on; one result of the BIO for each pass. -/
def readFrom {n : ℕ} (s : ReadState) : List (BIOResult n) → ReadOutcome n
  | [] => .waiting
  | r :: rest =>
      let bytes_requested := s.buffer.length - s.start_offset
      if intMax ≤ bytes_requested then .threw .assertion (r :: rest)
      else
        let buffer := storeAt s.buffer s.start_offset r.stored
        if r.value < bytes_requested then
          if r.shouldRetry = false ∧ r.value ≤ 0 then .threw .connectionClosed rest
          else .returned (addInt s.bytes_read_into_buffer r.value) (s.reason ||| retryReason r)
            buffer
            rest
        else if s.continue_until_retry then
          if maxSize < buffer.length + default_read_block_size then .threw .lengthError rest
          else
            readFrom ⟨buffer ++ List.replicate default_read_block_size 0, buffer.length,
              buffer.length, s.reason, true⟩ rest
        else .returned buffer.length s.reason buffer rest

/-- The number of bytes that every pass of a call requests. -/
def requested (buffer : Bytes) : ℕ :=
  if buffer = [] then default_read_block_size else buffer.length

/-- `Connection::read` on a connection that has its BIO. -/
def read (buffer : Bytes) (results : List (BIOResult (requested buffer))) :
    ReadOutcome (requested buffer) :=
  if buffer = [] then
    readFrom ⟨List.replicate default_read_block_size 0, 0, 0, Reason.no_error__.value, true⟩ results
  else readFrom ⟨buffer, 0, 0, Reason.no_error__.value, false⟩ results

variable {n : ℕ}

/-- A result with no bytes. -/
def noBytes (value : ℤ) (h : -2 ^ 31 ≤ value ∧ value ≤ 0) (shouldRetry : Bool) : BIOResult n :=
  ⟨value, [], shouldRetry, shouldRetry, false, by omega, h.1, by simp [Int.toNat_of_nonpos h.2]⟩

/-- A result that fills the block. -/
def fullBlock (byte : Byte) : BIOResult n :=
  ⟨n, List.replicate n byte, false, false, false, le_rfl, by omega, by simp⟩

/-- The bytes that the results have stored. -/
def taken (results : List (BIOResult n)) : Bytes := results.flatMap BIOResult.stored

lemma block_pos : 0 < default_read_block_size := by
  rw [default_read_block_size]
  omega

lemma block_lt_intMax : default_read_block_size < intMax := by
  norm_num [default_read_block_size, intMax]

lemma two_blocks_le : default_read_block_size + default_read_block_size ≤ maxSize := by
  norm_num [default_read_block_size, maxSize]

lemma intMax_le_maxSize : intMax ≤ maxSize := by
  norm_num [intMax, maxSize]

@[simp]
lemma taken_nil : taken ([] : List (BIOResult n)) = [] := rfl

@[simp]
lemma taken_cons (r : BIOResult n) (rest : List (BIOResult n)) :
    taken (r :: rest) = r.stored ++ taken rest := rfl

@[simp]
lemma taken_append (l l' : List (BIOResult n)) : taken (l ++ l') = taken l ++ taken l' := by
  simp [taken]

lemma length_taken_of_full {blocks : List (BIOResult n)} (h : ∀ b ∈ blocks, b.value = n) :
    (taken blocks).length = blocks.length * n := by
  induction blocks with
  | nil => simp
  | cons b blocks ih =>
      have hb : b.stored.length = n := by
        rw [b.length_stored, h b (by simp), Int.toNat_natCast]
      rw [taken_cons, List.length_append, ih fun b' hb' => h b' (by simp [hb']), hb,
        List.length_cons]
      ring

/-- The bytes stored behind a part of the buffer. -/
lemma storeAt_append (p z data : Bytes) :
    storeAt (p ++ z) p.length data = p ++ (data ++ z.drop data.length) := by
  rw [storeAt, List.take_left, List.drop_append, List.append_assoc]
  simp

/-! ### How a call ends -/

/-- How a call ends that has stored `p` and goes on with blocks of `n` bytes: it fills whole blocks,
and the next result decides. -/
def Ends (p : Bytes) (results : List (BIOResult n)) : ReadOutcome n → Prop
  | .threw .connectionClosed rest => ∃ blocks r, results = blocks ++ r :: rest ∧
      (∀ b ∈ blocks, b.value = n) ∧ r.value < n ∧ r.value ≤ 0 ∧ r.shouldRetry = false
  | .returned count _ buffer rest => ∃ blocks r z, results = blocks ++ r :: rest ∧
      (∀ b ∈ blocks, b.value = n) ∧ buffer = p ++ taken blocks ++ (r.stored ++ z) ∧
      (p ++ taken blocks).length + n ≤ maxSize ∧
      count = if r.value < n then addInt (p ++ taken blocks).length r.value
        else (p ++ taken blocks).length + n
  | _ => True

/-- A block that has been filled before. -/
lemma Ends.cons {p : Bytes} {r : BIOResult n} {rest : List (BIOResult n)} {out : ReadOutcome n}
    (hr : r.value = n) (h : Ends (p ++ r.stored) rest out) : Ends p (r :: rest) out := by
  unfold Ends at h ⊢
  split at h
  · obtain ⟨blocks, r', rfl, hblocks, hlast⟩ := h
    exact ⟨r :: blocks, r', rfl, List.forall_mem_cons.mpr ⟨hr, hblocks⟩, hlast⟩
  · obtain ⟨blocks, r', z, rfl, hblocks, hlast⟩ := h
    exact ⟨r :: blocks, r', z, rfl, List.forall_mem_cons.mpr ⟨hr, hblocks⟩,
      by simpa only [taken_cons, List.append_assoc] using hlast⟩
  · trivial

lemma BIOResult.length_le (r : BIOResult n) : r.stored.length ≤ n := by
  have := r.value_le
  rw [r.length_stored]
  omega

lemma BIOResult.length_of_full {r : BIOResult n} (h : r.value = n) : r.stored.length = n := by
  rw [r.length_stored, h, Int.toNat_natCast]

/-- From the label on, with `p` stored and a block of `n` bytes to fill. -/
lemma readFrom_ends (results : List (BIOResult n)) : ∀ (p z : Bytes) (reason : ℕ)
    (continue_until_retry : Bool), z.length = n → p = [] ∨ p.length + n ≤ maxSize →
      (continue_until_retry = true → n = default_read_block_size) →
      Ends p results
        (readFrom ⟨p ++ z, p.length, p.length, reason, continue_until_retry⟩ results) := by
  induction results with
  | nil => exact fun _ _ _ _ _ _ _ => trivial
  | cons r rest ih =>
      intro p z reason continue_until_retry hz hsize hblock
      have hrequested : (p ++ z).length - p.length = n := by
        rw [List.length_append]
        omega
      have hstored := r.length_le
      have hlength : (p ++ (r.stored ++ z.drop r.stored.length)).length = p.length + n := by
        simp only [List.length_append, List.length_drop]
        omega
      rw [readFrom]
      simp only [hrequested, storeAt_append]
      by_cases hassert : intMax ≤ n
      · rw [if_pos hassert]
        trivial
      replace hsize : p.length + n ≤ maxSize := by
        obtain rfl | hsize := hsize
        · exact le_trans (by simpa using (not_le.mp hassert).le) intMax_le_maxSize
        · exact hsize
      rw [if_neg hassert]
      by_cases hshort : r.value < n
      · rw [if_pos hshort]
        by_cases hclosed : r.shouldRetry = false ∧ r.value ≤ 0
        · rw [if_pos hclosed]
          exact ⟨[], r, rfl, by simp, hshort, hclosed.2, hclosed.1⟩
        · rw [if_neg hclosed]
          refine ⟨[], r, z.drop r.stored.length, rfl, by simp, by simp, by simpa using hsize, ?_⟩
          rw [if_pos hshort, taken_nil, List.append_nil]
      have hvalue : r.value = n := le_antisymm r.value_le (not_lt.mp hshort)
      have hr := BIOResult.length_of_full hvalue
      rw [if_neg hshort]
      by_cases hcontinue : continue_until_retry = true
      · -- the block is full: the next one is behind it
        rw [if_pos hcontinue]
        by_cases hfull : maxSize < (p ++ (r.stored ++ z.drop r.stored.length)).length
            + default_read_block_size
        · rw [if_pos hfull]
          trivial
        have hdrop : z.drop r.stored.length = [] := by
          rw [List.drop_eq_nil_iff]
          omega
        have hblock' := hblock hcontinue
        rw [if_neg hfull, hdrop, List.append_nil]
        rw [hlength] at hfull
        refine Ends.cons hvalue (ih (p ++ r.stored) _ reason true ?_ (.inr ?_) fun _ => hblock')
        · rw [List.length_replicate, hblock']
        · rw [List.length_append]
          omega
      · -- the call asked for this block only
        rw [if_neg hcontinue]
        refine ⟨[], r, z.drop r.stored.length, rfl, by simp, by simp, by simpa using hsize, ?_⟩
        rw [if_neg hshort, hlength, taken_nil, List.append_nil]

/-- **How a call ends**: it has filled whole blocks, and the last result decides. -/
theorem read_ends (buffer : Bytes) (results : List (BIOResult (requested buffer))) :
    Ends [] results (read buffer results) := by
  by_cases h : buffer = []
  · have hn : requested buffer = default_read_block_size := if_pos h
    rw [read, if_pos h]
    exact readFrom_ends results [] (List.replicate default_read_block_size 0) _ true
      (by rw [List.length_replicate, hn]) (.inl rfl) fun _ => hn
  · have hn : requested buffer = buffer.length := if_neg h
    rw [read, if_neg h]
    exact readFrom_ends results [] buffer _ false hn.symm (.inl rfl) (by simp)

lemma requested_pos (buffer : Bytes) : 0 < requested buffer := by
  unfold requested
  split_ifs with h
  · exact block_pos
  · exact List.length_pos_of_ne_nil h

/-- What the results store that fill whole blocks and are followed by one more. -/
lemma taken_last {blocks consumed rest : List (BIOResult n)} {r : BIOResult n}
    (h : consumed ++ rest = blocks ++ r :: rest) :
    consumed = blocks ++ [r] ∧ taken consumed = taken blocks ++ r.stored := by
  obtain rfl : consumed = blocks ++ [r] := by
    have : consumed ++ rest = blocks ++ [r] ++ rest := by
      rw [h, List.append_assoc]
      rfl
    exact List.append_cancel_right this
  exact ⟨rfl, by simp⟩

lemma BIOResult.stored_eq_nil {r : BIOResult n} (h : r.value ≤ 0) : r.stored = [] := by
  rw [← List.length_eq_zero_iff, r.length_stored]
  omega

/-- A result that is not negative counts what it has stored. -/
lemma addInt_value {size : ℕ} {r : BIOResult n} (hsize : size + n ≤ maxSize) (hr : 0 ≤ r.value) :
    addInt size r.value = size + r.stored.length := by
  have hle := r.value_le
  rw [maxSize] at hsize
  rw [addInt, Int.emod_eq_of_lt (by omega) (by omega), r.length_stored]
  omega

/-- A negative result is never counted as nothing. -/
lemma addInt_value_ne {size : ℕ} {r : BIOResult n} (hr : r.value < 0) :
    addInt size r.value ≠ size := by
  have hle := r.le_value
  unfold addInt
  omega

/-- **The bytes of a call are accounted for if and only if no read of the BIO has a negative
result**: a negative one is added to the total as it is. -/
theorem read_counts_iff {buffer : Bytes} {consumed rest : List (BIOResult (requested buffer))}
    {count reason : ℕ} {buffer' : Bytes}
    (h : read buffer (consumed ++ rest) = .returned count reason buffer' rest) :
    (count = (taken consumed).length ∧ buffer'.take count = taken consumed) ↔
      ∀ r ∈ consumed, 0 ≤ r.value := by
  obtain ⟨blocks, r, z, hconsumed, hblocks, rfl, hsize, rfl⟩ :
      Ends [] (consumed ++ rest) (.returned count reason buffer' rest) := h ▸ read_ends buffer _
  obtain ⟨rfl, htaken⟩ := taken_last hconsumed
  simp only [List.nil_append] at hsize ⊢
  rw [htaken, List.length_append, ← List.append_assoc]
  constructor
  · rintro ⟨hcount, -⟩ b hb
    by_contra! hneg
    obtain hb | hb := List.mem_append.mp hb
    · rw [hblocks b hb] at hneg
      omega
    · obtain rfl := List.mem_singleton.mp hb
      rw [if_pos (by omega), BIOResult.stored_eq_nil hneg.le] at hcount
      exact addInt_value_ne hneg hcount
  · intro hnonneg
    have hr : 0 ≤ r.value := hnonneg r (by simp)
    have hcount : (if r.value < requested buffer then addInt (taken blocks).length r.value
        else (taken blocks).length + requested buffer)
          = (taken blocks).length + r.stored.length := by
      split_ifs with hshort
      · exact addInt_value hsize hr
      · rw [BIOResult.length_of_full (le_antisymm r.value_le (not_lt.mp hshort))]
    rw [hcount]
    exact ⟨rfl, by rw [← List.length_append, List.take_left]⟩

/-- A result with two bytes, behind which there are no more yet. -/
def twoBytes (h : 2 ≤ n) : BIOResult n :=
  ⟨2, [66, 67], true, true, false, by omega, by omega, rfl⟩

lemma two_le_block : 2 ≤ requested [] := by
  norm_num [requested, default_read_block_size]

/-- A block, and two bytes of the next one. -/
theorem read_counts_block : ∃ reason buffer',
    read [] [fullBlock 65, twoBytes two_le_block]
      = .returned (default_read_block_size + 2) reason buffer' [] ∧
    buffer'.take (default_read_block_size + 2)
      = List.replicate default_read_block_size 65 ++ [66, 67] := by
  have hshort : (2 : ℤ) < default_read_block_size := by norm_num [default_read_block_size]
  have hcount : addInt default_read_block_size 2 = default_read_block_size + 2 := by
    rw [addInt, default_read_block_size]
    rfl
  obtain ⟨reason, buffer', hread⟩ : ∃ reason buffer',
      read [] [fullBlock 65, twoBytes two_le_block]
        = .returned (default_read_block_size + 2) reason buffer' [] := by
    simp [read, readFrom, twoBytes, fullBlock, storeAt, requested, hshort, hcount,
      not_le.mpr block_lt_intMax, not_lt.mpr two_blocks_le]
  have hboth := (@read_counts_iff [] [fullBlock 65, twoBytes two_le_block] [] _ _ _ hread).mpr
    (by simp [fullBlock, twoBytes])
  refine ⟨reason, buffer', hread, hboth.2.trans ?_⟩
  simp [fullBlock, twoBytes, requested]

/-- Nothing to read yet: `-1` is taken for the largest number of bytes. -/
theorem read_counts_fails : ¬ ∀ (buffer : Bytes)
    (consumed rest : List (BIOResult (requested buffer))) (count reason : ℕ) (buffer' : Bytes),
    read buffer (consumed ++ rest) = .returned count reason buffer' rest →
      count = (taken consumed).length ∧ buffer'.take count = taken consumed := by
  intro h
  have hread : read [] [noBytes (-1) (by decide) true]
      = .returned (2 ^ 64 - 1) 3 (List.replicate default_read_block_size 0) [] := by
    have hshort : (-1 : ℤ) < default_read_block_size := by omega
    simp [read, readFrom, noBytes, storeAt, addInt, retryReason, Reason.value, hshort,
      not_le.mpr block_lt_intMax]
  have := (h [] [_] [] _ _ _ hread).1
  simp [noBytes] at this

/-- **A call that finds the connection closed has taken no bytes if and only if its first result
does not fill the block**: a block that has been filled before is lost. -/
theorem closed_takes_nothing_iff {buffer : Bytes}
    {consumed rest : List (BIOResult (requested buffer))}
    (h : read buffer (consumed ++ rest) = .threw .connectionClosed rest) :
    taken consumed = [] ↔ ∀ r ∈ (consumed ++ rest).head?, r.value < requested buffer := by
  obtain ⟨blocks, r, hconsumed, hblocks, hr, hr0, -⟩ :
      Ends [] (consumed ++ rest) (.threw .connectionClosed rest) := h ▸ read_ends buffer _
  obtain ⟨rfl, htaken⟩ := taken_last hconsumed
  rw [htaken, BIOResult.stored_eq_nil hr0, List.append_nil]
  cases blocks with
  | nil => simpa using hr
  | cons b blocks =>
      have hb := hblocks b (by simp)
      have hne : taken (b :: blocks) ≠ [] := by
        rw [Ne, ← List.length_eq_zero_iff, length_taken_of_full hblocks, List.length_cons]
        have := requested_pos buffer
        positivity
      exact iff_of_false hne (by simp [hb])

/-- A block, and the end of file behind it. -/
lemma read_block_closed : read [] [fullBlock 65, noBytes 0 (by decide) false]
    = .threw .connectionClosed [] := by
  simp [read, readFrom, noBytes, fullBlock, storeAt, requested, block_pos,
    not_le.mpr block_lt_intMax, not_lt.mpr two_blocks_le]

/-- The block has been taken. -/
theorem closed_takes_nothing_block :
    taken [(fullBlock 65 : BIOResult (requested [])), noBytes 0 (by decide) false] ≠ [] := by
  intro hnothing
  have hfirst := (@closed_takes_nothing_iff [] [fullBlock 65, noBytes 0 (by decide) false] []
    read_block_closed).mp hnothing (fullBlock 65) rfl
  simp [fullBlock] at hfirst

theorem closed_takes_bytes : ¬ ∀ (buffer : Bytes)
    (consumed rest : List (BIOResult (requested buffer))),
    read buffer (consumed ++ rest) = .threw .connectionClosed rest → taken consumed = [] := by
  intro h
  have htaken := h [] [_, _] [] read_block_closed
  simp [fullBlock, noBytes, requested, block_pos.ne'] at htaken

end Arachnida.Spin
