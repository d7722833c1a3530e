import Arachnida.Damon.Session
import Arachnida.Spin.ConnectionWrite

/-!
What becomes of the requests on their way through `Spin::Connection::write`, whose result
`Damon::send` does not look at.

* `BIOEndpoint`: the other ends of connections, with the results of the BIO's writes;
  `BIOEndpoint.network`: as `send` sees them.
* `GoesOn`: a call of `send` goes on to `getResponse`.
* `SentWhole`: the BIO has accepted all of every request.
* `writes_accounted_iff`: **writes are accounted for, and requests sent whole, if and only if the
  BIO never asks for another try**: with a negative result for the first, with any for the second.

The assertion on the size of the data, in `write`, is taken as compiled in, unlike those of `send`:
behind it the size is made an `int`, which keeps it only where the assertion holds.  Data that it
rejects are not written.
-/

namespace Arachnida.Damon

open Library Spin

variable {E : Type*}

/-- The other ends of connections, with the results of writing to their BIO. -/
structure BIOEndpoint (E : Type*) extends Peer E where
  usable : E → Bool
  write : E → (data : Bytes) → WriteResult data.length × E

namespace BIOEndpoint

variable (P : BIOEndpoint E)

/-- `Connection::write`: how it ends, and the other end behind it. -/
def connectionWrite (e : E) (data : Bytes) : WriteOutcome × E :=
  (Spin.write data (P.write e data).1,
    if data = [] ∨ intMax ≤ data.length then e else (P.write e data).2)

/-- The connections as `send` sees them: the result of a write that returns is not looked at. -/
def network : Network E where
  toPeer := P.toPeer
  usable := P.usable
  write := fun e data =>
    match P.connectionWrite e data with
    | (.returned _ _, e) => (true, e)
    | (.threw _, e) => (false, e)

/-- The result of the BIO for data that were handed to the connection. -/
def result (w : Written E) : WriteResult w.data.length := (P.write w.connection.peer w.data).1

/-- The bytes that the BIO has accepted. -/
def accepted (w : Written E) : Bytes := w.data.take (P.result w).accepted

end BIOEndpoint

/-- A call of `send` goes on to `getResponse`, behind these writes. -/
def GoesOn (N : Network E) (session : Session E) (attempts : List (Option E))
    (requests : List Request) (written : List (Written E)) : Prop :=
  ∃ request rest c u session' c', requests = request :: rest ∧
    prepare N session request attempts = some (.ok (c, u), session') ∧
      writeAll N c requests = (written, none, c')

/-- For each request, in order, the BIO has accepted all of `serialize(request)`. -/
def SentWhole (P : BIOEndpoint E) (requests : List Request) (written : List (Written E)) : Prop :=
  List.Forall₂ (fun request w => w.request = request ∧ request.serialize = .ok (P.accepted w))
    requests written

/-! ### Calls that go on -/

section Network

variable {N : Network E} {session : Session E} {attempts : List (Option E)}

/-- There is no response before a request is written. -/
lemma prepare_error {request : Request} {e : SendError} {session' : Session E}
    (h : prepare N session request attempts = some (.error e, session')) (x : Exception) :
    e ≠ .response x := by
  rintro rfl
  rw [prepare] at h
  split at h
  · simp at h
  · split at h <;> simp at h

/-- A request that is not written is not answered. -/
lemma writeAll_error {requests : List Request} {c c' : Connection E} {written : List (Written E)}
    {e : SendError} (h : writeAll N c requests = (written, some e, c')) (x : Exception) :
    e ≠ .response x := by
  rintro rfl
  induction requests generalizing c written with
  | nil => simp [writeAll] at h
  | cons request requests ih =>
      rw [writeAll] at h
      split at h
      · simp at h
      · dsimp only at h
        split at h
        · exact ih (Prod.ext rfl (Prod.mk.inj h).2)
        · simp at h

/-- Where no write fails, every request is handed over, in order. -/
lemma writeAll_none {requests : List Request} {c c' : Connection E} {written : List (Written E)}
    (h : writeAll N c requests = (written, none, c')) :
    List.Forall₂ (fun request w => w.request = request ∧ request.serialize = .ok w.data ∧
      (N.write w.connection.peer w.data).1 = true) requests written := by
  induction requests generalizing c written with
  | nil =>
      obtain ⟨rfl, -⟩ := Prod.mk.inj h
      exact .nil
  | cons request requests ih =>
      rw [writeAll] at h
      split at h
      · simp at h
      · next data hdata =>
          dsimp only at h
          split at h
          · next hw =>
              obtain ⟨rfl, hrest⟩ := Prod.mk.inj h
              exact .cons ⟨rfl, hdata, hw⟩ (ih (Prod.ext rfl hrest))
          · simp at h

/-- **A call that has responses, or an exception of `getResponse`, has gone on.** -/
lemma SendAll.goesOn {requests : List Request} {r : SendResult E}
    (h : SendAll N session attempts requests r) (hrequests : requests ≠ [])
    (hresult : ∀ e, r.result = .error e → ∃ x, e = .response x) :
    GoesOn N session attempts requests r.written := by
  cases h with
  | empty => exact absurd rfl hrequests
  | unprepared hprep =>
      obtain ⟨x, rfl⟩ := hresult _ rfl
      exact absurd rfl (prepare_error hprep x)
  | unwritten hprep hwrite =>
      obtain ⟨x, rfl⟩ := hresult _ rfl
      exact absurd rfl (writeAll_error hwrite x)
  | answered hprep hwrite => exact ⟨_, _, _, _, _, _, rfl, hprep, hwrite⟩

end Network

/-! ### What is accepted -/

variable {P : BIOEndpoint E}

/-- The data of a write that returns are accepted if and only if the BIO does not ask for the
rest. -/
lemma accepted_iff {w : Written E}
    (h : (P.network.write w.connection.peer w.data).1 = true) :
    P.accepted w = w.data ↔ ¬ (P.result w).Unfinished := by
  obtain ⟨size, reason, hreturned⟩ :
      ∃ size reason, Spin.write w.data (P.result w) = .returned size reason := by
    rw [BIOEndpoint.network] at h
    dsimp only [BIOEndpoint.connectionWrite] at h
    split at h
    · next hw => exact ⟨_, _, (Prod.mk.inj hw).1⟩
    · cases h
  rw [BIOEndpoint.accepted, List.take_eq_self_iff, WriteResult.accepted]
  obtain ⟨hnil, -⟩ | ⟨-, -, hfull | hunfinished⟩ := write_returned hreturned
  · refine iff_of_true (by simp [hnil]) fun hunfinished => ?_
    exact absurd hnil (List.ne_nil_of_length_pos hunfinished.1)
  · refine iff_of_true (by omega) fun hunfinished => ?_
    obtain ⟨-, -, -, hshort, -⟩ := hunfinished
    exact hshort.ne hfull
  · refine iff_of_false (fun hle => ?_) (not_not_intro hunfinished)
    obtain ⟨hpos, -, -, hshort, -⟩ := hunfinished
    omega

/-- **A call that goes on has sent its requests whole if and only if the BIO has not asked for the
rest of any.** -/
lemma whole_iff {session : Session E} {attempts : List (Option E)} {requests : List Request}
    {written : List (Written E)} (h : GoesOn P.network session attempts requests written) :
    SentWhole P requests written ↔ ∀ w ∈ written, ¬ (P.result w).Unfinished := by
  obtain ⟨_, _, _, _, _, _, -, -, hwrite⟩ := h
  have hall := writeAll_none hwrite
  clear hwrite
  rw [SentWhole]
  induction hall with
  | nil => simp
  | @cons request w requests written hw _ ih =>
      obtain ⟨hrequest, hdata, htaken⟩ := hw
      rw [List.forall₂_cons, List.forall_mem_cons]
      refine and_congr ?_ ih
      rw [hdata, ← accepted_iff htaken]
      exact ⟨fun heq => (Except.ok.inj heq.2).symm, fun heq => ⟨hrequest, by rw [heq]⟩⟩

/-- **Writes are accounted for, and requests are sent whole, if and only if the BIO does not ask for
another try**: a call of `write` reports what the BIO has accepted unless it asks with a negative
result; a call of `send` that has gone on to `getResponse`, which are all that have responses or an
exception of it, has sent every request whole unless it asks at all. -/
theorem writes_accounted_iff (P : BIOEndpoint E) :
    (∀ (data : Bytes) (r : WriteResult data.length),
      (∀ size reason, Spin.write data r = .returned size reason → size = r.accepted) ↔
        ¬ (r.Unfinished ∧ r.value < 0)) ∧
    (∀ session attempts requests written, GoesOn P.network session attempts requests written →
      (SentWhole P requests written ↔ ∀ w ∈ written, ¬ (P.result w).Unfinished)) ∧
    ∀ session attempts requests r, SendAll P.network session attempts requests r →
      requests ≠ [] → (∀ e, r.result = .error e → ∃ x, e = .response x) →
        GoesOn P.network session attempts requests r.written :=
  ⟨size_eq_accepted_iff, fun _ _ _ _ h => whole_iff h, fun _ _ _ _ h => h.goesOn⟩

/-! ### Two endpoints -/

/-- A BIO with room for so many bytes, which asks for another try where they are not enough. -/
def withRoom : BIOEndpoint ℕ where
  read := fun room => (.error .connectionClosed, room)
  poll := fun room => (false, room)
  usable := fun _ => true
  write := fun room data =>
    (⟨(min data.length room : ℕ), decide (room < data.length), false, decide (room < data.length),
      by omega, by omega⟩, room - data.length)

/-- A BIO that takes nothing and asks for another try. -/
def takingNothing : BIOEndpoint Unit where
  read := fun e => (.error .connectionClosed, e)
  poll := fun e => (false, e)
  usable := fun _ => true
  write := fun e _ => (⟨-1, true, false, true, by omega, by omega⟩, e)

lemma parseURL_local : parseURL (Request.new (bytes "http://localhost/")).url_ = .ok
    ⟨bytes "http", bytes "localhost", 80, bytes "/", [], []⟩ := by decide +kernel

/-- A request and its length. -/
lemma serialize_local : ∃ data, (Request.new (bytes "http://localhost/")).serialize = .ok data ∧
    data.length = 54 := by
  rw [Request.serialize, parseURL_local]
  exact ⟨_, rfl, by decide +kernel⟩

lemma serialize_index : ∃ data,
    (Request.new (bytes "http://localhost/index.html")).serialize = .ok data ∧
      data.length = 64 := by
  have hurl : parseURL (Request.new (bytes "http://localhost/index.html")).url_ = .ok
      ⟨bytes "http", bytes "localhost", 80, bytes "/index.html", [], []⟩ := by decide +kernel
  rw [Request.serialize, hurl]
  exact ⟨_, rfl, by decide +kernel⟩

/-- A connection to `http://localhost/`. -/
def localConnection (e : E) : Connection E := ⟨bytes "localhost", 80, none, .empty, e⟩

/-- A call that begins with a request to it goes on where its writes return. -/
lemma goesOn_local {N : Network E} {e : E} {requests : List Request} {written : List (Written E)}
    {c : Connection E} (husable : N.usable e = true)
    (hwrite : writeAll N (localConnection e) (Request.new (bytes "http://localhost/") :: requests)
      = (written, none, c)) :
    GoesOn N .new [some e] (Request.new (bytes "http://localhost/") :: requests) written := by
  have hprep : prepare N .new (Request.new (bytes "http://localhost/")) [some e]
      = some (.ok (localConnection e, ⟨bytes "http", bytes "localhost", 80, bytes "/", [], []⟩),
        Session.new.insert (cacheKey (bytes "localhost") 80) (localConnection e)) := by
    rw [prepare, parseURL_local]
    simp only [findConnection, openConnection, Session.new, Session.secure, husable]
    rfl
  exact ⟨_, _, _, _, _, _, rfl, hprep, hwrite⟩

/-- Its writes return. -/
lemma withRoom_write {room : ℕ} {data : Bytes} (hne : data ≠ []) (hsize : data.length < intMax) :
    withRoom.network.write room data = (true, room - data.length) := by
  have hreturned : ∃ size reason,
      Spin.write data (withRoom.write room data).1 = .returned size reason := by
    by_cases hroom : room < data.length
    · refine ⟨_, _, write_of_unfinished ⟨List.length_pos_of_ne_nil hne, hsize, ?_, ?_, ?_⟩⟩
      · exact show ((min data.length room : ℕ) : ℤ) ≠ -2 by omega
      · exact show ((min data.length room : ℕ) : ℤ) < data.length by omega
      · exact decide_eq_true hroom
    · refine ⟨_, _, write_of_full hne hsize ?_⟩
      exact show ((min data.length room : ℕ) : ℤ) = data.length by omega
  obtain ⟨size, reason, hreturned⟩ := hreturned
  have hpeer : ¬ (data = [] ∨ intMax ≤ data.length) := by simp [hne, hsize]
  simp only [BIOEndpoint.network, BIOEndpoint.connectionWrite, hreturned, if_neg hpeer]
  rfl

/-- Two requests in one call. -/
def pipelined : List Request :=
  [Request.new (bytes "http://localhost/"), Request.new (bytes "http://localhost/index.html")]

lemma goesOn_pipelined (room : ℕ) : ∃ first second : Bytes, first.length = 54 ∧
    second.length = 64 ∧ GoesOn withRoom.network .new [some room] pipelined
      [⟨Request.new (bytes "http://localhost/"), first, localConnection room⟩,
        ⟨Request.new (bytes "http://localhost/index.html"), second,
          localConnection (room - 54)⟩] := by
  obtain ⟨first, hfirst, hfirstLength⟩ := serialize_local
  obtain ⟨second, hsecond, hsecondLength⟩ := serialize_index
  refine ⟨first, second, hfirstLength, hsecondLength,
    goesOn_local (c := localConnection (room - 54 - 64)) rfl ?_⟩
  have hwriteFirst : withRoom.network.write (localConnection room).peer first
      = (true, room - 54) := by
    rw [← hfirstLength]
    exact withRoom_write (List.ne_nil_of_length_pos (by omega)) (by rw [hfirstLength]; decide)
  have hwriteSecond : withRoom.network.write (room - 54) second = (true, room - 54 - 64) := by
    rw [← hsecondLength]
    exact withRoom_write (List.ne_nil_of_length_pos (by omega)) (by rw [hsecondLength]; decide)
  simp only [writeAll, hfirst, hsecond, hwriteFirst, hwriteSecond, if_true]
  rfl

/-- Two requests that the BIO has room for are sent whole; where there is room for the first and
six bytes more, they are not. -/
theorem writes_accounted_pipelined :
    (∃ written, GoesOn withRoom.network .new [some 118] pipelined written ∧
      SentWhole withRoom pipelined written) ∧
    ∃ written, GoesOn withRoom.network .new [some 60] pipelined written ∧
      (written.map fun w => (withRoom.accepted w).length) = [54, 6] ∧
      ¬ SentWhole withRoom pipelined written := by
  have hwhole := (writes_accounted_iff withRoom).2.1
  constructor
  · obtain ⟨first, second, hfirst, hsecond, hgoes⟩ := goesOn_pipelined 118
    refine ⟨_, hgoes, (hwhole _ _ _ _ hgoes).mpr ?_⟩
    simp [BIOEndpoint.result, WriteResult.Unfinished, withRoom, localConnection, hfirst, hsecond]
  · obtain ⟨first, second, hfirst, hsecond, hgoes⟩ := goesOn_pipelined 60
    refine ⟨_, hgoes, ?_, fun h => ?_⟩
    · simp [BIOEndpoint.accepted, BIOEndpoint.result, WriteResult.accepted, withRoom,
        localConnection, hfirst, hsecond]
    · refine (hwhole _ _ _ _ hgoes).mp h _ (List.mem_cons_of_mem _ (List.mem_singleton_self _)) ?_
      simp [BIOEndpoint.result, WriteResult.Unfinished, withRoom, localConnection, hsecond, intMax]

/-- **A write that accepts nothing reports `2 ^ 64 - 1` bytes, and a request of which nothing was
accepted is waited for**: the BIO has no room, and asks for another try. -/
theorem writes_lost :
    (∃ (data : Bytes) (r : WriteResult data.length), r.accepted = 0 ∧
      Spin.write data r = .returned (2 ^ 64 - 1) 5) ∧
    ∃ written, GoesOn takingNothing.network .new [some ()]
        [Request.new (bytes "http://localhost/")] written ∧
      (∀ w ∈ written, takingNothing.accepted w = []) ∧
        ¬ SentWhole takingNothing [Request.new (bytes "http://localhost/")] written := by
  obtain ⟨data, hdata, hlength⟩ := serialize_local
  have hne : data ≠ [] := List.ne_nil_of_length_pos (by omega)
  have hsize : data.length < intMax := by
    rw [hlength]
    decide
  have hunfinished : (takingNothing.write () data).1.Unfinished :=
    ⟨List.length_pos_of_ne_nil hne, hsize, show (-1 : ℤ) ≠ -2 by decide,
      show (-1 : ℤ) < data.length by omega, rfl⟩
  have hcount : addInt 0 (-1) = 2 ^ 64 - 1 := by decide
  have hreason : (takingNothing.write () data).1.reason = 5 := by
    simp [takingNothing, WriteResult.reason, Reason.value]
  have hreturned : Spin.write data (takingNothing.write () data).1 = .returned (2 ^ 64 - 1) 5 := by
    rw [write_of_unfinished hunfinished, hreason, ← hcount]
    rfl
  refine ⟨⟨data, _, rfl, hreturned⟩, ?_⟩
  have hwrite : (takingNothing.network.write () data).1 = true := by
    simp only [BIOEndpoint.network, BIOEndpoint.connectionWrite, hreturned]
  have hgoes : GoesOn takingNothing.network .new [some ()] [Request.new (bytes "http://localhost/")]
      [⟨Request.new (bytes "http://localhost/"), data, localConnection ()⟩] :=
    goesOn_local (c := localConnection ()) rfl (by simp only [writeAll, hdata, hwrite, if_true])
  refine ⟨_, hgoes, by simp [BIOEndpoint.accepted, BIOEndpoint.result, WriteResult.accepted,
    takingNothing], fun hwhole => ?_⟩
  obtain ⟨⟨-, haccepted⟩, -⟩ := List.forall₂_cons.mp hwhole
  rw [hdata] at haccepted
  exact hne (Except.ok.inj haccepted)

end Arachnida.Damon
