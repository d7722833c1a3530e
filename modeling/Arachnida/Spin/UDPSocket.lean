import Arachnida.Library.Run
import Arachnida.Spin.Address

/-!
Receiving and peeking on a UDP socket, `Spin::UDPSocket`, with the default time-out.

* `UDPSocket`: the datagrams that arrive, those to come among them, and the peek buffer.
* `recv`, `peek`, `clearPeekBuffer`: the three functions; a call that waits for ever is `none`.
* `Transparent`: a `recv` behind so many peeks does what it would do without them, and they report
  the same.
* `UDPSession`: a socket with what has become of its datagrams; `Accounted`: each is with one
  `recv`, or was cleared away, or is still there, in the order of arrival.
* `peek_transparent_iff`: **peeking is transparent exactly where the datagram is not empty and the
  caller's buffer is empty or of its very size**, and **no datagram of a run gets lost exactly if no
  peek reads an empty one.**

An empty datagram leaves the peek buffer as empty as it was, so that it does not count as peeked.
-/

namespace Arachnida.Spin

open Library

/-- A datagram. -/
structure Datagram where
  address : Address
  port : UInt16
  data : Bytes
  deriving DecidableEq, Repr

/-- What `recv` and `peek` return. -/
structure Received where
  address : Address
  port : UInt16
  size : ℕ
  deriving DecidableEq, Repr

/-- `peek_buffer_`. -/
structure PeekBuffer where
  address : Address
  port : UInt16
  size : ℕ
  data : Bytes
  deriving DecidableEq, Repr

/-- What is returned from the peek buffer. -/
def PeekBuffer.report (p : PeekBuffer) : Received := ⟨p.address, p.port, p.size⟩

/-- The socket: the datagrams in the order of their arrival, and the peek buffer. -/
structure UDPSocket where
  queue : List Datagram
  peek_buffer_ : PeekBuffer
  deriving DecidableEq, Repr

/-- The size of a buffer that `recv` makes itself. -/
def ownSize : ℕ := 4096

namespace UDPSocket

/-- A new socket. -/
def new (queue : List Datagram) : UDPSocket := ⟨queue, ⟨⟨0, 0, 0, 0⟩, 0, 0, []⟩⟩

/-- `::recvfrom`: one datagram, of which it keeps as much as there is room for. -/
def recvfrom (s : UDPSocket) (size : ℕ) : Option (Datagram × UDPSocket) :=
  match s.queue with
  | [] => none
  | d :: queue => some ({ d with data := d.data.take size }, { s with queue := queue })

/-- `UDPSocket::recv`: what it returns, the caller's buffer, and the socket. -/
def recv (s : UDPSocket) (buffer : Bytes) : Option (Received × Bytes × UDPSocket) :=
  if s.peek_buffer_.data = [] then
    let we_own_the_buffer_size := decide (buffer.length = 0)
    let buffer := if we_own_the_buffer_size then List.replicate ownSize 0 else buffer
    match s.recvfrom buffer.length with
    | none => none
    | some (d, s) =>
        let received := d.data.length
        let buffer := d.data ++ buffer.drop received
        some (⟨d.address, d.port, received⟩,
          if we_own_the_buffer_size then buffer.take received else buffer, s)
  else
    some (s.peek_buffer_.report, s.peek_buffer_.data,
      { s with peek_buffer_ := { s.peek_buffer_ with data := [] } })

/-- `UDPSocket::peek`: what it returns, the caller's buffer, which it does not look at before, and
the socket. -/
def peek (s : UDPSocket) : Option (Received × Bytes × UDPSocket) :=
  let returned (s : UDPSocket) := (s.peek_buffer_.report, s.peek_buffer_.data, s)
  if s.peek_buffer_.data = [] then
    match s.recv s.peek_buffer_.data with
    | none => none
    | some (r, data, s) =>
        some (returned { s with peek_buffer_ := ⟨r.address, r.port, r.size, data⟩ })
  else some (returned s)

/-- `UDPSocket::clearPeekBuffer`. -/
def clearPeekBuffer (s : UDPSocket) : UDPSocket :=
  { s with peek_buffer_ := { s.peek_buffer_ with data := [] } }

end UDPSocket

/-! ### What the functions do -/

/-- The peek buffer that a datagram is put into. -/
def Datagram.peeked (d : Datagram) : PeekBuffer :=
  ⟨d.address, d.port, (d.data.take ownSize).length, d.data.take ownSize⟩

lemma Datagram.peeked_eq_nil {d : Datagram} : d.peeked.data = [] ↔ d.data = [] := by
  rw [peeked, List.take_eq_nil_iff]
  exact or_iff_right (by decide)

namespace UDPSocket

variable {s : UDPSocket} {d : Datagram} {ds : List Datagram} {buffer : Bytes}

/-- What was peeked is returned, whatever the caller's buffer. -/
lemma recv_peeked (h : s.peek_buffer_.data ≠ []) : s.recv buffer =
    some (s.peek_buffer_.report, s.peek_buffer_.data,
      { s with peek_buffer_ := { s.peek_buffer_ with data := [] } }) := by
  rw [recv, if_neg h]

lemma recvfrom_nil (hq : s.queue = []) (size : ℕ) : s.recvfrom size = none := by
  rw [recvfrom, hq]

lemma recvfrom_cons (hq : s.queue = d :: ds) (size : ℕ) : s.recvfrom size =
    some ({ d with data := d.data.take size }, { s with queue := ds }) := by
  rw [recvfrom, hq]

lemma recv_blocks (h : s.peek_buffer_.data = []) (hq : s.queue = []) : s.recv buffer = none := by
  simp only [recv, if_pos h, recvfrom_nil hq]

/-- The caller has no buffer: it gets one of the size of what is received. -/
lemma recv_own (h : s.peek_buffer_.data = []) (hq : s.queue = d :: ds) : s.recv [] =
    some (d.peeked.report, d.peeked.data, { s with queue := ds }) := by
  simp [recv, if_pos h, recvfrom_cons hq, Datagram.peeked, PeekBuffer.report]

/-- The caller has a buffer, which keeps its size. -/
lemma recv_sized (h : s.peek_buffer_.data = []) (hq : s.queue = d :: ds) (hb : buffer ≠ []) :
    s.recv buffer = some (⟨d.address, d.port, (d.data.take buffer.length).length⟩,
      d.data.take buffer.length ++ buffer.drop (d.data.take buffer.length).length,
      { s with queue := ds }) := by
  simp [recv, if_pos h, recvfrom_cons hq, hb]

/-- The next datagram is received. -/
lemma recv_returns (h : s.peek_buffer_.data = []) (hq : s.queue = d :: ds) (buffer : Bytes) :
    ∃ r b, s.recv buffer = some (r, b, { s with queue := ds }) := by
  by_cases hb : buffer = []
  · rw [hb]
    exact ⟨_, _, recv_own h hq⟩
  · exact ⟨_, _, recv_sized h hq hb⟩

lemma peek_peeked (h : s.peek_buffer_.data ≠ []) :
    s.peek = some (s.peek_buffer_.report, s.peek_buffer_.data, s) := by
  rw [peek, if_neg h]

lemma peek_blocks (h : s.peek_buffer_.data = []) (hq : s.queue = []) : s.peek = none := by
  rw [peek, if_pos h, recv_blocks h hq]

/-- The next datagram is put into the peek buffer. -/
lemma peek_reads (h : s.peek_buffer_.data = []) (hq : s.queue = d :: ds) :
    s.peek = some (d.peeked.report, d.peeked.data, ⟨ds, d.peeked⟩) := by
  rw [peek, if_pos h, h, recv_own h hq]
  rfl

/-! ### Peeking before a `recv` -/

variable (s buffer)

/-- So many calls of `peek`: what they report, with the caller's buffer, and the socket. -/
def peeks : ℕ → UDPSocket → Option (List (Received × Bytes) × UDPSocket)
  | 0, s => some ([], s)
  | n + 1, s => s.peek.bind fun p => (peeks n p.2.2).map fun q => ((p.1, p.2.1) :: q.1, q.2)

/-- What can be told of a `recv` and of the socket behind it: the sender and the size that are kept
with an empty peek buffer are never looked at. -/
def visible (p : Received × Bytes × UDPSocket) : Received × Bytes × List Datagram × Bytes :=
  (p.1, p.2.1, p.2.2.queue, p.2.2.peek_buffer_.data)

/-- **Behind so many calls of `peek`**, `recv` returns the same, leaves the same in the caller's
buffer and the same datagrams as without them, and each of them reports that. -/
structure Transparent (n : ℕ) : Prop where
  recv : ((s.peeks n).bind fun p => p.2.recv buffer).map visible = (s.recv buffer).map visible
  reports : ∀ reports s', s.peeks n = some (reports, s') → ∀ p ∈ reports,
    ∃ s'', s.recv buffer = some (p.1, p.2, s'')

/-- A datagram has been peeked already, none arrives, or the next one is not empty and the caller's
buffer is empty or of the size that a peek keeps of it. -/
def PeekFits : Prop :=
  s.peek_buffer_.data ≠ [] ∨ s.queue = [] ∨ ∃ d ∈ s.queue.head?, d.data ≠ [] ∧
    (buffer = [] ∨ buffer.length = min d.data.length ownSize)

variable {s buffer}

/-- What was peeked is peeked again. -/
lemma peeks_peeked (h : s.peek_buffer_.data ≠ []) (n : ℕ) : s.peeks n =
    some (List.replicate n (s.peek_buffer_.report, s.peek_buffer_.data), s) := by
  induction n with
  | zero => rfl
  | succ n ih =>
      rw [peeks, peek_peeked h]
      show (s.peeks n).map _ = _
      rw [ih]
      rfl

lemma peeks_blocks (h : s.peek_buffer_.data = []) (hq : s.queue = []) (n : ℕ) :
    s.peeks (n + 1) = none := by
  rw [peeks, peek_blocks h hq]
  rfl

/-- The next datagram is peeked again and again. -/
lemma peeks_reads (h : s.peek_buffer_.data = []) (hq : s.queue = d :: ds) (hd : d.data ≠ [])
    (n : ℕ) : s.peeks (n + 1) =
      some (List.replicate (n + 1) (d.peeked.report, d.peeked.data), ⟨ds, d.peeked⟩) := by
  have hpeeked : (⟨ds, d.peeked⟩ : UDPSocket).peek_buffer_.data ≠ [] :=
    mt Datagram.peeked_eq_nil.mp hd
  rw [peeks, peek_reads h hq]
  show (peeks n ⟨ds, d.peeked⟩).map _ = _
  rw [peeks_peeked hpeeked]
  rfl

/-- The datagrams that are left, with the one in the peek buffer. -/
def remaining (s : UDPSocket) : ℕ := s.queue.length + if s.peek_buffer_.data = [] then 0 else 1

/-- A `recv` takes one datagram. -/
lemma recv_remaining {r : Received} {b : Bytes} {s' : UDPSocket}
    (h : s.recv buffer = some (r, b, s')) : s'.remaining + 1 = s.remaining := by
  by_cases hpeeked : s.peek_buffer_.data = []
  · cases hq : s.queue with
    | nil =>
        rw [recv_blocks hpeeked hq] at h
        cases h
    | cons d ds =>
        obtain ⟨r', b', hreturns⟩ := recv_returns hpeeked hq buffer
        rw [hreturns] at h
        obtain ⟨-, -, rfl⟩ : _ ∧ _ ∧ _ = s' := by simpa using h
        simp [remaining, hpeeked, hq]
  · rw [recv_peeked hpeeked] at h
    obtain ⟨-, -, rfl⟩ : _ ∧ _ ∧ _ = s' := by simpa using h
    simp [remaining, hpeeked]

/-- A `peek` brings none back. -/
lemma peek_remaining {r : Received} {b : Bytes} {s' : UDPSocket} (h : s.peek = some (r, b, s')) :
    s'.remaining ≤ s.remaining := by
  by_cases hpeeked : s.peek_buffer_.data = []
  · cases hq : s.queue with
    | nil =>
        rw [peek_blocks hpeeked hq] at h
        cases h
    | cons d ds =>
        rw [peek_reads hpeeked hq] at h
        obtain ⟨-, -, rfl⟩ : _ ∧ _ ∧ _ = s' := by simpa using h
        simp only [remaining, hpeeked, hq, if_true, List.length_cons]
        split_ifs <;> omega
  · rw [peek_peeked hpeeked] at h
    obtain ⟨-, -, rfl⟩ : _ ∧ _ ∧ _ = s' := by simpa using h
    exact le_rfl

lemma peeks_remaining {n : ℕ} {reports : List (Received × Bytes)} {s' : UDPSocket}
    (h : s.peeks n = some (reports, s')) : s'.remaining ≤ s.remaining := by
  induction n generalizing s reports with
  | zero =>
      obtain ⟨-, rfl⟩ : _ ∧ s = s' := by simpa [peeks] using h
      exact le_rfl
  | succ n ih =>
      rw [peeks] at h
      obtain ⟨⟨r, b, m⟩, hpeek, hrest⟩ := Option.bind_eq_some_iff.mp h
      obtain ⟨⟨reports', s''⟩, hpeeks, heq⟩ := Option.map_eq_some_iff.mp hrest
      obtain rfl : s'' = s' := (Prod.mk.inj heq).2
      exact (ih hpeeks).trans (peek_remaining hpeek)

/-- A caller's buffer of the size that a peek keeps is filled as by a peek. -/
lemma recv_fits (h : s.peek_buffer_.data = []) (hq : s.queue = d :: ds)
    (hb : buffer = [] ∨ buffer.length = min d.data.length ownSize) :
    s.recv buffer = some (d.peeked.report, d.peeked.data, { s with queue := ds }) := by
  by_cases hnil : buffer = []
  · rw [hnil]
    exact recv_own h hq
  · have hsize := hb.resolve_left hnil
    have htake : d.data.take buffer.length = d.data.take ownSize := by
      rw [hsize, min_comm, ← List.take_take, List.take_length]
    have hdrop : buffer.drop (d.data.take ownSize).length = [] := by
      rw [List.drop_eq_nil_iff, List.length_take, hsize, min_comm]
    rw [recv_sized h hq hnil, htake, hdrop, List.append_nil]
    rfl

lemma Transparent.of_peekFits (n : ℕ) (h : PeekFits s buffer) : Transparent s buffer (n + 1) := by
  by_cases hpeeked : s.peek_buffer_.data = []
  · cases hq : s.queue with
    | nil =>
        have hnone := peeks_blocks hpeeked hq n
        refine ⟨by rw [hnone, recv_blocks hpeeked hq]; rfl, fun reports s' hs' => ?_⟩
        rw [hnone] at hs'
        cases hs'
    | cons d ds =>
        obtain ⟨d', hd', hd, hb⟩ : ∃ d' ∈ s.queue.head?, d'.data ≠ [] ∧
            (buffer = [] ∨ buffer.length = min d'.data.length ownSize) :=
          (h.resolve_left (not_not_intro hpeeked)).resolve_left (by simp [hq])
        obtain rfl : d = d' := by simpa [hq] using hd'
        have hsome := peeks_reads hpeeked hq hd n
        have hrecv := recv_fits hpeeked hq hb
        refine ⟨?_, fun reports s' hs' p hp => ?_⟩
        · rw [hsome, hrecv, Option.bind_some, recv_peeked (mt Datagram.peeked_eq_nil.mp hd)]
          simp [visible, hpeeked]
        · rw [hsome] at hs'
          obtain ⟨rfl, -⟩ := Prod.mk.inj (Option.some.inj hs')
          rw [List.eq_of_mem_replicate hp]
          exact ⟨_, hrecv⟩
  · have hsome := peeks_peeked hpeeked (n + 1)
    refine ⟨by rw [hsome]; rfl, fun reports s' hs' p hp => ?_⟩
    rw [hsome] at hs'
    obtain ⟨rfl, -⟩ := Prod.mk.inj (Option.some.inj hs')
    rw [List.eq_of_mem_replicate hp]
    exact ⟨_, recv_peeked hpeeked⟩

/-- What can be told of the socket tells how many datagrams are left. -/
lemma remaining_eq {p q : Received × Bytes × UDPSocket} (h : visible p = visible q) :
    p.2.2.remaining = q.2.2.remaining := by
  obtain ⟨-, hrest⟩ := Prod.mk.inj h
  obtain ⟨-, hrest⟩ := Prod.mk.inj hrest
  obtain ⟨hqueue, hdata⟩ := Prod.mk.inj hrest
  rw [remaining, remaining, hqueue, hdata]

/-- **An empty datagram is lost**: behind the peeks and the `recv` there is one less than behind the
`recv` alone. -/
lemma not_transparent_of_nil (h : s.peek_buffer_.data = []) (hq : s.queue = d :: ds)
    (hd : d.data = []) (n : ℕ) : ¬ Transparent s buffer (n + 1) := by
  intro ht
  obtain ⟨r, b, hdirect⟩ := recv_returns h hq buffer
  have hrecv := ht.recv
  rw [hdirect, Option.map_some] at hrecv
  obtain ⟨q, hq', hvisible⟩ := Option.map_eq_some_iff.mp hrecv
  obtain ⟨⟨reports, m⟩, hpeeks, hbehind⟩ := Option.bind_eq_some_iff.mp hq'
  have hm : m.remaining ≤ ds.length := by
    rw [peeks, peek_reads h hq, Option.bind_some] at hpeeks
    obtain ⟨⟨reports', m'⟩, hrest, heq⟩ := Option.map_eq_some_iff.mp hpeeks
    obtain rfl : m' = m := (Prod.mk.inj heq).2
    have hfirst : (⟨ds, d.peeked⟩ : UDPSocket).remaining = ds.length := by
      rw [remaining, if_pos (Datagram.peeked_eq_nil.mpr hd), add_zero]
    exact (peeks_remaining hrest).trans_eq hfirst
  have htaken : q.2.2.remaining + 1 = m.remaining := recv_remaining hbehind
  have hsame : q.2.2.remaining = ds.length := by
    rw [remaining_eq hvisible]
    simp [remaining, h]
  omega

/-- **A caller's buffer of another size is replaced.** -/
lemma size_of_transparent (h : s.peek_buffer_.data = []) (hq : s.queue = d :: ds) (hd : d.data ≠ [])
    {n : ℕ} (ht : Transparent s buffer (n + 1)) :
    buffer = [] ∨ buffer.length = min d.data.length ownSize := by
  by_cases hb : buffer = []
  · exact .inl hb
  · right
    have hrecv := ht.recv
    rw [peeks_reads h hq hd, Option.bind_some, recv_peeked (mt Datagram.peeked_eq_nil.mp hd),
      recv_sized h hq hb] at hrecv
    have hbuffers : d.peeked.data = d.data.take buffer.length ++
        buffer.drop (d.data.take buffer.length).length :=
      congrArg (fun p => p.2.1) (Option.some.inj hrecv)
    have hlengths := congrArg List.length hbuffers
    simp only [Datagram.peeked, List.length_append, List.length_take, List.length_drop] at hlengths
    omega

/-- **Where peeking is transparent.** -/
lemma transparent_iff (s : UDPSocket) (buffer : Bytes) (n : ℕ) :
    Transparent s buffer (n + 1) ↔ PeekFits s buffer := by
  refine ⟨fun ht => ?_, .of_peekFits n⟩
  by_cases hpeeked : s.peek_buffer_.data = []
  · cases hq : s.queue with
    | nil => exact .inr (.inl hq)
    | cons d ds =>
        have hd : d.data ≠ [] := fun hnil => not_transparent_of_nil hpeeked hq hnil n ht
        exact .inr (.inr ⟨d, by simp [hq], hd, size_of_transparent hpeeked hq hd ht⟩)
  · exact .inl hpeeked

end UDPSocket

/-! ### Runs -/

/-- What has become of a datagram: a `recv` has returned it, with this in the caller's buffer, or it
was cleared from the peek buffer. -/
inductive Fate where
  | received (d : Datagram) (r : Received) (buffer : Bytes)
  | cleared (d : Datagram)
  deriving DecidableEq, Repr

/-- The datagram. -/
def Fate.datagram : Fate → Datagram
  | .received d _ _ | .cleared d => d

/-- A `recv` tells the sender of the datagram, and has stored so much of its data. -/
def Fate.Reported : Fate → Prop
  | .received d r buffer => r.address = d.address ∧ r.port = d.port ∧
      r.size ≤ d.data.length ∧ buffer.take r.size = d.data.take r.size
  | .cleared _ => True

/-- A socket, the datagram whose data are in its peek buffer, and what has become of the earlier
ones. -/
structure UDPSession where
  socket : UDPSocket
  held : Option Datagram
  history : List Fate

/-- A new socket, with the datagrams that are to arrive. -/
def UDPSession.init (queue : List Datagram) : UDPSession := ⟨.new queue, none, []⟩

/-- The calls. -/
inductive SocketCall where
  | recv (buffer : Bytes)
  | peek
  | clearPeekBuffer

/-- A call that returns.  A `recv` returns the datagram that is held, or the next one; a `peek` of
the next one holds it if there are data in the peek buffer afterwards. -/
inductive SocketStep : UDPSession → SocketCall → UDPSession → Prop where
  | recv {o : UDPSession} {buffer : Bytes} {r : Received} {b : Bytes} {socket : UDPSocket}
      {d : Datagram} : o.socket.recv buffer = some (r, b, socket) →
      (o.held.toList ++ o.socket.queue).head? = some d →
      SocketStep o (.recv buffer) ⟨socket, none, o.history ++ [.received d r b]⟩
  | peek {o : UDPSession} {r : Received} {b : Bytes} {socket : UDPSocket} :
      o.socket.peek = some (r, b, socket) →
      SocketStep o .peek ⟨socket,
        if socket.peek_buffer_.data = [] then none
        else (o.held.toList ++ o.socket.queue).head?, o.history⟩
  | clearPeekBuffer {o : UDPSession} : SocketStep o .clearPeekBuffer
      ⟨o.socket.clearPeekBuffer, none, o.history ++ o.held.toList.map .cleared⟩

/-- **Every datagram is accounted for**, in the order of arrival: it was reported by one `recv`, or
cleared away, or it is in the peek buffer or still to come. -/
structure Accounted (queue : List Datagram) (o : UDPSession) : Prop where
  all : o.history.map Fate.datagram ++ o.held.toList ++ o.socket.queue = queue
  reported : ∀ f ∈ o.history, f.Reported

/-- The next datagram is not peeked if it is empty. -/
def PeeksData (o : UDPSession) : SocketCall → Prop
  | .peek => o.socket.peek_buffer_.data = [] → ∀ d ∈ o.socket.queue.head?, d.data ≠ []
  | _ => True

/-- The peek buffer holds the data of the datagram that is held. -/
structure Holds (o : UDPSession) : Prop where
  empty : o.held = none → o.socket.peek_buffer_.data = []
  full : ∀ d, o.held = some d → d.data ≠ [] ∧ o.socket.peek_buffer_ = d.peeked

lemma Holds.init (queue : List Datagram) : Holds (UDPSession.init queue) :=
  ⟨fun _ => rfl, by simp [UDPSession.init]⟩

/-- A datagram with the data that are returned from the peek buffer. -/
lemma reported_peeked (d : Datagram) :
    (Fate.received d d.peeked.report d.peeked.data).Reported := by
  refine ⟨rfl, rfl, ?_, ?_⟩
  · simp [Datagram.peeked, PeekBuffer.report]
  · simp [Datagram.peeked, PeekBuffer.report, List.take_take]

/-- A datagram that is received into a caller's buffer. -/
lemma reported_sized (d : Datagram) (buffer : Bytes) :
    (Fate.received d ⟨d.address, d.port, (d.data.take buffer.length).length⟩
      (d.data.take buffer.length ++ buffer.drop (d.data.take buffer.length).length)).Reported := by
  refine ⟨rfl, rfl, ?_, ?_⟩
  · simp
  · rw [List.take_left, List.length_take, ← List.take_take]
    simp

/-- **A `recv` takes the first datagram**, and reports it. -/
lemma recv_first {o : UDPSession} {buffer : Bytes} {r : Received} {b : Bytes} {socket : UDPSocket}
    {d : Datagram} (ho : Holds o) (h : o.socket.recv buffer = some (r, b, socket))
    (hd : (o.held.toList ++ o.socket.queue).head? = some d) :
    o.held.toList ++ o.socket.queue = d :: socket.queue ∧ socket.peek_buffer_.data = [] ∧
      (Fate.received d r b).Reported := by
  cases hheld : o.held with
  | none =>
      have hempty := ho.empty hheld
      obtain ⟨ds, hq⟩ : ∃ ds, o.socket.queue = d :: ds := by
        rw [hheld] at hd
        exact List.head?_eq_some_iff.mp hd
      by_cases hb : buffer = []
      · subst hb
        rw [UDPSocket.recv_own hempty hq] at h
        obtain ⟨rfl, rfl, rfl⟩ : _ = r ∧ _ = b ∧ _ = socket := by simpa using h
        exact ⟨hq, hempty, reported_peeked d⟩
      · rw [UDPSocket.recv_sized hempty hq hb] at h
        obtain ⟨hr, hrest⟩ := Prod.mk.inj (Option.some.inj h)
        obtain ⟨hbuffer, rfl⟩ := Prod.mk.inj hrest
        rw [← hr, ← hbuffer]
        exact ⟨hq, hempty, reported_sized d buffer⟩
  | some d' =>
      obtain ⟨hdata, hpeeked⟩ := ho.full d' hheld
      obtain rfl : d' = d := by simpa [hheld] using hd
      have hfull : o.socket.peek_buffer_.data ≠ [] := by
        rw [hpeeked]
        exact mt Datagram.peeked_eq_nil.mp hdata
      rw [UDPSocket.recv_peeked hfull, hpeeked] at h
      obtain ⟨rfl, rfl, rfl⟩ : _ = r ∧ _ = b ∧ _ = socket := by simpa using h
      exact ⟨rfl, rfl, reported_peeked d'⟩

variable {queue : List Datagram} {o o' : UDPSession}

/-- A `recv` accounts for the datagram that it takes. -/
lemma Accounted.recv {buffer : Bytes} {r : Received} {b : Bytes} {socket : UDPSocket}
    {d : Datagram} (ho : Holds o) (ha : Accounted queue o)
    (h : o.socket.recv buffer = some (r, b, socket))
    (hd : (o.held.toList ++ o.socket.queue).head? = some d) :
    Holds ⟨socket, none, o.history ++ [.received d r b]⟩ ∧
      Accounted queue ⟨socket, none, o.history ++ [.received d r b]⟩ := by
  obtain ⟨hfirst, hempty, hreported⟩ := recv_first ho h hd
  refine ⟨⟨fun _ => hempty, by simp⟩, ?_, fun f hf => ?_⟩
  · rw [← ha.all, List.append_assoc _ o.held.toList, hfirst]
    simp [Fate.datagram]
  · rcases List.mem_append.mp hf with hf | hf
    · exact ha.reported f hf
    · exact List.mem_singleton.mp hf ▸ hreported

/-- **A `peek` keeps the account exactly if it does not read an empty datagram.** -/
lemma Accounted.peek_iff {r : Received} {b : Bytes} {socket : UDPSocket} (ho : Holds o)
    (ha : Accounted queue o) (h : o.socket.peek = some (r, b, socket)) :
    let o' : UDPSession := ⟨socket, if socket.peek_buffer_.data = [] then none
      else (o.held.toList ++ o.socket.queue).head?, o.history⟩
    Holds o' ∧ (Accounted queue o' ↔ PeeksData o .peek) := by
  dsimp only
  cases hheld : o.held with
  | none =>
      have hempty := ho.empty hheld
      cases hq : o.socket.queue with
      | nil =>
          rw [UDPSocket.peek_blocks hempty hq] at h
          cases h
      | cons d ds =>
          rw [UDPSocket.peek_reads hempty hq] at h
          obtain ⟨rfl, rfl, rfl⟩ : _ = r ∧ _ = b ∧ _ = socket := by simpa using h
          have hall := ha.all
          rw [hheld, hq] at hall
          by_cases hd : d.data = []
          · rw [if_pos (Datagram.peeked_eq_nil.mpr hd)]
            refine ⟨⟨fun _ => Datagram.peeked_eq_nil.mpr hd, by simp⟩,
              iff_of_false (fun hlost => ?_) fun hpeeks => ?_⟩
            · have hlengths := congrArg List.length (hall.trans hlost.all.symm)
              simp at hlengths
            · exact hpeeks hempty d (by simp [hq]) hd
          · rw [if_neg (mt Datagram.peeked_eq_nil.mp hd)]
            refine ⟨⟨by simp, fun d' hd' => ?_⟩,
              iff_of_true ⟨?_, ha.reported⟩ fun _ d' hd' => ?_⟩
            · obtain rfl := Option.some.inj hd'
              exact ⟨hd, rfl⟩
            · simpa using hall
            · obtain rfl : d = d' := by simpa [hq] using hd'
              exact hd
  | some d =>
      obtain ⟨hd, hpeeked⟩ := ho.full d hheld
      have hfull : o.socket.peek_buffer_.data ≠ [] := by
        rw [hpeeked]
        exact mt Datagram.peeked_eq_nil.mp hd
      rw [UDPSocket.peek_peeked hfull] at h
      obtain ⟨rfl, rfl, rfl⟩ : _ = r ∧ _ = b ∧ _ = socket := by simpa using h
      rw [if_neg hfull]
      refine ⟨⟨by simp, fun d' hd' => ho.full d' (hheld.trans hd')⟩,
        iff_of_true ⟨?_, ha.reported⟩ fun hempty => absurd hempty hfull⟩
      have hall := ha.all
      rwa [hheld] at hall

/-- One call. -/
lemma Accounted.step_iff {call : SocketCall} (ho : Holds o) (ha : Accounted queue o)
    (h : SocketStep o call o') : Holds o' ∧ (Accounted queue o' ↔ PeeksData o call) := by
  cases h with
  | recv h hd =>
      obtain ⟨ho', ha'⟩ := ha.recv ho h hd
      exact ⟨ho', iff_of_true ha' trivial⟩
  | peek h => exact ha.peek_iff ho h
  | clearPeekBuffer =>
      refine ⟨⟨fun _ => rfl, by simp⟩, iff_of_true ⟨?_, fun f hf => ?_⟩ trivial⟩
      · have hcleared : (o.held.toList.map Fate.cleared).map Fate.datagram = o.held.toList := by
          cases o.held <;> rfl
        rw [List.map_append, hcleared, ← ha.all]
        simp [UDPSocket.clearPeekBuffer]
      · rcases List.mem_append.mp hf with hf | hf
        · exact ha.reported f hf
        · obtain ⟨d, -, rfl⟩ := List.mem_map.mp hf
          trivial

/-- **No datagram of a run is lost** exactly if no peek reads an empty one. -/
lemma accounted_iff (queue : List Datagram) (calls : List SocketCall) :
    Always SocketStep (Accounted queue) (.init queue) calls ↔
      EveryStep SocketStep PeeksData (.init queue) calls :=
  always_iff_everyStep_of_invariant (fun _ _ _ ho ha h => ha.step_iff ho h) (.init queue)
    ⟨rfl, by simp [UDPSession.init]⟩

/-- **Peeking.** For every socket, caller's buffer and number of peeks: they are transparent for the
`recv` behind them exactly if a datagram was peeked before, none arrives, or the next one is not
empty and the buffer is empty or of the size that a peek keeps of it.  And for every datagrams that
arrive and calls on a new socket: each datagram is reported by at most one `recv`, in the order of
arrival, and dropped by a clear of the peek buffer that holds it or not at all, exactly if no peek
reads an empty datagram. -/
theorem peek_transparent_iff (s : UDPSocket) (buffer : Bytes) (n : ℕ) (queue : List Datagram)
    (calls : List SocketCall) :
    (s.Transparent buffer (n + 1) ↔ s.PeekFits buffer) ∧
      (Always SocketStep (Accounted queue) (.init queue) calls ↔
        EveryStep SocketStep PeeksData (.init queue) calls) :=
  ⟨UDPSocket.transparent_iff s buffer n, accounted_iff queue calls⟩

/-- **An empty datagram is gone when it has been peeked**, so that the `recv` behind the peek waits
for another one; and a buffer that the caller has sized is replaced by one of the size of the
datagram. -/
theorem peek_harms :
    ¬ (UDPSocket.new [⟨⟨127, 0, 0, 1⟩, 9005, []⟩]).Transparent [] 1 ∧
      ¬ (UDPSocket.new [⟨⟨127, 0, 0, 1⟩, 9005, bytes "test"⟩]).Transparent [1, 2, 3, 4, 5, 6]
        1 := by
  refine ⟨fun h => absurd h.recv ?_, fun h => absurd h.recv ?_⟩
  · decide +kernel
  · decide +kernel

end Arachnida.Spin
