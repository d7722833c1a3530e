import Arachnida.Acari.Truncation
import Arachnida.BodyFraming
import Arachnida.Damon.Reading
import Arachnida.Damon.Session

/-!
One call of `getResponse`, however the reads cut what the server sends.

* `Answer`: a response as a server writes it.
* `Server`: the other ends of connections, with the bytes that are on their way and the answers to
  what is written.
* `Ready`: the attribute and the bytes on their way make up these answers.
* `pass_whole`, `pass_truncated`: what a pass makes of a buffer with the whole answer, or with only
  the beginning of its headers.
* `Uncut`: no read ends where the client takes part of an answer for the whole.
* `getResponse_ready`: **a call that returns a response returns the first answer**, and leaves the
  others.
-/

namespace Arachnida

open Library Acari Damon

/-! ### Answers -/

/-- A response as a server writes it: the parts of the status line, the header lines, and the bytes
behind the empty line. -/
structure Answer where
  protocol : Bytes
  code : Bytes
  reason : Bytes
  headers : List Header
  body : Bytes

namespace Answer

/-- As it is written. -/
def wire (A : Answer) : Bytes := responseBytes A.protocol A.code A.reason A.headers A.body []

/-- The response that it is. -/
def response (A : Answer) : Response :=
  ⟨A.protocol, decimalValue A.code, A.reason, A.headers.map Header.trimmed, A.body⟩

/-- The parts are what HTTP has them be, and the numbers are in range. -/
structure WellFormed (A : Answer) : Prop where
  protocol : A.protocol = bytes "HTTP/1.0" ∨ A.protocol = bytes "HTTP/1.1"
  code : IsNumeral A.code
  code_lt : decimalValue A.code < 2 ^ 32
  reason_ne : A.reason ≠ []
  reason_start : Stops isIgnorableWhiteSpace A.reason
  reason_line : ∀ c ∈ A.reason, isNewLine c = false
  headers : ∀ h ∈ A.headers, IsHeaderLine h

/-- The headers announce the body that there is, or none if there is none. -/
def Announced (A : Answer) : Prop :=
  contentLength (A.headers.map Header.trimmed) = .ok (some A.body.length) ∨
    (contentLength (A.headers.map Header.trimmed) = .ok none ∧ A.body = [])

variable {A : Answer}

lemma Announced.findBody (h : A.Announced) (rest : Bytes) :
    findBody (A.headers.map Header.trimmed) (A.body ++ rest) = .ok (some (A.body, rest)) := by
  rw [Acari.findBody]
  obtain hlen | ⟨hlen, hbody⟩ := h
  · simp only [hlen]
    rw [if_neg (by simp), List.take_left, List.drop_left]
  · simp only [hlen, hbody, List.nil_append]

lemma wire_append (A : Answer) (rest : Bytes) :
    A.wire ++ rest = responseBytes A.protocol A.code A.reason A.headers A.body rest := by
  simp [wire, responseBytes, tailBytes]

/-- What the parser finds behind the status line. -/
lemma WellFormed.extract (h : A.WellFormed) (rest : Bytes) :
    extractResponse (A.wire ++ rest)
      = .ok (some (.new A.protocol (decimalValue A.code) A.reason),
          tailBytes A.headers A.body rest) := by
  have hcast : lexicalCast 32 A.code = some (decimalValue A.code) := by
    rw [lexicalCast_digits h.code, if_pos h.code_lt]
  have hline := extractResponse_statusLine h.protocol h.code hcast
    (by simp : ∀ c ∈ [], isIgnorableWhiteSpace c = true) h.reason_ne h.reason_start h.reason_line
    A.headers A.body rest
  rw [wire_append]
  exact hline

lemma WellFormed.stops (h : A.WellFormed) (rest : Bytes) :
    Stops isIgnorableWhiteSpace (A.wire ++ rest) := by
  rw [wire_append, responseBytes]
  obtain hp | hp := h.protocol <;> rw [hp] <;> exact (by decide : isIgnorableWhiteSpace 72 = false)

/-- Answers one after the other. -/
def wires (answers : List Answer) : Bytes := answers.flatMap wire

lemma stops_wires {answers : List Answer} (h : ∀ A ∈ answers, A.WellFormed) :
    Stops isIgnorableWhiteSpace (wires answers) := by
  cases answers with
  | nil => trivial
  | cons A answers => exact (h A (by simp)).stops _

end Answer

/-! ### Servers -/

variable {E : Type*} {N : Network E}

/-- Servers on the other ends of connections: the bytes that are on their way to the client, and the
answer to a request in a given state.  A read takes bytes from the front; nothing else gets lost,
and answers are added at the end in the order of the requests. -/
structure Server (N : Network E) where
  unread : E → Bytes
  answer : E → Bytes → Answer
  read : ∀ {e e' data n}, N.read e = (.ok (data, n), e') → unread e = data ++ unread e'
  poll : ∀ e, unread (N.poll e).2 = unread e
  write : ∀ e data, (N.write e data).1 = true →
    unread (N.write e data).2 = unread e ++ (answer e data).wire
  wellFormed : ∀ e data, (answer e data).WellFormed
  /-- Only the headers of an answer to `HEAD` may announce a body that is not there. -/
  announced : ∀ e data, ¬ bytes "HEAD " <+: data → (answer e data).Announced
  head : ∀ e data, bytes "HEAD " <+: data → (answer e data).body = []

section Pass

variable {P : Peer E} {s : CallState E} {peer : E} {A : Answer} {w : Bytes}

/-- **The whole answer is in the buffer**: it is returned, and what is behind it is left. -/
lemma pass_whole (hA : A.WellFormed) (hann : A.Announced)
    (hbody : Stops isIgnorableWhiteSpace A.body)
    {v : Bytes} (hv : Stops isIgnorableWhiteSpace v)
    (hfirst : getFirst P s = (.ok ⟨some (.new A.protocol (decimalValue A.code) A.reason),
      tailBytes A.headers A.body v, false⟩, peer)) :
    getResponsePass P s
      = .inr ⟨.ok A.response, if v = [] then .empty else .four none v false false, peer⟩ := by
  have hR : Stops isIgnorableWhiteSpace (A.body ++ v) := by
    cases hb : A.body with
    | nil => exact hv
    | cons c b => rw [hb] at hbody; exact hbody
  have hrun := headerLoop_lines Response.push A.headers hA.headers hR
    (.new A.protocol (decimalValue A.code) A.reason)
  rw [Response.foldl_push] at hrun
  have hrun' : (headerLoop Response.push).run
      ⟨.new A.protocol (decimalValue A.code) A.reason, tailBytes A.headers A.body v, false⟩ = _ :=
        hrun
  simp only [getResponsePass, hfirst, readHeaders, hrun', if_true]
  simp only [finish, Response.new, List.nil_append, hann.findBody v]
  by_cases hnil : v = [] <;> simp [hnil, Answer.response]

/-- **Only a beginning of the headers is in the buffer**: no response is returned. -/
lemma pass_truncated (hA : A.WellFormed) {a : Bytes} (hw : headerBlock A.headers = w ++ a)
    {response : Response} (hfirst : getFirst P s = (.ok ⟨some response, w, false⟩, peer))
    {r : CallResult E} (hr : Returns (getResponsePass P) s r) : ∃ x, r.result = .error x := by
  cases hrun : (headerLoop Response.push).run ⟨response, w, false⟩ with
  | error f =>
      have hpass : getResponsePass P s = .inr ⟨.error (.parsing f), .empty, peer⟩ := by
        simp only [getResponsePass, hfirst, readHeaders, hrun]
      rw [Returns.deterministic hr (returns_of_inr hpass)]
      exact ⟨_, rfl⟩
  | ok t =>
      obtain ⟨t, eob⟩ := t
      have hfound := headerLoop_truncated Response.push hA.headers hw hrun
      obtain ⟨rfl, -⟩ := headerLoop_settled Response.push hrun hfound
      have hpass : getResponsePass P s
          = .inl ⟨.four (some t.message) t.where_ false true, true, peer⟩ := by
        simp only [getResponsePass, hfirst, readHeaders, hrun, hfound, Bool.false_eq_true, if_false]
      obtain hdone | ⟨s', hs', hlater⟩ := hr.elim
      · cases hpass.symm.trans hdone
      · obtain rfl := Sum.inl.inj (hpass.symm.trans hs')
        exact absurd hlater (getResponsePass_stuck P hrun hfound peer r)

end Pass

/-! ### The buffer of a call -/

/-- The end of a message, from the last byte of the empty line on, and not all of it read. -/
def Cut (A : Answer) (r : Bytes) : Prop := r ≠ [] ∧ r.length ≤ A.body.length + 1

/-- What is in the buffer behind the status line: all of the first answer, or a beginning of its
headers. -/
lemma buffer_cases {A : Answer} {w u rest : Bytes} (h : w ++ u = tailBytes A.headers A.body rest)
    (hcut : ∀ r, u = r ++ rest → ¬ Cut A r) :
    (∃ v, v ++ u = rest ∧ w = tailBytes A.headers A.body v) ∨
      ∃ a, headerBlock A.headers = w ++ a := by
  have hshort : ∀ r, u = r ++ rest → r.length ≤ A.body.length + 1 → r = [] := by
    intro r hu hr
    by_contra hne
    exact hcut r hu ⟨hne, hr⟩
  rw [tailBytes_eq, bytes_crlf] at h
  obtain ⟨a, ha, -⟩ | ⟨t, rfl, ht⟩ := List.append_eq_append_iff.mp h
  · exact .inr ⟨a, ha⟩
  -- the buffer reaches into the empty line
  match t with
  | [] => exact .inr ⟨[], by simp⟩
  | [c] =>
      simp only [List.cons_append, List.nil_append, List.cons.injEq] at ht
      have hnil := hshort (10 :: A.body) (by rw [← ht.2]; simp) (by simp)
      cases hnil
  | c :: d :: t =>
      simp only [List.cons_append, List.nil_append, List.cons.injEq] at ht
      obtain ⟨rfl, rfl, ht⟩ := ht
      have htail : ∀ v, headerBlock A.headers ++ (13 :: 10 :: (A.body ++ v))
          = tailBytes A.headers A.body v := by
        intro v
        rw [tailBytes_eq, bytes_crlf]
        rfl
      obtain ⟨v, rfl, hv⟩ | ⟨r, hr, hu⟩ := List.append_eq_append_iff.mp ht
      · exact .inl ⟨v, hv.symm, htail v⟩
      · have hlen : r.length ≤ A.body.length + 1 := by
          rw [hr, List.length_append]
          omega
        obtain rfl := hshort r hu hlen
        exact .inl ⟨[], hu, by rw [← htail, hr, List.append_nil, List.append_nil]⟩

/-- The attribute and the bytes on their way make up `pending`. -/
def Ready (S : Server N) (pending : Bytes) (connection_attribute : Attribute) (peer : E) : Prop :=
  ∃ b, connection_attribute = (if b = [] then .empty else .four none b false false) ∧
    b ++ S.unread peer = pending

/-- The same at the label `retry`, where there may be a buffer without bytes. -/
def Waiting (S : Server N) (pending : Bytes) (s : CallState E) : Prop :=
  ∃ b, ((s.connection_attribute = .empty ∧ b = []) ∨
      ∃ eob, s.connection_attribute = .four none b false eob) ∧ b ++ S.unread s.peer = pending

lemma Ready.waiting {S : Server N} {pending : Bytes} {a : Attribute} {peer : E}
    (h : Ready S pending a peer) : Waiting S pending ⟨a, false, peer⟩ := by
  obtain ⟨b, rfl, hb⟩ := h
  refine ⟨b, ?_, hb⟩
  by_cases hnil : b = []
  · exact .inl ⟨by simp [hnil], hnil⟩
  · exact .inr ⟨false, by simp [hnil]⟩

/-- Where nothing is pending, nothing is left. -/
lemma Ready.nil {S : Server N} {a : Attribute} {peer : E} (h : Ready S [] a peer) :
    a = .empty ∧ S.unread peer = [] := by
  obtain ⟨b, rfl, hb⟩ := h
  obtain ⟨rfl, hu⟩ := List.append_eq_nil_iff.mp hb
  exact ⟨by simp, hu⟩

section Call

variable (S : Server N) {pending : Bytes}

/-- A read only moves bytes. -/
lemma readInto_unread {b B : Bytes} {peer peer' : E}
    (h : readInto N.toPeer b peer = (.ok B, peer')) :
    B ++ S.unread peer' = b ++ S.unread peer := by
  rw [readInto] at h
  split at h
  · cases h
  · next data reason e hread =>
      split at h
      · cases h
        rw [S.read hread, List.append_assoc]
      · cases h

lemma fillBuffer_unread {retrying eob : Bool} {b B : Bytes} {peer peer' : E}
    (h : fillBuffer N.toPeer retrying eob b peer = (.ok B, peer')) :
    B ++ S.unread peer' = b ++ S.unread peer := by
  rw [fillBuffer] at h
  split at h
  · exact readInto_unread S h
  · split at h
    · rw [readInto_unread S h, S.poll]
    · cases h
      rw [S.poll]

/-- What the `do … while` gets: an exception, the empty buffer again, or what the parser makes of a
buffer that the reads have filled. -/
lemma Waiting.getFirst {s : CallState E} (h : Waiting S pending s)
    {r : Except (Attribute × Exception) Got}
    {peer : E} (hget : getFirst N.toPeer s = (r, peer)) :
    (∃ x, r = .error x) ∨
      (r = .ok ⟨none, [], false⟩ ∧ peer = s.peer ∧ S.unread peer = pending) ∨
      ∃ B response w, r = .ok ⟨response, w, false⟩ ∧ extractResponse B = .ok (response, w) ∧
        B ++ S.unread peer = pending ∧ Reaches N.toPeer s.peer peer := by
  obtain ⟨b, hattr, hb⟩ := h
  -- the first line read from a buffer
  have hnew : ∀ {eob}, newResponse N.toPeer s.retrying false eob b s.peer = (r, peer) →
      (∃ x, r = .error x) ∨
        ∃ B response w, r = .ok ⟨response, w, false⟩ ∧ extractResponse B = .ok (response, w) ∧
          B ++ S.unread peer = pending ∧ Reaches N.toPeer s.peer peer := by
    intro eob hnew
    rw [newResponse] at hnew
    split at hnew
    · cases hnew; exact .inl ⟨_, rfl⟩
    · next B peer' hfill =>
        have hB := fillBuffer_unread S hfill
        split at hnew
        · cases hnew; exact .inl ⟨_, rfl⟩
        · next response w hext =>
            cases hnew
            exact .inr ⟨B, response, w, rfl, hext, hB.trans hb, fillBuffer_reaches hfill⟩
  obtain ⟨hempty, rfl⟩ | ⟨eob, hfour⟩ := hattr
  · simp only [Damon.getFirst, hempty] at hget
    obtain herr | hok := hnew hget
    · exact .inl herr
    · exact .inr (.inr hok)
  · simp only [Damon.getFirst, hfour, Option.isNone_none, Bool.true_and, decide_eq_true_eq] at hget
    split at hget
    · obtain herr | hok := hnew hget
      · exact .inl herr
      · exact .inr (.inr hok)
    · next hnil =>
        obtain rfl : b = [] := by simpa using hnil
        cases hget
        exact .inr (.inl ⟨rfl, rfl, hb⟩)

/-- What the calls of `getResponse` for these answers must not find: a read that ends where the
beginning of an answer is taken for all of it. -/
def Uncut (answers : List Answer) (peer : E) : Prop :=
  ∀ peer', Reaches N.toPeer peer peer' → ∀ before A after, answers = before ++ A :: after →
    ∀ r, S.unread peer' = r ++ Answer.wires after → ¬ Cut A r

/-- The states of a call at the label `retry`: nothing of the answer was used up, or the call will
not return. -/
def Pending (pending : Bytes) (start : E) (s : CallState E) : Prop :=
  (Waiting S pending s ∧ Reaches N.toPeer start s.peer) ∨
    ∀ r, Returns (getResponsePass N.toPeer) s r → ∃ x, r.result = .error x

variable {A : Answer} {answers : List Answer}

/-- **One pass.**  It returns the first answer, or an exception, or comes back without having used
up anything, or it is the beginning of a call without end. -/
lemma pass_cases (hA : A.WellFormed) (hann : A.Announced)
    (hbody : Stops isIgnorableWhiteSpace A.body)
    (hrest : ∀ B ∈ answers, B.WellFormed) {start : E} (hcut : Uncut S (A :: answers) start)
    {s : CallState E} (hs : Waiting S (Answer.wires (A :: answers)) s)
    (hreach : Reaches N.toPeer start s.peer) :
    (∀ s', getResponsePass N.toPeer s = .inl s' →
        Pending S (Answer.wires (A :: answers)) start s') ∧
      ∀ r, getResponsePass N.toPeer s = .inr r → ∀ response, r.result = .ok response →
        response = A.response ∧ Ready S (Answer.wires answers) r.connection_attribute r.peer ∧
          Reaches N.toPeer start r.peer := by
  cases hget : Damon.getFirst N.toPeer s with
  | mk got peer =>
      obtain ⟨x, rfl⟩ | ⟨rfl, rfl, hu⟩ | ⟨B, response, w, rfl, hext, hB, hr⟩ := hs.getFirst S hget
      · -- an exception of the read or of the parser
        have hpass : getResponsePass N.toPeer s = .inr ⟨.error x.2, x.1, peer⟩ := by
          simp only [getResponsePass, hget]
        refine ⟨fun s' h => ?_, fun r h response hok => ?_⟩
        · cases hpass.symm.trans h
        · obtain rfl := Sum.inr.inj (hpass.symm.trans h)
          cases hok
      · -- the empty buffer again
        have hpass : getResponsePass N.toPeer s
            = .inl ⟨.four none [] false false, true, s.peer⟩ := by
          simp only [getResponsePass, hget, readHeaders, Bool.false_eq_true, if_false]
        refine ⟨fun s' h => ?_, fun r h => ?_⟩
        · obtain rfl := Sum.inl.inj (hpass.symm.trans h)
          exact .inl ⟨⟨[], .inr ⟨false, rfl⟩, hu⟩, hreach⟩
        · cases hpass.symm.trans h
      · have hreach' := hreach.trans hr
        have hfull := hA.extract (Answer.wires answers)
        have hwires : A.wire ++ Answer.wires answers = B ++ S.unread peer := hB.symm
        have hstable : Stable extractResponse B := extractResponseHeader_append Response.new B
        rw [Stable, hext] at hstable
        cases response with
        | none =>
            -- the status line is not complete
            obtain rfl : w = B := hstable
            have hpass : getResponsePass N.toPeer s
                = .inl ⟨.four none w false false, true, peer⟩ := by
              simp only [getResponsePass, hget, readHeaders, Bool.false_eq_true, if_false]
            refine ⟨fun s' h => ?_, fun r h => ?_⟩
            · obtain rfl := Sum.inl.inj (hpass.symm.trans h)
              exact .inl ⟨⟨w, .inr ⟨false, rfl⟩, hB⟩, hreach'⟩
            · cases hpass.symm.trans h
        | some response =>
            have hline := hstable.2 (S.unread peer)
            rw [← hwires, hfull] at hline
            simp only [Except.ok.injEq, Prod.mk.injEq, Option.some.injEq] at hline
            obtain ⟨rfl, hw⟩ := hline
            obtain ⟨v, hv, rfl⟩ | ⟨a, ha⟩ := buffer_cases hw.symm
              (hcut peer hreach' [] A answers rfl)
            · -- the whole answer is there
              have hstop : Stops isIgnorableWhiteSpace v := by
                have hs := Answer.stops_wires hrest
                rw [← hv] at hs
                cases v with
                | nil => trivial
                | cons c v => exact hs
              have hpass := pass_whole hA hann hbody hstop hget
              refine ⟨fun s' h => ?_, fun r h response hok => ?_⟩
              · cases hpass.symm.trans h
              · obtain rfl := Sum.inr.inj (hpass.symm.trans h)
                exact ⟨(Except.ok.inj hok).symm, ⟨v, rfl, hv⟩, hreach'⟩
            · -- the headers are not complete
              refine ⟨fun s' h => .inr fun r hr => ?_, fun r h response hok => ?_⟩
              · exact pass_truncated hA ha hget (returns_of_inl h hr)
              · obtain ⟨x, hx⟩ := pass_truncated hA ha hget (returns_of_inr h)
                rw [hx] at hok
                cases hok

/-- **A call that returns a response returns the first of the answers**, and leaves the others to
the calls behind it. -/
theorem getResponse_ready (hA : A.WellFormed) (hann : A.Announced)
    (hbody : Stops isIgnorableWhiteSpace A.body) (hrest : ∀ B ∈ answers, B.WellFormed)
    {a a' : Attribute} {peer peer' : E} {response : Response}
    (hready : Ready S (Answer.wires (A :: answers)) a peer) (hcut : Uncut S (A :: answers) peer)
    (h : GetResponse N.toPeer a peer ⟨.ok response, a', peer'⟩) :
    response = A.response ∧ Ready S (Answer.wires answers) a' peer' ∧
      Reaches N.toPeer peer peer' := by
  refine h.invariant (I := Pending S (Answer.wires (A :: answers)) peer)
    (Q := fun r => ∀ response, r.result = .ok response → response = A.response ∧
      Ready S (Answer.wires answers) r.connection_attribute r.peer ∧ Reaches N.toPeer peer r.peer)
    ?keeps ?done (.inl ⟨hready.waiting, .refl _⟩) response rfl
  case keeps =>
    rintro s s' (⟨hs, hreach⟩ | hnever) hpass
    · exact (pass_cases S hA hann hbody hrest hcut hs hreach).1 s' hpass
    · exact .inr fun r hr => hnever r (returns_of_inl hpass hr)
  case done =>
    rintro s r (⟨hs, hreach⟩ | hnever) hpass
    · exact (pass_cases S hA hann hbody hrest hcut hs hreach).2 r hpass
    · intro response hok
      obtain ⟨x, hx⟩ := hnever r (returns_of_inr hpass)
      rw [hx] at hok
      cases hok

end Call

end Arachnida
