import Arachnida.Damon.GetResponse

/-!
How a call of `getResponse` goes through what it reads.

* `Reaches`: the states of the peer that reads and polls lead to.
* `Stored`: the attributes that calls of `getResponse` leave, one after the other; `Begins`: the
  bytes that such an attribute has for the next call.
* `Looks`: the buffers in which a call looks for a status line, while it has none.
* `PassOutcome`, `getResponsePass_outcome`: **what a pass makes of what it reads.**
* `GetResponse.last`: **the last pass of a call**; `Throws`: the exceptions of the peer.
* `GetResponse.looked`: **a response that is returned was found complete in one of these buffers**,
  its body apart.
-/

namespace Arachnida.Damon

open Library Acari

variable {E : Type*} {P : Peer E}

/-! ### Reads and polls -/

/-- The states that reads and polls lead to. -/
inductive Reaches (P : Peer E) : E → E → Prop
  | refl (e : E) : Reaches P e e
  | read {e e' e'' : E} {d : Bytes × ℕ} (h : P.read e = (.ok d, e')) (hr : Reaches P e' e'') :
      Reaches P e e''
  | poll {e e'' : E} (hr : Reaches P (P.poll e).2 e'') : Reaches P e e''

lemma Reaches.trans {P : Peer E} {e e' e'' : E} (h : Reaches P e e') (h' : Reaches P e' e'') :
    Reaches P e e'' := by
  induction h with
  | refl => exact h'
  | read h _ ih => exact .read h (ih h')
  | poll _ ih => exact .poll (ih h')

/-! ### What calls leave in the attribute -/

/-- The bytes in an attribute. -/
def Attribute.buffer : Attribute → Bytes
  | .empty => []
  | .four _ buffer _ _ => buffer
  | .three _ buffer _ => buffer

/-- What calls of `getResponse` leave in the attribute of a connection, one after the other. -/
inductive Stored (P : Peer E) : Attribute → Prop
  | empty : Stored P .empty
  | call {a : Attribute} {peer : E} {r : CallResult E} (h : Stored P a)
      (hcall : GetResponse P a peer r) : Stored P r.connection_attribute

/-- A call that finds this attribute begins with these bytes, and with this
`end_of_buffer_found`. -/
inductive Begins : Attribute → Bytes → Bool → Prop
  | empty : Begins .empty [] false
  | four {b : Bytes} (hb : b ≠ []) (eob : Bool) : Begins (.four none b false eob) b eob

/-- An attribute as a call leaves it. -/
def Attribute.Left (a : Attribute) : Prop :=
  (∃ response b found, a = .three response b found) ∨ ∃ b eob, Begins a b eob

lemma finish_left (read : Got) (eob : Bool) (peer : E) :
    (finish read eob peer).connection_attribute.Left := by
  have hempty : Attribute.empty.Left := .inr ⟨_, _, .empty⟩
  unfold finish
  split
  · exact hempty
  · split
    · exact hempty
    · exact .inl ⟨_, _, _, rfl⟩
    · next body w _ =>
        by_cases hw : w = []
        · simpa [hw] using hempty
        · simpa [hw] using .inr ⟨_, _, .four hw eob⟩

lemma finish_peer (read : Got) (eob : Bool) (peer : E) : (finish read eob peer).peer = peer := by
  unfold finish
  grind

lemma newResponse_left {retrying found eob : Bool} {b : Bytes} {peer peer' : E} {a : Attribute}
    {x : Exception} (h : newResponse P retrying found eob b peer = (.error (a, x), peer')) :
    a = .empty := by
  rw [newResponse] at h
  split at h
  · cases h
    rfl
  · split at h <;> cases h
    rfl

lemma getFirst_left {s : CallState E} {peer : E} {a : Attribute} {x : Exception}
    (h : getFirst P s = (.error (a, x), peer)) : a.Left := by
  have hempty : Attribute.empty.Left := .inr ⟨_, _, .empty⟩
  rw [getFirst] at h
  split at h
  · rw [newResponse_left h]
    exact hempty
  · cases h
    exact .inl ⟨_, _, _, rfl⟩
  · split at h
    · rw [newResponse_left h]
      exact hempty
    · cases h

lemma getResponsePass_left {s : CallState E} {r : CallResult E}
    (h : getResponsePass P s = .inr r) : r.connection_attribute.Left := by
  have hempty : Attribute.empty.Left := .inr ⟨_, _, .empty⟩
  rw [getResponsePass] at h
  split at h
  · next hget =>
      cases h
      exact getFirst_left hget
  · split at h
    · cases h
      exact hempty
    · split at h
      · cases h
        exact finish_left _ _ _
      · cases h

lemma GetResponse.left {a : Attribute} {peer : E} {r : CallResult E} (h : GetResponse P a peer r) :
    r.connection_attribute.Left :=
  h.invariant (I := fun _ => True) (Q := fun r => r.connection_attribute.Left)
    (fun _ _ _ _ => trivial) (fun _ _ _ hr => getResponsePass_left hr) trivial

lemma Stored.left {a : Attribute} (h : Stored P a) : a.Left := by
  cases h with
  | empty => exact .inr ⟨_, _, .empty⟩
  | call _ hcall => exact hcall.left

/-! ### The buffers of a call -/

/-- A status line makes a response without headers and without a body. -/
lemma extractResponse_new {B w : Bytes} {response : Response}
    (h : extractResponse B = .ok (some response, w)) :
    response.header_fields_ = [] ∧ response.body_ = [] := by
  have hnew : ∃ p n r, response = .new p n r := by
    simp only [extractResponse, extractResponseHeader] at h
    grind
  obtain ⟨p, n, r, rfl⟩ := hnew
  exact ⟨rfl, rfl⟩

/-- The buffers in which a call looks for a status line, from the bytes `b` on, each with the peer
behind the read: the first one, or a later one if there is no status line in the first. -/
inductive Looks (P : Peer E) : Bool → Bool → Bytes → E → Bytes → E → Prop
  | now {retrying eob : Bool} {b B : Bytes} {peer peer' : E}
      (h : fillBuffer P retrying eob b peer = (.ok B, peer')) : Looks P retrying eob b peer B peer'
  | later {retrying eob : Bool} {b B B' : Bytes} {peer peer' peer'' : E}
      (h : fillBuffer P retrying eob b peer = (.ok B, peer'))
      (hline : extractResponse B = .ok (none, B)) (hlater : Looks P true false B peer' B' peer'') :
      Looks P retrying eob b peer B' peer''

/-- What comes behind a filled buffer. -/
lemma Looks.of_fill {retrying eob : Bool} {b B B₀ : Bytes} {peer peer₀ peer' : E}
    (h : Looks P retrying eob b peer B peer')
    (hfill : fillBuffer P retrying eob b peer = (.ok B₀, peer₀)) :
    B = B₀ ∨ extractResponse B₀ = .ok (none, B₀) ∧ Looks P true false B₀ peer₀ B peer' := by
  cases h with
  | now h =>
      rw [hfill] at h
      cases h
      exact .inl rfl
  | later h hline hlater =>
      rw [hfill] at h
      cases h
      exact .inr ⟨hline, hlater⟩

/-- What a pass makes of the bytes `b` and of what it reads: an exception of the read or of the
parser, another pass with the bytes that it has, another pass inside the headers, or what is behind
the headers. -/
inductive PassOutcome (P : Peer E) (retrying eob : Bool) (b : Bytes) (peer : E) :
    CallState E ⊕ CallResult E → Prop
  | threw {x : Exception} {peer' : E}
      (hfill : fillBuffer P retrying eob b peer = (.error x, peer')) :
      PassOutcome P retrying eob b peer (.inr ⟨.error x, .empty, peer'⟩)
  | badLine {B : Bytes} {peer' : E} {f : Failure}
      (hfill : fillBuffer P retrying eob b peer = (.ok B, peer'))
      (hline : extractResponse B = .error f) :
      PassOutcome P retrying eob b peer (.inr ⟨.error (.parsing f), .empty, peer'⟩)
  | noLine {B : Bytes} {peer' : E}
      (hfill : fillBuffer P retrying eob b peer = (.ok B, peer'))
      (hline : extractResponse B = .ok (none, B)) :
      PassOutcome P retrying eob b peer (.inl ⟨.four none B false false, true, peer'⟩)
  | badHeader {B w : Bytes} {peer' : E} {response : Response} {f : Failure}
      (hfill : fillBuffer P retrying eob b peer = (.ok B, peer'))
      (hline : extractResponse B = .ok (some response, w))
      (hrun : (headerLoop Response.push).run ⟨response, w, false⟩ = .error f) :
      PassOutcome P retrying eob b peer (.inr ⟨.error (.parsing f), .empty, peer'⟩)
  | inHeaders {B w v : Bytes} {peer' : E} {response m : Response}
      (hfill : fillBuffer P retrying eob b peer = (.ok B, peer'))
      (hline : extractResponse B = .ok (some response, w))
      (hrun : (headerLoop Response.push).run ⟨response, w, false⟩ = .ok (⟨m, v, false⟩, true)) :
      PassOutcome P retrying eob b peer (.inl ⟨.four (some m) v false true, true, peer'⟩)
  | headers {B w v : Bytes} {peer' : E} {response m : Response} {eob' : Bool}
      (hfill : fillBuffer P retrying eob b peer = (.ok B, peer'))
      (hline : extractResponse B = .ok (some response, w))
      (hrun : (headerLoop Response.push).run ⟨response, w, false⟩ = .ok (⟨m, v, true⟩, eob')) :
      PassOutcome P retrying eob b peer (.inr (finish ⟨some m, v, true⟩ eob' peer'))

/-- A pass that has no response yet looks for a status line. -/
lemma Begins.getFirst {s : CallState E} {b : Bytes} {eob : Bool}
    (h : Begins s.connection_attribute b eob) :
    Damon.getFirst P s = newResponse P s.retrying false eob b s.peer := by
  obtain ⟨a, retrying, peer⟩ := s
  cases h with
  | empty => rfl
  | four hb => simp [Damon.getFirst, hb]

section Filled

variable {s : CallState E} {b B w : Bytes} {eob : Bool} {peer' : E}
  (hfill : fillBuffer P s.retrying eob b s.peer = (.ok B, peer'))
include hfill

/-- There is no status line in the buffer. -/
lemma Begins.pass_noLine (h : Begins s.connection_attribute b eob)
    (hline : extractResponse B = .ok (none, B)) :
    getResponsePass P s = .inl ⟨.four none B false false, true, peer'⟩ := by
  simp only [getResponsePass, h.getFirst, newResponse, hfill, hline, readHeaders,
    Bool.false_eq_true, if_false]

/-- There is one, and the header loop decides. -/
lemma Begins.pass_line (h : Begins s.connection_attribute b eob) {response m : Response} {v : Bytes}
    {found eob' : Bool} (hline : extractResponse B = .ok (some response, w))
    (hrun : (headerLoop Response.push).run ⟨response, w, false⟩ = .ok (⟨m, v, found⟩, eob')) :
    getResponsePass P s = if found then .inr (finish ⟨some m, v, found⟩ eob' peer')
      else .inl ⟨.four (some m) v found eob', true, peer'⟩ := by
  simp only [getResponsePass, h.getFirst, newResponse, hfill, hline, readHeaders, hrun]

end Filled

/-- **A pass that has no response yet.** -/
theorem getResponsePass_outcome {s : CallState E} {b : Bytes} {eob : Bool}
    (h : Begins s.connection_attribute b eob) :
    PassOutcome P s.retrying eob b s.peer (getResponsePass P s) := by
  cases hfill : fillBuffer P s.retrying eob b s.peer with
  | mk filled peer' =>
      cases filled with
      | error x =>
          have hpass : getResponsePass P s = .inr ⟨.error x, .empty, peer'⟩ := by
            simp only [getResponsePass, h.getFirst, newResponse, hfill]
          exact hpass ▸ .threw hfill
      | ok B =>
          have hstable : Stable extractResponse B := extractResponseHeader_append Response.new B
          cases hline : extractResponse B with
          | error f =>
              have hpass : getResponsePass P s = .inr ⟨.error (.parsing f), .empty, peer'⟩ := by
                simp only [getResponsePass, h.getFirst, newResponse, hfill, hline]
              exact hpass ▸ .badLine hfill hline
          | ok found =>
              obtain ⟨_ | response, w⟩ := found
              · rw [Stable, hline] at hstable
                obtain rfl : w = B := hstable
                rw [h.pass_noLine hfill hline]
                exact .noLine hfill hline
              · cases hrun : (headerLoop Response.push).run ⟨response, w, false⟩ with
                | error f =>
                    have hpass : getResponsePass P s
                        = .inr ⟨.error (.parsing f), .empty, peer'⟩ := by
                      simp only [getResponsePass, h.getFirst, newResponse, hfill, hline,
                        readHeaders,
                        hrun]
                    exact hpass ▸ .badHeader hfill hline hrun
                | ok left =>
                    obtain ⟨⟨m, v, found⟩, eob'⟩ := left
                    rw [h.pass_line hfill hline hrun]
                    cases found with
                    | false =>
                        obtain ⟨rfl, -⟩ := headerLoop_settled Response.push hrun rfl
                        exact .inHeaders hfill hline hrun
                    | true => exact .headers hfill hline hrun

/-- Where there is neither a response nor a byte, the pass comes back without reading. -/
lemma getResponsePass_nothing (eob : Bool) (peer : E) :
    getResponsePass P ⟨.four none [] false eob, true, peer⟩
      = .inl ⟨.four none [] false false, true, peer⟩ := by
  simp [getResponsePass, getFirst, readHeaders]

/-- Inside the headers, too. -/
lemma getResponsePass_inHeaders {response m : Response} {w v : Bytes} {eob : Bool}
    (hrun : (headerLoop Response.push).run ⟨response, w, false⟩ = .ok (⟨m, v, false⟩, eob))
    (peer : E) :
    getResponsePass P ⟨.four (some m) v false true, true, peer⟩
      = .inl ⟨.four (some m) v false true, true, peer⟩ := by
  obtain ⟨_, hagain⟩ := headerLoop_settled Response.push hrun rfl
  simp [getResponsePass, getFirst, readHeaders, hagain]

/-! ### How a call ends -/

/-- A read throws this exception, in a state that reads and polls lead to. -/
def Throws (P : Peer E) (peer : E) (x : Exception) : Prop :=
  ∃ e e', Reaches P peer e ∧ P.read e = (.error x, e')

/-- The peer behind a read. -/
lemma readInto_reaches {b B : Bytes} {peer peer' : E} (h : readInto P b peer = (.ok B, peer')) :
    Reaches P peer peer' := by
  rw [readInto] at h
  split at h
  · cases h
  · next hread =>
      split at h
      · cases h
        exact .read hread (.refl _)
      · cases h

/-- The peer behind a read, if there is one. -/
lemma fillBuffer_reaches {retrying eob : Bool} {b B : Bytes} {peer peer' : E}
    (h : fillBuffer P retrying eob b peer = (.ok B, peer')) : Reaches P peer peer' := by
  rw [fillBuffer] at h
  split at h
  · exact readInto_reaches h
  · split at h
    · exact .poll (readInto_reaches h)
    · cases h
      exact .poll (.refl _)

/-- An exception is the peer's, or the reason of the read is not expected. -/
lemma readInto_throws {b : Bytes} {peer peer' : E} {x : Exception}
    (h : readInto P b peer = (.error x, peer')) :
    x = .unexpectedConnectionState ∨ Throws P peer x := by
  rw [readInto] at h
  split at h
  · next hread =>
      cases h
      exact .inr ⟨peer, _, .refl _, hread⟩
  · split at h
    · cases h
    · cases h
      exact .inl rfl

lemma fillBuffer_throws {retrying eob : Bool} {b : Bytes} {peer peer' : E} {x : Exception}
    (h : fillBuffer P retrying eob b peer = (.error x, peer')) :
    x = .unexpectedConnectionState ∨ Throws P peer x := by
  rw [fillBuffer] at h
  split at h
  · exact readInto_throws h
  · split at h
    · rcases readInto_throws h with hx | ⟨e, e', hr, hread⟩
      · exact .inl hx
      · exact .inr ⟨e, e', .poll hr, hread⟩
    · cases h

/-- **The last pass of a call** has no response yet: inside the headers, and without a byte, a call
does not end. -/
theorem GetResponse.last {a : Attribute} {b : Bytes} {eob : Bool} (ha : Begins a b eob) {peer : E}
    {r : CallResult E} (h : GetResponse P a peer r) :
    ∃ retrying eob' b' e, Reaches P peer e ∧
      (∀ B e', Looks P retrying eob' b' e B e' → Looks P false eob b peer B e') ∧
      PassOutcome P retrying eob' b' e (.inr r) := by
  -- the buffers that are still to come, or a call that never ends
  let I : CallState E → Prop := fun s =>
    (∃ b' eob', Begins s.connection_attribute b' eob' ∧ Reaches P peer s.peer ∧
      ∀ B e, Looks P s.retrying eob' b' s.peer B e → Looks P false eob b peer B e) ∨
      ∀ r, ¬ Returns (getResponsePass P) s r
  refine h.invariant (I := I) (Q := fun r => ∃ retrying eob' b' e, Reaches P peer e ∧
      (∀ B e', Looks P retrying eob' b' e B e' → Looks P false eob b peer B e') ∧
      PassOutcome P retrying eob' b' e (.inr r))
    ?keeps ?done (.inl ⟨b, eob, ha, .refl _, fun _ _ hlooks => hlooks⟩)
  case keeps =>
    rintro s s' (⟨b', eob', hb, hreaches, hlooks⟩ | hnever) hpass
    · have hout := getResponsePass_outcome (P := P) hb
      rw [hpass] at hout
      cases hout with
      | @noLine B peer' hfill hline =>
          by_cases hB : B = []
          · subst hB
            exact .inr fun r => not_returns_of_stuck (getResponsePass_nothing false peer')
          · exact .inl ⟨B, false, .four hB false, hreaches.trans (fillBuffer_reaches hfill),
              fun B' e h => hlooks B' e (.later hfill hline h)⟩
      | inHeaders _ _ hrun =>
          exact .inr fun r => not_returns_of_stuck (getResponsePass_inHeaders hrun _)
    · exact .inr fun r hr => hnever r (returns_of_inl hpass hr)
  case done =>
    rintro s r (⟨b', eob', hb, hreaches, hlooks⟩ | hnever) hpass
    · have hout := getResponsePass_outcome (P := P) hb
      rw [hpass] at hout
      exact ⟨_, _, _, _, hreaches, hlooks, hout⟩
    · exact absurd (returns_of_inr hpass) (hnever r)

/-- **A response that a call returns was found in one of its buffers**, with all of its headers. -/
theorem GetResponse.looked {a a' : Attribute} {b : Bytes} {eob : Bool} (ha : Begins a b eob)
    {peer peer' : E} {response : Response} (h : GetResponse P a peer ⟨.ok response, a', peer'⟩) :
    ∃ B w v first m eob', Looks P false eob b peer B peer' ∧
      extractResponse B = .ok (some first, w) ∧
      (headerLoop Response.push).run ⟨first, w, false⟩ = .ok (⟨m, v, true⟩, eob') ∧
      finish ⟨some m, v, true⟩ eob' peer' = ⟨.ok response, a', peer'⟩ := by
  obtain ⟨retrying, eob', b', e, -, hlooks, hout⟩ := h.last ha
  generalize hr : (⟨.ok response, a', peer'⟩ : CallResult E) = r at hout ⊢
  cases hout with
  | @headers B w v e' first m eob'' hfill hline hrun =>
      obtain rfl : peer' = e' := by rw [← finish_peer ⟨some m, v, true⟩ eob'' e', ← hr]
      exact ⟨B, w, v, first, m, eob'', hlooks B _ (.now hfill), hline, hrun, rfl⟩
  | _ => cases hr

end Arachnida.Damon
