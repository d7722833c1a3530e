import Arachnida.Acari.HeaderBlock
import Arachnida.Damon.Reading

/-!
The bodies of the responses that `getResponse` returns.

* `Complete`: a body has the announced size, it is what was received behind the headers, and none of
  it is left in the attribute.
* `finish_complete_iff`: the part of the call behind the headers.
* `returned_complete_iff`: **a response is returned with its body exactly if the body was received
  with the headers and does not begin with white space**, or is empty.
-/

namespace Arachnida.Damon

open Library Acari

variable {E : Type*} {P : Peer E}

/-- The response has a body of `N` bytes, the first of those that were received behind its headers,
and none of them is left in the attribute. -/
def Complete (N : ℕ) (received : Bytes) (response : Response) (left : Attribute) : Prop :=
  response.body_ = received.take N ∧ response.body_.length = N ∧ left.buffer <:+ received.drop N

/-- The buffer of the call in which its response was found, with the peer behind the last read. -/
def Looked (P : Peer E) (a : Attribute) (peer : E) (B : Bytes) (peer' : E) : Prop :=
  ∃ b eob, Begins a b eob ∧ Looks P false eob b peer B peer'

/-- White space at the beginning of the one and not of the other. -/
lemma take_ne {N : ℕ} (hN : N ≠ 0) {received w : Bytes}
    (hr : ¬ Stops isIgnorableWhiteSpace received)
    (hw : Stops isIgnorableWhiteSpace w) : w.take N ≠ received.take N := by
  obtain ⟨k, rfl⟩ := Nat.exists_eq_succ_of_ne_zero hN
  cases received with
  | nil => exact absurd stops_nil hr
  | cons c received =>
      cases w with
      | nil => simp
      | cons x w =>
          intro h
          rw [List.take_succ_cons, List.take_succ_cons, List.cons.injEq] at h
          rw [stops_cons] at hr hw
          exact hr (h.1 ▸ hw)

section Finish

variable {m response : Response} {v received : Bytes} {eob : Bool} {a' : Attribute} {peer peer' : E}
  {N : ℕ}

/-- Behind the headers: the body is found, or the response is returned without it. -/
lemma finish_cases (hm : m.body_ = [])
    (h : finish ⟨some m, v, true⟩ eob peer = ⟨.ok response, a', peer'⟩) :
    response.header_fields_ = m.header_fields_ ∧
      ∀ N, contentLength m.header_fields_ = .ok (some N) →
        if v.length < N then response.body_ = [] else
          response.body_ = v.take N ∧ a'.buffer = v.drop N := by
  simp only [finish, findBody] at h
  cases hlen : contentLength m.header_fields_ with
  | error f =>
      simp only [hlen] at h
      cases h
  | ok size =>
      cases size with
      | none =>
          simp only [hlen] at h
          cases h
          exact ⟨rfl, fun N hN => by cases hN⟩
      | some n =>
          simp only [hlen] at h
          by_cases hshort : v.length < n
          · simp only [if_pos hshort] at h
            cases h
            refine ⟨rfl, fun N hN => ?_⟩
            cases hN
            rwa [if_pos hshort]
          · simp only [if_neg hshort] at h
            cases h
            refine ⟨rfl, fun N hN => ?_⟩
            cases hN
            rw [if_neg hshort, hm]
            refine ⟨List.nil_append _, ?_⟩
            by_cases hrest : v.drop n = [] <;> simp [hrest, Attribute.buffer]

/-- **Behind the headers**, whose loop has ended at `v`. -/
lemma finish_complete_iff (hm : m.body_ = []) (hv : Stops isIgnorableWhiteSpace v)
    (hbehind : v <:+ received ∧ (Stops isIgnorableWhiteSpace received → received = v))
    (h : finish ⟨some m, v, true⟩ eob peer = ⟨.ok response, a', peer'⟩)
    (hN : contentLength m.header_fields_ = .ok (some N)) :
    Complete N received response a' ↔
      N = 0 ∨ (N ≤ received.length ∧ Stops isIgnorableWhiteSpace received) := by
  have hbody := (finish_cases hm h).2 N hN
  constructor
  · rintro ⟨htake, hlength, -⟩
    by_contra! hne
    obtain ⟨hN0, hne⟩ := hne
    split_ifs at hbody with hshort
    · rw [hbody, List.length_nil] at hlength
      exact hN0 hlength.symm
    · have hle := hbehind.1.length_le
      have hspace := hne (by omega)
      exact take_ne hN0 hspace hv (hbody.1.symm.trans htake)
  · rintro (rfl | ⟨hle, hstops⟩)
    · rw [if_neg (by omega)] at hbody
      exact ⟨hbody.1, by simp [hbody.1], by simpa [hbody.2] using hbehind.1⟩
    · obtain rfl := hbehind.2 hstops
      rw [if_neg (by omega)] at hbody
      exact ⟨hbody.1, by simp [hbody.1, hle], by rw [hbody.2]⟩

end Finish

/-- **A response that is returned is complete** if and only if its body is empty, or the bytes that
were received behind its headers, when these are found complete, are enough for it and do not begin
with white space. -/
theorem returned_complete_iff {E' : Type*} {P' : Peer E'} {a a' : Attribute} {peer peer' : E}
    {response : Response} (ha : Stored P' a)
    (h : GetResponse P a peer ⟨.ok response, a', peer'⟩) :
    ∃ B w first, Looked P a peer B peer' ∧ extractResponse B = .ok (some first, w) ∧
      ∀ N, contentLength response.header_fields_ = .ok (some N) →
        (Complete N (behindHeaders w) response a' ↔
          N = 0 ∨ (N ≤ (behindHeaders w).length ∧
            Stops isIgnorableWhiteSpace (behindHeaders w))) := by
  obtain ⟨response', b, found, rfl⟩ | ⟨b, eob, hbegins⟩ := ha.left
  · have hpass : getResponsePass P ⟨.three response' b found, false, peer⟩
        = .inr ⟨.error .badAnyCast, .three response' b found, peer⟩ := rfl
    cases GetResponse.deterministic P h (returns_of_inr hpass)
  obtain ⟨B, w, v, first, m, eob', hlooks, hline, hrun, hfinish⟩ := h.looked hbegins
  refine ⟨B, w, first, ⟨b, eob, hbegins, hlooks⟩, hline, fun N hN => ?_⟩
  obtain ⟨hheaders, hbody⟩ := extractResponse_new hline
  obtain ⟨hs, hmessage⟩ := headerLoop_message Response.push hrun
  have hm : m.body_ = [] := by
    rw [show m = _ from hmessage, Response.foldl_push]
    exact hbody
  rw [(finish_cases hm hfinish).1] at hN
  obtain rfl | hbehind := headerLoop_behindHeaders hrun
  · rw [hheaders] at hN
    cases hN
  · exact finish_complete_iff hm (headerLoop_stops Response.push rfl hrun rfl) hbehind hfinish hN

/-- Headers that announce five bytes. -/
def fiveBytes : Bytes := bytes "HTTP/1.1 200 OK\r\nContent-Length: 5\r\n\r\n"

/-- What the client makes of them, with this body. -/
def fiveBytesResponse (body : Bytes) : Response :=
  ⟨bytes "HTTP/1.1", 200, bytes "OK", [⟨bytes "Content-Length", bytes "5"⟩], body⟩

/-- The witness of `returned_complete_iff`: headers and body in one read. -/
theorem returned_complete_one :
    ∃ B w first, Looked (scripted false) .empty [(fiveBytes ++ bytes "hello", 1)] B [] ∧
      extractResponse B = .ok (some first, w) ∧
      ∀ N, contentLength (fiveBytesResponse (bytes "hello")).header_fields_ = .ok (some N) →
        (Complete N (behindHeaders w) (fiveBytesResponse (bytes "hello")) .empty ↔
          N = 0 ∨ (N ≤ (behindHeaders w).length ∧
            Stops isIgnorableWhiteSpace (behindHeaders w))) := by
  have hcall : GetResponse (scripted false) .empty [(fiveBytes ++ bytes "hello", 1)]
      ⟨.ok (fiveBytesResponse (bytes "hello")), .empty, []⟩ := returns_of_inr (by decide +kernel)
  exact returned_complete_iff (@Stored.empty _ (scripted false)) hcall

/-- **The body arrives behind the headers**: the response is returned without it. -/
theorem incomplete_returned : ¬ ∀ (P : Peer (List (Bytes × ℕ))) (a a' : Attribute)
    (peer peer' : List (Bytes × ℕ)) (response : Response), Stored P a →
      GetResponse P a peer ⟨.ok response, a', peer'⟩ →
        ∀ N, contentLength response.header_fields_ = .ok (some N) → response.body_.length = N := by
  intro h
  have hcall : GetResponse (scripted false) .empty [(fiveBytes, 1), (bytes "hello", 1)]
      ⟨.ok (fiveBytesResponse []), .three (fiveBytesResponse []) [] true, [(bytes "hello", 1)]⟩ :=
    returns_of_inr (by decide +kernel)
  cases h _ _ _ _ _ _ .empty hcall 5 (by decide +kernel)

end Arachnida.Damon
