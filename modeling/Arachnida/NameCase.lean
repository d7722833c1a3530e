import Arachnida.ResponseCase
import Arachnida.Spin.RequestCase

/-!
The letter case of header field names, for the server's parser and for the client's.

* `SameRequests`: a call of `onDataReady` hands over the same requests for two streams.
* `name_case_iff`: **the spelling of header names does not matter exactly where the headers announce
  the same sizes in both spellings.**
* `name_case_matters`: `content-length` is not found.
-/

namespace Arachnida

open Library Acari Damon Spin

/-- A call of `onDataReady` hands over the same requests for the second stream, and no exception. -/
def SameRequests (b b' : Bytes) : Prop :=
  (onDataReady none b').thrown = none ∧
    List.Forall₂ SameRequest (onDataReady none b).handled (onDataReady none b').handled

/-- **The spelling of header names** changes nothing about the requests, or the responses, of a
stream that arrives in one read if and only if the headers of every message announce the same size
in both spellings.  Where the body is missing, it may be another size. -/
theorem name_case_iff {b b' c c' : Bytes} {responses : List Damon.Response}
    (hb : (onDataReady none b).thrown = none)
    (hrequests : Recased extractRequest (fun _ _ _ => True) b b')
    (hc : SplitInto true c responses)
    (hresponses : Recased extractResponse (fun _ _ _ => True) c c') :
    (SameRequests b b' ↔ Recased extractRequest SameSize b b') ∧
      (SameResponses true c' responses ↔ Recased extractResponse SameBody c c') := by
  refine ⟨?_, sameResponses_iff hresponses hc⟩
  have hsplit := onDataReady_split b
  have hnone : (split b).2 = none := by rw [← hsplit, hb]
  rw [← sameSplit_iff hrequests hnone, SameRequests, SameSplit, ← hsplit, ← onDataReady_split b']
  exact and_comm

/-- Headers and a body of one byte, with this name for the size of the body. -/
def oneByteHead (name : Bytes) : Bytes :=
  bytes "\r\n" ++ (name ++ 58 :: bytes " 1" ++ (bytes "\r\n\r\n" ++ bytes "a"))

lemma oneByte_recased : HeadRecased (oneByteHead (bytes "Content-Length"))
    (oneByteHead (bytes "content-length")) [⟨chomp (bytes "Content-Length"), chomp (bytes " 1")⟩]
    [⟨chomp (bytes "content-length"), chomp (bytes " 1")⟩] true (bytes "a" ++ [])
      (bytes "a" ++ []) :=
  .header (by decide) (by decide) (by decide) (by decide +kernel) (by decide) (by decide)
    (.closed (by decide) (by decide) (by decide))

/-- A request in two spellings. -/
lemma request_recased : Recased extractRequest (fun _ _ _ => True)
    (bytes "PUT / HTTP/1.1" ++ oneByteHead (bytes "Content-Length"))
    (bytes "PUT / HTTP/1.1" ++ oneByteHead (bytes "content-length")) := by
  have hline : extractRequest (bytes "PUT / HTTP/1.1" ++ oneByteHead (bytes "Content-Length"))
      = .ok (some (.new (bytes "PUT") (bytes "/") (bytes "HTTP/1.1")),
          oneByteHead (bytes "Content-Length")) := by decide +kernel
  exact .message hline oneByte_recased (by decide +kernel) trivial (.same [])

/-- A response in two spellings. -/
lemma response_recased : Recased extractResponse (fun _ _ _ => True)
    (bytes "HTTP/1.1 200 OK" ++ oneByteHead (bytes "Content-Length"))
    (bytes "HTTP/1.1 200 OK" ++ oneByteHead (bytes "content-length")) := by
  have hline : extractResponse (bytes "HTTP/1.1 200 OK" ++ oneByteHead (bytes "Content-Length"))
      = .ok (some (.new (bytes "HTTP/1.1") 200 (bytes "OK")),
          oneByteHead (bytes "Content-Length")) := by decide +kernel
  exact .message hline oneByte_recased (by decide +kernel) trivial (.same [])

/-- The witness of `name_case_iff`: a request and a response with a body of one byte. -/
theorem name_case_one :
    (SameRequests (bytes "PUT / HTTP/1.1" ++ oneByteHead (bytes "Content-Length"))
        (bytes "PUT / HTTP/1.1" ++ oneByteHead (bytes "content-length")) ↔
      Recased extractRequest SameSize
        (bytes "PUT / HTTP/1.1" ++ oneByteHead (bytes "Content-Length"))
        (bytes "PUT / HTTP/1.1" ++ oneByteHead (bytes "content-length"))) ∧
    (SameResponses true (bytes "HTTP/1.1 200 OK" ++ oneByteHead (bytes "content-length"))
        [⟨bytes "HTTP/1.1", 200, bytes "OK", [⟨bytes "Content-Length", bytes "1"⟩], bytes "a"⟩] ↔
      Recased extractResponse SameBody
        (bytes "HTTP/1.1 200 OK" ++ oneByteHead (bytes "Content-Length"))
        (bytes "HTTP/1.1 200 OK" ++ oneByteHead (bytes "content-length"))) := by
  have hcall : GetResponse (scripted false) .empty
      [(bytes "HTTP/1.1 200 OK" ++ oneByteHead (bytes "Content-Length"), 1)]
      ⟨.ok ⟨bytes "HTTP/1.1", 200, bytes "OK", [⟨bytes "Content-Length", bytes "1"⟩], bytes "a"⟩,
        .empty, []⟩ := returns_of_inr (by decide +kernel)
  exact name_case_iff (by decide +kernel) request_recased
    ⟨.empty, ⟨.empty, [], hcall, rfl, rfl⟩, trivial⟩ response_recased

/-- **A size under the name `content-length`** is not found: the body of the request is lost, and it
is taken for the beginning of the next request. -/
theorem name_case_matters : ¬ ∀ b b' : Bytes, (onDataReady none b).thrown = none →
    Recased extractRequest (fun _ _ _ => True) b b' → SameRequests b b' := by
  intro h
  have hsame := h _ _ (by decide +kernel) request_recased
  have hhandled : (onDataReady none
      (bytes "PUT / HTTP/1.1" ++ oneByteHead (bytes "Content-Length"))).handled
        = [⟨bytes "PUT", bytes "/", bytes "HTTP/1.1", [⟨bytes "Content-Length", bytes "1"⟩],
          bytes "a"⟩] := by decide +kernel
  have hhandled' : (onDataReady none
      (bytes "PUT / HTTP/1.1" ++ oneByteHead (bytes "content-length"))).handled
        = [⟨bytes "PUT", bytes "/", bytes "HTTP/1.1", [⟨bytes "content-length", bytes "1"⟩],
          []⟩] := by decide +kernel
  have hall := hsame.2
  rw [hhandled, hhandled'] at hall
  cases (List.forall₂_cons.mp hall).1.body

end Arachnida
