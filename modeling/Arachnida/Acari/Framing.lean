import Arachnida.Acari.FirstLine
import Arachnida.Acari.MessageLoop

/-!
A message behind its first line: header lines, an empty line, a body whose size the headers give,
and whatever comes next.

* `Framed`: the header lists and bodies that make such a message.
* `tailBytes`: the message as it is written.
* `Framed.read`: where the body does not begin with white space, headers and body are found.
* `stops_of_read`: no body that begins with white space is ever found.
* `PlainHeader`: a header that is read back as it was written; `framed_of_plain` is the message
  that the serialisers make of such headers, which add the `Content-Length` themselves.
-/

namespace Arachnida.Acari

open Library

/-- Header lines of which exactly one, trimmed, is `Content-Length`, with the size of the body in
decimal. -/
structure Framed (headers : List Header) (body : Bytes) : Prop where
  lines : ∀ h ∈ headers, IsHeaderLine h
  length : ∃ digits, IsNumeral digits ∧ decimalValue digits = body.length ∧
    (headers.map Header.trimmed).filter (fun h => h.name_ == bytes "Content-Length")
      = [⟨bytes "Content-Length", digits⟩]

/-- What is written behind the first line, up to and with the bytes that follow the message. -/
def tailBytes (headers : List Header) (body rest : Bytes) : Bytes :=
  bytes "\r\n" ++ (headers.flatMap headerLine ++ (bytes "\r\n" ++ (body ++ rest)))

/-- It begins with the carriage return of the first line. -/
lemma tailBytes_cons (headers : List Header) (body rest : Bytes) : tailBytes headers body rest
    = 13 :: (10 :: (headers.flatMap headerLine ++ (bytes "\r\n" ++ (body ++ rest)))) := by
  rw [tailBytes, bytes_crlf]
  rfl

section Read

variable {M : Type*} (push : M → Header → M) {headers : List Header} {body rest : Bytes}

/-- The size of the body of a framed message. -/
lemma Framed.contentLength (h : Framed headers body) :
    contentLength (headers.map Header.trimmed)
      = if body.length < 2 ^ 64 then .ok (some body.length) else .error .badLexicalCast := by
  obtain ⟨digits, hnum, hval, hfilter⟩ := h.length
  rw [Acari.contentLength, ← List.head?_filter, hfilter]
  by_cases hlen : body.length < 2 ^ 64
  · simp only [List.head?_cons, lexicalCast_digits hnum, hval, hlen, if_true]
  · simp only [List.head?_cons, lexicalCast_digits hnum, hval, hlen, if_false]

lemma Framed.findBody (h : Framed headers body) :
    findBody (headers.map Header.trimmed) (body ++ rest)
      = if body.length < 2 ^ 64 then .ok (some (body, rest)) else .error .badLexicalCast := by
  rw [Acari.findBody, h.contentLength]
  by_cases hlen : body.length < 2 ^ 64
  · simp only [hlen, if_true]
    rw [if_neg (by simp), List.take_left, List.drop_left]
  · simp only [hlen, if_false]

/-- **Headers and body are found** where neither the body nor, behind an empty body, what follows
begins with white space. -/
theorem Framed.read (h : Framed headers body) (hbody : Stops isIgnorableWhiteSpace body)
    (hrest : Stops isIgnorableWhiteSpace rest) (m : M) :
    (headerLoop push).run ⟨m, tailBytes headers body rest, false⟩
      = .ok (⟨(headers.map Header.trimmed).foldl push m, body ++ rest, true⟩, false) := by
  refine headerLoop_lines push headers h.lines ?_ m
  cases body with
  | nil => exact hrest
  | cons c body => exact hbody

/-- **No body that begins with white space is found**: where the headers are found to end, nothing
is left of the white space behind them. -/
theorem stops_of_read {m : M} {w : Bytes} {s : HeaderState M} {eob : Bool}
    (hrun : (headerLoop push).run ⟨m, w, false⟩ = .ok (s, eob))
    (hfound : s.end_of_headers_found = true) {hs : List Header} {b r : Bytes}
    (hfind : Acari.findBody hs s.where_ = .ok (some (b, r))) : Stops isIgnorableWhiteSpace b := by
  have hstop := headerLoop_stops push rfl hrun hfound
  rw [findBody_suffix hfind] at hstop
  cases b with
  | nil => trivial
  | cons c b => exact hstop

end Read

/-! ### Plain headers -/

/-- A header other than `Content-Length`, on one line, without white space around its parts. -/
structure PlainHeader (header : Header) : Prop where
  line : IsHeaderLine header
  name_ne_content_length : header.name_ ≠ bytes "Content-Length"
  name_end : Stops isIgnorableWhiteSpace header.name_.reverse
  value_start : Stops isIgnorableWhiteSpace header.value_
  value_end : Stops isIgnorableWhiteSpace header.value_.reverse

/-- The name of a plain header. -/
def PlainName (name : Bytes) : Prop :=
  name ≠ [] ∧ 58 ∉ name ∧ Stops isIgnorableWhiteSpace name ∧ (∀ c ∈ name, isNewLine c = false) ∧
    name ≠ bytes "Content-Length" ∧ Stops isIgnorableWhiteSpace name.reverse

instance (name : Bytes) : Decidable (PlainName name) := inferInstanceAs (Decidable (_ ∧ _))

lemma PlainName.header {name value : Bytes} (h : PlainName name)
    (hline : ∀ c ∈ value, isNewLine c = false) (hstart : Stops isIgnorableWhiteSpace value)
    (hend : Stops isIgnorableWhiteSpace value.reverse) : PlainHeader ⟨name, value⟩ :=
  let ⟨h1, h2, h3, h4, h5, h6⟩ := h
  ⟨⟨h1, h2, h3, h4, hline⟩, h5, h6, hstart, hend⟩

lemma chomp_of_stops {s : Bytes} (h : Stops isIgnorableWhiteSpace s)
    (h' : Stops isIgnorableWhiteSpace s.reverse) : chomp s = s := by
  rw [chomp, dropWhile_of_stops h, List.rdropWhile, dropWhile_of_stops h', List.reverse_reverse]

lemma PlainHeader.trimmed {header : Header} (h : PlainHeader header) : header.trimmed = header := by
  rw [Header.trimmed, chomp_of_stops h.line.name_start h.name_end,
    chomp_of_stops h.value_start h.value_end]

lemma map_trimmed {headers : List Header} (h : ∀ x ∈ headers, PlainHeader x) :
    headers.map Header.trimmed = headers := by
  conv_rhs => rw [← List.map_id headers]
  exact List.map_congr_left fun x hx => (h x hx).trimmed

/-- Digits contain no white space. -/
lemma isIgnorableWhiteSpace_of_isDigit {c : Byte} (h : isDigit c = true) :
    isIgnorableWhiteSpace c = false := by
  simp only [isDigit, Bool.and_eq_true, decide_eq_true_eq] at h
  simp only [isIgnorableWhiteSpace, Bool.or_eq_false_iff, beq_eq_false_iff_ne]
  refine ⟨⟨⟨?_, ?_⟩, ?_⟩, ?_⟩ <;> rintro rfl <;> revert h <;> decide

lemma isWord_of_isNumeral {code : Bytes} (h : IsNumeral code) : IsWord code :=
  ⟨h.1, fun c hc => isIgnorableWhiteSpace_of_isDigit (h.2 c hc)⟩

/-- The header that the serialisers add. -/
def contentLengthHeader (body : Bytes) : Header :=
  ⟨bytes "Content-Length", decimal body.length⟩

lemma isHeaderLine_contentLength (body : Bytes) : IsHeaderLine (contentLengthHeader body) where
  name_ne := (by decide : bytes "Content-Length" ≠ [])
  name_colon := (by decide : 58 ∉ bytes "Content-Length")
  name_start := (by decide : Stops isIgnorableWhiteSpace (bytes "Content-Length"))
  name_line := (by decide : ∀ c ∈ bytes "Content-Length", isNewLine c = false)
  value_line := fun c hc => not_isNewLine_of_not_isIgnorableWhiteSpace
    ((isWord_of_isNumeral (isNumeral_decimal _)).2 c hc)

lemma trimmed_contentLength (body : Bytes) :
    (contentLengthHeader body).trimmed = contentLengthHeader body := by
  have hall := (isWord_of_isNumeral (isNumeral_decimal body.length)).2
  have hname : chomp (bytes "Content-Length") = bytes "Content-Length" := by decide
  rw [Header.trimmed, contentLengthHeader, hname,
    chomp_of_stops (stops_of_all hall) (stops_of_all (by simpa using hall))]

/-- Plain headers with a `Content-Length` between them frame the body, and are read back. -/
theorem framed_of_plain {before after : List Header} (hb : ∀ h ∈ before, PlainHeader h)
    (ha : ∀ h ∈ after, PlainHeader h) (body : Bytes) :
    Framed (before ++ contentLengthHeader body :: after) body ∧
      (before ++ contentLengthHeader body :: after).map Header.trimmed
        = before ++ contentLengthHeader body :: after := by
  have hmap : (before ++ contentLengthHeader body :: after).map Header.trimmed
      = before ++ contentLengthHeader body :: after := by
    rw [List.map_append, List.map_cons, map_trimmed hb, map_trimmed ha, trimmed_contentLength]
  have hnone : ∀ l : List Header, (∀ h ∈ l, PlainHeader h) →
      l.filter (fun h => h.name_ == bytes "Content-Length") = [] := by
    intro l hl
    refine List.filter_eq_nil_iff.mpr fun h hh => ?_
    simpa using (hl h hh).name_ne_content_length
  refine ⟨⟨fun h hh => ?_, decimal body.length, isNumeral_decimal _, decimalValue_decimal _, ?_⟩,
    hmap⟩
  · rcases List.mem_append.mp hh with hh | hh
    · exact (hb h hh).line
    · rcases List.mem_cons.mp hh with rfl | hh
      · exact isHeaderLine_contentLength body
      · exact (ha h hh).line
  · rw [hmap, List.filter_append, List.filter_cons_of_pos (by simp [contentLengthHeader]),
      hnone before hb, hnone after ha]
    rfl

end Arachnida.Acari
