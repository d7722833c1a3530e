import Arachnida.Library.Bytes
import Arachnida.Library.Loop
import Arachnida.Library.Scan

/-!
The helpers that the HTTP parsers of the server and of the client share
(`lib/Acari/ParsingHelpers.hpp`), as the code computes them.

An iterator into a buffer is the part of the buffer from it up to the end of the buffer, so that
`where_ = []` is `where == buffer.end()`, two iterators into one buffer are equal when these
parts are, and `range first last` is the string between two of them.  The newline count of
`moreHeaders`, the backing up of `backupThroughNewlines` and the tail recursion of
`findHeaderEnd` are kept as they are; what they compute is the subject of `HeaderEnd`.
-/

namespace Arachnida.Acari

open Library

/-- An iterator into a buffer: the bytes from it to the end of the buffer. -/
abbrev Iterator := Bytes

/-- What ends a call to one of the parsers abnormally: the exceptions of `Spin::Exceptions::HTTP`
with the text they are made from, `boost::bad_lexical_cast`, and a null `shared_ptr` being
dereferenced. -/
inductive Failure where
  | invalidHeader (text : Bytes)
  | unknownMethod (text : Bytes)
  | unsupportedProtocol (text : Bytes)
  | badLexicalCast
  | nullPointer
  deriving DecidableEq, Repr

/-! ### Characters and scans -/

/-- Tab, line feed, carriage return and space. -/
def isIgnorableWhiteSpace (c : Byte) : Bool := c == 9 || c == 10 || c == 13 || c == 32

/-- Line feed and carriage return. -/
def isNewLine (c : Byte) : Bool := c == 10 || c == 13

def advanceThroughIgnorableWhiteSpace (where_ : Iterator) : Iterator :=
  where_.dropWhile isIgnorableWhiteSpace

def advanceUntilIgnorableWhiteSpace (where_ : Iterator) : Iterator :=
  where_.dropWhile fun c => !isIgnorableWhiteSpace c

def advanceUntilEndOfLine (where_ : Iterator) : Iterator :=
  where_.dropWhile fun c => !isNewLine c

/-- Fewer than two carriage returns and fewer than two line feeds between two iterators. -/
def moreHeaders (where_ whence : Iterator) : Bool :=
  let cr := (range where_ whence).count 13
  let lf := (range where_ whence).count 10
  !(cr ≥ 2 || lf ≥ 2)

/-- `backupThroughNewlines` from `d` bytes after `begin`: the position before `begin + 1` is
never left. -/
def backupFrom (begin : Iterator) : ℕ → Iterator
  | 0 => begin
  | d + 1 => if d ≠ 0 ∧ isNewLine (begin.getD d 0) then backupFrom begin d else begin.drop (d + 1)

def backupThroughNewlines (begin where_ : Iterator) : Iterator :=
  backupFrom begin (begin.length - where_.length)

/-! ### The end of a header -/

/-- One call of `findHeaderEnd`: the new position where the search is to be repeated, or the
answer. -/
def findHeaderEndPass (from_where where_ : Iterator) : Iterator ⊕ Iterator :=
  let where_ := advanceUntilEndOfLine where_
  -- at the newline or at the end of the buffer
  let where_ := where_.dropWhile isNewLine
  match where_ with
  | c :: _ =>
      if !isIgnorableWhiteSpace c then .inr (backupThroughNewlines from_where where_)
      else .inl where_
  | [] =>
      -- at the end of the buffer the header is known to end only if all headers do
      let where_ := backupThroughNewlines from_where []
      if !moreHeaders where_ [] then .inr where_ else .inr from_where

lemma findHeaderEndPass_decreasing (from_where : Iterator) {w w' : Iterator}
    (h : findHeaderEndPass from_where w = .inl w') : w'.length < w.length := by
  have hw' : (advanceUntilEndOfLine w).dropWhile isNewLine = w' ∧ w' ≠ [] := by
    simp only [findHeaderEndPass] at h
    split at h
    · next c t heq =>
        split at h
        · cases h
        · exact ⟨Sum.inl.inj h, by rw [← Sum.inl.inj h, heq]; simp⟩
    · split at h <;> cases h
  obtain ⟨rfl, hne⟩ := hw'
  cases w with
  | nil => simp [advanceUntilEndOfLine] at hne
  | cons c w =>
      -- either scan moves past the first byte
      have h1 := List.length_dropWhile_le isNewLine (advanceUntilEndOfLine w)
      have h2 := List.length_dropWhile_le (fun c => !isNewLine c) w
      have h3 := List.length_dropWhile_le isNewLine w
      rw [advanceUntilEndOfLine] at h1 ⊢
      by_cases hc : isNewLine c = true
      · simp [hc]; omega
      · simp only [Bool.not_eq_true] at hc
        simp [hc]; omega

/-- The tail recursion of `findHeaderEnd` as a loop. -/
def findHeaderEndLoop (from_where : Iterator) : MeasuredLoop Iterator Iterator where
  pass := findHeaderEndPass from_where
  measure := List.length
  decreasing := findHeaderEndPass_decreasing from_where

/-- The end of the header that starts at `from_where`, or `from_where` if it is not known yet. -/
def findHeaderEnd (from_where : Iterator) : Iterator :=
  (findHeaderEndLoop from_where).run from_where

/-! ### Splitting a header -/

/-- A range without the white space at either end. -/
def chomp (s : Bytes) : Bytes :=
  (s.dropWhile isIgnorableWhiteSpace).rdropWhile isIgnorableWhiteSpace

/-- Name and value of a header, split at the first colon. -/
def splitHeader (s : Bytes) : Except Failure (Bytes × Bytes) :=
  match s.dropWhile (· != 58) with
  | [] => .error (.invalidHeader s)
  | colon :: rest => .ok (chomp (range s (colon :: rest)), chomp rest)

/-- Name and value are found again at the first colon. -/
lemma splitHeader_name {name : Bytes} (hcolon : 58 ∉ name) (value : Bytes) :
    splitHeader (name ++ 58 :: value) = .ok (chomp name, chomp value) := by
  have hdrop : (name ++ 58 :: value).dropWhile (· != 58) = 58 :: value := by
    refine dropWhile_append_stops (fun c hc => ?_) (by simp)
    have : c ≠ 58 := fun h58 => hcolon (h58 ▸ hc)
    simpa using this
  simp only [splitHeader, hdrop, range_append]

/-! ### The first line of a message -/

section FirstLine

variable {Request Response Method : Type*}

/-- The request of the first line and the position after its protocol; no request and the
position it started from if the line is not complete. -/
def extractRequestHeader (newRequest : Bytes → Bytes → Bytes → Request)
    (supported_methods : List (Bytes × Method)) (curr : Iterator) :
    Except Failure (Option Request × Iterator) :=
  let begin := curr
  -- ignore leading white space
  let where_ := advanceThroughIgnorableWhiteSpace curr
  let whence := advanceUntilIgnorableWhiteSpace where_
  if whence = [] then .ok (none, begin)
  else
    let method := range where_ whence
    if (supported_methods.lookup method).isNone then .error (.unknownMethod method)
    else
      let where_ := advanceThroughIgnorableWhiteSpace whence
      let whence := advanceUntilIgnorableWhiteSpace where_
      if whence = [] then .ok (none, begin)
      else
        let url := range where_ whence
        let where_ := advanceThroughIgnorableWhiteSpace whence
        let whence := advanceUntilIgnorableWhiteSpace where_
        if whence = [] then .ok (none, begin)
        else
          let protocol_and_version := range where_ whence
          if protocol_and_version ≠ bytes "HTTP/1.0" ∧ protocol_and_version ≠ bytes "HTTP/1.1" then
            .error (.unsupportedProtocol protocol_and_version)
          else .ok (some (newRequest method url protocol_and_version), whence)

/-- The response of the status line and the position of its end; no response and the position
it started from if the line is not complete. -/
def extractResponseHeader (newResponse : Bytes → ℕ → Bytes → Response) (curr : Iterator) :
    Except Failure (Option Response × Iterator) :=
  let begin := curr
  -- ignore leading white space
  let where_ := advanceThroughIgnorableWhiteSpace curr
  let whence := advanceUntilIgnorableWhiteSpace where_
  if whence = [] then .ok (none, begin)
  else
    let protocol_and_version := range where_ whence
    if protocol_and_version ≠ bytes "HTTP/1.0" ∧ protocol_and_version ≠ bytes "HTTP/1.1" then
      .error (.unsupportedProtocol protocol_and_version)
    else
      let where_ := advanceThroughIgnorableWhiteSpace whence
      let whence := advanceUntilIgnorableWhiteSpace where_
      if whence = [] then .ok (none, begin)
      else
        let response_code := range where_ whence
        let where_ := advanceThroughIgnorableWhiteSpace whence
        let whence := advanceUntilEndOfLine where_
        if whence = [] then .ok (none, begin)
        else
          let response_message := range where_ whence
          match lexicalCast 32 response_code with
          | none => .error .badLexicalCast
          | some code => .ok (some (newResponse protocol_and_version code response_message), whence)

end FirstLine

end Arachnida.Acari
