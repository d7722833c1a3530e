import Arachnida.Library.Bytes
import Arachnida.Library.Scan

/-!
IPv4 addresses and the strings that connections are opened with (`lib/Spin/Connector.cpp`,
`lib/Spin/Listener.cpp`).

* `Address`: four octets, and the 32 bits that they are in either byte order.
* `FormatArgument`: what `boost::format` makes of its arguments.
* `connectTarget`, `connectSSLTarget`, `constructLocalAddress_`: the three strings.
* `rendered_injective`: **different addresses and ports are rendered differently.**
* `rendering_agrees`: **which of the three agree**: the secured one never does.
-/

namespace Arachnida.Spin

open Library

/-- `Details::Address`, as its four octets. -/
structure Address where
  u8_0 : Byte
  u8_1 : Byte
  u8_2 : Byte
  u8_3 : Byte
  deriving DecidableEq, Repr

/-- The byte order of the machine. -/
inductive ByteOrder where
  | littleEndian | bigEndian
  deriving DecidableEq, Repr

/-- The other member of the union. -/
def Address.u32_ (order : ByteOrder) (address : Address) : ℕ :=
  let value (a b c d : Byte) := a.toNat + b.toNat * 2 ^ 8 + c.toNat * 2 ^ 16 + d.toNat * 2 ^ 24
  match order with
  | .littleEndian => value address.u8_0 address.u8_1 address.u8_2 address.u8_3
  | .bigEndian => value address.u8_3 address.u8_2 address.u8_1 address.u8_0

/-- An argument of `boost::format`, by its type. -/
inductive FormatArgument where
  | integer (n : ℕ)
  | character (c : Byte)
  | string (s : Bytes)
  deriving DecidableEq, Repr

/-- An integer is printed in decimal, an 8-bit type as one character. -/
def FormatArgument.text : FormatArgument → Bytes
  | .integer n => decimal n
  | .character c => [c]
  | .string s => s

/-- `%1%.%2%.%3%.%4%`. -/
def dotted (a b c d : FormatArgument) : Bytes :=
  a.text ++ bytes "." ++ b.text ++ bytes "." ++ c.text ++ bytes "." ++ d.text

/-- `%1%:%2%`, where the first argument may be several. -/
def withPort (host : Bytes) (port : FormatArgument) : Bytes := host ++ bytes ":" ++ port.text

/-- The target of `Connector::connect` for an address. -/
def connectTarget (remote_address : Address) (port : UInt16) : Bytes :=
  withPort (dotted (.integer remote_address.u8_0.toNat) (.integer remote_address.u8_1.toNat)
    (.integer remote_address.u8_2.toNat) (.integer remote_address.u8_3.toNat))
    (.integer port.toNat)

/-- The target of the overload that takes a security context. -/
def connectSSLTarget (remote_address : Address) (port : UInt16) : Bytes :=
  withPort (dotted (.character remote_address.u8_0) (.character remote_address.u8_1)
    (.character remote_address.u8_2) (.character remote_address.u8_3))
    (.integer port.toNat)

/-- `Listener::constructLocalAddress_`. -/
def constructLocalAddress_ (order : ByteOrder) (local_address : Address) (local_port : UInt16) :
    Bytes :=
  let local_address_s :=
    if local_address.u32_ order = 0 then bytes "*"
    else dotted (.integer local_address.u8_0.toNat) (.integer local_address.u8_1.toNat)
      (.integer local_address.u8_2.toNat) (.integer local_address.u8_3.toNat)
  withPort local_address_s (if local_port = 0 then .string (bytes "*")
    else .integer local_port.toNat)

/-- The decimal octets joined by dots, a colon and the port in decimal. -/
def rendered (address : Address) (port : UInt16) : Bytes :=
  decimal address.u8_0.toNat ++ 46 :: (decimal address.u8_1.toNat ++
    46 :: (decimal address.u8_2.toNat ++ 46 :: (decimal address.u8_3.toNat ++
      58 :: decimal port.toNat)))

example : rendered ⟨127, 0, 0, 1⟩ 8080 = bytes "127.0.0.1:8080" := by decide +kernel

lemma bytes_dot : bytes "." = [46] := by decide

lemma bytes_colon : bytes ":" = [58] := by decide

lemma connectTarget_eq (address : Address) (port : UInt16) :
    connectTarget address port = rendered address port := by
  simp [connectTarget, withPort, dotted, FormatArgument.text, rendered, bytes_dot, bytes_colon]

/-- The address is not zero in either byte order. -/
lemma u32_eq_zero (order : ByteOrder) (address : Address) :
    address.u32_ order = 0 ↔ address = ⟨0, 0, 0, 0⟩ := by
  obtain ⟨a, b, c, d⟩ := address
  simp only [Address.mk.injEq, ← UInt8.toNat_inj]
  cases order <;> simp only [Address.u32_] <;> constructor
  · intro h
    refine ⟨?_, ?_, ?_, ?_⟩ <;> change _ = 0 <;> omega
  · rintro ⟨ha, hb, hc, hd⟩
    rw [ha, hb, hc, hd]
    rfl
  · intro h
    refine ⟨?_, ?_, ?_, ?_⟩ <;> change _ = 0 <;> omega
  · rintro ⟨ha, hb, hc, hd⟩
    rw [ha, hb, hc, hd]
    rfl

lemma constructLocalAddress_eq (order : ByteOrder) {address : Address} {port : UInt16}
    (ha : address ≠ ⟨0, 0, 0, 0⟩) (hp : port ≠ 0) :
    constructLocalAddress_ order address port = rendered address port := by
  have hzero : ¬ address.u32_ order = 0 := fun h => ha ((u32_eq_zero order address).mp h)
  simp only [constructLocalAddress_, if_neg hzero, if_neg hp]
  exact connectTarget_eq address port

/-! ### Different addresses -/

lemma decimal_injective {m n : ℕ} (h : decimal m = decimal n) : m = n := by
  have hvalue := congrArg decimalValue h
  simpa using hvalue

lemma isDigit_decimal (n : ℕ) : ∀ c ∈ decimal n, isDigit c = true := (isNumeral_decimal n).2

/-- A number in front of a character that is no digit is read in one way only. -/
lemma decimal_append_inj {m n : ℕ} {c : Byte} (hc : isDigit c = false) {r r' : Bytes}
    (h : decimal m ++ c :: r = decimal n ++ c :: r') : m = n ∧ r = r' := by
  obtain ⟨hnumber, hrest⟩ := run_unique (p := isDigit) h (isDigit_decimal m) hc
    (isDigit_decimal n) hc
  exact ⟨decimal_injective hnumber, (List.cons.inj hrest).2⟩

/-- **Different addresses and ports are rendered differently.** -/
theorem rendered_injective {address address' : Address} {port port' : UInt16}
    (h : rendered address port = rendered address' port') : address = address' ∧ port = port' := by
  obtain ⟨a, b, c, d⟩ := address
  obtain ⟨a', b', c', d'⟩ := address'
  have hdot : isDigit 46 = false := by decide
  obtain ⟨ha, h⟩ := decimal_append_inj hdot h
  obtain ⟨hb, h⟩ := decimal_append_inj hdot h
  obtain ⟨hc, h⟩ := decimal_append_inj hdot h
  obtain ⟨hd, h⟩ := decimal_append_inj (by decide) h
  simp only [UInt8.toNat_inj] at ha hb hc hd
  have hport := UInt16.toNat_inj.mp (decimal_injective h)
  exact ⟨by rw [ha, hb, hc, hd], hport⟩

/-- No character is the decimal of its own value. -/
lemma singleton_ne_decimal (c : Byte) : [c] ≠ decimal c.toNat := by
  intro h
  have hvalue : decimalValue [c] = c.toNat := by rw [h, decimalValue_decimal]
  have hdigit : isDigit c = true := isDigit_decimal c.toNat c (by rw [← h]; simp)
  have hsub : c.toNat - 48 = c.toNat := by simpa [decimalValue] using hvalue
  have hzero : c = 0 := by
    rw [← UInt8.toNat_inj]
    change c.toNat = 0
    omega
  rw [hzero] at hdigit
  exact absurd hdigit (by decide)

/-- **The secured overload renders no address like that.** -/
lemma connectSSLTarget_ne (address : Address) (port : UInt16) :
    connectSSLTarget address port ≠ rendered address port := by
  intro h
  obtain ⟨r, hr⟩ : ∃ r, connectSSLTarget address port = [address.u8_0] ++ 46 :: r := by
    simp [connectSSLTarget, withPort, dotted, FormatArgument.text, bytes_dot]
  have hboth : [address.u8_0] ++ 46 :: r = decimal address.u8_0.toNat ++ 46 :: _ :=
    hr.symm.trans h
  have hdigit : isDigit address.u8_0 = true := by
    obtain ⟨c, ds, hds⟩ := List.exists_cons_of_ne_nil (isNumeral_decimal address.u8_0.toNat).1
    rw [hds] at hboth
    rw [(List.cons.inj hboth).1]
    exact isDigit_decimal address.u8_0.toNat c (by rw [hds]; simp)
  have hone : ∀ c ∈ [address.u8_0], isDigit c = true := by simpa using hdigit
  have hdot : isDigit 46 = false := by decide
  exact singleton_ne_decimal _ (run_unique hboth hone hdot (isDigit_decimal _) hdot).1

/-- **Which renderings agree**: the plain overload and the listener, for an address and a port that
are not zero, render octets and port in decimal, the secured overload never does; and renderings of
different addresses or ports are different. -/
theorem rendering_agrees (order : ByteOrder) (address : Address) (port : UInt16) :
    connectTarget address port = rendered address port ∧
      (address.u32_ order = 0 ∨ port = 0 ∨
        constructLocalAddress_ order address port = rendered address port) ∧
      (∀ address' port', rendered address port = rendered address' port' →
        address = address' ∧ port = port') ∧
      connectSSLTarget address port ≠ rendered address port := by
  refine ⟨connectTarget_eq address port, ?_, fun _ _ h => rendered_injective h,
    connectSSLTarget_ne address port⟩
  by_cases hzero : address.u32_ order = 0
  · exact .inl hzero
  · by_cases hport : port = 0
    · exact .inr (.inl hport)
    · exact .inr (.inr (constructLocalAddress_eq order
        (fun h => hzero ((u32_eq_zero order address).mpr h)) hport))

/-- The secured overload renders an address other than the plain one does. -/
theorem rendering_differs : connectTarget ⟨127, 0, 0, 1⟩ 443 = bytes "127.0.0.1:443" ∧
    connectSSLTarget ⟨127, 0, 0, 1⟩ 443 = [127, 46, 0, 46, 0, 46, 1] ++ bytes ":443" ∧
    connectSSLTarget ⟨127, 0, 0, 1⟩ 443 ≠ connectTarget ⟨127, 0, 0, 1⟩ 443 := by
  decide +kernel

end Arachnida.Spin
