import Arachnida.Library.Run
import Arachnida.Damon.CompleteResponse
import Arachnida.Spin.AttributeSlot

/-!
Whether a call can read what the calls before it have saved.

* `Spin.Resumable`: a slot is empty or holds the tuple that `HTTPDataHandler::onDataReady` casts it
  to, and a call that finds it ends neither at the cast nor at a null pointer; `resumable_slot`:
  every call leaves such a slot.
* `Damon.Attribute.Resumable`: the same for `getResponse`, which stores a tuple of three where it
  reads one of four; `CutShort`: the buffers with which it does.
* `savedState_resumable_iff`: **saved state is always readable on the server, and on the client
  exactly where no body is cut short.**
-/

namespace Arachnida

open Library Acari

/-! ### The server -/

namespace Spin

/-- The slot is empty or holds the tuple that is read, with a request where the end of the headers
was found. -/
def Readable (slot : Slot) : Prop :=
  ∀ any ∈ slot, ∃ saved, anyCast any = some saved ∧
    (saved.request = none → saved.end_of_headers_found = false)

/-- A call can go on from the slot. -/
def Resumable (slot : Slot) : Prop :=
  Readable slot ∧ ∀ refuses data x, (onDataReadySlot refuses slot data).thrown = some x →
    x ≠ .badAnyCast ∧ x ≠ .parsing .nullPointer

lemma KeptSlot.readable {slot : Slot} (h : KeptSlot slot) : Readable slot := by
  obtain ⟨a, rfl, ha⟩ := h
  intro any hany
  obtain ⟨saved, hsaved, rfl⟩ := Option.map_eq_some_iff.mp hany
  exact ⟨saved, anyCast_eq_some.mpr rfl, (ha saved hsaved).flag⟩

/-- **Every call can go on from what the others have left.** -/
lemma resumable_slot (calls : List DataReady) : Resumable (storedSlot calls) := by
  have hkept := keptSlot_storedSlot calls
  refine ⟨hkept.readable, fun refuses data x hx => ?_⟩
  obtain ⟨-, hcast, hpointer⟩ := hkept.onDataReadySlot refuses data
  rw [hx] at hcast hpointer
  exact ⟨fun h => hcast (h ▸ rfl), fun h => hpointer (h ▸ rfl)⟩

end Spin

/-! ### The client -/

namespace Damon

variable {E : Type*} (P : Peer E)

/-- The attribute is empty or holds the tuple of four that is read, with a response where the end
of the headers was found. -/
def Attribute.Readable : Attribute → Prop
  | .empty => True
  | .four response _ end_of_headers_found _ => response = none → end_of_headers_found = false
  | .three _ _ _ => False

/-- A call can go on from the attribute: it ends neither at the cast nor at a null pointer, unless
the peer has thrown the same. -/
def Attribute.Resumable (a : Attribute) : Prop :=
  a.Readable ∧ ∀ peer r x, GetResponse P a peer r → r.result = .error x →
    x = .badAnyCast ∨ x = .parsing .nullPointer → Throws P peer x

/-- The buffer holds a response with all of its headers, and fewer bytes behind them than they
announce. -/
def CutShort (B : Bytes) : Prop :=
  ∃ first w m v eob N, extractResponse B = .ok (some first, w) ∧
    (headerLoop Response.push).run ⟨first, w, false⟩ = .ok (⟨m, v, true⟩, eob) ∧
    contentLength m.header_fields_ = .ok (some N) ∧ v.length < N

/-- A call on a connection, from the attribute that it finds to the one that it leaves. -/
def CallStep (a : Attribute) (peer : E) (a' : Attribute) : Prop :=
  ∃ r, GetResponse P a peer r ∧ a' = r.connection_attribute

/-- No buffer of a call ends inside a body that is announced in it. -/
def LooksUncut (a : Attribute) (peer : E) : Prop :=
  ∀ B peer', Looked P a peer B peer' → ¬ CutShort B

variable {P}

lemma Attribute.Left.readable_iff {a : Attribute} (h : a.Left) :
    a.Readable ↔ ∃ b eob, Begins a b eob := by
  obtain ⟨response, b, found, rfl⟩ | ⟨b, eob, hbegins⟩ := h
  · refine ⟨fun h => h.elim, ?_⟩
    rintro ⟨b', eob, hbegins⟩
    cases hbegins
  · refine ⟨fun _ => ⟨b, eob, hbegins⟩, fun _ => ?_⟩
    cases hbegins with
    | empty => trivial
    | four hb => exact fun _ => rfl

/-! #### Exceptions -/

/-- Behind the headers of a response no null pointer is dereferenced, and nothing is cast. -/
lemma finish_throws {m : Response} {v : Bytes} {found eob : Bool} {peer : E} {x : Exception}
    (h : (finish ⟨some m, v, found⟩ eob peer).result = .error x) :
    ∃ f, x = .parsing f ∧ f ≠ .nullPointer := by
  have hne := findBody_ne_nullPointer m.header_fields_ v
  unfold finish at h
  dsimp only at h
  cases hbody : findBody m.header_fields_ v with
  | error f =>
      rw [hbody] at h hne
      cases h
      exact ⟨f, rfl, fun hf => hne (hf ▸ rfl)⟩
  | ok found =>
      rw [hbody] at h
      cases found <;> cases h

/-- **A call that begins with bytes** ends at the cast or at a null pointer only if the peer has
thrown the same. -/
lemma Begins.throws {a : Attribute} {b : Bytes} {eob : Bool} (ha : Begins a b eob) {peer : E}
    {r : CallResult E} {x : Exception} (h : GetResponse P a peer r) (hr : r.result = .error x)
    (hx : x = .badAnyCast ∨ x = .parsing .nullPointer) : Throws P peer x := by
  obtain ⟨retrying, eob', b', e, hreaches, -, hout⟩ := h.last ha
  have hparsing : ∀ f : Failure, x = .parsing f → f = .nullPointer := by
    rintro f rfl
    simpa using hx
  cases hout with
  | threw hfill =>
      cases hr
      rcases fillBuffer_throws hfill with rfl | ⟨e', e'', hread⟩
      · simp at hx
      · exact ⟨e', e'', hreaches.trans hread.1, hread.2⟩
  | badLine hfill hline =>
      cases hr
      cases hparsing _ rfl
      exact absurd hline (extractResponseHeader_ne_nullPointer Response.new _)
  | badHeader hfill hline hrun =>
      cases hr
      cases hparsing _ rfl
      exact absurd hrun (headerLoop_ne_nullPointer Response.push _)
  | headers hfill hline hrun =>
      obtain ⟨f, hf, hne⟩ := finish_throws hr
      exact absurd (hparsing f hf) hne

/-- An attribute that is left is resumable if it is readable. -/
lemma Attribute.Left.resumable_iff {a : Attribute} (h : a.Left) : a.Resumable P ↔ a.Readable := by
  refine ⟨fun hresumable => hresumable.1, fun hreadable => ⟨hreadable, ?_⟩⟩
  obtain ⟨b, eob, hbegins⟩ := h.readable_iff.mp hreadable
  exact fun peer r x hcall => hbegins.throws hcall

/-! #### Bodies that are cut short -/

/-- What the part behind the headers leaves is readable if the body is there, or none was
announced. -/
lemma finish_readable_iff {m : Response} {v : Bytes} {found eob : Bool} {peer : E} :
    (finish ⟨some m, v, found⟩ eob peer).connection_attribute.Readable ↔
      ∀ N, contentLength m.header_fields_ = .ok (some N) → N ≤ v.length := by
  have hrest : ∀ rest : Bytes, Attribute.Readable
      (if rest ≠ [] then .four none rest false eob else .empty) := by
    intro rest
    split
    · exact fun _ => rfl
    · trivial
  simp only [finish, findBody]
  cases hlen : contentLength m.header_fields_ with
  | error f => exact iff_of_true trivial (by simp)
  | ok size =>
      cases size with
      | none => exact iff_of_true (hrest v) (by simp)
      | some n =>
          by_cases hshort : v.length < n
          · simp only [if_pos hshort]
            refine iff_of_false id fun h => ?_
            have hle := h n rfl
            omega
          · simp only [if_neg hshort]
            refine iff_of_true (hrest _) fun N hN => ?_
            cases hN
            omega

/-- A call that looks in a buffer in which a body is cut short leaves the tuple of three. -/
lemma Looks.cutShort {retrying eob : Bool} {b B : Bytes} {e e' : E}
    (hlooks : Looks P retrying eob b e B e') (hB : CutShort B) : ∀ s : CallState E,
      Begins s.connection_attribute b eob → s.retrying = retrying → s.peer = e →
      ∀ r, Returns (getResponsePass P) s r → ¬ r.connection_attribute.Readable := by
  induction hlooks with
  | now hfill =>
      rintro s hb rfl rfl r hr
      obtain ⟨first, w, m, v, eob', N, hline, hrun, hN, hshort⟩ := hB
      have hpass := hb.pass_line hfill hline hrun
      obtain rfl := Returns.deterministic hr (returns_of_inr hpass)
      rw [finish_readable_iff]
      intro hle
      have hN := hle N hN
      omega
  | @later _ _ _ B₁ _ _ _ _ hfill hline _ ih =>
      rintro s hb rfl rfl r hr
      have hpass := hb.pass_noLine hfill hline
      rcases hr.elim with hlast | ⟨s', hnext, hlater⟩
      · cases hpass.symm.trans hlast
      · obtain rfl := Sum.inl.inj (hpass.symm.trans hnext)
        by_cases hB₁ : B₁ = []
        · subst hB₁
          exact absurd hlater (not_returns_of_stuck (getResponsePass_nothing false _))
        · exact ih hB _ (.four hB₁ false) rfl rfl r hlater

/-- **One call**: it leaves a readable attribute exactly if none of its buffers is cut short. -/
lemma Begins.readable_iff {a : Attribute} {b : Bytes} {eob : Bool} (ha : Begins a b eob) {peer : E}
    {r : CallResult E} (h : GetResponse P a peer r) :
    r.connection_attribute.Readable ↔ LooksUncut P a peer := by
  constructor
  · rintro hreadable B peer' ⟨b', eob', hbegins, hlooks⟩ hB
    exact hlooks.cutShort hB _ hbegins rfl rfl r h hreadable
  · intro huncut
    obtain ⟨retrying, eob', b', e, -, hlooks, hout⟩ := h.last ha
    cases hout with
    | threw => trivial
    | badLine => trivial
    | badHeader => trivial
    | @headers B w v e' first m eob'' hfill hline hrun =>
        rw [finish_readable_iff]
        intro N hN
        by_contra hshort
        exact huncut B e' ⟨b, eob, ha, hlooks B e' (.now hfill)⟩
          ⟨first, w, m, v, eob'', N, hline, hrun, hN, by omega⟩

end Damon

/-! ### Both -/

open Damon

/-- **Saved state is readable**: on the server always; on the client it is in every state of a run
if and only if no call looks in a buffer that ends inside a body. -/
theorem savedState_resumable_iff {E : Type*} (P : Peer E) (calls : List Spin.DataReady)
    (peers : List E) :
    Spin.Resumable (Spin.storedSlot calls) ∧
      (Always (CallStep P) (Attribute.Resumable P) .empty peers ↔
        EveryStep (CallStep P) (LooksUncut P) .empty peers) := by
  refine ⟨Spin.resumable_slot calls, ?_⟩
  have hempty : Attribute.empty.Left := .inr ⟨_, _, .empty⟩
  have keeps : ∀ (a : Attribute) (peer : E) (a' : Attribute), a.Left → a.Resumable P →
      CallStep P a peer a' → a'.Left ∧ (a'.Resumable P ↔ LooksUncut P a peer) := by
    rintro a peer a' ha hresumable ⟨r, hcall, rfl⟩
    obtain ⟨b, eob, hbegins⟩ := ha.readable_iff.mp (ha.resumable_iff.mp hresumable)
    exact ⟨hcall.left, hcall.left.resumable_iff.trans (hbegins.readable_iff hcall)⟩
  exact always_iff_everyStep_of_invariant keeps hempty (hempty.resumable_iff.mpr trivial)

/-- **A body that is cut short**: the headers of a response arrive before its body, the response is
returned without it, and every later call on the connection ends at the cast. -/
theorem unreadable_state :
    (¬ ∀ (P : Peer (List (Bytes × ℕ))) (calls : List Spin.DataReady)
        (peers : List (List (Bytes × ℕ))), Spin.Resumable (Spin.storedSlot calls) ∧
          Always (CallStep P) (Attribute.Resumable P) .empty peers) ∧
      ∃ a, RunTo (CallStep (scripted false)) .empty [[(fiveBytes, 1)]] a ∧
        ∀ peer r, GetResponse (scripted false) a peer r →
          r.result = .error .badAnyCast ∧ r.connection_attribute = a := by
  have hcall : GetResponse (scripted false) .empty [(fiveBytes, 1)]
      ⟨.ok (fiveBytesResponse []), .three (fiveBytesResponse []) [] true, []⟩ :=
    returns_of_inr (by decide +kernel)
  have hrun : RunTo (CallStep (scripted false)) .empty [[(fiveBytes, 1)]]
      (.three (fiveBytesResponse []) [] true) := ⟨_, ⟨_, hcall, rfl⟩, rfl⟩
  refine ⟨fun h => ?_, _, hrun, fun peer r hr => ?_⟩
  · exact ((h (scripted false) [] _).2.last hrun).1
  · have hpass : getResponsePass (scripted false)
        ⟨.three (fiveBytesResponse []) [] true, false, peer⟩
          = .inr ⟨.error .badAnyCast, .three (fiveBytesResponse []) [] true, peer⟩ := rfl
    obtain rfl := Returns.deterministic hr (returns_of_inr hpass)
    exact ⟨rfl, rfl⟩

end Arachnida
