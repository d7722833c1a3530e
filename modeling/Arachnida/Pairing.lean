import Arachnida.Damon.ConnectionCache
import Arachnida.Library.Run
import Arachnida.ResponseCut

/-!
Requests and responses over the whole life of a session.

* `Paired`: every call that returned normally has returned the responses that the server produced
  for the requests of the call.
* `exchange`: the answers to the requests of a call.
* `interrupted`: whether the last call on a connection ended in an exception.
* `Orderly`: what a call must not meet.
* `getResponses_ready`: the calls of `getResponse` return the answers one after the other.
* `paired_always`: **in a run whose calls are all orderly, requests and responses are paired.**
* `paired_fails`: a body that arrives behind its headers.
-/

namespace Arachnida

open Library Acari Damon

variable {E : Type*} {N : Network E} (S : Server N)

/-! ### What is promised -/

/-- The responses that the server produced for what a call has written. -/
def answered (r : SendResult E) : List Response :=
  r.written.map fun w => (S.answer w.connection.peer w.data).response

/-- Requests and responses are paired: a call that returns normally returns the responses to its
requests. -/
def Paired (s : Traffic E) : Prop :=
  ∀ r ∈ s.history, ∀ responses, r.result = .ok responses → responses = answered S r

/-! ### What a call must not meet -/

/-- Requests that are written one after the other, each with its answer, and the other end behind
them. -/
def exchange (peer : E) : List Request → List (Bytes × Answer) × E
  | [] => ([], peer)
  | request :: requests =>
      match request.serialize with
      | .error _ => ([], peer)
      | .ok data =>
          ((data, S.answer peer data) :: (exchange (N.write peer data).2 requests).1,
            (exchange (N.write peer data).2 requests).2)

/-- Whether a call has written on the connection with this key. -/
def SendResult.on (r : SendResult E) (key : Bytes) : Bool :=
  r.written.any fun w => cacheKey w.connection.server w.connection.port == key

/-- Whether the last call that has written on a connection ended in an exception. -/
def interrupted (history : List (SendResult E)) (key : Bytes) : Bool :=
  match (history.filter fun r => SendResult.on r key).getLast? with
  | some r => !r.result.isOk
  | none => false

/-- A call is orderly if the connection in the cache, where it is usable, was not left by an
exception; if the answers to `HEAD` do not announce a body, and no body begins with white space; and
if no read of the call ends in a cut. -/
def Orderly (s : Traffic E) (call : Call E) : Prop :=
  ∀ request u, call.requests.head? = some request → parseURL request.url_ = .ok u →
    (∀ c, s.session.connection_cache_ (cacheKey u.server u.port) = some c →
      N.usable c.peer = true → interrupted s.history (cacheKey u.server u.port) = false) ∧
    ∀ peer, target N s.session u call.attempts = some peer →
      (∀ x ∈ (exchange S peer call.requests).1,
        (bytes "HEAD " <+: x.1 → x.2.Announced) ∧ Stops isIgnorableWhiteSpace x.2.body) ∧
      Uncut S ((exchange S peer call.requests).1.map Prod.snd) (exchange S peer call.requests).2

/-! ### One call -/

variable {S}

/-- What writing does: the answers are on their way, in order. -/
lemma writeAll_exchange {c c' : Connection E} {requests : List Request} {written : List (Written E)}
    (h : writeAll N c requests = (written, none, c')) :
    written.map (fun w => S.answer w.connection.peer w.data)
        = (exchange S c.peer requests).1.map Prod.snd ∧
      c'.peer = (exchange S c.peer requests).2 ∧
      c'.connection_attribute = c.connection_attribute ∧
      S.unread c'.peer
        = S.unread c.peer ++ Answer.wires ((exchange S c.peer requests).1.map Prod.snd) ∧
      written.length = requests.length := by
  induction requests generalizing c written with
  | nil => cases h; simp [exchange, Answer.wires]
  | cons request requests ih =>
      rw [writeAll] at h
      rw [exchange]
      cases hdata : request.serialize with
      | error e => simp only [hdata] at h; cases h
      | ok data =>
          simp only [hdata] at h ⊢
          split at h
          · next hw =>
              generalize hrest : writeAll N { c with peer := (N.write c.peer data).2 } requests
                = rest
                at h
              obtain ⟨written', error, c₁⟩ := rest
              cases h
              obtain ⟨hmap, hpeer, hattr, hunread, hlen⟩ := ih hrest
              refine ⟨by simp [hmap], hpeer, hattr, ?_, by simp [hlen]⟩
              rw [hunread, S.write _ _ hw]
              simp [Answer.wires]
          · cases h

/-- Each answer is the server's to these bytes. -/
lemma exchange_answer (peer : E) (requests : List Request) :
    ∀ x ∈ (exchange S peer requests).1, ∃ e, x.2 = S.answer e x.1 := by
  induction requests generalizing peer with
  | nil => simp [exchange]
  | cons request requests ih =>
      rw [exchange]
      cases request.serialize with
      | error e => simp
      | ok data =>
          intro x hx
          rcases List.mem_cons.mp hx with rfl | hx
          · exact ⟨peer, rfl⟩
          · exact ih _ x hx

/-- The answers of a server announce their bodies, unless they are to `HEAD`. -/
lemma exchange_announced {peer : E} {requests : List Request}
    (hgood : ∀ x ∈ (exchange S peer requests).1,
      (bytes "HEAD " <+: x.1 → x.2.Announced) ∧ Stops isIgnorableWhiteSpace x.2.body) :
    ∀ A ∈ (exchange S peer requests).1.map Prod.snd,
      A.WellFormed ∧ A.Announced ∧ Stops isIgnorableWhiteSpace A.body := by
  intro A hA
  obtain ⟨x, hx, rfl⟩ := List.mem_map.mp hA
  obtain ⟨e, he⟩ := exchange_answer _ _ x hx
  obtain ⟨hhead, hbody⟩ := hgood x hx
  have hwell : x.2.WellFormed := he ▸ S.wellFormed e x.1
  by_cases hx1 : bytes "HEAD " <+: x.1
  · exact ⟨hwell, hhead hx1, hbody⟩
  · exact ⟨hwell, he ▸ S.announced e x.1 hx1, hbody⟩

lemma Uncut.tail {A : Answer} {answers : List Answer} {peer peer' : E}
    (h : Uncut S (A :: answers) peer) (hr : Reaches N.toPeer peer peer') :
    Uncut S answers peer' := by
  intro e he before B after hB
  exact h e (hr.trans he) (A :: before) B after (by rw [hB, List.cons_append])

/-- **The calls of `getResponse` return the answers one after the other.** -/
theorem getResponses_ready {answers : List Answer} (hall : ∀ A ∈ answers, A.WellFormed ∧
    A.Announced ∧ Stops isIgnorableWhiteSpace A.body) {c c' : Connection E}
    (hready : Ready S (Answer.wires answers) c.connection_attribute c.peer)
    (hcut : Uncut S answers c.peer) {n : ℕ} (hn : n = answers.length)
    {result : Except Exception (List Response)} (h : GetResponses N c n result c')
    {responses : List Response} (hok : result = .ok responses) :
    responses = answers.map Answer.response ∧ Ready S [] c'.connection_attribute c'.peer := by
  induction h generalizing answers responses with
  | done c =>
      obtain rfl : answers = [] := List.eq_nil_of_length_eq_zero hn.symm
      cases hok
      exact ⟨rfl, hready⟩
  | thrown h => cases hok
  | @next c c' n r rest a peer h hrest ih =>
      cases answers with
      | nil => cases hn
      | cons A answers =>
          obtain ⟨hwell, hann, hbody⟩ := hall A (by simp)
          obtain ⟨rfl, hready', hreach⟩ := getResponse_ready S hwell hann hbody
            (fun B hB => (hall B (by simp [hB])).1) hready hcut h
          cases rest with
          | error x => cases hok
          | ok rs =>
              obtain rfl := Except.ok.inj hok
              obtain ⟨rfl, hlast⟩ :=
                ih (fun B hB => hall B (by simp [hB])) hready' (hcut.tail hreach)
                (Nat.succ.inj hn) rfl
              exact ⟨rfl, hlast⟩

/-- What the cache of a session holds between calls: connections with nothing left on them, except
those that an exception has left. -/
structure Tidy (S : Server N) (s : Traffic E) : Prop where
  keyed : Keyed s.session
  ready : ∀ key c, s.session.connection_cache_ key = some c → interrupted s.history key = false →
    Ready S [] c.connection_attribute c.peer

section Steps

variable {s s' : Traffic E}

lemma interrupted_append (history : List (SendResult E)) (r : SendResult E) (key : Bytes) :
    interrupted (history ++ [r]) key
      = if SendResult.on r key then !r.result.isOk else interrupted history key := by
  rw [interrupted, List.filter_append]
  cases hon : SendResult.on r key with
  | true => simp [hon]
  | false => simp [hon, interrupted]

/-- A call whose first URL is accepted has written on its connection, and on no other. -/
lemma on_iff {c : Connection E} {request : Request} {requests : List Request} {u : ParsedURL}
    (hu : parseURL request.url_ = .ok u) {r : SendResult E}
    (hr : r.written = (writeAll N c (request :: requests)).1) (key : Bytes) :
    SendResult.on r key = true ↔ cacheKey c.server c.port = key := by
  have hconn : ∀ w ∈ (writeAll N c (request :: requests)).1,
      cacheKey w.connection.server w.connection.port = cacheKey c.server c.port := by
    intro w hw
    have hsame := (writeAll_same N c (request :: requests)).2 w hw
    rw [hsame.server, hsame.port]
  rw [SendResult.on, hr, List.any_eq_true]
  constructor
  · rintro ⟨w, hw, hkey⟩
    exact (hconn w hw).symm.trans (eq_of_beq hkey)
  · rintro rfl
    obtain ⟨w, hw⟩ : ∃ w, w ∈ (writeAll N c (request :: requests)).1 := by
      simp only [writeAll, Request.serialize, hu]
      split <;> exact ⟨_, List.mem_cons_self⟩
    exact ⟨w, hw, by simp [hconn w hw]⟩

/-- The cache behind a call that had a connection. -/
lemma Tidy.insert (ht : Tidy S s) {session' : Session E} {c c' : Connection E}
    (hext : Extends s.session session' (some c)) {key : Bytes}
    (hkey : key = cacheKey c.server c.port)
    (hsame : SameConnection c c') {r : SendResult E}
    (hon : ∀ k, SendResult.on r k = true ↔ cacheKey c.server c.port = k)
    (hsession : r.session = session'.insert key c')
    (hready : r.result.isOk = true → Ready S [] c'.connection_attribute c'.peer) :
    Tidy S ⟨r.session, s.history ++ [r]⟩ := by
  have hkey' : key = cacheKey c'.server c'.port := by rw [hkey, hsame.server, hsame.port]
  refine ⟨?_, fun k x hx hint => ?_⟩
  · rw [hsession]
    exact (extends_insert session' hkey').keyed (hext.keyed ht.keyed)
  · rw [hsession] at hx
    rw [interrupted_append] at hint
    by_cases hk : key = k
    · subst hk
      obtain rfl : c' = x := by simpa [Session.insert] using hx
      rw [if_pos ((hon key).mpr hkey.symm)] at hint
      exact hready (by simpa using hint)
    · have hoff : SendResult.on r k = false := by
        rw [← Bool.not_eq_true, hon, ← hkey]
        exact hk
      rw [hoff, if_neg Bool.false_ne_true] at hint
      have hx' : session'.connection_cache_ k = some x := by
        simpa [Session.insert, Ne.symm hk] using hx
      obtain hold | ⟨heq, hnew⟩ := hext k x hx'
      · exact ht.ready k x hold hint
      · obtain rfl := Option.some.inj heq
        exact absurd (hkey.trans hnew.symm) hk

/-- **One call of `send`.** -/
lemma Tidy.sendAll (ht : Tidy S s) {requests : List Request} {attempts : List (Option E)}
    (hfresh : ∀ peer, some peer ∈ attempts → S.unread peer = [])
    (hord : Orderly S s (.sendAll requests attempts)) {r : SendResult E}
    (h : SendAll N s.session attempts requests r) :
    Tidy S ⟨r.session, s.history ++ [r]⟩ ∧
      ∀ responses, r.result = .ok responses → responses = answered S r := by
  cases h with
  | empty =>
      refine ⟨⟨ht.keyed, fun k x hx hint => ht.ready k x hx ?_⟩, ?_⟩
      · rw [interrupted_append] at hint
        exact hint
      · rintro responses hok
        cases hok
        rfl
  | unprepared hprep =>
      obtain ⟨-, hext, -⟩ | ⟨c, u, heq, -⟩ := prepare_cases ht.keyed hprep
      · refine ⟨⟨hext.keyed ht.keyed, fun k x hx hint => ?_⟩, fun _ h => nomatch h⟩
        rw [interrupted_append] at hint
        obtain hold | ⟨hnone, -⟩ := hext k x hx
        · exact ht.ready k x hold hint
        · cases hnone
      · cases heq
  | @unwritten request requests c c' u session' e written hprep hwrite =>
      obtain ⟨⟨e, he⟩, -⟩ | ⟨c₁, u₁, heq, hu, hext, -, hserver, hport, -⟩ :=
        prepare_cases ht.keyed hprep
      · cases he
      cases heq
      have hsame := (writeAll_same N c (request :: requests)).1
      rw [hwrite] at hsame
      refine ⟨?_, fun _ h => nomatch h⟩
      exact ht.insert hext (by rw [hserver, hport]) hsame (on_iff hu (by rw [hwrite])) rfl
        fun h => nomatch h
  | @answered request requests c c' c'' u session' written result hprep hwrite hget =>
      obtain ⟨⟨e, he⟩, -⟩ | ⟨c₁, u₁, heq, hu, hext, htarget, hserver, hport, -, hsource⟩ :=
        prepare_cases ht.keyed hprep
      · cases he
      cases heq
      have hsame := (writeAll_same N c (request :: requests)).1
      rw [hwrite] at hsame
      obtain ⟨hcache, hall⟩ := hord request u rfl hu
      obtain ⟨hgood, hcut⟩ := hall c.peer htarget
      -- nothing is left on the connection that the call has found or opened
      have hclean : Ready S [] c.connection_attribute c.peer := by
        obtain ⟨hfound, husable⟩ | ⟨hnew, hempty⟩ := hsource
        · exact ht.ready _ c hfound (hcache c hfound husable)
        · exact ⟨[], by simp [hempty], by simp [hfresh _ hnew]⟩
      obtain ⟨hattr, hunread⟩ := hclean.nil
      obtain ⟨hmap, hpeer, hattr', hunread', hlen⟩ := writeAll_exchange (S := S) hwrite
      have hready : Ready S
          (Answer.wires ((exchange S c.peer (request :: requests)).1.map Prod.snd))
          c'.connection_attribute c'.peer :=
        ⟨[], by simp [hattr', hattr], by simp [hunread', hunread]⟩
      have hn : requests.length + 1
          = ((exchange S c.peer (request :: requests)).1.map Prod.snd).length := by
        rw [← hmap, List.length_map, hlen, List.length_cons]
      have hwell := @exchange_announced _ _ S c.peer (request :: requests) hgood
      have hdone : ∀ responses, result = .ok responses → _ := fun responses hok =>
        getResponses_ready hwell hready (hpeer ▸ hcut) hn hget hok
      refine ⟨ht.insert hext (by rw [hserver, hport])
        (hsame.trans hget.same) (on_iff hu (by rw [hwrite])) rfl fun hok => ?_,
        fun responses hok => ?_⟩
      · cases result with
        | error x => cases hok
        | ok responses => exact (hdone responses rfl).2
      · cases result with
        | error x => cases hok
        | ok responses' =>
            obtain rfl : responses' = responses := Except.ok.inj hok
            have hresponses := (hdone responses' rfl).1
            rw [← hmap, List.map_map] at hresponses
            exact hresponses

/-- One call. -/
lemma Tidy.step (ht : Tidy S s) (hp : Paired S s) {call : Call E}
    (hfresh : ∀ peer, some peer ∈ call.attempts → S.unread peer = []) (hord : Orderly S s call)
    (h : Step N s call s') : Tidy S s' ∧ Paired S s' := by
  have key : ∀ {requests attempts r}, (∀ peer, some peer ∈ attempts → S.unread peer = []) →
      Orderly S s (.sendAll requests attempts) → SendAll N s.session attempts requests r →
      Tidy S ⟨r.session, s.history ++ [r]⟩ ∧ Paired S ⟨r.session, s.history ++ [r]⟩ := by
    intro requests attempts r hf ho hr
    obtain ⟨htidy, hpaired⟩ := ht.sendAll hf ho hr
    exact ⟨htidy, List.forall_mem_append.mpr ⟨hp, List.forall_mem_singleton.mpr hpaired⟩⟩
  cases call with
  | setContext context =>
      obtain rfl := h
      exact ⟨⟨ht.keyed, ht.ready⟩, hp⟩
  | send request attempts =>
      obtain ⟨r, hr, rfl⟩ := h
      exact key hfresh hord hr.sendAll
  | sendAll requests attempts =>
      obtain ⟨r, hr, rfl⟩ := h
      exact key hfresh hord hr

end Steps

/-! ### Runs -/

/-- **Pairing.** In every run of a session, whatever its other ends do and however the reads cut
what they send, if every call is orderly then every call that returns normally returns the responses
that the server produced for the requests of the call. -/
theorem paired_always {calls : List (Call E)}
    (hfresh : ∀ call ∈ calls, ∀ peer, some peer ∈ call.attempts → S.unread peer = [])
    (h : EveryStep (Step N) (Orderly S) .init calls) : Always (Step N) (Paired S) .init calls := by
  have hinit : Tidy S (.init : Traffic E) ∧ Paired S (.init : Traffic E) :=
    ⟨⟨fun _ _ h => (nomatch h), fun _ _ h => (nomatch h)⟩, fun _ h => (nomatch h)⟩
  have hall := h.and (everyStep_of_forall (Q := fun _ call =>
    ∀ peer, some peer ∈ call.attempts → S.unread peer = []) fun call hcall _ => hfresh call hcall)
  have hkept : Always (Step N) (fun s => Tidy S s ∧ Paired S s) .init calls :=
    always_of_everyStep (fun s call s' hs hq hstep => hs.1.step hs.2 hq.2 hq.1 hstep) hinit hall
  exact hkept.mono fun s hs => hs.2

/-! ### Packets -/

section Packets

variable (answer : Bytes → Answer) (cut : Bytes → List Bytes)

/-- Other ends that send each answer in several packets, of which a read returns one. -/
def packets : Network (List Bytes) where
  read := fun e =>
    match e with
    | [] => (.error .connectionClosed, [])
    | p :: ps => (.ok (p, 0), ps)
  poll := fun e => (false, e)
  usable := fun _ => true
  write := fun e data => (true, e ++ cut (answer data).wire)

/-- Such a server. -/
def packetServer (hcut : ∀ w, (cut w).flatten = w) (hwell : ∀ data, (answer data).WellFormed)
    (hann : ∀ data, (answer data).Announced)
    (hhead : ∀ data, bytes "HEAD " <+: data → (answer data).body = []) :
    Server (packets answer cut) where
  unread := List.flatten
  answer := fun _ => answer
  read := by
    intro e e' data n h
    cases e with
    | nil => cases h
    | cons p ps => cases h; rfl
  poll := fun _ => rfl
  write := by
    intro e data _
    simp [packets, hcut]
  wellFormed := fun _ => hwell
  announced := fun _ data _ => hann data
  head := fun _ => hhead

/-- Reads take packets from the front. -/
lemma reaches_packets {e e' : List Bytes} (h : Reaches (packets answer cut).toPeer e e') :
    ∃ k, e' = e.drop k := by
  induction h with
  | refl e => exact ⟨0, rfl⟩
  | @read e e' e'' d hread _ ih =>
      obtain ⟨k, rfl⟩ := ih
      cases e with
      | nil => cases hread
      | cons p ps => cases hread; exact ⟨k + 1, rfl⟩
  | poll _ ih => exact ih

end Packets

/-- An answer is longer than its body and the empty line in front of it. -/
lemma Answer.length_wire (A : Answer) : A.body.length + 2 ≤ A.wire.length := by
  have hcrlf : (bytes "\r\n").length = 2 := by decide
  simp only [wire, responseBytes, tailBytes, List.length_append, List.length_cons, hcrlf]
  omega

/-- **Reads that return whole answers do not end in a cut.** -/
lemma uncut_whole {answer : Bytes → Answer} {S : Server (packets answer fun w => [w])}
    (hunread : S.unread = List.flatten) (answers : List Answer) :
    Uncut S answers (answers.map Answer.wire) := by
  rintro e' hr before A after rfl r hu ⟨hne, hlen⟩
  obtain ⟨k, rfl⟩ := reaches_packets _ _ hr
  rw [hunread, ← List.map_drop] at hu
  have hu' : Answer.wires ((before ++ A :: after).drop k) = r ++ Answer.wires after := by
    rw [Answer.wires, List.flatMap_def]
    exact hu
  have hlong := A.length_wire
  by_cases hk : k ≤ before.length
  · -- all of the answer is on its way
    rw [List.drop_append_of_le_length hk] at hu'
    have hsize := congrArg List.length hu'
    simp only [Answer.wires, List.flatMap_append, List.flatMap_cons, List.length_append] at hsize
    omega
  · -- none of it is
    have hskip : (before ++ A :: after).drop k = after.drop (k - before.length - 1) := by
      rw [List.drop_append, List.drop_of_length_le (by omega), List.nil_append]
      obtain ⟨j, hj⟩ : ∃ j, k - before.length = j + 1 := ⟨k - before.length - 1, by omega⟩
      rw [hj]
      rfl
    have hdrop : Answer.wires after = Answer.wires (after.take (k - before.length - 1)) ++
        Answer.wires (after.drop (k - before.length - 1)) := by
      rw [Answer.wires, Answer.wires, Answer.wires, ← List.flatMap_append, List.take_append_drop]
    rw [hskip] at hu'
    have hsize := congrArg List.length hu'
    have hsize' := congrArg List.length hdrop
    simp only [List.length_append] at hsize hsize'
    exact hne (List.eq_nil_of_length_eq_zero (by omega))

/-- A response of one byte, and none to `HEAD`. -/
def oneByte (data : Bytes) : Answer :=
  if (bytes "HEAD ").isPrefixOf data then ⟨bytes "HTTP/1.1", bytes "200", bytes "OK", [], []⟩
  else ⟨bytes "HTTP/1.1", bytes "200", bytes "OK", [⟨bytes "Content-Length", bytes "1"⟩], bytes "x"⟩

lemma oneByte_cases (data : Bytes) : (oneByte data).WellFormed ∧ (oneByte data).Announced ∧
    Stops isIgnorableWhiteSpace (oneByte data).body ∧
      (bytes "HEAD " <+: data → (oneByte data).body = []) := by
  rw [oneByte]
  split
  · refine ⟨⟨.inr rfl, by decide, by decide, by decide, by decide, by decide, by simp⟩,
      .inr ⟨rfl, rfl⟩, trivial, fun _ => rfl⟩
  · next h =>
      refine ⟨⟨.inr rfl, by decide, by decide, by decide, by decide, by decide, fun x hx => ?_⟩,
        .inl (by decide), (by decide : Stops isIgnorableWhiteSpace (bytes "x")), fun hp => ?_⟩
      · obtain rfl := List.mem_singleton.mp hx
        exact ⟨by decide, by decide, by decide, by decide, by decide⟩
      · exact absurd (List.isPrefixOf_iff_prefix.mpr hp) h

/-- A request for a home page. -/
def home : Request := .new (bytes "http://localhost/")

/-- Its URL. -/
def homeURL : ParsedURL := ⟨bytes "http", bytes "localhost", 80, bytes "/", [], []⟩

/-- As it is written. -/
def homeBytes : Bytes := bytes "GET / HTTP/1.1\r\nHost: localhost\r\nContent-Length: 0\r\n\r\n"

lemma parseURL_home : parseURL home.url_ = .ok homeURL := by decide +kernel

lemma serialize_home : home.serialize = .ok homeBytes := by decide +kernel

/-- The server of `oneByte`, with its answers in one packet each. -/
def wholeServer : Server (packets oneByte fun w => [w]) :=
  packetServer oneByte (fun w => [w]) (by simp) (fun data => (oneByte_cases data).1)
    (fun data => (oneByte_cases data).2.1) (fun data => (oneByte_cases data).2.2.2)

lemma exchange_whole (peer : List Bytes) (requests : List Request) :
    (exchange wholeServer peer requests).2 = peer ++
      ((exchange wholeServer peer requests).1.map Prod.snd).map Answer.wire := by
  induction requests generalizing peer with
  | nil => simp [exchange]
  | cons request requests ih =>
      rw [exchange]
      cases request.serialize with
      | error e => simp
      | ok data =>
          simp only [List.map_cons]
          rw [ih]
          simp [packets, wholeServer, packetServer]

/-- Two requests at once are answered by their responses. -/
theorem paired_whole : Always (Step (packets oneByte fun w => [w])) (Paired wholeServer) .init
    [.sendAll [home, home] [some []]] := by
  refine paired_always (fun call hcall peer hpeer => ?_) fun s' _ =>
      ⟨fun request u _ _ => ?_, trivial⟩
  · obtain rfl := List.mem_singleton.mp hcall
    obtain rfl := Option.some.inj (List.mem_singleton.mp hpeer)
    rfl
  · refine ⟨fun c hc => (nomatch hc), fun peer hpeer => ?_⟩
    obtain rfl : [] = peer := Option.some.inj hpeer
    refine ⟨fun x hx => ?_, ?_⟩
    · obtain ⟨e, he⟩ := exchange_answer _ _ x hx
      obtain ⟨-, hann, hbody, -⟩ := oneByte_cases x.1
      have hx2 : x.2 = oneByte x.1 := he
      rw [hx2]
      exact ⟨fun _ => hann, hbody⟩
    · rw [exchange_whole, List.nil_append]
      exact uncut_whole rfl _

/-- The reads return the last byte of an answer by itself. -/
def lastByteApart (w : Bytes) : List Bytes := [w.dropLast, w.drop (w.length - 1)]

/-- The server of `oneByte`, with its answers in two packets. -/
def oneByteServer : Server (packets oneByte lastByteApart) :=
  packetServer oneByte lastByteApart
    (fun w => by simp [lastByteApart, List.dropLast_eq_take, List.take_append_drop])
    (fun data => (oneByte_cases data).1) (fun data => (oneByte_cases data).2.1)
    (fun data => (oneByte_cases data).2.2.2)

/-- **A body that arrives behind its headers is left out of the response.** -/
theorem paired_fails :
    ¬ Always (Step (packets oneByte lastByteApart)) (Paired oneByteServer) .init
        [.send home [some []]] ∧
      ∃ s r response, RunTo (Step (packets oneByte lastByteApart)) .init [.send home [some []]] s ∧
        r ∈ s.history ∧ r.result = .ok [response] ∧ response.body_ = [] ∧
        (answered oneByteServer r).map Response.body_ = [bytes "x"] := by
  obtain ⟨s, r, response, hrun, hr, hok, hbody, hanswer⟩ : ∃ s r response,
      RunTo (Step (packets oneByte lastByteApart)) .init [.send home [some []]] s ∧
        r ∈ s.history ∧ r.result = .ok [response] ∧ response.body_ = [] ∧
        (answered oneByteServer r).map Response.body_ = [bytes "x"] := by
    let c : Connection (List Bytes) := ⟨bytes "localhost", 80, none, .empty, []⟩
    let head := bytes "HTTP/1.1 200 OK\r\nContent-Length: 1\r\n\r\n"
    have hprep : prepare (packets oneByte lastByteApart) .new home [some []]
        = some (.ok (c, homeURL), Session.new.insert (cacheKey (bytes "localhost") 80) c) := by
      rw [prepare, parseURL_home]
      rfl
    have hwire : lastByteApart (oneByte homeBytes).wire = [head, bytes "x"] := by decide +kernel
    have hwrite : writeAll (packets oneByte lastByteApart) c [home]
        = ([⟨home, homeBytes, c⟩], none, { c with peer := [head, bytes "x"] }) := by
      simp only [writeAll, serialize_home, packets, hwire]
      rfl
    have hget : GetResponse (packets oneByte lastByteApart).toPeer .empty [head, bytes "x"]
        ⟨.ok ⟨bytes "HTTP/1.1", 200, bytes "OK", [⟨bytes "Content-Length", bytes "1"⟩], []⟩,
          .three ⟨bytes "HTTP/1.1", 200, bytes "OK", [⟨bytes "Content-Length", bytes "1"⟩], []⟩ []
            true,
          [bytes "x"]⟩ := returns_of_inr (by decide +kernel)
    exact ⟨_, _, _, ⟨_, ⟨_, .answered hprep hwrite hget rfl, rfl⟩, rfl⟩, List.mem_singleton_self _,
      rfl, rfl, by decide +kernel⟩
  refine ⟨fun h => ?_, s, r, response, hrun, hr, hok, hbody, hanswer⟩
  have hpaired := (h.last hrun) r hr _ hok
  rw [← hpaired, List.map_singleton, hbody] at hanswer
  exact absurd hanswer (by decide)

end Arachnida
