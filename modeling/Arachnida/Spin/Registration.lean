import Arachnida.Spin.Private.ConnectionHandler

/-!
The life of the objects that register with the connection handler, `Spin::Connection` and
`Spin::UDPSocket`, when each call completes before the next one.

* `Endpoint`: what the two classes keep, their descriptor and whether a data handler is set.
* `Objects`: the objects and the registry; an entry calls its object.
* `Consistent`: no entry calls an object that is gone, and an open object with a data handler has
  exactly one entry that is not detached.
* `Orderly`: the condition on a call, in the state before it.
* `consistent_always_iff`: **the registry is consistent throughout a run if and only if every call
  of it is orderly.**
* `exists_run_detach`: the effect of a call on the registry is that of a run of the handler.
-/

namespace Arachnida.Spin

open Library Private

/-- The classes. -/
inductive Kind where
  | connection | udpSocket
  deriving DecidableEq, Repr

/-- The members that matter here: `fd_`, for a connection whether it has its `bio_`, and whether
`data_handler_` is set. -/
structure Endpoint where
  kind : Kind
  fd_ : ℤ
  bio_ : Bool
  data_handler_ : Bool
  deriving DecidableEq, Repr

namespace Endpoint

/-- The object has not been closed. -/
def Open (x : Endpoint) : Prop :=
  match x.kind with
  | .connection => x.bio_ = true
  | .udpSocket => x.fd_ ≠ -1

instance (x : Endpoint) : Decidable x.Open := by
  rw [Open]
  split <;> infer_instance

/-- The object as it is constructed. -/
def new (kind : Kind) (fd : ℤ) : Endpoint := ⟨kind, fd, kind = .connection, false⟩

/-- `Connection::close` lets go of the BIO, `UDPSocket::close` closes the descriptor. -/
def close (x : Endpoint) : Endpoint :=
  match x.kind with
  | .connection => { x with bio_ := false }
  | .udpSocket => { x with fd_ := -1 }

end Endpoint

/-- An object is still to be created, alive or destroyed. -/
inductive Life where
  | unborn
  | live (x : Endpoint)
  | destroyed
  deriving DecidableEq, Repr

/-- The objects, by their addresses, and the registry. -/
structure Objects (ι : Type*) where
  objects : ι → Life
  callbacks_ : List (Callback_ ι)
  next_node : ℕ

variable {ι : Type*} [DecidableEq ι]

/-- No objects and no entries. -/
def Objects.init : Objects ι := ⟨fun _ => .unborn, [], 0⟩

/-- A whole `detach`: the entry is marked, the worker computes its next set, and the entry is
erased. -/
def detachFD (fd : ℤ) (callbacks : List (Callback_ ι)) : List (Callback_ ι) :=
  match findFD fd callbacks with
  | none => callbacks
  | some e =>
      eraseNode e.node ((setState e.node .pending_detachment__ callbacks).map Callback_.computed)

/-- A callback of the descriptor throws, or the descriptor fails its test: the worker marks the
entry and computes its next set. -/
def failFD (fd : ℤ) (callbacks : List (Callback_ ι)) : List (Callback_ ι) :=
  match findFD fd callbacks with
  | none => callbacks
  | some e => (setState e.node .pending_detachment__ callbacks).map Callback_.computed

namespace Objects

/-- The member is assigned. -/
def put (s : Objects ι) (o : ι) (life : Life) : Objects ι :=
  { s with objects := Function.update s.objects o life }

/-- `attach`, with the callbacks bound to the object. -/
def attach (s : Objects ι) (o : ι) (fd : ℤ) (on_error_callback : Option ι) : Objects ι :=
  { s with
    callbacks_ := s.callbacks_ ++ [⟨s.next_node, fd, o, on_error_callback, .pending_attachment__⟩]
    next_node := s.next_node + 1 }

/-- `Connection::setNewDataHandler`; the handler is set before the descriptor is checked. -/
def setNewDataHandler (s : Objects ι) (o : ι) (x : Endpoint) : Objects ι :=
  let s := s.put o (.live { x with data_handler_ := true })
  if x.fd_ = -1 then s else s.attach o x.fd_ (some o)

/-- `UDPSocket::setDataHandler`. -/
def setDataHandler (s : Objects ι) (o : ι) (x : Endpoint) : Objects ι :=
  if x.fd_ = -1 then s
  else (s.put o (.live { x with data_handler_ := true })).attach o x.fd_ none

/-- `Connection::clearNewDataHandler`, which throws without a descriptor, and
`UDPSocket::clearDataHandler`, which does nothing without one. -/
def clearDataHandler (s : Objects ι) (o : ι) (x : Endpoint) : Objects ι :=
  if x.data_handler_ = true ∧ x.fd_ ≠ -1 then
    { s.put o (.live { x with data_handler_ := false }) with
      callbacks_ := detachFD x.fd_ s.callbacks_ }
  else s

end Objects

/-- The calls, and the failure of a descriptor in the worker. -/
inductive Call (ι : Type*) where
  | create (o : ι) (kind : Kind) (fd : ℤ)
  | set (o : ι)
  | clear (o : ι)
  | close (o : ι)
  | destroy (o : ι)
  | fail (fd : ℤ)

/-- A call on an object that is alive.  A new object gets a descriptor that no open object has; the
number of a closed one may come again. -/
inductive Objects.Step : Objects ι → Call ι → Objects ι → Prop where
  | create {s o kind fd} : s.objects o = .unborn → 0 ≤ fd →
      (∀ o' x, s.objects o' = .live x → x.Open → x.fd_ ≠ fd) →
      Step s (.create o kind fd) (s.put o (.live (.new kind fd)))
  | setConnection {s o x} : s.objects o = .live x → x.kind = .connection →
      Step s (.set o) (s.setNewDataHandler o x)
  | setSocket {s o x} : s.objects o = .live x → x.kind = .udpSocket →
      Step s (.set o) (s.setDataHandler o x)
  | clear {s o x} : s.objects o = .live x → Step s (.clear o) (s.clearDataHandler o x)
  | close {s o x} : s.objects o = .live x → Step s (.close o) (s.put o (.live x.close))
  | destroy {s o x} : s.objects o = .live x →
      Step s (.destroy o) ((s.clearDataHandler o x).put o .destroyed)
  | fail {s fd} : Step s (.fail fd) { s with callbacks_ := failFD fd s.callbacks_ }

/-! ### Consistency -/

/-- The number of entries of the object that are not detached. -/
def undetached (o : ι) (callbacks : List (Callback_ ι)) : ℕ :=
  callbacks.countP fun e => e.on_select_callback = o ∧ e.state ≠ .detached__

/-- The object is alive and open and has a data handler. -/
def Handled (s : Objects ι) (o : ι) : Prop :=
  ∃ x, s.objects o = .live x ∧ x.Open ∧ x.data_handler_ = true

/-- The entries call live objects, and each open object with a data handler has one of them. -/
structure Consistent (s : Objects ι) : Prop where
  live : ∀ e ∈ s.callbacks_, ∃ x, s.objects e.on_select_callback = .live x
  one : ∀ o, Handled s o → undetached o s.callbacks_ = 1

/-- The entry that a `clear` of the object erases. -/
def Endpoint.cleared (x : Endpoint) (callbacks : List (Callback_ ι)) : Option (Callback_ ι) :=
  if x.data_handler_ = true ∧ x.fd_ ≠ -1 then findFD x.fd_ callbacks else none

/-- The entry is not the one of another object that needs it. -/
def Spare (s : Objects ι) (o : ι) (e : Callback_ ι) : Prop :=
  e.on_select_callback ≠ o → e.state ≠ .detached__ → ¬ Handled s e.on_select_callback

/-- A handler is set on an object that has no entry, or is closed; a handler is cleared where the
first entry of the descriptor is the object's own, or nobody else needs it; an object is destroyed
where this erases its only entry; no descriptor fails that is in use. -/
def Orderly (s : Objects ι) : Call ι → Prop
  | .set o => ∀ x, s.objects o = .live x → x.Open → undetached o s.callbacks_ = 0
  | .clear o => ∀ x, s.objects o = .live x → ∀ e, x.cleared s.callbacks_ = some e → Spare s o e
  | .destroy o => ∀ x, s.objects o = .live x →
      (∀ e, x.cleared s.callbacks_ = some e → Spare s o e) ∧
        ∀ e ∈ s.callbacks_, e.on_select_callback = o → x.cleared s.callbacks_ = some e
  | .fail fd => ∀ e, findFD fd s.callbacks_ = some e → e.state ≠ .detached__ →
      ¬ Handled s e.on_select_callback
  | _ => True

/-! ### The registry under the calls -/

/-- The part of the invariant that every call keeps: the nodes are apart, no entry is left between
the two states of a detachment, and connections have their descriptor. -/
structure Quiet (s : Objects ι) : Prop where
  nodup : (nodes s.callbacks_).Nodup
  fresh : ∀ n ∈ nodes s.callbacks_, n < s.next_node
  settled : ∀ e ∈ s.callbacks_, e.state ≠ .pending_detachment__
  usable : ∀ o x, s.objects o = .live x → x.kind = .connection → x.fd_ ≠ -1

omit [DecidableEq ι] in
/-- The list around one of its entries. -/
lemma exists_around {l : List (Callback_ ι)} (hl : (nodes l).Nodup) {e : Callback_ ι} (he : e ∈ l) :
    ∃ before after, l = before ++ e :: after ∧ ∀ e' ∈ before ++ after, e'.node ≠ e.node := by
  obtain ⟨before, after, rfl⟩ := List.append_of_mem he
  refine ⟨before, after, rfl, fun e' he' hn => ?_⟩
  have hmiddle : (e.node :: nodes (before ++ after)).Nodup := by
    refine hl.perm ?_
    simp only [nodes, List.map_append, List.map_cons]
    exact List.perm_middle
  exact (List.nodup_cons.mp hmiddle).1 (hn ▸ mem_nodes he')

omit [DecidableEq ι] in
/-- Marking leaves the entries of other nodes alone. -/
lemma setState_of_ne {l : List (Callback_ ι)} {n : ℕ} {state : AttachmentState_}
    (h : ∀ e ∈ l, e.node ≠ n) : setState n state l = l := by
  rw [setState]
  calc l.map (fun e => if e.node = n then { e with state := state } else e)
      = l.map id := List.map_congr_left fun e he => if_neg (h e he)
    _ = l := List.map_id l

omit [DecidableEq ι] in
/-- A failure detaches the entry it finds. -/
lemma failFD_around {fd : ℤ} {before after : List (Callback_ ι)} {e : Callback_ ι}
    (hne : ∀ e' ∈ before ++ after, e'.node ≠ e.node)
    (hfind : findFD fd (before ++ e :: after) = some e) :
    failFD fd (before ++ e :: after) = before.map Callback_.computed ++
      { e with state := .detached__ } :: after.map Callback_.computed := by
  have hbefore := @setState_of_ne ι before e.node .pending_detachment__
    fun e' he' => hne e' (List.mem_append_left _ he')
  have hafter := @setState_of_ne ι after e.node .pending_detachment__
    fun e' he' => hne e' (List.mem_append_right _ he')
  rw [failFD, hfind]
  simp only [setState, List.map_append, List.map_cons, if_pos] at hbefore hafter ⊢
  rw [hbefore, hafter]
  simp [Callback_.computed, Callback_.Selected]

omit [DecidableEq ι] in
/-- A whole `detach` erases the entry it finds. -/
lemma detachFD_around {fd : ℤ} {before after : List (Callback_ ι)} {e : Callback_ ι}
    (hne : ∀ e' ∈ before ++ after, e'.node ≠ e.node)
    (hfind : findFD fd (before ++ e :: after) = some e) :
    detachFD fd (before ++ e :: after) = (before ++ after).map Callback_.computed := by
  have hkeep : ∀ l : List (Callback_ ι), (∀ e' ∈ l, e'.node ≠ e.node) →
      eraseNode e.node (l.map Callback_.computed) = l.map Callback_.computed := by
    intro l hl
    refine List.filter_eq_self.mpr fun e' he' => ?_
    obtain ⟨e₁, he₁, rfl⟩ := List.mem_map.mp he'
    simpa using hl e₁ he₁
  have hfail : detachFD fd (before ++ e :: after)
      = eraseNode e.node (failFD fd (before ++ e :: after)) := by
    simp only [detachFD, failFD, hfind]
  calc detachFD fd (before ++ e :: after)
      = eraseNode e.node (before.map Callback_.computed ++
          { e with state := .detached__ } :: after.map Callback_.computed) := by
        rw [hfail, failFD_around hne hfind]
    _ = eraseNode e.node (before.map Callback_.computed) ++
          eraseNode e.node (after.map Callback_.computed) := by
        simp [eraseNode]
    _ = (before ++ after).map Callback_.computed := by
        rw [hkeep _ fun e' he' => hne e' (List.mem_append_left _ he'),
          hkeep _ fun e' he' => hne e' (List.mem_append_right _ he'), List.map_append]

omit [DecidableEq ι] in
@[simp]
lemma computed_on_select_callback (e : Callback_ ι) :
    e.computed.on_select_callback = e.on_select_callback := by
  rw [Callback_.computed]
  split_ifs <;> rfl

omit [DecidableEq ι] in
lemma computed_detached {e : Callback_ ι} (h : e.state ≠ .pending_detachment__) :
    e.computed.state = .detached__ ↔ e.state = .detached__ := by
  obtain ⟨_, _, _, _, state⟩ := e
  cases state <;> simp_all [Callback_.computed, Callback_.Selected]

omit [DecidableEq ι] in
/-- No entry is left between the two states of a detachment. -/
lemma computed_settled (e : Callback_ ι) : e.computed.state ≠ .pending_detachment__ := by
  obtain ⟨_, _, _, _, state⟩ := e
  cases state <;> simp [Callback_.computed, Callback_.Selected]

/-- A computation of the select set detaches no entry that is settled. -/
lemma undetached_computed {l : List (Callback_ ι)} (h : ∀ e ∈ l, e.state ≠ .pending_detachment__)
    (o : ι) : undetached o (l.map Callback_.computed) = undetached o l := by
  rw [undetached, undetached, List.countP_map]
  refine List.countP_congr fun e he => ?_
  simp [computed_detached (h e he)]

@[simp]
lemma undetached_append (o : ι) (l l' : List (Callback_ ι)) :
    undetached o (l ++ l') = undetached o l + undetached o l' :=
  List.countP_append

@[simp]
lemma undetached_cons (o : ι) (e : Callback_ ι) (l : List (Callback_ ι)) :
    undetached o (e :: l) = undetached o l +
      if e.on_select_callback = o ∧ e.state ≠ .detached__ then 1 else 0 := by
  simp [undetached, List.countP_cons]

/-- What a `detach` or a failure takes away: one entry of the object of the entry that is found. -/
lemma undetached_found {s : Objects ι} (hs : Quiet s) {fd : ℤ} {e : Callback_ ι}
    (hfind : findFD fd s.callbacks_ = some e) (o : ι) :
    undetached o s.callbacks_ = undetached o (detachFD fd s.callbacks_) +
        (if e.on_select_callback = o ∧ e.state ≠ .detached__ then 1 else 0) ∧
      undetached o (failFD fd s.callbacks_) = undetached o (detachFD fd s.callbacks_) := by
  obtain ⟨before, after, hl, hne⟩ := exists_around hs.nodup (mem_of_findFD hfind).1
  have hsettled := hs.settled
  rw [hl] at hfind hsettled ⊢
  have hbefore := undetached_computed (fun e he => hsettled e (List.mem_append_left _ he)) o
  have hafter := undetached_computed
    (fun e he => hsettled e (List.mem_append_right _ (List.mem_cons_of_mem _ he))) o
  rw [detachFD_around hne hfind, failFD_around hne hfind]
  constructor
  · rw [List.map_append, undetached_append, undetached_append, undetached_cons, hbefore, hafter]
    omega
  · simp

omit [DecidableEq ι] in
/-- The objects with an entry after a `detach`. -/
lemma mem_found {s : Objects ι} (hs : Quiet s) {fd : ℤ} {e : Callback_ ι}
    (hfind : findFD fd s.callbacks_ = some e) (o : ι) :
    (∃ e' ∈ detachFD fd s.callbacks_, e'.on_select_callback = o) ↔
      ∃ e' ∈ s.callbacks_, e'.on_select_callback = o ∧ e' ≠ e := by
  obtain ⟨before, after, hl, hne⟩ := exists_around hs.nodup (mem_of_findFD hfind).1
  rw [hl] at hfind ⊢
  rw [detachFD_around hne hfind]
  constructor
  · rintro ⟨e', he', rfl⟩
    obtain ⟨e₁, he₁, rfl⟩ := List.mem_map.mp he'
    refine ⟨e₁, ?_, by simp, fun h => hne e₁ he₁ (h ▸ rfl)⟩
    simp only [List.mem_append, List.mem_cons] at he₁ ⊢
    tauto
  · rintro ⟨e', he', rfl, hne'⟩
    refine ⟨e'.computed, List.mem_map_of_mem ?_, by simp⟩
    simp only [List.mem_append, List.mem_cons] at he' ⊢
    tauto

omit [DecidableEq ι] in
lemma nodes_failFD (fd : ℤ) (l : List (Callback_ ι)) : nodes (failFD fd l) = nodes l := by
  rw [failFD]
  cases findFD fd l with
  | none => rfl
  | some e => simp

omit [DecidableEq ι] in
lemma nodes_detachFD (fd : ℤ) (l : List (Callback_ ι)) :
    (nodes (detachFD fd l)).Sublist (nodes l) := by
  rw [detachFD]
  cases findFD fd l with
  | none => exact List.Sublist.refl _
  | some e =>
      have hsub := (eraseNode_sublist e.node
        ((setState e.node .pending_detachment__ l).map Callback_.computed)).map Callback_.node
      rwa [← nodes, ← nodes, nodes_computed, nodes_setState] at hsub

omit [DecidableEq ι] in
lemma settled_failFD {fd : ℤ} {l : List (Callback_ ι)}
    (h : ∀ e ∈ l, e.state ≠ .pending_detachment__) :
    ∀ e ∈ failFD fd l, e.state ≠ .pending_detachment__ := by
  rw [failFD]
  cases findFD fd l with
  | none => exact h
  | some e =>
      intro e' he'
      obtain ⟨e₁, -, rfl⟩ := List.mem_map.mp he'
      exact computed_settled e₁

omit [DecidableEq ι] in
lemma settled_detachFD {fd : ℤ} {l : List (Callback_ ι)}
    (h : ∀ e ∈ l, e.state ≠ .pending_detachment__) :
    ∀ e ∈ detachFD fd l, e.state ≠ .pending_detachment__ := by
  rw [detachFD]
  cases findFD fd l with
  | none => exact h
  | some e =>
      intro e' he'
      obtain ⟨e₁, -, rfl⟩ := List.mem_map.mp (mem_eraseNode.mp he').1
      exact computed_settled e₁

/-! ### The calls -/

variable {s s' : Objects ι} {o : ι} {x : Endpoint}

omit [DecidableEq ι] in
lemma Quiet.init : Quiet (Objects.init : Objects ι) where
  nodup := List.nodup_nil
  fresh := by simp [Objects.init, nodes]
  settled := by simp [Objects.init]
  usable := by simp [Objects.init]

/-- An object gets other values, and keeps its descriptor if it is a connection. -/
lemma Quiet.put (hs : Quiet s) {life : Life}
    (h : ∀ x, life = .live x → x.kind = .connection → x.fd_ ≠ -1) : Quiet (s.put o life) := by
  refine ⟨hs.nodup, hs.fresh, hs.settled, fun p y hy => ?_⟩
  rcases eq_or_ne p o with rfl | hne
  · exact h y (by simpa [Objects.put] using hy)
  · exact hs.usable p y (by simpa [Objects.put, hne] using hy)

omit [DecidableEq ι] in
lemma Quiet.attach (hs : Quiet s) (fd : ℤ) (g : Option ι) : Quiet (s.attach o fd g) := by
  obtain ⟨hnodup, hfresh⟩ := nodes_append_new hs.nodup hs.fresh
    ⟨s.next_node, fd, o, g, .pending_attachment__⟩ rfl
  refine ⟨hnodup, hfresh, fun e he => ?_, hs.usable⟩
  rcases List.mem_append.mp he with he | he
  · exact hs.settled e he
  · rw [List.mem_singleton.mp he]
    simp

/-- The registry of a `clear`. -/
lemma Quiet.clear (hs : Quiet s) (hx : s.objects o = .live x) : Quiet (s.clearDataHandler o x) := by
  rw [Objects.clearDataHandler]
  split_ifs
  · have hput : Quiet (s.put o (.live { x with data_handler_ := false })) := by
      refine hs.put fun y hy hk => ?_
      obtain rfl := Life.live.inj hy
      exact hs.usable o x hx hk
    exact ⟨hs.nodup.sublist (nodes_detachFD _ _),
      fun n hn => hs.fresh n ((nodes_detachFD _ _).subset hn), settled_detachFD hs.settled,
        hput.usable⟩
  · exact hs

/-- The registration of a data handler. -/
lemma Quiet.set (hs : Quiet s) (hx : s.objects o = .live x) (g : Option ι) :
    Quiet ((s.put o (.live { x with data_handler_ := true })).attach o x.fd_ g) := by
  refine (hs.put fun y hy hk => ?_).attach x.fd_ g
  obtain rfl := Life.live.inj hy
  exact hs.usable o x hx hk

/-- Every call keeps the registry quiet. -/
lemma Quiet.step {a : Call ι} (hs : Quiet s) (hstep : s.Step a s') : Quiet s' := by
  cases hstep with
  | @create _ kind fd _ hfd _ =>
      refine hs.put fun y hy _ => ?_
      obtain rfl := Life.live.inj hy
      show fd ≠ -1
      omega
  | @setConnection o x hx hk =>
      rw [Objects.setNewDataHandler, if_neg (hs.usable o x hx hk)]
      exact hs.set hx _
  | setSocket hx =>
      rw [Objects.setDataHandler]
      split_ifs
      · exact hs
      · exact hs.set hx _
  | clear hx => exact hs.clear hx
  | @close o x hx =>
      refine hs.put fun y hy hk => ?_
      obtain rfl := Life.live.inj hy
      have husable := hs.usable o x hx
      obtain ⟨kind, fd, bio, handler⟩ := x
      cases kind
      · exact husable rfl
      · cases hk
  | destroy hx => exact (hs.clear hx).put (by simp)
  | fail =>
      exact ⟨(nodes_failFD _ _).symm ▸ hs.nodup, (nodes_failFD _ _).symm ▸ hs.fresh,
        settled_failFD hs.settled, hs.usable⟩

lemma handled_put_self {life : Life} : Handled (s.put o life) o ↔
    ∃ x, life = .live x ∧ x.Open ∧ x.data_handler_ = true := by
  simp [Handled, Objects.put]

lemma handled_put_of_ne {life : Life} {p : ι} (h : p ≠ o) :
    Handled (s.put o life) p ↔ Handled s p := by
  simp [Handled, Objects.put, h]

/-- An object that is alive stays so when another one changes, or it is put back. -/
lemma live_put {y : Endpoint} {p : ι} (h : ∃ x, s.objects p = .live x) :
    ∃ x, (s.put o (.live y)).objects p = .live x := by
  rcases eq_or_ne p o with rfl | hne
  · exact ⟨y, by simp [Objects.put]⟩
  · simpa [Objects.put, hne] using h

/-- A value without a handler, or closed. -/
lemma Consistent.put (hc : Consistent s) {y : Endpoint} (hy : y.Open → y.data_handler_ = false) :
    Consistent (s.put o (.live y)) := by
  refine ⟨fun e he => live_put (hc.live e he), fun p hp => ?_⟩
  rcases eq_or_ne p o with rfl | hne
  · obtain ⟨z, hz, hopen, hhandler⟩ := handled_put_self.mp hp
    obtain rfl := Life.live.inj hz
    simp [hy hopen] at hhandler
  · exact hc.one p ((handled_put_of_ne hne).mp hp)

/-- **Setting a handler**: exactly on an object that is closed or has no entry. -/
lemma consistent_set (hc : Consistent s) (hx : s.objects o = .live x) (g : Option ι) :
    Consistent ((s.put o (.live { x with data_handler_ := true })).attach o x.fd_ g) ↔
      (x.Open → undetached o s.callbacks_ = 0) := by
  have hcount : ∀ p, undetached p
      ((s.put o (.live { x with data_handler_ := true })).attach o x.fd_ g).callbacks_
        = undetached p s.callbacks_ + if o = p then 1 else 0 := by
    intro p
    simp only [Objects.attach, Objects.put, undetached_append, undetached_cons]
    simp [undetached]
  constructor
  · intro h hopen
    have hone := h.one o (handled_put_self.mpr ⟨_, rfl, hopen, rfl⟩)
    rw [hcount o, if_pos rfl] at hone
    omega
  · intro h
    refine ⟨fun e he => ?_, fun p hp => ?_⟩
    · rcases List.mem_append.mp he with he | he
      · exact live_put (hc.live e he)
      · rw [List.mem_singleton.mp he]
        exact live_put ⟨x, hx⟩
    · rw [hcount p]
      rcases eq_or_ne o p with rfl | hne
      · obtain ⟨y, hy, hopen, -⟩ := handled_put_self.mp hp
        obtain rfl := Life.live.inj hy
        rw [h hopen, if_pos rfl]
      · rw [hc.one p ((handled_put_of_ne hne.symm).mp hp), if_neg hne]

/-- After a `clear` the object has no handler or is closed. -/
lemma handled_clear (hs : Quiet s) (hx : s.objects o = .live x) (p : ι) :
    Handled (s.clearDataHandler o x) p ↔ p ≠ o ∧ Handled s p := by
  rw [Objects.clearDataHandler]
  split_ifs with hclear
  · rcases eq_or_ne p o with rfl | hne
    · have hself : ¬ Handled (s.put p (.live { x with data_handler_ := false })) p := by
        rw [handled_put_self]
        rintro ⟨y, hy, -, hhandler⟩
        obtain rfl := Life.live.inj hy
        cases hhandler
      exact iff_of_false hself fun h => h.1 rfl
    · exact (handled_put_of_ne hne).trans (by simp [hne])
  · refine ⟨fun hp => ⟨?_, hp⟩, fun h => h.2⟩
    rintro rfl
    obtain ⟨y, hy, hopen, hhandler⟩ := hp
    obtain rfl := Life.live.inj (hx.symm.trans hy)
    have hfd : x.fd_ = -1 := by
      by_contra hne
      exact hclear ⟨hhandler, hne⟩
    cases hk : x.kind with
    | connection => exact hs.usable p x hx hk hfd
    | udpSocket => simp [Endpoint.Open, hk, hfd] at hopen

/-- The registry that a `clear` leaves. -/
lemma callbacks_clear (s : Objects ι) (o : ι) (x : Endpoint) :
    (s.clearDataHandler o x).callbacks_ =
      if (x.cleared s.callbacks_).isSome then detachFD x.fd_ s.callbacks_ else s.callbacks_ := by
  rw [Objects.clearDataHandler, Endpoint.cleared]
  split_ifs with hclear hsome hsome
  · rfl
  · have hnone : findFD x.fd_ s.callbacks_ = none := by simpa using hsome
    simp [detachFD, hnone]
  · cases hsome
  · rfl

omit [DecidableEq ι] in
lemma findFD_of_cleared {l : List (Callback_ ι)} {e : Callback_ ι} (h : x.cleared l = some e) :
    findFD x.fd_ l = some e := by
  rw [Endpoint.cleared] at h
  split_ifs at h
  exact h

/-- **Clearing a handler**: the others keep their entries exactly where the one that is erased is
spare. -/
lemma one_clear (hs : Quiet s) (hc : Consistent s) :
    (∀ p, p ≠ o → Handled s p → undetached p (s.clearDataHandler o x).callbacks_ = 1) ↔
      ∀ e, x.cleared s.callbacks_ = some e → Spare s o e := by
  rw [callbacks_clear]
  cases hcleared : x.cleared s.callbacks_ with
  | none => simpa using fun p _ hp => hc.one p hp
  | some e =>
      have hfound := undetached_found hs (findFD_of_cleared hcleared)
      simp only [Option.isSome_some, if_true, Option.some.injEq, forall_eq']
      constructor
      · intro h hne hstate hhandled
        have hcount := (hfound e.on_select_callback).1
        rw [h _ hne hhandled, hc.one _ hhandled, if_pos ⟨rfl, hstate⟩] at hcount
        omega
      · intro h p hne hhandled
        have hcount := (hfound p).1
        rw [hc.one p hhandled, if_neg] at hcount
        · omega
        · rintro ⟨rfl, hstate⟩
          exact h hne hstate hhandled

/-- The entries after a `clear` call live objects. -/
lemma live_clear (hs : Quiet s) (hc : Consistent s) :
    ∀ e ∈ (s.clearDataHandler o x).callbacks_,
      ∃ y, (s.clearDataHandler o x).objects e.on_select_callback = .live y := by
  have hobjects : ∀ p, (∃ y, s.objects p = .live y) →
      ∃ y, (s.clearDataHandler o x).objects p = .live y := by
    intro p hp
    rw [Objects.clearDataHandler]
    split_ifs
    · exact live_put hp
    · exact hp
  intro e he
  refine hobjects _ ?_
  rw [callbacks_clear] at he
  split_ifs at he with hsome
  · obtain ⟨e₁, he₁⟩ := Option.isSome_iff_exists.mp hsome
    obtain ⟨e₂, he₂, howner, -⟩ := (mem_found hs (findFD_of_cleared he₁) _).mp ⟨e, he, rfl⟩
    exact howner ▸ hc.live e₂ he₂
  · exact hc.live e he

/-- **Destroying an object**: nothing of it remains exactly where the entry that is erased was its
only one. -/
lemma owner_clear (hs : Quiet s) :
    (∀ e ∈ (s.clearDataHandler o x).callbacks_, e.on_select_callback ≠ o) ↔
      ∀ e ∈ s.callbacks_, e.on_select_callback = o → x.cleared s.callbacks_ = some e := by
  rw [callbacks_clear]
  cases hcleared : x.cleared s.callbacks_ with
  | none => simp
  | some e =>
      have hmem := mem_found hs (findFD_of_cleared hcleared) o
      simp only [Option.isSome_some, if_true, Option.some.injEq]
      constructor
      · intro h e' he' howner
        by_contra hne
        obtain ⟨e₁, he₁, howner₁⟩ := hmem.mpr ⟨e', he', howner, fun heq => hne heq.symm⟩
        exact h e₁ he₁ howner₁
      · intro h e' he' howner
        obtain ⟨e₁, he₁, howner₁, hne⟩ := hmem.mp ⟨e', he', howner⟩
        exact hne (h e₁ he₁ howner₁).symm

/-- **A failure**: nobody loses an entry exactly where the one that is found is not in use. -/
lemma consistent_fail (hs : Quiet s) (hc : Consistent s) (fd : ℤ) :
    Consistent { s with callbacks_ := failFD fd s.callbacks_ } ↔
      ∀ e, findFD fd s.callbacks_ = some e → e.state ≠ .detached__ →
        ¬ Handled s e.on_select_callback := by
  have hlive : ∀ e ∈ failFD fd s.callbacks_, ∃ y, s.objects e.on_select_callback = .live y := by
    intro e he
    rw [failFD] at he
    cases hfind : findFD fd s.callbacks_ with
    | none => exact hc.live e (by simpa [hfind] using he)
    | some e₁ =>
        simp only [hfind, setState, List.map_map, List.mem_map] at he
        obtain ⟨e₂, he₂, rfl⟩ := he
        obtain ⟨y, hy⟩ := hc.live e₂ he₂
        refine ⟨y, ?_⟩
        simp only [Function.comp, computed_on_select_callback]
        split_ifs <;> exact hy
  cases hfind : findFD fd s.callbacks_ with
  | none =>
      have hsame : failFD fd s.callbacks_ = s.callbacks_ := by rw [failFD, hfind]
      rw [hsame]
      exact iff_of_true hc (by simp)
  | some e =>
      have hfound := undetached_found hs hfind
      simp only [Option.some.injEq, forall_eq']
      constructor
      · intro h hstate hhandled
        obtain ⟨hcount, hsame⟩ := hfound e.on_select_callback
        have hone : undetached e.on_select_callback (failFD fd s.callbacks_) = 1 := h.one _ hhandled
        rw [← hsame, hone, hc.one _ hhandled, if_pos ⟨rfl, hstate⟩] at hcount
        omega
      · intro h
        refine ⟨hlive, fun p hp => ?_⟩
        have hp' : Handled s p := hp
        obtain ⟨hcount, hsame⟩ := hfound p
        show undetached p (failFD fd s.callbacks_) = 1
        rw [hc.one p hp', ← hsame, if_neg] at hcount
        · omega
        · rintro ⟨rfl, hstate⟩
          exact h hstate hp'

/-- **A call keeps the registry consistent exactly if it is orderly.** -/
lemma consistent_step {a : Call ι} (hs : Quiet s) (hc : Consistent s) (hstep : s.Step a s') :
    Consistent s' ↔ Orderly s a := by
  cases hstep with
  | @create o kind fd ho _ _ =>
      exact iff_of_true (hc.put fun _ => rfl) trivial
  | @setConnection o x hx hk =>
      rw [Objects.setNewDataHandler, if_neg (hs.usable o x hx hk), consistent_set hc hx]
      simp [Orderly, hx]
  | @setSocket o x hx hk =>
      rw [Objects.setDataHandler]
      split_ifs with hfd
      · refine iff_of_true hc fun y hy hopen => ?_
        obtain rfl := Life.live.inj (hx.symm.trans hy)
        simp [Endpoint.Open, hk, hfd] at hopen
      · rw [consistent_set hc hx]
        simp [Orderly, hx]
  | @clear o x hx =>
      have hone := one_clear (o := o) (x := x) hs hc
      have hgoal : Orderly s (.clear o) ↔ ∀ e, x.cleared s.callbacks_ = some e → Spare s o e := by
        simp [Orderly, hx]
      rw [hgoal, ← hone]
      constructor
      · intro h p hne hp
        exact h.one p ((handled_clear hs hx p).mpr ⟨hne, hp⟩)
      · refine fun h => ⟨live_clear hs hc, fun p hp => ?_⟩
        obtain ⟨hne, hp⟩ := (handled_clear hs hx p).mp hp
        exact h p hne hp
  | @close o x _ =>
      refine iff_of_true (hc.put fun hopen => ?_) trivial
      obtain ⟨kind, fd, bio, handler⟩ := x
      cases kind <;> simp [Endpoint.Open, Endpoint.close] at hopen
  | @destroy o x hx =>
      have hone := one_clear (o := o) (x := x) hs hc
      have howner := owner_clear (o := o) (x := x) hs
      have hgoal : Orderly s (.destroy o) ↔
          (∀ e, x.cleared s.callbacks_ = some e → Spare s o e) ∧
            ∀ e ∈ s.callbacks_, e.on_select_callback = o → x.cleared s.callbacks_ = some e := by
        simp [Orderly, hx]
      rw [hgoal, ← hone, ← howner]
      constructor
      · refine fun h => ⟨fun p hne hp => ?_, fun e he heq => ?_⟩
        · exact h.one p ((handled_put_of_ne hne).mpr ((handled_clear hs hx p).mpr ⟨hne, hp⟩))
        · obtain ⟨y, hy⟩ := h.live e he
          simp [Objects.put, heq] at hy
      · rintro ⟨h, hnone⟩
        refine ⟨fun e he => ?_, fun p hp => ?_⟩
        · obtain ⟨y, hy⟩ := live_clear (o := o) (x := x) hs hc e he
          exact ⟨y, by simpa [Objects.put, hnone e he] using hy⟩
        · rcases eq_or_ne p o with rfl | hne
          · obtain ⟨y, hy, -⟩ := handled_put_self.mp hp
            cases hy
          · exact h p hne ((handled_clear hs hx p).mp ((handled_put_of_ne hne).mp hp)).2
  | fail => exact consistent_fail hs hc _

/-- **The registry is consistent in every state of a run if and only if every call is orderly.** -/
theorem consistent_always_iff (as : List (Call ι)) :
    Always Objects.Step Consistent (Objects.init : Objects ι) as ↔
      EveryStep Objects.Step Orderly (Objects.init : Objects ι) as := by
  have hinit : Consistent (Objects.init : Objects ι) :=
    ⟨by simp [Objects.init], by simp [Handled, Objects.init]⟩
  exact always_iff_everyStep_of_invariant
    (fun s a s' (hs : Quiet s) hc hstep => ⟨hs.step hstep, consistent_step hs hc hstep⟩)
    Quiet.init hinit

/-- **An entry of an object that is gone**: a socket is closed and destroyed with its data handler
set, and its entry stays. -/
theorem consistent_fails :
    ¬ Always Objects.Step Consistent (Objects.init : Objects Unit)
        [.create () .udpSocket 5, .set (), .close (), .destroy ()] ∧
      ∃ s : Objects Unit,
        RunTo Objects.Step Objects.init
            [.create () .udpSocket 5, .set (), .close (), .destroy ()] s ∧
          s.objects () = .destroyed ∧ s.callbacks_ = [⟨0, 5, (), none, .pending_attachment__⟩] := by
  obtain ⟨s, hrun, hgone, hentry⟩ : ∃ s : Objects Unit,
      RunTo Objects.Step Objects.init [.create () .udpSocket 5, .set (), .close (), .destroy ()] s ∧
        s.objects () = .destroyed ∧ s.callbacks_ = [⟨0, 5, (), none, .pending_attachment__⟩] :=
    ⟨_, ⟨_, .create rfl (by decide) (by simp [Objects.init]), _, .setSocket rfl rfl, _, .close rfl,
      _,
      .destroy rfl, rfl⟩, rfl, rfl⟩
  refine ⟨fun h => ?_, s, hrun, hgone, hentry⟩
  obtain ⟨x, hx⟩ := (h.last hrun).live _ (hentry ▸ List.mem_singleton_self _)
  cases hgone.symm.trans hx

/-! ### The handler -/

omit [DecidableEq ι] in
/-- **The registry of the objects is the handler's**: a thread's `detach`, with the worker at the
head of its loop, leaves the list of `detachFD`. -/
theorem exists_run_detach {τ : Type*} [DecidableEq τ] {pipe : ℤ} {s : State τ ι} {t : τ} {fd : ℤ}
    {e : Callback_ ι} (hfind : findFD fd s.callbacks_ = some e) (hworker : s.worker = .top)
    (hdone : s.done_ = false) (ht : s.threads t = .free) :
    ∃ s', RunTo (Private.Step pipe) s [.detach (.thread t) fd, .compute, .wake t] s' ∧
      s'.callbacks_ = detachFD fd s.callbacks_ ∧ s'.threads t = .free := by
  let waiting : State τ ι :=
    { s.mark e.node with threads := Function.update s.threads t (.waiting e.node) }
  let computed : State τ ι :=
    { waiting with
      callbacks_ := waiting.callbacks_.map Callback_.computed
      worker := .selecting (insert pipe (selectSet waiting.callbacks_))
      changed := false }
  have hdetach : s.detach (.thread t) fd = waiting := by rw [State.detach, hfind]
  let detached : Callback_ ι := { e with state := .detached__ }
  have hmem : detached ∈ computed.callbacks_ := by
    refine List.mem_map.mpr ⟨{ e with state := .pending_detachment__ }, ?_, by
      simp [detached, Callback_.computed, Callback_.Selected]⟩
    exact List.mem_map.mpr ⟨e, (mem_of_findFD hfind).1, if_pos rfl⟩
  have hfree : ¬ s.worker.HoldsLock := by simp [hworker, Worker.HoldsLock]
  refine ⟨computed.wake t detached, ⟨waiting, hdetach ▸ .detach ⟨ht, hfree⟩, computed,
    .compute hworker hdone, _, .wake ?_ hmem not_false, rfl⟩, ?_, ?_⟩
  · exact Function.update_self ..
  · rw [State.wake, if_pos rfl, detachFD, hfind]
    rfl
  · rw [State.wake, if_pos rfl]
    exact Function.update_self ..

end Arachnida.Spin
