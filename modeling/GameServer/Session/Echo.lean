import GameServer.Session.Chunking
import GameServer.Session.Conservation
/-!
# Homework7 framing and the echo

Homework7 echoes, after each receive, what `OnReceive` left in the buffer and
removes it if `PostSend` took it, which depends on what the handlers have sent
before. What is left is the beginning of a frame, so the rest of that frame is
then read as something else.
-/

namespace GameServer

open Lib

namespace Session

variable {s s' : Session} {fs gs hs : List Frame} {sessionCount : Int32} {chunk todo : List Byte}

/-- The server's steps while the connection lasts: no completion on the send path
closes it. -/
def step (s : Session) : ServerEvent → Option Session
  | .recv sessionCount chunk => s.serverStep (.recv sessionCount chunk)
  | .send a => (s.serverStep (.send a)).filter fun s' => s'.sender.mConnected = s.sender.mConnected

/-- The handlers of the frames do not disconnect. -/
def Quiet (fs : List Frame) : Prop :=
  ∀ f ∈ fs, ∀ sessionCount, handlerTable (serverHandlers sessionCount) (.ofFrame f) ≠ .ok .disconnectRequest

/-- The bytes an event brings. -/
def ServerEvent.bytes : ServerEvent → List Byte
  | .recv _ chunk => chunk
  | .send _ => []

/-- The frames of the stream that end in the next chunk. -/
def completed (fs : List Frame) (s : Session) (chunk : List Byte) : List Frame :=
  (frameCode.whole fs (s.received.length + chunk.length)).drop (frameCode.whole fs s.received.length).length

/-- The sending half once the handlers of the frames have answered. -/
def answered (sessionCount : Int32) (fs : List Frame) (s : Session) : Sender :=
  match handleAll (serverHandlers sessionCount) s (fs.map .ofFrame) with
  | .ok s' => s'.sender
  | .error _ => s.sender

/-- The space offered is in A, and the chunk ends with a frame or the answers to the
frames it completes leave no space in the send buffer for the beginning of the next one. -/
def EchoSafe (fs : List Frame) (s : Session) : ServerEvent → Prop
  | .recv sessionCount chunk => s.OfferInA ∧
      (frameCode.leftover fs (s.received.length + chunk.length) = 0 ∨
        (answered sessionCount (completed fs s chunk) s).mSendBuffer.getFreeSpaceSize.1 <
          frameCode.leftover fs (s.received.length + chunk.length))
  | .send _ => True

/-- Some bytes have been echoed. -/
def Lossy (s : Session) : Prop := ∃ bytes, .echo bytes ∈ s.taken ∧ bytes ≠ []

theorem serverStep_of_step {e : ServerEvent} (hs : step s e = some s') : s.serverStep e = some s' := by
  cases e with
  | recv sessionCount chunk => exact hs
  | send a => exact (Option.filter_eq_some_iff.1 hs).1

/-- What happens on the send path does not touch the rest. -/
theorem step_send {a : Sender.Action} (hs : step s (.send a) = some s') :
    ∃ sender, sender.mConnected = s.sender.mConnected ∧ s' = { s with sender } := by
  obtain ⟨hs, hc⟩ := Option.filter_eq_some_iff.1 hs
  obtain ⟨sender, -, rfl⟩ := Option.map_eq_some_iff.1 hs
  exact ⟨sender, of_decide_eq_true hc, rfl⟩

theorem run_received {events : List ServerEvent} {s t : Session} (h : Conserved s) (hr : run step s events = some t) :
    t.received.length ≤ s.received.length + (events.flatMap ServerEvent.bytes).length := by
  induction events generalizing s with
  | nil => cases hr; exact Nat.le_refl _
  | cons e es ih =>
    obtain ⟨s₁, hs, hr⟩ := run_cons.1 hr
    have h₁ := ih (conserved_step h (serverStep_of_step hs)) hr
    have hle : s₁.received.length ≤ s.received.length + e.bytes.length := by
      cases e with
      | send a =>
        obtain ⟨sender, -, rfl⟩ := step_send hs
        exact Nat.le_add_right _ _
      | recv sessionCount chunk =>
        rcases recvWith_cases h.ready (serverStep_recv.1 hs) with ⟨-, rfl⟩ | ⟨-, -, rfl⟩ | ⟨-, -, hl, rs, sender, -, -, rfl⟩
        · exact Nat.le_add_right _ _
        · exact Nat.le_add_right _ _
        · rcases echoBack_cases ((conserved_handled h hl).withSender sender).ready with
            ⟨-, e⟩ | ⟨-, -, t, -, e⟩ | ⟨-, -, t, -, e⟩ <;> rw [e]
          all_goals simp [handled, ServerEvent.bytes]
    rw [List.flatMap_cons, List.length_append]
    omega

/-- Whatever was echoed is missing from the frames. -/
theorem length_frames_lt {l : List Taken} {bytes : List Byte} (hm : .echo bytes ∈ l) (hne : bytes ≠ []) :
    ((l.filterMap Taken.frame).flatMap Dispatch.bytes).length < (l.flatMap Taken.bytes).length := by
  have hle : ∀ l : List Taken,
      ((l.filterMap Taken.frame).flatMap Dispatch.bytes).length ≤ (l.flatMap Taken.bytes).length := by
    intro l
    induction l with
    | nil => exact Nat.le_refl _
    | cons x l ih =>
      cases x with
      | dispatch d => simpa [Taken.frame, Taken.bytes] using ih
      | echo b => simp only [List.filterMap_cons, Taken.frame, List.flatMap_cons, List.length_append]; omega
  obtain ⟨l₁, l₂, rfl⟩ := List.append_of_mem hm
  have h₁ := hle l₁
  have h₂ := hle l₂
  have hpos := List.length_pos_iff.2 hne
  simp only [List.filterMap_append, List.filterMap_cons, Taken.frame, List.flatMap_append, List.flatMap_cons,
    Taken.bytes, List.length_append]
  omega

/-- With bytes echoed, not all frames can have been dispatched. -/
theorem Lossy.not_all (h : Lossy s) (hc : Conserved s) (hr : s.received.length ≤ (frameCode.stream fs).length) :
    s.dispatched ≠ fs.map .ofFrame := by
  intro e
  obtain ⟨bytes, hm, hne⟩ := h
  have hlt := length_frames_lt hm hne
  have hd : ∀ d ∈ s.dispatched, 0 ≤ d.mSize.toInt := by
    intro d hd
    rw [e] at hd
    obtain ⟨f, -, rfl⟩ := List.mem_map.1 hd
    exact (inStep_ofFrame f).size
  have hlen := congrArg List.length (hc.bytes hd)
  rw [List.length_append] at hlen
  rw [← bytes_ofFrame, ← e] at hr
  unfold dispatched at hr
  omega

/-- Echoing from a stalled session takes the beginning of its frame away, or not. -/
theorem Stalled.echoBack (h : Stalled gs hs s) (hr : Ready s.mRecvBuffer) :
    Stalled gs hs s.echoBack ∨ Lossy s.echoBack := by
  rcases echoBack_cases hr with ⟨-, e⟩ | ⟨-, -, t, ht, e⟩ | ⟨hpos, -, t, -, e⟩ <;> rw [e]
  · exact .inl h
  · exact .inl ⟨h.rest, h.dispatched, h.stuck.imp_left fun hc => ht.trans hc⟩
  · refine .inr ⟨_, List.mem_append_right _ (List.mem_singleton.2 rfl), fun hA => ?_⟩
    rw [← CircularBuffer.length_regionA hr.inv, hA] at hpos
    exact Nat.lt_irrefl 0 hpos

theorem Stalled.withSender (h : Stalled gs hs s) {sender : Sender} (hc : sender.mConnected = s.sender.mConnected) :
    Stalled gs hs { s with sender } :=
  ⟨h.rest, h.dispatched, h.stuck.imp_left fun hn => hc.trans hn⟩

/-- Nothing that is blocked is handled. -/
theorem Blocked.sender (h : Blocked hs s.offering) (hl : chunk.length ≤ s.offering.room) {rs : List Reaction}
    {handlers : List Handler} {sender : Sender}
    (hrs : List.Forall₂ (fun d r => handlerTable handlers d = .ok r) (GameServer.onReceive (s.incoming chunk)).dispatched rs)
    (hsend : (GameServer.onReceive (s.incoming chunk)).disconnect = false → sender = (rs.foldl react s).sender) :
    sender.mConnected = (s.handled chunk (GameServer.onReceive (s.incoming chunk))).sender.mConnected := by
  obtain ⟨e, -⟩ := h.onReceive hl
  rw [incoming, e] at hrs hsend ⊢
  cases hrs
  rw [hsend rfl]
  rfl

theorem Flowing.withSender (h : Flowing gs hs todo s) {sender : Sender} (hc : sender.mConnected = s.sender.mConnected) :
    Flowing gs hs todo { s with sender } :=
  ⟨h.ready, hc.trans h.connected, h.closed, h.begun, h.stream, h.dispatched, h.received⟩

/-- Where a flowing stream has come to, `leftover` tells what the buffer holds. -/
theorem Flowing.leftover (h : Flowing gs hs todo s) :
    frameCode.leftover (gs ++ hs) s.received.length = s.mRecvBuffer.contents.length := by
  rw [h.received, PrefixCode.leftover_stream, PrefixCode.leftover_begins h.begun]

theorem Flowing.whole (h : Flowing gs hs todo s) : frameCode.whole (gs ++ hs) s.received.length = gs := by
  rw [h.received, PrefixCode.whole_stream, PrefixCode.whole_begins h.begun, List.append_nil]

/-- Answers keep the connection. -/
theorem mConnected_react (s : Session) {r : Reaction} (hr : r ≠ .disconnectRequest) :
    (s.react r).sender.mConnected = s.sender.mConnected := by
  cases r with
  | nothing => rfl
  | sendRequest packetType payload => exact Sender.mConnected_call s.sender _
  | disconnectRequest => exact absurd rfl hr

theorem mConnected_reactions {ks : List Frame} {rs : List Reaction} (hq : Quiet ks)
    (h : List.Forall₂ (fun f r => handlerTable (serverHandlers sessionCount) (.ofFrame f) = .ok r) ks rs) (s : Session) :
    (rs.foldl react s).sender.mConnected = s.sender.mConnected := by
  induction h generalizing s with
  | nil => rfl
  | @cons f r ks rs hr _ ih =>
    have hne : r ≠ .disconnectRequest := by
      rintro rfl
      exact hq f List.mem_cons_self sessionCount hr
    rw [List.foldl_cons, ih (fun g hg => hq g (List.mem_cons_of_mem f hg)), mConnected_react s hne]

/-- The handlers of quiet frames: what they do, and that they keep the connection. -/
theorem answered_eq {ks : List Frame} {rs : List Reaction} (hq : Quiet ks)
    (h : List.Forall₂ (fun d r => handlerTable (serverHandlers sessionCount) d = .ok r) (ks.map .ofFrame) rs)
    (s : Session) : answered sessionCount ks s = (rs.foldl react s).sender ∧
      (rs.foldl react s).sender.mConnected = s.sender.mConnected :=
  ⟨by rw [answered, handleAll_eq h], mConnected_reactions hq (List.forall₂_map_left_iff.1 h) s⟩

/-- On a flowing stream `EchoBack` leaves the buffer alone exactly when it is
empty or the echo does not fit. -/
theorem Flowing.echoBack (h : Flowing gs hs todo s) :
    ((s.mRecvBuffer.contents.length = 0 ∨ s.sender.mSendBuffer.getFreeSpaceSize.1 < s.mRecvBuffer.contents.length) →
      Flowing gs hs todo s.echoBack) ∧
    (¬ (s.mRecvBuffer.contents.length = 0 ∨ s.sender.mSendBuffer.getFreeSpaceSize.1 < s.mRecvBuffer.contents.length) →
      Lossy s.echoBack) := by
  have hA := CircularBuffer.length_regionA h.ready.inv
  rw [CircularBuffer.contents_of_closed h.closed]
  rcases echoBack_cases h.ready with ⟨h0, e⟩ | ⟨hpos, hf, t, ht, e⟩ | ⟨hpos, hf, t, ht, e⟩ <;> rw [e]
  · exact ⟨fun _ => h, fun hn => absurd (.inl (by omega)) hn⟩
  · refine ⟨fun _ => h.withSender ht, fun hn => absurd ⟨h.connected, ?_⟩ hf⟩
    omega
  · refine ⟨fun hn => absurd hf.2 (by omega), fun _ =>
      ⟨_, List.mem_append_right _ (List.mem_singleton.2 rfl), fun hnil => ?_⟩⟩
    rw [hnil] at hA
    simp only [List.length_nil] at hA
    omega

/-- What a run is in when its stream no longer flows. -/
structure Lost (fs : List Frame) (s : Session) : Prop where
  conserved : Conserved s
  lost : (∃ gs hs, fs = gs ++ hs ∧ Stalled gs hs s) ∨ Lossy s

/-- A receive that is safe keeps the stream flowing, any other loses it. -/
theorem flowing_recv (hq : Quiet hs) (h : Flowing gs hs (chunk ++ todo) s) (hc : Conserved s)
    (hs' : step s (.recv sessionCount chunk) = some s') :
    (EchoSafe (gs ++ hs) s (.recv sessionCount chunk) → ∃ ks js, hs = ks ++ js ∧ Flowing (gs ++ ks) js todo s') ∧
    (¬ EchoSafe (gs ++ hs) s (.recv sessionCount chunk) → Lost (gs ++ hs) s') := by
  have hroom := h.room_pos
  have hcons := conserved_step hc (serverStep_of_step hs')
  rcases recvWith_cases h.ready (serverStep_recv.1 hs') with ⟨hn, -⟩ | ⟨-, h0, -⟩ | ⟨-, -, hl, rs, sender, hrs, hsend, rfl⟩
  · rw [h.connected] at hn; cases hn
  · omega
  · by_cases ha : s.OfferInA
    · obtain ⟨ks, js, rfl, hf, -⟩ := h.next ha hl
      -- the chunk completes the frames `ks`
      have hd := hf.dispatched
      rw [dispatched_handled, h.dispatched, List.map_append, List.append_right_inj] at hd
      rw [hd] at hrs
      obtain ⟨hanswer, hconn⟩ := answered_eq (fun f hf => hq f (List.mem_append_left js hf)) hrs s
      have hquiet : (onReceive (s.incoming chunk)).disconnect = false := by
        have hcon := hf.connected
        by_contra hd
        rw [Bool.not_eq_false] at hd
        simp [handled, hd] at hcon
      have hrec : (s.handled chunk (onReceive (s.incoming chunk))).received.length = s.received.length + chunk.length :=
        List.length_append
      have hcompleted : completed (gs ++ (ks ++ js)) s chunk = ks := by
        have hw := hf.whole
        rw [hrec, List.append_assoc] at hw
        rw [completed, hw, h.whole, List.drop_left]
      have hf' : Flowing (gs ++ ks) js todo { s.handled chunk (onReceive (s.incoming chunk)) with sender } := by
        refine hf.withSender ?_
        rw [hsend hquiet, hconn, h.connected, hf.connected]
      have hleft := hf'.leftover
      rw [hrec, List.append_assoc] at hleft
      simp only [EchoSafe, ha, true_and, hleft, hcompleted, hanswer, ← hsend hquiet]
      exact ⟨fun hsafe => ⟨ks, js, rfl, hf'.echoBack.1 hsafe⟩, fun hsafe => ⟨hcons, .inr (hf'.echoBack.2 hsafe)⟩⟩
    · have hst := (h.blocked ha).next h.dispatched hl
      refine ⟨fun hsafe => absurd hsafe.1 ha, fun _ => ⟨hcons, ?_⟩⟩
      have hready := ((conserved_handled hc hl).withSender sender).ready
      refine (Stalled.echoBack (h := hst.withSender ?_) hready).imp_left fun hst' => ⟨gs, hs, rfl, hst'⟩
      exact (h.blocked ha).sender hl hrs hsend

theorem lost_step {e : ServerEvent} (h : Lost fs s) (hs' : step s e = some s') : Lost fs s' := by
  have hcons := conserved_step h.conserved (serverStep_of_step hs')
  refine ⟨hcons, ?_⟩
  cases e with
  | send a =>
    obtain ⟨sender, hc, rfl⟩ := step_send hs'
    exact h.lost.imp_left fun ⟨gs, hs, e, hst⟩ => ⟨gs, hs, e, hst.withSender hc⟩
  | recv sessionCount chunk =>
    rcases recvWith_cases h.conserved.ready (serverStep_recv.1 hs') with
      ⟨-, rfl⟩ | ⟨-, -, rfl⟩ | ⟨hconn, -, hl, rs, sender, hrs, hsend, rfl⟩
    · exact h.lost
    · exact h.lost.imp_left fun ⟨gs, hs, e, hst⟩ => ⟨gs, hs, e, hst.rest, hst.dispatched, .inl rfl⟩
    · have hready := ((conserved_handled h.conserved hl).withSender sender).ready
      rcases h.lost with ⟨gs, hs, e, hst⟩ | ⟨bytes, hm, hne⟩
      · have hb := hst.stuck.resolve_left (by rw [hconn]; decide)
        rw [← hb.offering] at hb
        refine (Stalled.echoBack (h := (hb.next hst.dispatched hl).withSender ?_) hready).imp_left
          fun hst' => ⟨gs, hs, e, hst'⟩
        exact hb.sender hl hrs hsend
      · have hm' : Taken.echo bytes ∈ (s.handled chunk (onReceive (s.incoming chunk))).taken :=
          List.mem_append_left _ hm
        refine .inr ⟨bytes, ?_, hne⟩
        rcases echoBack_cases hready with ⟨-, e⟩ | ⟨-, -, t, -, e⟩ | ⟨-, -, t, -, e⟩ <;> rw [e]
        · exact hm'
        · exact hm'
        · exact List.mem_append_left _ hm'

/-- Homework7 dispatches the peer's frames, whatever the chunks, if and only if
every receive is safe. -/
theorem dispatched_iff_echoSafe (fs : List Frame) (hq : Quiet fs) (events : List ServerEvent) (t : Session)
    (hb : events.flatMap ServerEvent.bytes = frameCode.stream fs) (hr : run step start events = some t) :
    t.dispatched = fs.map .ofFrame ↔ Meets step (EchoSafe fs) start events := by
  have hstart := flowing_start fs
  rw [← hb] at hstart
  have hrun := run_or_lost (P := EchoSafe fs)
    (I := fun es s => Conserved s ∧ ∃ gs hs, fs = gs ++ hs ∧ Flowing gs hs (es.flatMap ServerEvent.bytes) s)
    (J := Lost fs) ?_ ?_ (fun s e s' => lost_step) ⟨conserved_start, [], fs, rfl, hstart⟩ hr
  · constructor
    · intro hd
      rcases hrun with ⟨hm, -⟩ | ⟨-, hcons, hlost⟩
      · exact hm
      · rcases hlost with ⟨gs, hs, rfl, hst⟩ | hlossy
        · exact absurd hd hst.not_all
        · have hlen := run_received conserved_start hr
          rw [hb] at hlen
          exact absurd hd (hlossy.not_all hcons (by simpa [start] using hlen))
    · intro hm
      obtain ⟨-, -, gs, hs, rfl, hf⟩ := hrun.resolve_right fun hn => hn.1 hm
      obtain ⟨rfl, -⟩ := hf.begun.eq_nil (by simpa using hf.stream)
      rw [hf.dispatched, List.append_nil]
  · rintro s e es s' ⟨hcons, gs, hs, rfl, hf⟩ hsafe hs'
    refine ⟨conserved_step hcons (serverStep_of_step hs'), ?_⟩
    cases e with
    | send a =>
      obtain ⟨sender, hc, rfl⟩ := step_send hs'
      exact ⟨gs, hs, rfl, hf.withSender hc⟩
    | recv sessionCount chunk =>
      have hq' : Quiet hs := fun f hmem => hq f (List.mem_append_right gs hmem)
      obtain ⟨ks, js, rfl, hf'⟩ := (flowing_recv hq' hf hcons hs').1 hsafe
      exact ⟨gs ++ ks, js, by rw [List.append_assoc], hf'⟩
  · rintro s e es s' ⟨hcons, gs, hs, rfl, hf⟩ hsafe hs'
    cases e with
    | send a => exact absurd trivial hsafe
    | recv sessionCount chunk =>
      exact (flowing_recv (fun f hmem => hq f (List.mem_append_right gs hmem)) hf hcons hs').2 hsafe

/-- A frame of a type without a handler. -/
def chat : Frame where
  mType := 3
  payload := [0, 0]
  valid := by decide
  short := by decide

theorem quiet_chat : Quiet [chat] := by
  intro f hf sessionCount
  rw [List.mem_singleton.1 hf]
  nofun

/-- It comes in one chunk, of which the echo finds nothing left. -/
theorem dispatched_iff_echoSafe_whole : ∃ t, run step start [.recv 0 [2, 0, 3, 0, 0, 0]] = some t ∧
    (t.dispatched = [chat].map .ofFrame ↔ Meets step (EchoSafe [chat]) start [.recv 0 [2, 0, 3, 0, 0, 0]]) :=
  ⟨_, rfl, dispatched_iff_echoSafe [chat] quiet_chat [.recv 0 [2, 0, 3, 0, 0, 0]] _ (by decide) rfl⟩

/-- The same frame in two chunks: the first half is echoed. -/
theorem not_dispatched_halves : ¬ ∀ fs events t, Quiet fs → events.flatMap ServerEvent.bytes = frameCode.stream fs →
    run step start events = some t → t.dispatched = fs.map .ofFrame := by
  intro h
  have hd := h [chat] [.recv 0 [2, 0, 3], .recv 0 [0, 0, 0]] _ quiet_chat (by decide) rfl
  revert hd
  decide

end Session

end GameServer
