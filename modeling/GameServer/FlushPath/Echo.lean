import GameServer.FlushPath.Lemmas
/-!
# Echo fidelity

One connection of Homework5 or Homework6. Its receives form a chain: a zero-byte
receive, a real one, then `RecvCompletion`, `EchoBack` and the next zero-byte
receive. `EchoBack` and the flushes of any thread run beside the completions of
what was flushed.
-/

namespace GameServer

open Lib

/-- Where the chain of receives stands. -/
inductive RecvChain where
  /-- `PreRecv` is called next. -/
  | idle
  /-- The zero-byte `WSARecv` is outstanding. -/
  | preRecv
  /-- The `WSARecv` into `len` bytes at `buf` is outstanding. -/
  | recv (buf len : Nat)
  /-- `RecvCompletion` is done, `EchoBack` is called next. -/
  | received
  /-- A call or a completion failed: the connection is closing. -/
  | ended
  deriving DecidableEq

/-- The connection, with the calls of `DisconnectRequest` that are due and the
bytes received so far. -/
structure Echo where
  flusher : Flusher
  mRecvBuffer : CircularBuffer
  chain : RecvChain
  closing : Nat
  received : List Byte

namespace Echo

/-- A fresh session with `n` IO threads. -/
def start (sendBufSize recvBufSize : UInt64) (n : Nat) : Echo where
  flusher := .start sendBufSize.toNat n
  mRecvBuffer := .new recvBufSize.toNat
  chain := .idle
  closing := 0
  received := []

/-- The chain ends with `completionOk` false. -/
def fail (e : Echo) : Echo := { e with chain := .ended, closing := e.closing + 1 }

def preRecv (e : Echo) (connected accepted : Bool) : Echo :=
  if connected = false then e.fail
  else if accepted = false then e.fail
  else { e with chain := .preRecv }

def postRecv (e : Echo) (connected accepted : Bool) : Echo :=
  if connected = false then e.fail
  else
    let query := e.mRecvBuffer.getFreeSpaceSize
    let e := { e with mRecvBuffer := query.2 }
    if 0 = query.1 then e.fail
    else
      let query := e.mRecvBuffer.getFreeSpaceSize
      let e := { e with mRecvBuffer := query.2 }
      if accepted = false then e.fail
      else { e with chain := .recv query.2.getBuffer (query.1 % 2 ^ 32) }

/-- `bytes` have arrived at `buf`, and `RecvCompletion` commits them. -/
def recvCompletion (e : Echo) (buf : Nat) (bytes : List Byte) : Echo :=
  { e with mRecvBuffer := { e.mRecvBuffer with mBuffer := overwrite e.mRecvBuffer.mBuffer buf bytes }.commit bytes.length
           received := e.received ++ bytes }

def echoBack (e : Echo) (i : Nat) (connected : Bool) : Echo :=
  let len := e.mRecvBuffer.getContiguiousBytes
  if len = 0 then e
  else
    let r := e.flusher.postSend i connected (slice e.mRecvBuffer.mBuffer (e.mRecvBuffer.getBufferStart.getD 0) len)
    if r.1 = false then { e with flusher := r.2 }
    else { e with flusher := r.2, mRecvBuffer := e.mRecvBuffer.remove len }

inductive Action where
  | preRecv (connected accepted : Bool)
  | postRecv (connected accepted : Bool)
  | recvCompletion (bytes : List Byte)
  /-- The outstanding receive fails or transfers nothing. -/
  | recvError
  | echoBack (i : Nat) (connected : Bool)
  /-- Thread `i` flushes the session at the front of its list. -/
  | doSendJob (i : Nat) (connected accepted : Bool)
  /-- The `k`-th outstanding `WSASend` completes with `transferred` bytes. -/
  | sendCompletion (k transferred : Nat)
  | disconnectRequest

def step (e : Echo) : Action → Option Echo
  | .preRecv connected accepted =>
    if e.chain = .idle ∧ e.flusher.Saw connected then some (e.preRecv connected accepted) else none
  | .postRecv connected accepted =>
    if e.chain = .preRecv ∧ e.flusher.Saw connected then some (e.postRecv connected accepted) else none
  | .recvCompletion bytes =>
    match e.chain with
    | .recv buf len =>
      if 1 ≤ bytes.length ∧ bytes.length ≤ len then some { e.recvCompletion buf bytes with chain := .received } else none
    | _ => none
  | .recvError =>
    match e.chain with
    | .recv _ _ => some e.fail
    | _ => none
  | .echoBack i connected =>
    if e.chain = .received ∧ i < e.flusher.LSendRequestSessionList.length ∧ e.flusher.Saw connected then
      some { e.echoBack i connected with chain := .idle }
    else none
  | .doSendJob i connected accepted =>
    if 0 < e.flusher.LSendRequestSessionList.getD i 0 ∧ e.flusher.Saw connected then
      some { e with flusher := e.flusher.doSendJob i connected accepted }
    else none
  | .sendCompletion k transferred =>
    e.flusher.inFlight[k]?.bind fun c =>
      if 1 ≤ transferred ∧ transferred ≤ c.len then
        some { e with
          flusher := { e.flusher with inFlight := e.flusher.inFlight.eraseIdx k }.sendCompletion c transferred
          -- a partial completion is followed by `DisconnectRequest`
          closing := if transferred = c.len then e.closing else e.closing + 1 }
      else none
  | .disconnectRequest =>
    if 0 < e.closing then some { e with flusher := e.flusher.disconnectRequest, closing := e.closing - 1 } else none

/-! ## The invariant -/

structure Inv (e : Echo) : Prop where
  flusher : e.flusher.Inv
  recv : e.mRecvBuffer.Inv
  chain : ∀ buf len, e.chain = .recv buf len → buf = e.mRecvBuffer.getBuffer ∧ len ≤ e.mRecvBuffer.room
  fidelity : e.received = e.flusher.sent ++ e.flusher.mSendBuffer.contents ++ e.mRecvBuffer.contents

variable {e e' : Echo} {connected accepted : Bool} {i : Nat}

theorem inv_start (sendBufSize recvBufSize : UInt64) (n : Nat) : (start sendBufSize recvBufSize n).Inv where
  flusher := Flusher.inv_start sendBufSize.toNat_lt
  recv := CircularBuffer.inv_new recvBufSize.toNat_lt
  chain buf len h := by cases h
  fidelity := by simp [start, Flusher.start]

theorem Inv.fail (h : e.Inv) : e.fail.Inv := ⟨h.flusher, h.recv, nofun, h.fidelity⟩

theorem inv_preRecv (h : e.Inv) : (e.preRecv connected accepted).Inv := by
  unfold preRecv
  split
  · exact h.fail
  · split
    · exact h.fail
    · exact ⟨h.flusher, h.recv, nofun, h.fidelity⟩

theorem inv_postRecv (h : e.Inv) (hchain : e.chain = .preRecv) : (e.postRecv connected accepted).Inv := by
  have hq := CircularBuffer.inv_getFreeSpaceSize h.recv
  have hquery : Inv { e with mRecvBuffer := e.mRecvBuffer.getFreeSpaceSize.2 } := by
    refine ⟨h.flusher, hq, fun buf len hc => ?_, ?_⟩
    · simp [hchain] at hc
    · simp only [CircularBuffer.contents_getFreeSpaceSize h.recv]
      exact h.fidelity
  unfold postRecv
  split
  · exact h.fail
  · simp only [CircularBuffer.getFreeSpaceSize_again h.recv]
    split
    · exact hquery.fail
    · split
      · exact hquery.fail
      · refine ⟨h.flusher, hq, fun buf len hc => ?_, hquery.fidelity⟩
        cases hc
        rw [CircularBuffer.getFreeSpaceSize_room h.recv]
        exact ⟨rfl, Nat.mod_le _ _⟩

theorem inv_recvCompletion (h : e.Inv) {buf len : Nat} {bytes : List Byte} (hchain : e.chain = .recv buf len)
    (hl : bytes.length ≤ len) : Inv { e.recvCompletion buf bytes with chain := .received } := by
  obtain ⟨rfl, hroom⟩ := h.chain buf len hchain
  have hr : bytes.length ≤ e.mRecvBuffer.room := by omega
  refine ⟨h.flusher, CircularBuffer.inv_store h.recv hr, nofun, ?_⟩
  have hcontents := CircularBuffer.contents_store h.recv hr
  simp only [recvCompletion]
  rw [show ({ e.mRecvBuffer with mBuffer := overwrite e.mRecvBuffer.mBuffer e.mRecvBuffer.getBuffer bytes } :
    CircularBuffer) = e.mRecvBuffer.write bytes from rfl, hcontents, h.fidelity]
  simp only [List.append_assoc]

/-- `EchoBack` moves the front of the receive buffer behind the send buffer's
bytes, or leaves it where it is. -/
theorem inv_echoBack (h : e.Inv) : Inv { e.echoBack i connected with chain := .idle } := by
  have hidle {e : Echo} (h : e.Inv) : Inv { e with chain := .idle } :=
    ⟨h.flusher, h.recv, nofun, h.fidelity⟩
  have hsize := CircularBuffer.getContiguiousBytes_eq h.recv
  unfold echoBack
  by_cases h0 : e.mRecvBuffer.getContiguiousBytes = 0
  · simp only [h0, if_true]
    exact hidle h
  have hpos : 0 < e.mRecvBuffer.mARegionSize := by omega
  have hdata : slice e.mRecvBuffer.mBuffer (e.mRecvBuffer.getBufferStart.getD 0) e.mRecvBuffer.getContiguiousBytes =
      e.mRecvBuffer.regionA := by
    simp [CircularBuffer.getBufferStart, hpos, hsize, CircularBuffer.regionA]
  simp only [if_neg h0, hdata, Flusher.postSend]
  have hinv := Flusher.inv_append h.flusher i connected e.mRecvBuffer.regionA
  have hcontents := Flusher.contents_append h.flusher i connected e.mRecvBuffer.regionA
  have hsent := Flusher.sent_append e.flusher i connected e.mRecvBuffer.regionA e.mRecvBuffer.regionA.length
  generalize e.flusher.append i connected e.mRecvBuffer.regionA e.mRecvBuffer.regionA.length = r at hinv hcontents hsent
  obtain ⟨ok, flusher⟩ := r
  cases ok with
  | false =>
    refine ⟨hinv, h.recv, (fun _ _ hc => by cases hc), ?_⟩
    simp only [Bool.false_eq_true, if_false, List.append_nil] at hcontents hsent
    simp only [if_true, hcontents, hsent]
    exact h.fidelity
  | true =>
    have hcap := h.recv.cap
    have hin := h.recv.inside
    have hlt : e.mRecvBuffer.getContiguiousBytes < sizeMod := by omega
    have hlen := CircularBuffer.length_regionA h.recv
    have hrest : (e.mRecvBuffer.remove e.mRecvBuffer.getContiguiousBytes).contents = e.mRecvBuffer.regionB := by
      rw [CircularBuffer.contents_remove h.recv hlt, hsize, CircularBuffer.contents, List.drop_append,
        List.drop_eq_nil_of_le (by omega), List.nil_append, hlen, Nat.sub_self, List.drop_zero]
    have hfidelity := h.fidelity
    rw [show e.mRecvBuffer.contents = e.mRecvBuffer.regionA ++ e.mRecvBuffer.regionB from rfl] at hfidelity
    refine ⟨hinv, CircularBuffer.inv_remove h.recv hlt, (fun _ _ hc => by cases hc), ?_⟩
    simp only [if_true] at hcontents hsent
    simp only [Bool.true_eq_false, if_false, hcontents, hsent, hrest, hfidelity, List.append_assoc]

theorem inv_doSendJob (h : e.Inv) : Inv { e with flusher := e.flusher.doSendJob i connected accepted } := by
  have hinv := Flusher.inv_flushSend h.flusher connected accepted
  obtain ⟨hbuf, hsent⟩ := Flusher.flushSend_data h.flusher connected accepted
  have hpop (s : Flusher) : (s.popFront i).mSendBuffer = s.mSendBuffer ∧ (s.popFront i).sent = s.sent := ⟨rfl, rfl⟩
  unfold Flusher.doSendJob
  simp only
  split
  · refine ⟨Flusher.inv_popFront hinv, h.recv, h.chain, ?_⟩
    rw [(hpop _).1, (hpop _).2, hbuf, hsent]
    exact h.fidelity
  · refine ⟨hinv, h.recv, h.chain, ?_⟩
    rw [hbuf, hsent]
    exact h.fidelity

theorem inv_sendCompletion (h : e.Inv) {k transferred closing : Nat} {c : PostedSend}
    (hc : e.flusher.inFlight[k]? = some c) (ht : transferred ≤ c.len) :
    Inv { e with
      flusher := { e.flusher with inFlight := e.flusher.inFlight.eraseIdx k }.sendCompletion c transferred, closing } := by
  have hmem := List.mem_of_getElem? hc
  have hk : k < e.flusher.inFlight.length := (List.getElem?_eq_some_iff.1 hc).1
  have hnil : e.flusher.inFlight.eraseIdx k = [] := by
    have hone := h.flusher.single
    exact List.eq_nil_of_length_eq_zero (by rw [List.length_eraseIdx, if_pos hk]; omega)
  obtain ⟨hinv, hsame⟩ := Flusher.sendCompletion_spec h.flusher hmem ht
  rw [hnil]
  exact ⟨hinv, h.recv, h.chain, by simp only [hsame]; exact h.fidelity⟩

theorem inv_step {a : Action} (h : e.Inv) (hs : step e a = some e') : e'.Inv := by
  cases a with
  | preRecv connected accepted =>
    obtain ⟨-, e⟩ := Option.ite_none_right_eq_some.1 hs
    exact Option.some.inj e ▸ inv_preRecv h
  | postRecv connected accepted =>
    obtain ⟨hc, e⟩ := Option.ite_none_right_eq_some.1 hs
    exact Option.some.inj e ▸ inv_postRecv h hc.1
  | recvCompletion bytes =>
    simp only [step] at hs
    split at hs
    · obtain ⟨hl, e⟩ := Option.ite_none_right_eq_some.1 hs
      exact Option.some.inj e ▸ inv_recvCompletion h ‹_› hl.2
    · cases hs
  | recvError =>
    simp only [step] at hs
    split at hs
    · exact Option.some.inj hs ▸ h.fail
    · cases hs
  | echoBack i connected =>
    obtain ⟨-, e⟩ := Option.ite_none_right_eq_some.1 hs
    exact Option.some.inj e ▸ inv_echoBack h
  | doSendJob i connected accepted =>
    obtain ⟨-, e⟩ := Option.ite_none_right_eq_some.1 hs
    exact Option.some.inj e ▸ inv_doSendJob h
  | sendCompletion k transferred =>
    obtain ⟨c, hc, hs⟩ := Option.bind_eq_some_iff.1 hs
    obtain ⟨ht, e⟩ := Option.ite_none_right_eq_some.1 hs
    exact Option.some.inj e ▸ inv_sendCompletion h hc ht.2
  | disconnectRequest =>
    obtain ⟨-, e⟩ := Option.ite_none_right_eq_some.1 hs
    have hf := h.flusher
    exact Option.some.inj e ▸ ⟨⟨hf.buffer, hf.pending, hf.single, hf.span⟩, h.recv, h.chain, h.fidelity⟩

/-- In every state of a connection the bytes received are those reported sent,
then those in the send buffer, then those in the receive buffer. The span of an
outstanding `WSASend` holds what it was posted with, and is where the send
buffer's bytes start. -/
theorem echo_fidelity {sendBufSize recvBufSize : UInt64} {n : Nat} {as : List Action}
    (hr : run step (start sendBufSize recvBufSize n) as = some e) :
    e.received = e.flusher.sent ++ e.flusher.mSendBuffer.contents ++ e.mRecvBuffer.contents ∧
    ∀ c ∈ e.flusher.inFlight, slice e.flusher.mSendBuffer.mBuffer c.buf c.len = c.posted ∧
      e.flusher.mSendBuffer.getBufferStart = some c.buf ∧
      c.posted = e.flusher.mSendBuffer.contents.take c.len := by
  have h := inv_of_run (fun _ _ _ => inv_step) (inv_start sendBufSize recvBufSize n) hr
  exact ⟨h.fidelity, fun c hc => h.flusher.intact hc⟩

/-- Two echoes through small buffers: a partial completion, then B is open with A outstanding. -/
def wrapped : List Action :=
  [.preRecv true true, .postRecv true true, .recvCompletion [1, 2, 3, 4, 5, 6], .echoBack 0 true,
    .doSendJob 0 true true, .sendCompletion 0 4, .preRecv true true, .postRecv true true,
    .recvCompletion [7, 8, 9], .echoBack 1 true, .doSendJob 1 true true]

theorem echo_fidelity_wrapped :
    ∃ e, run step (start 8 8 2) wrapped = some e ∧ e.flusher.inFlight = [⟨4, 2, [5, 6]⟩] ∧
      e.received = e.flusher.sent ++ e.flusher.mSendBuffer.contents ++ e.mRecvBuffer.contents ∧
      ∀ c ∈ e.flusher.inFlight, slice e.flusher.mSendBuffer.mBuffer c.buf c.len = c.posted ∧
        e.flusher.mSendBuffer.getBufferStart = some c.buf ∧
        c.posted = e.flusher.mSendBuffer.contents.take c.len := by
  have hmap : (run step (start 8 8 2) wrapped).map (·.flusher.inFlight) = some [⟨4, 2, [5, 6]⟩] := by
    decide +kernel
  obtain ⟨e, hr, he⟩ := Option.map_eq_some_iff.1 hmap
  exact ⟨e, hr, he, echo_fidelity hr⟩

end Echo

end GameServer
