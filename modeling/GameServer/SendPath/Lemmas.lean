import GameServer.SendPath
import GameServer.PacketHandling.Lemmas
import Mathlib.Data.List.TakeWhile
/-!
# What each step of the send path does

Whether a call is accepted, what it leaves behind when it is, and the facts that
hold of every run: the buffer keeps its invariant and what is committed is the
data of the accepted calls.
-/

namespace GameServer

open Lib

theorem length_packetBytes (packetType : Int16) (payload : List Byte) :
    (packetBytes packetType payload).length = payload.length + headerSize := by
  rw [packetBytes, List.length_append, length_headerBytes, Nat.add_comm]

/-- The total size survives its passage through `int` when it passes the space
check. -/
theorem totalSize_eq {n : Nat} (hn : n < 2 ^ 31) (hfit : toSize (toInt (n + headerSize)) ≤ clientBufSize) :
    toSize (toInt (n + headerSize)) = n + headerSize := by
  have h4 : headerSize = 4 := rfl
  have hc : clientBufSize = 65536 := rfl
  rcases Nat.lt_or_ge (n + headerSize) (2 ^ 31) with hlt | hge
  · rw [toInt_eq hlt, toSize_natCast (by unfold sizeMod; omega)]
  · have hs : (sizeMod : Int) = 18446744073709551616 := rfl
    rw [toInt_wrap hge (by omega), toSize_neg (by omega) (by omega), hs] at hfit
    omega

namespace Sender

variable {s s' : Sender}

/-- Both calls send the call's data, whole or not at all. -/
theorem perform_eq (h : s.mSendBuffer.Inv) (hc : s.mSendBuffer.mCapacity = clientBufSize) (c : Call) :
    s.perform c = s.send c.bytes c.bytes.length := by
  cases c with
  | postSend data => rfl
  | sendRequest packetType payload =>
    have hle := CircularBuffer.getFreeSpaceSize_le h
    have hb := payload.byteSize
    rw [hc] at hle
    simp only [perform, sendRequest, Call.bytes, length_packetBytes]
    rcases Nat.lt_or_ge clientBufSize (toSize (toInt (payload.bytes.length + headerSize))) with hbig | hfit
    · -- the total size overflows `int`, and the length itself is no smaller
      have hbig' : clientBufSize < payload.bytes.length + headerSize := by
        by_contra hsmall
        have hc : clientBufSize = 65536 := rfl
        rw [toInt_eq (by omega), toSize_natCast (by unfold sizeMod; omega)] at hbig
        omega
      unfold send
      rw [if_pos (show s.mSendBuffer.getFreeSpaceSize.1 < _ by omega),
        if_pos (show s.mSendBuffer.getFreeSpaceSize.1 < payload.bytes.length + headerSize by omega)]
    · rw [totalSize_eq hb hfit]

/-- An accepted call finds the session connected and room for its bytes. -/
def Fits (s : Sender) (bytes : List Byte) : Prop :=
  s.mConnected = true ∧ bytes.length ≤ s.mSendBuffer.getFreeSpaceSize.1

instance (s : Sender) (bytes : List Byte) : Decidable (s.Fits bytes) := inferInstanceAs (Decidable (_ ∧ _))

theorem send_fits {bytes : List Byte} (hf : s.Fits bytes) :
    s.send bytes bytes.length =
      (true, ({ s with mSendBuffer := s.mSendBuffer.getFreeSpaceSize.2 }.store bytes bytes.length).wsaSend) := by
  simp [send, hf.1, Nat.not_lt.2 hf.2]

/-- A refused call changes the layout of the buffer at most. -/
theorem send_refused {bytes : List Byte} (hf : ¬ s.Fits bytes) :
    s.send bytes bytes.length = (false, s) ∨
      s.send bytes bytes.length = (false, { s with mSendBuffer := s.mSendBuffer.getFreeSpaceSize.2 }) := by
  by_cases hc : s.mConnected = true
  · have hlt : s.mSendBuffer.getFreeSpaceSize.1 < bytes.length := Nat.lt_of_not_le fun h => hf ⟨hc, h⟩
    exact .inr (by simp [send, hc, hlt])
  · exact .inl (by simp [send, hc])

/-- `PostSend` answers whether the data fitted, and leaves the session connected
or not as it was. -/
theorem postSend_answer (s : Sender) (data : List Byte) :
    ∃ t : Sender, t.mConnected = s.mConnected ∧ s.call (.postSend data) = (decide (s.Fits data), t) := by
  refine ⟨(s.call (.postSend data)).2, ?_⟩
  by_cases hf : s.Fits data
  · simp [call, perform, postSend, send_fits hf, hf, store, wsaSend]
  · rcases send_refused hf with e | e <;> simp [call, perform, postSend, e, hf]

/-- A call leaves the connection as it is. -/
theorem mConnected_call (s : Sender) (c : Call) : (s.call c).2.mConnected = s.mConnected := by
  have hsend (bytes : List Byte) (len : Nat) : (s.send bytes len).2.mConnected = s.mConnected := by
    unfold send
    split
    · rfl
    · dsimp only
      split <;> rfl
  have hperform : (s.perform c).2.mConnected = s.mConnected := by
    cases c with
    | postSend data => exact hsend _ _
    | sendRequest packetType payload => exact hsend _ _
  unfold call
  dsimp only
  split <;> exact hperform

/-- A transmission sends the oldest span not sent yet. -/
theorem step_transmit (hs : step s .transmit = some s') :
    ∃ sent c later, s.inFlight = sent ++ c :: later ∧ (∀ x ∈ sent, x.transmitted = true) ∧ c.transmitted = false ∧
      s' = { s with wire := s.wire ++ slice s.mSendBuffer.mBuffer c.buf c.len
                    inFlight := sent ++ { c with transmitted := true } :: later } := by
  simp only [step] at hs
  split at hs
  · cases hs
  · next c later hd =>
    cases hs
    refine ⟨_, c, later, ?_, fun x hx => List.mem_takeWhile_imp hx, ?_, rfl⟩
    · rw [← hd, List.takeWhile_append_dropWhile]
    · have hne : s.inFlight.dropWhile SendContext.transmitted ≠ [] := by simp [hd]
      simpa [hd] using List.head_dropWhile_not SendContext.transmitted hne

/-- A completion takes a sent span out of flight. -/
theorem step_complete {i : Nat} (hs : step s (.complete i) = some s') :
    ∃ before c later, s.inFlight = before ++ c :: later ∧ c.transmitted = true ∧
      s' = sendCompletion { s with inFlight := before ++ later } c.len := by
  simp only [step] at hs
  split at hs
  · cases hs
  · next c later hd =>
    obtain ⟨ht, e⟩ := Option.ite_none_right_eq_some.1 hs
    exact ⟨s.inFlight.take i, c, later, by rw [← hd, List.take_append_drop], ht, (Option.some.inj e).symm⟩

/-! ## What holds of every run -/

structure Inv (s : Sender) : Prop where
  buffer : s.mSendBuffer.Inv
  capacity : s.mSendBuffer.mCapacity = clientBufSize
  short : ∀ c ∈ s.inFlight, c.len < sizeMod
  committed : s.committed = s.accepted.flatMap Call.bytes

theorem inv_start : Inv (start clientBufSize) where
  buffer := CircularBuffer.inv_new (by decide)
  capacity := rfl
  short := by simp [start]
  committed := rfl

theorem inv_call (h : s.Inv) {c : Call} (hs : step s (.call c) = some s') : s'.Inv := by
  simp only [step, call, Option.some.injEq] at hs
  rw [perform_eq h.buffer h.capacity] at hs
  have hq := CircularBuffer.inv_getFreeSpaceSize h.buffer
  have hqc := (CircularBuffer.mCapacity_getFreeSpaceSize h.buffer).trans h.capacity
  by_cases hf : s.Fits c.bytes
  · have hroom : c.bytes.length ≤ s.mSendBuffer.getFreeSpaceSize.2.room := by
      rw [← CircularBuffer.getFreeSpaceSize_room h.buffer]
      exact hf.2
    rw [send_fits hf] at hs
    subst hs
    refine ⟨CircularBuffer.inv_commit (CircularBuffer.inv_write hq hroom) hroom, ?_, ?_, ?_⟩
    · exact (CircularBuffer.mCapacity_commit _ _).trans hqc
    · intro x hx
      rcases List.mem_append.1 hx with hx | hx
      · exact h.short x hx
      · rw [List.mem_singleton.1 hx]
        exact Nat.lt_trans (Nat.mod_lt _ (by decide)) (by decide)
    · simp only [wsaSend, store, if_true, List.flatMap_append, List.flatMap_cons, List.flatMap_nil, List.append_nil, h.committed]
      rw [CircularBuffer.slice_write hq (Nat.le_refl _), List.take_length]
  · rcases send_refused hf with e | e <;> rw [e] at hs <;> subst hs
    · exact h
    · exact ⟨hq, hqc, h.short, h.committed⟩

theorem accepted_of_fits (h : s.Inv) {c : Call} (hf : s.Fits c.bytes) (hs : step s (.call c) = some s') :
    s'.accepted = s.accepted ++ [c] := by
  simp only [step, call, Option.some.injEq] at hs
  rw [perform_eq h.buffer h.capacity, send_fits hf] at hs
  subst hs
  rfl

theorem inv_sendCompletion (h : s.Inv) {n : Nat} (hn : n < sizeMod) : (s.sendCompletion n).Inv := by
  unfold sendCompletion
  split
  · exact ⟨h.buffer, h.capacity, h.short, h.committed⟩
  · exact ⟨CircularBuffer.inv_remove h.buffer hn, (CircularBuffer.mCapacity_remove h.buffer hn).trans h.capacity, h.short,
      h.committed⟩

theorem inv_step {a : Action} (h : s.Inv) (hs : step s a = some s') : s'.Inv := by
  cases a with
  | call c => exact inv_call h hs
  | transmit =>
    obtain ⟨sent, c, later, e, -, -, rfl⟩ := step_transmit hs
    refine ⟨h.buffer, h.capacity, fun x hx => ?_, h.committed⟩
    have hc := h.short
    rw [e] at hc
    simp only [List.mem_append, List.mem_cons] at hx hc
    rcases hx with hx | rfl | hx
    · exact hc x (.inl hx)
    · exact hc c (.inr (.inl rfl))
    · exact hc x (.inr (.inr hx))
  | complete i =>
    obtain ⟨before, c, later, e, -, rfl⟩ := step_complete hs
    have hc := h.short
    rw [e] at hc
    have h' : Inv { s with inFlight := before ++ later } := by
      refine ⟨h.buffer, h.capacity, fun x hx => hc x ?_, h.committed⟩
      simp only [List.mem_append, List.mem_cons] at hx ⊢
      exact hx.imp_right .inr
    exact inv_sendCompletion h' (hc c (by simp))

end Sender

end GameServer
