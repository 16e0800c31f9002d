import GameServer.Handlers.Exchange
/-!
# No byte is dropped or read twice

Every received byte is still in the buffer or was taken out by exactly one
handler call or echo, as long as no frame with a negative size was dispatched:
that one removes another number of bytes than the stream consumed.
-/

namespace GameServer

open Lib

/-- A dispatched frame has the payload its header announces, and the buffer
gave up the bytes the stream consumed. -/
structure Dispatch.InStep (d : Dispatch) : Prop where
  size : 0 ≤ d.mSize.toInt
  payload : (d.payload.length : Int) = d.mSize.toInt
  consumed : (d.consumed : Int) = headerSize + d.mSize.toInt
  removed : d.removed = d.consumed

theorem inStep_ofFrame (f : Frame) : (Dispatch.ofFrame f).InStep := by
  have hs := f.mSize_toInt
  refine ⟨?_, ?_, ?_, rfl⟩ <;> simp only [Dispatch.ofFrame, hs] <;> omega

theorem bytes_ofFrame (fs : List Frame) : (fs.map Dispatch.ofFrame).flatMap Dispatch.bytes = frameCode.stream fs := by
  rw [List.flatMap_map]
  rfl

/-- `OnReceive` keeps the stream and the buffer in step: the buffer ends up
holding what follows the frames dispatched. -/
structure InStep (b : CircularBuffer) : Prop where
  frames : ∀ d ∈ (onReceive b).dispatched, d.InStep
  contents : b.contents = (onReceive b).dispatched.flatMap Dispatch.bytes ++ (onReceive b).mRecvBuffer.contents

theorem inStep_of_noNegative {b : CircularBuffer} (h : b.Inv) (hc : b.mCapacity < 2 ^ 31)
    (hn : ¬ NegativeHeader b.contiguous) : InStep b := by
  obtain ⟨fs, rest, hA, hd, hsh⟩ := onReceive_whole h hc hn
  refine ⟨fun d hd' => ?_, ?_⟩
  · rw [hd] at hd'
    obtain ⟨f, -, rfl⟩ := List.mem_map.1 hd'
    exact inStep_ofFrame f
  · have hpre : frameCode.stream fs <+: b.contents := by
      rw [CircularBuffer.contents, hA, List.append_assoc]
      exact List.prefix_append _ _
    rw [hd, bytes_ofFrame, hsh.contents]
    exact (List.prefix_iff_eq_append.1 hpre).symm

theorem inStep_iff {b : CircularBuffer} (h : b.Inv) (hc : b.mCapacity < 2 ^ 31) :
    InStep b ↔ ¬ NegativeHeader b.contiguous := by
  refine ⟨fun hs hn => ?_, inStep_of_noNegative h hc⟩
  obtain ⟨d, hd, hneg⟩ := mem_onReceive_negative h hc hn
  exact absurd (hs.frames d hd).size (Int.not_le.2 hneg)

namespace Session

variable {s s' : Session} {chunk : List Byte}

/-- Every byte received is in the buffer or was taken once, in order. -/
structure Conserved (s : Session) : Prop where
  ready : Ready s.mRecvBuffer
  bytes : (∀ d ∈ s.dispatched, 0 ≤ d.mSize.toInt) →
    s.received = s.taken.flatMap Taken.bytes ++ s.mRecvBuffer.contents

theorem conserved_start : Conserved start := ⟨ready_start, fun _ => by
  rw [show start.mRecvBuffer.contents = [] from CircularBuffer.contents_new _]
  rfl⟩

theorem conserved_handled (h : Conserved s) (hl : chunk.length ≤ s.offering.room) :
    Conserved (s.handled chunk (onReceive (s.incoming chunk))) := by
  have hin := ready_incoming h.ready hl
  refine ⟨ready_onReceive hin, fun hd => ?_⟩
  rw [dispatched_handled] at hd
  have hneg : ¬ NegativeHeader (s.incoming chunk).contiguous := fun hn => by
    obtain ⟨d, hd', hlt⟩ := mem_onReceive_negative hin.inv hin.intSized hn
    exact absurd (hd d (List.mem_append_right _ hd')) (Int.not_le.2 hlt)
  have hstep := (inStep_of_noNegative hin.inv hin.intSized hneg).contents
  have hbytes := h.bytes fun d hd' => hd d (List.mem_append_left _ hd')
  rw [contents_incoming h.ready hl] at hstep
  simp only [handled, hbytes, List.append_assoc, hstep, List.flatMap_append, List.flatMap_map]
  rfl

theorem conserved_echoBack (h : Conserved s) : Conserved s.echoBack := by
  have hA := CircularBuffer.length_regionA h.ready.inv
  have hi := h.ready.inv.inside
  have hc := h.ready.inv.cap
  rcases echoBack_cases h.ready with ⟨-, e⟩ | ⟨-, -, t, -, e⟩ | ⟨-, -, t, -, e⟩ <;> rw [e]
  · exact h
  · exact ⟨h.ready, h.bytes⟩
  · have hsh := CircularBuffer.shrunk_remove h.ready.inv (show s.mRecvBuffer.mARegionSize < sizeMod by omega)
    refine ⟨h.ready.shrunk hsh, fun hd => ?_⟩
    have hd' : ∀ d ∈ s.dispatched, 0 ≤ d.mSize.toInt := by simpa [dispatched, Taken.frame] using hd
    simp only [hsh.contents, h.bytes hd', List.flatMap_append, List.flatMap_cons, List.flatMap_nil, List.append_nil,
      List.append_assoc, Taken.bytes]
    rw [CircularBuffer.contents, ← hA, List.drop_left]

theorem Conserved.withSender (h : Conserved s) (sender : Sender) : Conserved { s with sender } := ⟨h.ready, h.bytes⟩

theorem conserved_step {e : ServerEvent} (h : Conserved s) (hs : s.serverStep e = some s') : Conserved s' := by
  cases e with
  | send a =>
    obtain ⟨sender, -, rfl⟩ := Option.map_eq_some_iff.1 hs
    exact h.withSender sender
  | recv sessionCount chunk =>
    rcases recvWith_cases h.ready (serverStep_recv.1 hs) with ⟨-, rfl⟩ | ⟨-, -, rfl⟩ | ⟨-, -, hl, rs, sender, -, -, rfl⟩
    · exact h
    · refine ⟨ready_offering h.ready, fun hd => ?_⟩
      rw [show (disconnectRequest { s with mRecvBuffer := s.offering }).mRecvBuffer.contents = s.mRecvBuffer.contents from
        CircularBuffer.contents_getFreeSpaceSize h.ready.inv]
      exact h.bytes hd
    · exact conserved_echoBack ((conserved_handled h hl).withSender sender)

/-! ## Runs of Homework7 -/

/-- A receive buffer as a session keeps it. -/
def RecvBuffer : Type := { b : CircularBuffer // Ready b }

/-- The `OnReceive` of the next receive finds no negative size after its whole
frames. -/
def NoNegative (s : Session) : ServerEvent → Prop
  | .recv _ chunk => s.sender.mConnected = true → ¬ NegativeHeader (s.incoming chunk).contiguous
  | .send _ => True

theorem nonneg_step {e : ServerEvent} (h : Conserved s) (hd : ∀ d ∈ s.dispatched, 0 ≤ d.mSize.toInt)
    (hn : s.NoNegative e) (hs : s.serverStep e = some s') : ∀ d ∈ s'.dispatched, 0 ≤ d.mSize.toInt := by
  cases e with
  | send a =>
    obtain ⟨sender, -, rfl⟩ := Option.map_eq_some_iff.1 hs
    exact hd
  | recv sessionCount chunk =>
    rcases recvWith_cases h.ready (serverStep_recv.1 hs) with ⟨-, rfl⟩ | ⟨-, -, rfl⟩ | ⟨hc, -, hl, rs, sender, -, -, rfl⟩
    · exact hd
    · exact hd
    · have hin := ready_incoming h.ready hl
      have hd' : ∀ d ∈ (s.handled chunk (onReceive (s.incoming chunk))).dispatched, 0 ≤ d.mSize.toInt := by
        intro d hm
        rw [dispatched_handled] at hm
        rcases List.mem_append.1 hm with hm | hm
        · exact hd d hm
        · exact ((inStep_of_noNegative hin.inv hin.intSized (hn hc)).frames d hm).size
      rcases echoBack_cases ((conserved_handled h hl).withSender sender).ready with
        ⟨-, e⟩ | ⟨-, -, t, -, e⟩ | ⟨-, -, t, -, e⟩ <;> rw [e]
      · exact hd'
      · exact hd'
      · simpa [dispatched, Taken.frame] using hd'

/-- `OnReceive` keeps its stream and the buffer in step if and only if no header
with a negative size follows the whole frames it finds; and in a run of the server
where none does, each received byte is in the buffer or was taken out once. -/
theorem stream_in_step (b : RecvBuffer) (events : List ServerEvent) (s : Session)
    (hr : run serverStep start events = some s) :
    (InStep b.1 ↔ ¬ NegativeHeader b.1.contiguous) ∧
    (Meets serverStep NoNegative start events → s.received = s.taken.flatMap Taken.bytes ++ s.mRecvBuffer.contents) := by
  refine ⟨inStep_iff b.2.inv b.2.intSized, fun hm => ?_⟩
  have h := inv_of_meets (I := fun s => Conserved s ∧ ∀ d ∈ s.dispatched, 0 ≤ d.mSize.toInt)
    (fun s e s' h hn hs => ⟨conserved_step h.1 hs, nonneg_step h.1 h.2 hn hs⟩)
    ⟨conserved_start, by simp [start, dispatched]⟩ hm hr
  exact h.1.bytes h.2

/-- The buffer after a first receive. -/
def firstReceive (chunk : List Byte) (h : chunk.length ≤ 65536) : RecvBuffer :=
  ⟨start.incoming chunk, ready_incoming ready_start (h.trans (by decide))⟩

/-- Fewer bytes than a header hold no header. -/
theorem not_negativeHeader_short {xs : List Byte} (h : xs.length < headerSize) : ¬ NegativeHeader xs := by
  rintro ⟨fs, header, rest, rfl, -⟩
  simp only [List.length_append, length_headerBytes] at h
  omega

theorem stream_in_step_short : ∃ s, run serverStep start [.recv 0 [2, 0, 1]] = some s ∧
    (InStep (firstReceive [2, 0, 1] (by decide)).1 ↔ ¬ NegativeHeader (firstReceive [2, 0, 1] (by decide)).1.contiguous) ∧
    s.received = s.taken.flatMap Taken.bytes ++ s.mRecvBuffer.contents := by
  refine ⟨_, rfl, ?_⟩
  obtain ⟨hstep, hbytes⟩ := stream_in_step (firstReceive [2, 0, 1] (by decide)) [.recv 0 [2, 0, 1]] _ rfl
  exact ⟨hstep, hbytes ⟨fun _ => not_negativeHeader_short (by decide), fun _ _ => trivial⟩⟩

/-- A header with size -4 and a type without a handler: it is dispatched and nothing
is removed. -/
theorem not_inStep_minusFour : ¬ ∀ b : RecvBuffer, InStep b.1 := by
  intro h
  have hmem : (⟨-4, 3, [], 4, 0⟩ : Dispatch) ∈ (onReceive (start.incoming [252, 255, 3, 0])).dispatched := by decide
  exact absurd ((h (firstReceive [252, 255, 3, 0] (by decide))).frames _ hmem).size (by decide)

end Session

end GameServer
