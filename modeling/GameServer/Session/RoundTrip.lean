import GameServer.Session.Chunking
/-!
# Encoding and decoding of packets

What `SendRequest` of Homework7 commits, `OnReceive` of DummyClients reads back,
for payloads whose length fits the `short` of the header. The acceptance test
bounds the length by the buffer only, which is twice as much.
-/

namespace GameServer

open Lib

namespace Session

variable {s s' : Session}

/-- Packets with short payloads are frames. -/
theorem exists_frames {packets : List (Int16 × Payload)} (hv : ∀ p ∈ packets, ValidType p.1)
    (hs : ∀ p ∈ packets, p.2.bytes.length < 2 ^ 15) :
    ∃ fs : List Frame, frameCode.stream fs = packets.flatMap (fun p => packetBytes p.1 p.2.bytes) ∧
      fs.map (fun f => (f.mType, f.payload)) = packets.map fun p => (p.1, p.2.bytes) := by
  induction packets with
  | nil => exact ⟨[], rfl, rfl⟩
  | cons p ps ih =>
    simp only [List.forall_mem_cons] at hv hs
    obtain ⟨fs, hst, hm⟩ := ih hv.2 hs.2
    refine ⟨⟨p.1, p.2.bytes, hv.1, hs.1⟩ :: fs, ?_, by rw [List.map_cons, List.map_cons, hm]⟩
    rw [PrefixCode.stream_cons, hst, List.flatMap_cons]
    rfl

/-- No handler is given a payload longer than a `short` can say. -/
theorem dummy_payload {chunks : List (List Byte)} {t : Session} (hr : run dummyRecv start chunks = some t) :
    ∀ d ∈ t.dispatched, d.payload.length < 2 ^ 15 := by
  refine (inv_of_run (I := fun s => Ready s.mRecvBuffer ∧ ∀ d ∈ s.dispatched, d.payload.length < 2 ^ 15) ?_
    ⟨ready_start, by simp [start, dispatched]⟩ hr).2
  rintro s chunk s' ⟨hready, hd⟩ hs
  rcases dummyRecv_cases hready hs with ⟨-, rfl⟩ | ⟨-, -, rfl⟩ | ⟨-, -, hl, rfl⟩
  · exact ⟨hready, hd⟩
  · exact ⟨ready_offering hready, hd⟩
  · refine ⟨ready_onReceive (ready_incoming hready hl), fun d hm => ?_⟩
    rw [dispatched_handled] at hm
    rcases List.mem_append.1 hm with hm | hm
    · exact hd d hm
    · exact (loop_removes (fun _ => True) (fun _ _ _ _ => trivial) trivial).2 d hm

/-- The peer reads back the packets sent, and nothing is left over, if and only
if every payload is shorter than 2^15 bytes. -/
theorem round_trip_iff (packets : List (Int16 × Payload)) (actions : List Sender.Action) (s : Sender)
    (chunks : List (List Byte)) (t : Session) (hs : run Sender.step (.start clientBufSize) actions = some s)
    (hp : s.accepted = packets.map fun p => .sendRequest p.1 p.2) (hv : ∀ p ∈ packets, ValidType p.1)
    (hc : chunks.flatten = s.committed) (ht : run dummyRecv start chunks = some t)
    (ha : Meets dummyRecv (fun s _ => s.OfferInA) start chunks) :
    (t.dispatched.map (fun d => (d.mType, d.payload)) = packets.map (fun p => (p.1, p.2.bytes)) ∧
      t.mRecvBuffer.contents = []) ↔ ∀ p ∈ packets, p.2.bytes.length < 2 ^ 15 := by
  constructor
  · rintro ⟨hd, -⟩ p hmem
    have hm : (p.1, p.2.bytes) ∈ t.dispatched.map fun d => (d.mType, d.payload) := by
      rw [hd]
      exact List.mem_map_of_mem hmem
    obtain ⟨d, hdm, e⟩ := List.mem_map.1 hm
    have hlt := dummy_payload ht d hdm
    rwa [(Prod.mk.inj e).2] at hlt
  · intro hshort
    obtain ⟨fs, hst, hm⟩ := exists_frames hv hshort
    have hcom := (inv_of_run (fun _ _ _ => Sender.inv_step) Sender.inv_start hs).committed
    have hstart := flowing_start fs
    rw [hst, show packets.flatMap (fun p => packetBytes p.1 p.2.bytes) = chunks.flatten by
      rw [hc, hcom, hp, List.flatMap_map]; rfl, ← List.append_nil chunks.flatten] at hstart
    obtain ⟨-, ks, js, rfl, hf⟩ := (run_dummy hstart ht).resolve_right fun hn => hn.1 ha
    obtain ⟨rfl, he⟩ := hf.begun.eq_nil (by simpa using hf.stream)
    refine ⟨?_, he⟩
    rw [hf.dispatched, List.map_map, ← hm, List.append_nil]
    rfl

/-- A payload of `n` zero bytes. -/
def zeroPayload (n : Nat) (h : n < 2 ^ 31) : Payload := ⟨List.replicate n 0, by simpa using h⟩

/-- Two requests, and their bytes in two chunks. -/
def twoRequests : List Sender.Action :=
  [.call (.sendRequest 1 (zeroPayload 2 (by decide))), .call (.sendRequest 5 (zeroPayload 0 (by decide)))]

def twoChunks : List (List Byte) := [[2, 0, 1, 0, 0], [0, 0, 0, 5, 0]]

theorem round_trip_iff_two : ∃ s t, run Sender.step (.start clientBufSize) twoRequests = some s ∧
    run dummyRecv start twoChunks = some t ∧
    ((t.dispatched.map (fun d => (d.mType, d.payload)) = [(1, [0, 0]), (5, [])] ∧ t.mRecvBuffer.contents = []) ↔
      ∀ p ∈ [((1 : Int16), zeroPayload 2 (by decide)), (5, zeroPayload 0 (by decide))], p.2.bytes.length < 2 ^ 15) := by
  refine ⟨_, _, rfl, rfl, ?_⟩
  exact round_trip_iff [(1, zeroPayload 2 (by decide)), (5, zeroPayload 0 (by decide))] twoRequests _ twoChunks _
    rfl rfl (by decide) (by decide) rfl
    ⟨offerInA_start, fun s h => ⟨by cases h; unfold OfferInA; decide, fun _ _ => trivial⟩⟩

/-- A request with a payload of 2^15 bytes is accepted and does not come back. -/
theorem not_round_trip_long : ¬ ∀ (packets : List (Int16 × Payload)) actions s chunks t,
    run Sender.step (.start clientBufSize) actions = some s →
    s.accepted = packets.map (fun p => .sendRequest p.1 p.2) → (∀ p ∈ packets, ValidType p.1) →
    chunks.flatten = s.committed → run dummyRecv start chunks = some t →
    Meets dummyRecv (fun s _ => s.OfferInA) start chunks →
    t.dispatched.map (fun d => (d.mType, d.payload)) = packets.map (fun p => (p.1, p.2.bytes)) ∧
      t.mRecvBuffer.contents = [] := by
  intro h
  have hlen : (Call.sendRequest 1 (zeroPayload 32768 (by decide))).bytes.length = 32772 := by
    rw [Call.bytes, length_packetBytes, zeroPayload, List.length_replicate]
    rfl
  generalize hcall : Call.sendRequest 1 (zeroPayload 32768 (by decide)) = c at hlen
  have hroom : (Sender.start clientBufSize).mSendBuffer.getFreeSpaceSize.1 = 65536 := by decide
  have hstep : Sender.step (.start clientBufSize) (.call c) = some _ := rfl
  have hacc := Sender.accepted_of_fits Sender.inv_start ⟨rfl, by omega⟩ hstep
  rw [show (Sender.start clientBufSize).accepted = [] from rfl, List.nil_append] at hacc
  have hcom := (Sender.inv_step Sender.inv_start hstep).committed
  rw [hacc, List.flatMap_cons, List.flatMap_nil, List.append_nil] at hcom
  have hrecv : dummyRecv start c.bytes = some (start.handled c.bytes (onReceive (start.incoming c.bytes))) :=
    dummyRecv_some ready_start rfl (List.length_pos_iff.1 (by omega)) (by rw [hlen]; decide)
  have hrun : run dummyRecv start [c.bytes] = _ := run_cons.2 ⟨_, hrecv, rfl⟩
  obtain ⟨hd, -⟩ := h [(1, zeroPayload 32768 (by decide))] [.call c] _ [c.bytes] _
    (run_cons.2 ⟨_, hstep, rfl⟩) (by rw [hacc, ← hcall]; rfl) (by simp only [List.forall_mem_singleton]; decide)
    (by rw [hcom, List.flatten_cons, List.flatten_nil, List.append_nil]) hrun ⟨offerInA_start, fun _ _ => trivial⟩
  have hm : ((1 : Int16), List.replicate 32768 (0 : Byte)) ∈
      (start.handled c.bytes (onReceive (start.incoming c.bytes))).dispatched.map fun d => (d.mType, d.payload) := by
    rw [hd]
    exact List.mem_singleton.2 rfl
  obtain ⟨d, hdm, e⟩ := List.mem_map.1 hm
  have hlt := dummy_payload hrun d hdm
  rw [(Prod.mk.inj e).2, List.length_replicate] at hlt
  exact absurd hlt (by decide)

end Session

end GameServer
