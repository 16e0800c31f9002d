import GameServer.Session.Lemmas
/-!
# DummyClients framing and the ring

The frames DummyClients dispatches do not depend on how the stream is cut into
chunks, as long as no chunk is committed to region B. One that is leaves the
frame it continues cut in two: `OnReceive` reads the contiguous bytes only.
-/

namespace GameServer

open Lib

namespace Session

variable {s s' : Session} {gs hs : List Frame} {chunk todo : List Byte}

/-- A chunk received in A. -/
theorem dummy_flowing (h : Flowing gs hs (chunk ++ todo) s) (ha : s.OfferInA) (hs' : s.dummyRecv chunk = some s') :
    ∃ ks js, hs = ks ++ js ∧ Flowing (gs ++ ks) js todo s' := by
  have hroom := h.room_pos
  rcases dummyRecv_cases h.ready hs' with ⟨hc, -⟩ | ⟨-, h0, -⟩ | ⟨-, -, hl, rfl⟩
  · rw [h.connected] at hc; cases hc
  · omega
  · obtain ⟨ks, js, e, hf, -⟩ := h.next ha hl
    exact ⟨ks, js, e, hf⟩

/-- A chunk for which B is opened. -/
theorem dummy_split (h : Flowing gs hs (chunk ++ todo) s) (ha : ¬ s.OfferInA) (hs' : s.dummyRecv chunk = some s') :
    Stalled gs hs s' := by
  have hroom := h.room_pos
  rcases dummyRecv_cases h.ready hs' with ⟨hc, -⟩ | ⟨-, h0, -⟩ | ⟨-, -, hl, rfl⟩
  · rw [h.connected] at hc; cases hc
  · omega
  · exact (h.blocked ha).next h.dispatched hl

/-- Every later chunk. -/
theorem dummy_stalled (h : Stalled gs hs s) (hs' : s.dummyRecv chunk = some s') : Stalled gs hs s' := by
  by_cases hconn : s.sender.mConnected = false
  · simp only [dummyRecv, if_pos hconn, Option.some.injEq] at hs'
    exact hs' ▸ h
  · have hb := h.stuck.resolve_left hconn
    rcases dummyRecv_cases hb.toReady hs' with ⟨hc, -⟩ | ⟨-, -, rfl⟩ | ⟨-, -, hl, rfl⟩
    · exact absurd hc hconn
    · exact ⟨h.rest, h.dispatched, .inl rfl⟩
    · rw [← hb.offering] at hb
      exact hb.next h.dispatched hl

/-- A run from a flowing session: the stream flows on, or stalls for good. -/
theorem run_dummy {chunks : List (List Byte)} {t : Session} (h : Flowing gs hs (chunks.flatten ++ todo) s)
    (hr : run dummyRecv s chunks = some t) :
    (Meets dummyRecv (fun s _ => s.OfferInA) s chunks ∧ ∃ ks js, hs = ks ++ js ∧ Flowing (gs ++ ks) js todo t) ∨
    (¬ Meets dummyRecv (fun s _ => s.OfferInA) s chunks ∧ ∃ ks js, hs = ks ++ js ∧ Stalled (gs ++ ks) js t) := by
  have hrun := run_or_lost (P := fun s _ => s.OfferInA)
    (I := fun cs s => ∃ ks js, hs = ks ++ js ∧ Flowing (gs ++ ks) js (cs.flatten ++ todo) s)
    (J := fun s => ∃ ks js, hs = ks ++ js ∧ Stalled (gs ++ ks) js s) ?_ ?_ ?_ ⟨[], hs, rfl, by simpa using h⟩ hr
  · simpa using hrun
  · rintro s c cs s' ⟨ks, js, rfl, hf⟩ ha hs'
    rw [List.flatten_cons, List.append_assoc] at hf
    obtain ⟨ls, ms, rfl, hf'⟩ := dummy_flowing hf ha hs'
    exact ⟨ks ++ ls, ms, by rw [List.append_assoc], by rw [← List.append_assoc]; exact hf'⟩
  · rintro s c cs s' ⟨ks, js, rfl, hf⟩ ha hs'
    rw [List.flatten_cons, List.append_assoc] at hf
    exact ⟨ks, js, rfl, dummy_split hf ha hs'⟩
  · rintro s c s' ⟨ks, js, e, hf⟩ hs'
    exact ⟨ks, js, e, dummy_stalled hf hs'⟩

/-- The frames `fs` have been dispatched as one `OnReceive` over all their bytes
would, and after each `OnReceive` no whole frame was left at the front. -/
structure Framed (fs : List Frame) (chunks : List (List Byte)) (t : Session) : Prop where
  once : ∀ b : CircularBuffer, b.Inv → b.mCapacity < 2 ^ 31 → b.contiguous = frameCode.stream fs →
    t.dispatched = (onReceive b).dispatched
  frames : t.dispatched = fs.map .ofFrame
  front : ∀ n u, run dummyRecv start (chunks.take n) = some u → frameCode.NoFrame u.mRecvBuffer.contents

/-- One `OnReceive` over the bytes of some frames dispatches them. -/
theorem onReceive_stream {b : CircularBuffer} (h : b.Inv) (hc : b.mCapacity < 2 ^ 31) {fs : List Frame}
    (hx : b.contiguous = frameCode.stream fs) : (onReceive b).dispatched = fs.map .ofFrame := by
  rw [CircularBuffer.contiguous_eq h, ← List.append_nil (frameCode.stream fs)] at hx
  obtain ⟨b', e, -⟩ := onReceive_begins h hc hx (frameCode.begins_nil [])
  rw [e]

theorem Stalled.not_all (h : Stalled gs hs s) : s.dispatched ≠ (gs ++ hs).map .ofFrame := by
  intro e
  have hlen := congrArg List.length e
  have hpos := List.length_pos_iff.2 h.rest
  rw [h.dispatched, List.length_map, List.length_map, List.length_append] at hlen
  omega

/-- DummyClients dispatches the peer's frames, whatever the chunks, if and only
if it never has to open region B for one. -/
theorem framed_iff (fs : List Frame) (chunks : List (List Byte)) (t : Session)
    (hb : chunks.flatten = frameCode.stream fs) (hr : run dummyRecv start chunks = some t) :
    Framed fs chunks t ↔ Meets dummyRecv (fun s _ => s.OfferInA) start chunks := by
  have hstart := flowing_start fs
  rw [← hb, ← List.append_nil chunks.flatten] at hstart
  have hrun := run_dummy hstart hr
  constructor
  · intro h
    rcases hrun with ⟨hm, -⟩ | ⟨-, ks, js, rfl, hst⟩
    · exact hm
    · exact absurd h.frames hst.not_all
  · intro hm
    obtain ⟨-, ks, js, rfl, hf⟩ := hrun.resolve_right fun hn => hn.1 hm
    have hend := hf.stream
    rw [List.append_nil] at hend
    obtain ⟨rfl, -⟩ := hf.begun.eq_nil hend
    have hd := hf.dispatched
    rw [List.nil_append, ← List.append_nil ks] at hd
    refine ⟨fun b hbi hbc hbx => ?_, hd, fun n u hu => ?_⟩
    · rw [onReceive_stream hbi hbc hbx, hd]
    · have hsplit := List.take_append_drop n chunks
      rw [← hsplit] at hm hr
      obtain ⟨u', hu', -⟩ := run_append.1 hr
      have hmu := (meets_append hm hu').1
      rw [← hsplit, List.flatten_append, List.append_assoc] at hstart
      obtain ⟨-, ls, ms, -, hfu⟩ := (run_dummy hstart hu).resolve_right fun hn => hn.1 hmu
      exact hfu.begun.noFrame

/-- A frame of type 1 whose payload is `n` zero bytes. -/
def zeros (n : Nat) (h : n < 2 ^ 15) : Frame where
  mType := 1
  payload := List.replicate n 0
  valid := by decide
  short := by simpa using h

theorem framed_iff_cut : ∃ t, run dummyRecv start [[2, 0, 1], [0, 0], [0]] = some t ∧
    (Framed [zeros 2 (by decide)] [[2, 0, 1], [0, 0], [0]] t ↔
      Meets dummyRecv (fun s _ => s.OfferInA) start [[2, 0, 1], [0, 0], [0]]) :=
  ⟨_, rfl, framed_iff [zeros 2 (by decide)] [[2, 0, 1], [0, 0], [0]] _ (by decide) rfl⟩

theorem length_zeros (n : Nat) (h : n < 2 ^ 15) : (zeros n h).encode.length = headerSize + n := by
  rw [Frame.length_encode, zeros, List.length_replicate]

/-- After a first chunk of one frame and the beginning of another, region A
starts behind the frame. -/
theorem layout_after_one {f : Frame} {fs : List Frame} {p : List Byte} (hp : frameCode.Begins fs p) (hne : p ≠ [])
    (hl : (f.encode ++ p).length ≤ clientBufSize) :
    ∃ b, onReceive (start.incoming (f.encode ++ p)) = ⟨b, [.ofFrame f], false⟩ ∧
      b.mARegionPointer = f.encode.length ∧ b.mARegionSize = p.length := by
  have hroom : start.offering.room = clientBufSize := by decide
  have hin := ready_incoming ready_start (hl.trans hroom.ge)
  have hcont := contents_incoming ready_start (hl.trans hroom.ge)
  rw [show start.mRecvBuffer.contents = [] from CircularBuffer.contents_new _, List.nil_append] at hcont
  have hclosed : (start.incoming (f.encode ++ p)).mBRegionPointer = none := by
    rw [incoming, CircularBuffer.mBRegionPointer_store]
    decide
  have hptr : (start.incoming (f.encode ++ p)).mARegionPointer = 0 := by
    rw [incoming, CircularBuffer.commit]
    split <;> exact (show start.offering.mARegionPointer = 0 by decide)
  rw [CircularBuffer.contents_of_closed hclosed] at hcont
  have hsize := congrArg List.length hcont
  rw [CircularBuffer.length_regionA hin.inv, List.length_append] at hsize
  have hpos := List.length_pos_iff.2 hne
  refine ⟨_, onReceive_one hin.inv hin.intSized hcont hp, ?_, ?_⟩
  · rw [CircularBuffer.remove_inside hin.inv (by omega), hptr, Nat.zero_add]
  · rw [CircularBuffer.remove_inside hin.inv (by omega), hsize, Nat.add_sub_cancel_left]

/-- A frame long enough to leave less space behind it than before it, with the
beginning `p` of another: the rest `q` of that one opens B. -/
theorem stalls_after_one {f g : Frame} {p q : List Byte} (hg : g.encode = p ++ q) (hp : p ≠ []) (hq : q ≠ [])
    (hl : (f.encode ++ p).length ≤ clientBufSize) (hsplit : clientBufSize < 2 * f.encode.length + p.length)
    (hql : q.length ≤ f.encode.length) : ∃ t, run dummyRecv start [f.encode ++ p, q] = some t ∧ Stalled [f] [g] t := by
  have hbeg : frameCode.Begins [g] p := ⟨⟨q, hg.symm⟩, fun e => hq (List.append_right_eq_self.1 (e.trans hg).symm)⟩
  have hroom : start.offering.room = clientBufSize := by decide
  have hflow := flowing_start [f, g]
  rw [show frameCode.stream [f, g] = (f.encode ++ p) ++ q by
    rw [PrefixCode.stream_cons, PrefixCode.stream_cons, PrefixCode.stream_nil, List.append_nil, List.append_assoc, ← hg]
    rfl] at hflow
  obtain ⟨b, eb, hptr, hsize⟩ := layout_after_one hbeg hp hl
  have h₁ : dummyRecv start (f.encode ++ p) = some (start.handled (f.encode ++ p) ⟨b, [.ofFrame f], false⟩) := by
    rw [← eb]
    exact dummyRecv_some ready_start rfl (List.append_ne_nil_of_right_ne_nil f.encode hp) (hl.trans hroom.ge)
  obtain ⟨ks, js, e, hf, -⟩ := hflow.next offerInA_start (hl.trans hroom.ge)
  rw [eb] at hf
  -- the first frame has been dispatched, the second has begun
  have hd : [Dispatch.ofFrame f] = ks.map .ofFrame := by
    rw [← List.nil_append ks, ← hf.dispatched]
    rfl
  obtain ⟨k, rfl⟩ := List.length_eq_one_iff.1 (by simpa using (congrArg List.length hd).symm : ks.length = 1)
  obtain ⟨rfl, rfl⟩ : f = k ∧ [g] = js := by simpa using e
  generalize hs : start.handled (f.encode ++ p) ⟨b, [.ofFrame f], false⟩ = s at hf h₁
  have hbuf : s.mRecvBuffer = b := by rw [← hs]; rfl
  have hsplitB : ¬ s.OfferInA := by
    have hc := hf.ready.capacity
    rw [OfferInA, CircularBuffer.getAFreeSpace_eq hf.ready.inv, CircularBuffer.getSpaceBeforeA, hc, hbuf, hptr, hsize]
    rw [List.length_append] at hl
    omega
  have hqroom : q.length ≤ s.offering.room := by
    have ho : s.offering = s.mRecvBuffer.allocateB := by
      rw [offering, CircularBuffer.getFreeSpaceSize_split hf.closed (Nat.not_le.1 hsplitB)]
    have hz := hf.ready.inv.closed hf.closed
    rw [hbuf] at ho hz
    rw [ho]
    simp only [CircularBuffer.room, CircularBuffer.allocateB, Option.isSome_some, if_true, hz, hptr]
    exact hql
  refine ⟨_, run_cons.2 ⟨s, h₁, run_cons.2 ⟨_, dummyRecv_some hf.ready hf.connected hq hqroom, rfl⟩⟩, ?_⟩
  exact (hf.blocked hsplitB).next hf.dispatched hqroom

/-- The longest frame with the first two bytes of another, then the rest of it. -/
def splitAcross : List (List Byte) :=
  [(zeros 32767 (by decide)).encode ++ (zeros 6 (by decide)).encode.take 2, (zeros 6 (by decide)).encode.drop 2]

theorem not_framed_splitAcross : ¬ ∀ fs chunks t, chunks.flatten = frameCode.stream fs →
    run dummyRecv start chunks = some t → Framed fs chunks t := by
  intro h
  have hlong := length_zeros 32767 (by decide)
  have hshort := length_zeros 6 (by decide)
  have h4 : headerSize = 4 := rfl
  have hc : clientBufSize = 65536 := rfl
  have htake : ((zeros 6 (by decide)).encode.take 2).length = 2 := by decide
  have hdrop : ((zeros 6 (by decide)).encode.drop 2).length = 8 := by decide
  obtain ⟨t, hr, hst⟩ := stalls_after_one (f := zeros 32767 (by decide)) (List.take_append_drop 2 (zeros 6 (by decide)).encode).symm
    (by decide) (by decide) (by rw [List.length_append, hlong, htake]; decide) (by omega) (by omega)
  have hf := h [zeros 32767 (by decide), zeros 6 (by decide)] splitAcross t (by
    simp [splitAcross, frameCode]) hr
  exact hst.not_all hf.frames

end Session

end GameServer
