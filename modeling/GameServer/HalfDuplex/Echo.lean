import GameServer.CircularBuffer.Lemmas
import GameServer.HalfDuplex
import GameServer.Lib.Baton
import GameServer.Lib.Run
/-!
# Half-duplex and faithful

At most one party is live: a context that is outstanding, or a handler that has
not started its next one yet. `Safe` says what a handler relies on, from the steps
it has left: the buffer is empty until a receive has been committed, and a send
covers all of it. So every posted receive is offered the whole buffer, and what has
been received is what has been sent and what the buffer holds (`half_duplex`).
-/

namespace GameServer.HalfDuplex

open Lib

variable {b : CircularBuffer} {s s' : Session} {context : OverlappedIOContext} {c : Call} {i : Instr}
  {todo next rest : List Instr} {answer : Bool}

/-! ## The buffer -/

/-- The buffer in every state. -/
structure Plain (b : CircularBuffer) : Prop where
  inv : b.Inv
  capacity : b.mCapacity = BUFSIZE
  closed : b.mBRegionPointer = none

theorem plain_new : Plain (.new BUFSIZE) := ⟨CircularBuffer.inv_new (by decide), rfl, rfl⟩

theorem Plain.bufferReset (h : Plain b) : b.bufferReset = .new BUFSIZE := by
  rw [CircularBuffer.bufferReset, CircularBuffer.new, h.capacity]

theorem Plain.stored (h : Plain b) : b.contents.length = b.mARegionSize := by
  rw [CircularBuffer.contents_of_closed h.closed, CircularBuffer.length_regionA h.inv]

theorem Plain.stored_le (h : Plain b) : b.mARegionSize ≤ BUFSIZE := by
  have hi := h.inv.inside
  rw [h.capacity] at hi
  omega

/-- An empty buffer starts over. -/
theorem Plain.getBuffer_empty (h : Plain b) (he : b.contents = []) : b.getBuffer = 0 := by
  have hz := (CircularBuffer.contents_nil h.inv).1 he
  simp [CircularBuffer.getBuffer, h.closed, hz, h.inv.empty hz]

/-- It is offered whole, and region B stays closed. -/
theorem Plain.getFreeSpaceSize_empty (h : Plain b) (he : b.contents = []) : b.getFreeSpaceSize = (BUFSIZE, b) := by
  have hz := (CircularBuffer.contents_nil h.inv).1 he
  have hsize := CircularBuffer.getFreeSpaceSize_empty h.inv hz
  rw [h.capacity] at hsize
  rcases CircularBuffer.getFreeSpaceSize_cases h.inv with ⟨e, -⟩ | ⟨-, -, hlt⟩
  · rw [e] at hsize
    rw [e, ← hsize]
  · rw [CircularBuffer.getSpaceBeforeA, h.inv.empty hz] at hlt
    exact absurd hlt (Nat.not_lt_zero _)

theorem Plain.room_empty (h : Plain b) (he : b.contents = []) : b.room = BUFSIZE := by
  have hroom := CircularBuffer.getFreeSpaceSize_room h.inv
  rw [h.getFreeSpaceSize_empty he] at hroom
  exact hroom.symm

theorem Plain.write (h : Plain b) {bs : List Byte} (hl : bs.length ≤ b.room) : Plain (b.write bs) :=
  ⟨CircularBuffer.inv_write h.inv hl, h.capacity, h.closed⟩

theorem Plain.commit (h : Plain b) {n : Nat} (hn : n ≤ b.room) : Plain (b.commit n) where
  inv := CircularBuffer.inv_commit h.inv hn
  capacity := (CircularBuffer.mCapacity_commit b n).trans h.capacity
  closed := by simp [CircularBuffer.commit, h.closed]

theorem Plain.remove (h : Plain b) {n : Nat} (hn : n < sizeMod) : Plain (b.remove n) where
  inv := CircularBuffer.inv_remove h.inv hn
  capacity := (CircularBuffer.mCapacity_remove h.inv hn).trans h.capacity
  closed := CircularBuffer.remove_closed h.inv hn h.closed

/-! ## What a context and a handler rely on -/

def Instr.live : Instr → Bool
  | .enterLock | .leaveLock | .disconnectRequest | .deleteContext => false
  | _ => true

/-- A receive has the whole buffer, which is empty, a send all that is in it. -/
def OverlappedIOContext.Covers (context : OverlappedIOContext) (b : CircularBuffer) : Prop :=
  match context.mIoType with
  | .recv => b.contents = [] ∧ context.buf = some 0 ∧ context.len = b.mCapacity
  | .send => ∃ p, context.buf = some p ∧ context.len = b.getStoredSize ∧ slice b.mBuffer p context.len = b.contents
  | .recvZero | .accept => b.contents = []

/-- What a call finds in the buffer. -/
def Call.Finds (b : CircularBuffer) : Call → Prop
  | .postSend => True
  | _ => b.contents = []

/-- The steps go well from this buffer, if nobody else touches it. -/
def Safe : CircularBuffer → List Instr → Prop
  | _, [] => True
  | b, i :: rest =>
    match i with
    | .acceptCompletion | .socketSetup | .freeSpaceTest => b.contents = [] ∧ rest.any Instr.live = false
    | .isConnected c => c.Finds b ∧ rest.any Instr.live = false
    | .contiguousTest => rest.any Instr.live = false
    | .newContext c => c.Finds b ∧ (c = .postSend → b.contents ≠ []) ∧ rest.any Instr.live = false
    | .startIo _ context => context.Covers b ∧ rest.any Instr.live = false
    | .recvCompletion chunk =>
      b.contents = [] ∧ chunk.length ≤ b.room ∧ slice b.mBuffer b.getBuffer chunk.length = chunk ∧
        Safe (b.commit chunk.length) rest
    | .sendCompletion bytes => b.contents.take bytes.length = bytes ∧ Safe (b.remove bytes.length) rest
    | .enterLock | .leaveLock | .disconnectRequest | .deleteContext => Safe b rest

theorem safe_quiet (h : todo.any Instr.live = false) : Safe b todo := by
  induction todo with
  | nil => trivial
  | cons i rest ih =>
    rw [List.any_cons, Bool.or_eq_false_iff] at h
    cases i with
    | enterLock | leaveLock | disconnectRequest | deleteContext => exact ih h.2
    | _ => cases h.1

theorem safe_append_quiet (hn : next.any Instr.live = false) (h : Safe b rest) : Safe b (next ++ rest) := by
  induction next with
  | nil => exact h
  | cons i next ih =>
    rw [List.any_cons, Bool.or_eq_false_iff] at hn
    cases i with
    | enterLock | leaveLock | disconnectRequest | deleteContext => exact ih hn.2
    | _ => cases hn.1

theorem Safe.tail (h : Safe b (i :: rest)) (hi : i.live = false) : Safe b rest := by
  cases i with
  | enterLock | leaveLock | disconnectRequest | deleteContext => exact h
  | _ => cases hi

/-! ## One step of a handler -/

namespace Session

/-- The context of a call covers what it should. -/
theorem newContext_covers (hb : Plain s.mBuffer) (hf : c.Finds s.mBuffer) (hne : c = .postSend → s.mBuffer.contents ≠ []) :
    (s.newContext c).1 = s ∧ (s.newContext c).2.Covers s.mBuffer := by
  cases c with
  | acceptPreRecv | preRecv => exact ⟨rfl, hf⟩
  | postRecv =>
    have hsize : BUFSIZE % 2 ^ 32 = BUFSIZE := by decide
    simp only [newContext, hb.getFreeSpaceSize_empty hf, hb.getBuffer_empty hf, hsize]
    exact ⟨trivial, hf, rfl, hb.capacity.symm⟩
  | postSend =>
    have hpos : 0 < s.mBuffer.mARegionSize := by
      rw [← hb.stored]
      exact List.length_pos_iff.2 (hne rfl)
    have hle := hb.stored_le
    have hsize : s.mBuffer.getContiguiousBytes % 2 ^ 32 = s.mBuffer.mARegionSize := by
      rw [CircularBuffer.getContiguiousBytes_eq hb.inv]
      exact Nat.mod_eq_of_lt (Nat.lt_of_le_of_lt hle (by decide))
    refine ⟨rfl, s.mBuffer.mARegionPointer, ?_, ?_, ?_⟩
    · simp [newContext, CircularBuffer.getBufferStart, hpos]
    · simp only [newContext, hsize, CircularBuffer.getStoredSize_eq hb.inv, hb.stored]
    · simp only [newContext, hsize, CircularBuffer.contents_of_closed hb.closed, CircularBuffer.regionA]

theorem exec_quiet (hi : i.live = false) (he : s.exec answer i = some (s', next)) :
    next = [] ∧ ∃ connected locked, s' = { s with mConnected := connected, mBufferLock := locked } := by
  cases i with
  | enterLock =>
    simp only [exec] at he
    split at he <;> cases he
    exact ⟨rfl, _, _, rfl⟩
  | leaveLock | disconnectRequest | deleteContext =>
    cases he
    exact ⟨rfl, _, _, rfl⟩
  | _ => cases hi

/-- The buffer holds what was received and not sent yet. -/
structure Faithful (s : Session) : Prop where
  plain : Plain s.mBuffer
  bytes : s.received = s.sent ++ s.mBuffer.contents

/-- The handler stays live, or has started a context. -/
inductive Turn (s s' : Session) (todo : List Instr) : Prop where
  | stay (hposted : s'.posted = s.posted) (hsafe : Safe s'.mBuffer todo)
  | start (context : OverlappedIOContext) (hposted : s'.posted = s.posted ++ [context])
      (hcovers : context.Covers s'.mBuffer) (hquiet : todo.any Instr.live = false)

theorem exec_live (hs : s.Faithful) (hsafe : Safe s.mBuffer (i :: rest)) (hi : i.live = true)
    (he : s.exec answer i = some (s', next)) : s'.Faithful ∧ s'.handlers = s.handlers ∧ Turn s s' (next ++ rest) := by
  cases i with
  | acceptCompletion =>
    simp only [exec] at he
    split at he <;> cases he
    exact ⟨⟨hs.plain, hs.bytes⟩, rfl, .stay rfl hsafe⟩
  | socketSetup =>
    cases he
    refine ⟨hs, rfl, .stay rfl ?_⟩
    split
    · exact hsafe
    · exact safe_append_quiet rfl (safe_quiet hsafe.2)
  | isConnected c =>
    cases he
    refine ⟨hs, rfl, .stay rfl ?_⟩
    split
    · cases c with
      | acceptPreRecv | preRecv => exact ⟨hsafe.1, fun h => (nomatch h), hsafe.2⟩
      | postRecv => exact hsafe
      | postSend => exact hsafe.2
    · have hquiet : c.onFalse.any Instr.live = false := by cases c <;> rfl
      exact safe_append_quiet hquiet (safe_quiet hsafe.2)
  | freeSpaceTest =>
    obtain ⟨hempty, hquiet⟩ := hsafe
    simp only [exec, hs.plain.getFreeSpaceSize_empty hempty, Option.some.injEq, Prod.mk.injEq] at he
    obtain ⟨rfl, rfl⟩ := he
    exact ⟨hs, rfl, .stay rfl ⟨hempty, fun h => (nomatch h), hquiet⟩⟩
  | contiguousTest =>
    cases he
    refine ⟨hs, rfl, .stay rfl ?_⟩
    split
    case isTrue => exact safe_quiet hsafe
    case isFalse h0 =>
      refine ⟨trivial, fun _ hempty => h0 ?_, hsafe⟩
      rw [CircularBuffer.getContiguiousBytes_eq hs.plain.inv]
      exact (CircularBuffer.contents_nil hs.plain.inv).1 hempty
  | newContext c =>
    obtain ⟨hfinds, hne, hquiet⟩ := hsafe
    obtain ⟨hsame, hcovers⟩ := newContext_covers hs.plain hfinds hne
    simp only [exec, hsame, Option.some.injEq, Prod.mk.injEq] at he
    obtain ⟨rfl, rfl⟩ := he
    exact ⟨hs, rfl, .stay rfl ⟨hcovers, hquiet⟩⟩
  | startIo c context =>
    have hleave : c.leave.any Instr.live = false := by cases c <;> rfl
    simp only [exec] at he
    split at he <;> cases he
    · refine ⟨⟨hs.plain, hs.bytes⟩, rfl, .start context rfl hsafe.1 ?_⟩
      rw [List.any_append, hleave, hsafe.2]
      rfl
    · refine ⟨hs, rfl, .stay rfl (safe_append_quiet ?_ (safe_quiet hsafe.2))⟩
      cases c <;> rfl
  | recvCompletion chunk =>
    obtain ⟨hempty, hle, hchunk, hrest⟩ := hsafe
    cases he
    refine ⟨⟨hs.plain.commit hle, ?_⟩, rfl, .stay rfl hrest⟩
    simp only [CircularBuffer.contents_commit hs.plain.inv hle, hchunk, hs.bytes, List.append_assoc]
  | sendCompletion bytes =>
    obtain ⟨hbytes, hrest⟩ := hsafe
    cases he
    have hle : bytes.length ≤ BUFSIZE := by
      rw [← hbytes, List.length_take, hs.plain.stored]
      exact Nat.le_trans (Nat.min_le_right _ _) hs.plain.stored_le
    have hlt : bytes.length < sizeMod := Nat.lt_of_le_of_lt hle (by decide)
    refine ⟨⟨hs.plain.remove hlt, ?_⟩, rfl, .stay rfl hrest⟩
    have hsplit := List.take_append_drop bytes.length s.mBuffer.contents
    rw [hbytes] at hsplit
    simp only [CircularBuffer.contents_remove hs.plain.inv hlt, hs.bytes, List.append_assoc, hsplit]
  | _ => cases hi

/-! ## The parties -/

end Session

/-- Who shares the buffer: the socket, by a context that is outstanding, and the handlers. -/
inductive Party where
  | socket (context : OverlappedIOContext)
  | handler (todo : List Instr)

def Party.live : Party → Bool
  | .socket _ => true
  | .handler todo => todo.any Instr.live

def Party.Ok (b : CircularBuffer) : Party → Prop
  | .socket context => context.Covers b
  | .handler todo => Safe b todo

theorem Party.ok_quiet (b : CircularBuffer) (p : Party) (h : p.live = false) : p.Ok b := by
  cases p with
  | socket context => cases h
  | handler todo => exact safe_quiet h

namespace Session

def others (posted : List OverlappedIOContext) (handlers : List (List Instr)) : Multiset Party :=
  (posted.map .socket : List Party) + (handlers.map .handler : List Party)

def parties (s : Session) : Multiset Party := others s.posted s.handlers

section
variable {posted : List OverlappedIOContext} {handlers : List (List Instr)} {t : Nat} {todo' : List Instr}

theorem others_handler (h : handlers[t]? = some todo) :
    others posted handlers = .handler todo ::ₘ others posted (handlers.eraseIdx t) := by
  rw [others, coe_map_erase _ h, Multiset.add_cons, others]

theorem others_set (h : handlers[t]? = some todo) :
    others posted (handlers.set t todo') = .handler todo' ::ₘ others posted (handlers.eraseIdx t) := by
  rw [others, coe_map_set _ h, Multiset.add_cons, others]

theorem others_socket (h : posted[t]? = some context) :
    others posted handlers = .socket context ::ₘ others (posted.eraseIdx t) handlers := by
  rw [others, coe_map_erase _ h, Multiset.cons_add, others]

theorem others_posted : others (posted ++ [context]) handlers = .socket context ::ₘ others posted handlers := by
  rw [others, coe_map_concat, Multiset.cons_add, others]

theorem others_handle : others posted (handlers ++ [todo]) = .handler todo ::ₘ others posted handlers := by
  rw [others, coe_map_concat, Multiset.add_cons, others]

end

/-- The state in a run: one live party at most, and each goes well. -/
structure Running (s : Session) : Prop where
  faithful : s.Faithful
  baton : Baton Party.live Party.Ok s.mBuffer s.parties

theorem running_runHandler {t : Nat} (h : s.Running) (hs : s.runHandler t answer = some s') : s'.Running := by
  rw [runHandler] at hs
  split at hs
  case h_2 => cases hs
  case h_1 i rest ht =>
    obtain ⟨⟨s₁, next⟩, he, rfl⟩ := Option.map_eq_some_iff.1 hs
    have hb := h.baton
    rw [parties, others_handler ht] at hb
    have hsafe : Safe s.mBuffer (i :: rest) := hb.head
    cases hi : i.live with
    | false =>
      obtain ⟨rfl, connected, locked, rfl⟩ := exec_quiet hi he
      refine ⟨⟨h.faithful.plain, h.faithful.bytes⟩, ?_⟩
      rw [parties, others_set ht]
      exact hb.keep (by simp [Party.live, hi]) (hsafe.tail hi)
    | true =>
      obtain ⟨hf, hhandlers, hturn⟩ := exec_live h.faithful hsafe hi he
      have hlive : (Party.handler (i :: rest)).live = true := by simp [Party.live, hi]
      refine ⟨⟨hf.plain, hf.bytes⟩, ?_⟩
      cases hturn with
      | stay hposted hsafe' =>
        rw [parties, hposted, hhandlers, others_set ht]
        exact hb.act Party.ok_quiet hlive hsafe'
      | start context hposted hcovers hquiet =>
        rw [parties, hposted, hhandlers, others_posted, others_set ht]
        exact hb.pass Party.ok_quiet hlive hquiet hcovers

/-! ## Completions -/

/-- A handler takes over from the context. -/
theorem running_handle (h : s.Faithful) (hb : Baton Party.live Party.Ok b (.socket context ::ₘ s.parties))
    (hsafe : Safe s.mBuffer (todo ++ [.deleteContext])) : (s.handle todo).Running := by
  refine ⟨⟨h.plain, h.bytes⟩, ?_⟩
  rw [handle, parties, others_handle]
  exact hb.act Party.ok_quiet rfl hsafe

theorem running_ioCompletion {c : Completion} (h : s.Faithful)
    (hb : Baton Party.live Party.Ok s.mBuffer (.socket context ::ₘ s.parties))
    (hs : s.ioCompletion context c = some s') : s'.Running := by
  have hcovers : context.Covers s.mBuffer := hb.head
  rw [OverlappedIOContext.Covers] at hcovers
  cases c with
  | timedOut =>
    cases hs
    exact ⟨h, hb.drop⟩
  | noBytes =>
    rw [ioCompletion] at hs
    cases ht : context.mIoType with
    | send | recv =>
      rw [ht] at hs
      cases hs
      exact running_handle h hb trivial
    | recvZero | accept =>
      rw [ht] at hs hcovers
      cases hs
      exact running_handle h hb ⟨hcovers, rfl⟩
  | received chunk =>
    rw [ioCompletion] at hs
    split at hs
    case isFalse => cases hs
    case isTrue hc =>
      obtain ⟨ht, -, hle⟩ := hc
      cases hs
      rw [ht] at hcovers
      obtain ⟨hempty, hbuf, hlen⟩ := hcovers
      have hroom : chunk.length ≤ s.mBuffer.room := by
        rw [h.plain.room_empty hempty, ← h.plain.capacity, ← hlen]
        exact hle
      have harrive : s.arrive context chunk = { s with mBuffer := s.mBuffer.write chunk } := by
        rw [arrive, hbuf, CircularBuffer.write, h.plain.getBuffer_empty hempty]
        rfl
      have hcont := CircularBuffer.contents_write h.plain.inv hroom
      rw [harrive]
      refine running_handle ⟨h.plain.write hroom, ?_⟩ hb ⟨?_, hroom, ?_, trivial, rfl⟩
      · exact h.bytes.trans (by rw [hcont])
      · exact hcont.trans hempty
      · rw [CircularBuffer.slice_write h.plain.inv (Nat.le_refl _), List.take_length]
  | sent transferred =>
    rw [ioCompletion] at hs
    split at hs
    case isFalse => cases hs
    case isTrue hc =>
      obtain ⟨ht, -, hle⟩ := hc
      cases hs
      rw [ht] at hcovers
      obtain ⟨p, hbuf, hlen, hslice⟩ := hcovers
      have hbytes : s.firstBytes context transferred = s.mBuffer.contents.take transferred := by
        rw [firstBytes, hbuf, Option.getD_some, ← hslice, take_slice _ _ _ _ hle]
      rw [CircularBuffer.getStoredSize_eq h.plain.inv] at hlen
      have hcount : (s.firstBytes context transferred).length = transferred := by
        rw [hbytes, List.length_take]
        omega
      have hlt : transferred < sizeMod := by
        have hstored := h.plain.stored_le
        rw [← h.plain.stored, ← hlen] at hstored
        exact Nat.lt_of_le_of_lt (hle.trans hstored) (by decide)
      refine running_handle h hb ⟨?_, ?_⟩
      · rw [hcount, hbytes]
      · rw [hcount]
        split
        · trivial
        · refine ⟨?_, rfl⟩
          have hall : s.mBuffer.contents.length ≤ transferred := by omega
          exact (CircularBuffer.contents_remove h.plain.inv hlt).trans (List.drop_eq_nil_of_le hall)

/-! ## Runs -/

theorem running_start : start.Running where
  faithful := ⟨plain_new, rfl⟩
  baton := by
    rw [show start.parties = others ([] ++ [⟨.accept, 0, none⟩]) [] from rfl, others_posted]
    exact Baton.enter (fun q hq => absurd hq (Multiset.notMem_zero q)) (CircularBuffer.contents_new BUFSIZE)

theorem running_reissue (h : s.Running) (hs : s.reissue = some s') : s'.Running := by
  rw [reissue] at hs
  split at hs
  case isFalse => cases hs
  case isTrue hidle =>
    obtain ⟨hposted, htodo⟩ := hidle
    cases hs
    have hbuf : s.mBuffer.bufferReset = .new BUFSIZE := h.faithful.plain.bufferReset
    refine ⟨⟨by simpa [postAccept, sessionReset, hbuf] using plain_new, ?_⟩, ?_⟩
    · simp [postAccept, sessionReset]
    · simp only [parties, postAccept, sessionReset, hposted, others_posted]
      refine Baton.enter (fun q hq => ?_) (CircularBuffer.contents_bufferReset _)
      simp only [others, List.map_nil, Multiset.coe_nil, Multiset.zero_add, Multiset.mem_coe, List.mem_map] at hq
      obtain ⟨todo, hmem, rfl⟩ := hq
      have hnil : todo = [] := List.isEmpty_iff.1 (htodo todo hmem)
      rw [hnil]
      exact ⟨rfl, trivial⟩

theorem running_step {a : Action} (h : s.Running) (hs : s.step a = some s') : s'.Running := by
  cases a with
  | run t answer => exact running_runHandler h hs
  | dequeue i c =>
    obtain ⟨context, hi, hs⟩ := Option.bind_eq_some_iff.1 hs
    have hb := h.baton
    rw [parties, others_socket hi] at hb
    have hf : Faithful { s with posted := s.posted.eraseIdx i } := ⟨h.faithful.plain, h.faithful.bytes⟩
    exact running_ioCompletion hf hb hs
  | disconnectRequest =>
    cases hs
    exact ⟨⟨h.faithful.plain, h.faithful.bytes⟩, h.baton⟩
  | reissue => exact running_reissue h hs

/-- One context of the session is outstanding at most. A receive is offered all of an
empty buffer, whose region B is never open, and a send all the bytes stored. No byte
is lost. -/
structure Echoes (s : Session) : Prop where
  one : s.posted.length ≤ 1
  recv : ∀ context ∈ s.posted, context.mIoType = .recv →
    s.mBuffer.contents = [] ∧ context.buf = some 0 ∧ context.len = s.mBuffer.mCapacity
  send : ∀ context ∈ s.posted, context.mIoType = .send →
    ∃ p, context.buf = some p ∧ context.len = s.mBuffer.getStoredSize ∧
      slice s.mBuffer.mBuffer p context.len = s.mBuffer.contents
  closed : s.mBuffer.mBRegionPointer = none
  bytes : s.received = s.sent ++ s.mBuffer.contents

theorem posted_length (s : Session) : s.posted.length ≤ s.parties.countP (Party.live ·) := by
  have hall : (s.posted.map Party.socket).countP (Party.live ·) = s.posted.length := by
    rw [List.countP_map]
    exact List.countP_eq_length.2 fun _ _ => rfl
  simp only [parties, others, Multiset.countP_add, Multiset.coe_countP, Bool.decide_eq_true, hall]
  exact Nat.le_add_right _ _

theorem Running.echoes (h : s.Running) : s.Echoes := by
  have hcovers : ∀ context ∈ s.posted, context.Covers s.mBuffer := by
    intro context hmem
    exact h.baton.ok (.socket context) (Multiset.mem_add.2 (.inl (List.mem_map_of_mem hmem)))
  constructor
  · exact s.posted_length.trans h.baton.one
  · intro context hmem ht
    have hc := hcovers context hmem
    rwa [OverlappedIOContext.Covers, ht] at hc
  · intro context hmem ht
    have hc := hcovers context hmem
    rwa [OverlappedIOContext.Covers, ht] at hc
  · exact h.faithful.plain.closed
  · exact h.faithful.bytes

/-- The echo server is half-duplex and faithful over every interleaving, on one
connection after the other. -/
theorem half_duplex {as : List Action} (hr : run step start as = some s) : s.Echoes :=
  (inv_of_run (I := Running) (fun _ _ _ => running_step) running_start hr).echoes

/-- Two bytes come in and go out again. -/
def echoed : List Action :=
  .dequeue 0 .noBytes :: List.replicate 6 (.run 0 true) ++ .dequeue 0 .noBytes :: List.replicate 7 (.run 1 true) ++
    .dequeue 0 (.received [7, 8]) :: List.replicate 10 (.run 2 true) ++
    .dequeue 0 (.sent 2) :: List.replicate 7 (.run 3 true)

theorem half_duplex_echoed : ∃ s, run step start echoed = some s ∧ s.sent = [7, 8] ∧ s.Echoes := by
  have hmap : (run step start echoed).map (fun s => s.sent) = some [7, 8] := by decide +kernel
  obtain ⟨s, hr, hsent⟩ := Option.map_eq_some_iff.1 hmap
  exact ⟨s, hr, hsent, half_duplex hr⟩

end Session

end GameServer.HalfDuplex
