import GameServer.ClientSessions.Step
/-!
# The phases of a client

A client is connected by the main thread alone, then served by any number of
threads, and disconnected and deleted by one. Nothing in the code keeps the phases
apart: `phase_exec` and `phase_dequeue` have what has to be known of a line and of a
completion for the client to stay in one of them.
-/

namespace GameServer.ClientSessions

open Lib

variable {s s₁ : State} {x : Nat} {c c' : ClientSession} {line : Line} {next : Option Line} {answer leaving : Bool}
  {context : OverlappedIOContext} {lines rest handlers : Multiset Line} {posted : Multiset OverlappedIOContext}

/-! ## Lines -/

/-- In `ReceiveCompletion`. -/
def Line.serves : Line → Bool
  | .isConnected (.echoSend _) | .isConnected .echoRecv | .startIo (.echoSend _) | .startIo .echoRecv => true
  | _ => false

/-- `WSASend` or `WSARecv` of `ReceiveCompletion`. -/
def Line.echoes : Line → Bool
  | .startIo (.echoSend _) | .startIo .echoRecv => true
  | _ => false

/-- The client is in the hands of a thread that disconnects and deletes it. -/
def Line.closing : Line → Bool
  | .disconnectEnterLock | .disconnectIsConnected | .decreaseConnectionCount | .closesocket | .clearConnected
  | .disconnectLeaveLock | .deleteEnterLock | .erase | .deleteLeaveLock | .deleteClient => true
  | _ => false

/-- Reads or writes the session. -/
def Line.uses : Line → Bool
  | .createEnterLock | .insert | .createLeaveLock | .increaseConnectionCount | .decreaseConnectionCount
  | .deleteEnterLock | .deleteLeaveLock => false
  | _ => true

/-- In `OnConnect` or `Disconnect`, with mLock of the session. -/
def Line.locked : Line → Bool
  | .setRcvBuf | .createIoCompletionPort | .setConnected | .increaseConnectionCount | .isConnected .onConnectRecv
  | .startIo .onConnectRecv | .onConnectLeaveLock _ | .disconnectIsConnected | .decreaseConnectionCount | .closesocket
  | .clearConnected | .disconnectLeaveLock => true
  | _ => false

/-- The thread that does it is to post a receive or to close the socket. -/
def Line.pending : Line → Bool
  | .onConnectLeaveLock true | .clearConnected | .disconnectLeaveLock | .deleteEnterLock | .erase | .deleteLeaveLock
  | .deleteClient => false
  | _ => true

/-! ## Phases -/

/-- A session that is not deleted. -/
structure ClientSession.Is (c : ClientSession) (connected locked : Bool) (closes : Nat) : Prop where
  connected : c.mConnected = connected
  locked : c.mLock = locked
  closes : c.closes = closes
  alive : c.deletes = 0

/-- What the main thread finds on its way to the first receive. -/
def Line.Connects (c : ClientSession) : Line → Prop
  | .createEnterLock | .insert | .createLeaveLock | .onConnectEnterLock => c.Is false false 0
  | .setRcvBuf | .createIoCompletionPort => c.Is false true 0
  | .setConnected => c.Is false true 0 ∧ c.associated = true
  | .increaseConnectionCount | .isConnected .onConnectRecv | .startIo .onConnectRecv | .onConnectLeaveLock false =>
    c.Is true true 0 ∧ c.associated = true
  | _ => False

/-- What the thread that disconnects finds. It waits while the main thread is `leaving`
`OnConnect`. -/
def Line.Closes (c : ClientSession) (leaving : Bool) : Line → Prop
  | .disconnectEnterLock => c.Is true leaving 0
  | .disconnectIsConnected | .decreaseConnectionCount | .closesocket => leaving = false ∧ c.Is true true 0
  | .clearConnected => leaving = false ∧ c.Is true true 1
  | .disconnectLeaveLock => leaving = false ∧ c.Is false true 1
  | .deleteEnterLock | .erase | .deleteLeaveLock | .deleteClient => leaving = false ∧ c.Is false false 1
  | _ => False

def leave (leaving : Bool) : Multiset Line := if leaving then {.onConnectLeaveLock true} else 0

inductive Phase (c : ClientSession) (lines : Multiset Line) (posted : Multiset OverlappedIOContext) : Prop
  | connecting (line : Line) (hl : lines = {line}) (hp : posted = 0) (hc : line.Connects c)
  | serving (leaving : Bool) (handlers : Multiset Line) (hl : lines = leave leaving + handlers)
      (hh : ∀ line ∈ handlers, line.serves = true) (hc : c.Is true leaving 0) (ha : c.associated = true)
      (hr : handlers ≠ 0 ∨ ∃ context ∈ posted, context.mIoType = .recv)
  | closing (leaving : Bool) (line : Line) (hl : lines = line ::ₘ leave leaving) (hc : line.Closes c leaving)
  | deleted (hl : lines = 0) (hd : c.deletes = 1) (hc : c.closes = 1) (hk : c.mLock = false)

/-- The record, the lines and the contexts of the client after a line. -/
def Goes (s : State) (x : Nat) (c : ClientSession) (rest : Multiset Line) (posted : Multiset OverlappedIOContext)
    (s₁ : State) (next : Option Line) : Prop :=
  ∃ (c' : ClientSession) (new : Option OverlappedIOContext),
    s₁.sessions = s.sessions.set x c' ∧ s₁.threads = s.threads ∧
    s₁.posted = s.posted ++ new.toList.map (x, ·) ∧ c'.mSocket = c.mSocket ∧ c.closes ≤ c'.closes ∧
    Phase c' ((next.toList : Multiset Line) + rest) ((new.toList : Multiset OverlappedIOContext) + posted)

section
variable (hx : s.sessions[x]? = some c)
include hx

/-- The line leaves the client alone. -/
theorem goes_same (hs : s₁.sessions = s.sessions) (ht : s₁.threads = s.threads) (hp : s₁.posted = s.posted)
    (h : Phase c ((next.toList : Multiset Line) + rest) posted) : Goes s x c rest posted s₁ next := by
  refine ⟨c, none, ?_, ht, ?_, rfl, Nat.le_refl _, ?_⟩
  · rw [hs, set_of_getElem? hx]
  · rw [hp]
    exact (List.append_nil _).symm
  · exact (zero_add posted).symm ▸ h

omit hx in
theorem goes_update (hc : c'.mSocket = c.mSocket) (hle : c.closes ≤ c'.closes)
    (h : Phase c' ((next.toList : Multiset Line) + rest) posted) : Goes s x c rest posted (s.update x c') next := by
  refine ⟨c', none, rfl, rfl, (List.append_nil _).symm, hc, hle, ?_⟩
  exact (zero_add posted).symm ▸ h

/-- A receive or a send that is started is of this client. -/
theorem goes_startIo (hkey : s.completionKey c.mSocket = some x) (hs : s.startIo c context = some s₁)
    (h : Phase c ((next.toList : Multiset Line) + rest) (context ::ₘ posted)) : Goes s x c rest posted s₁ next := by
  unfold State.startIo at hs
  split at hs
  · rw [hkey] at hs
    cases hs
    exact ⟨c, some context, (set_of_getElem? hx).symm, rfl, rfl, rfl, Nat.le_refl _, h⟩
  · cases hs

/-! ## One line -/

theorem phase_connecting (hl : line.Connects c) (hkey : c.associated = true → c.closes = 0 → s.completionKey c.mSocket = some x)
    (hok : line = .setRcvBuf ∨ line = .createIoCompletionPort → answer = true)
    (hs : s.exec x c answer line = some (s₁, next)) : Goes s x c 0 0 s₁ next := by
  cases line with
  | createEnterLock =>
    simp only [State.exec] at hs
    split at hs <;> cases hs
    exact goes_same hx rfl rfl rfl (.connecting _ rfl rfl hl)
  | insert | createLeaveLock =>
    cases hs
    exact goes_same hx rfl rfl rfl (.connecting _ rfl rfl hl)
  | onConnectEnterLock =>
    simp only [State.exec] at hs
    split at hs <;> cases hs
    exact goes_update rfl (Nat.le_refl _) (.connecting _ rfl rfl ⟨hl.connected, rfl, hl.closes, hl.alive⟩)
  | setRcvBuf =>
    cases hok (.inl rfl)
    cases hs
    exact goes_same hx rfl rfl rfl (.connecting _ rfl rfl hl)
  | createIoCompletionPort =>
    cases hok (.inr rfl)
    cases hs
    exact goes_update rfl (Nat.le_refl _) (.connecting _ rfl rfl ⟨⟨hl.connected, hl.locked, hl.closes, hl.alive⟩, rfl⟩)
  | setConnected =>
    obtain ⟨hc, ha⟩ := hl
    cases hs
    exact goes_update rfl (Nat.le_refl _) (.connecting _ rfl rfl ⟨⟨rfl, hc.locked, hc.closes, hc.alive⟩, ha⟩)
  | increaseConnectionCount =>
    cases hs
    exact goes_same hx rfl rfl rfl (.connecting _ rfl rfl hl)
  | onConnectLeaveLock ret =>
    cases ret with
    | true => exact hl.elim
    | false =>
      obtain ⟨hc, ha⟩ := hl
      cases hs
      exact goes_update rfl (Nat.le_refl _) (.closing false _ rfl ⟨hc.connected, rfl, hc.closes, hc.alive⟩)
  | isConnected p =>
    cases p with
    | onConnectRecv =>
      simp only [State.exec, hl.1.connected, if_true, Option.some.injEq, Prod.mk.injEq] at hs
      obtain ⟨rfl, rfl⟩ := hs
      exact goes_same hx rfl rfl rfl (.connecting _ rfl rfl hl)
    | echoSend _ | echoRecv => exact hl.elim
  | startIo p =>
    cases p with
    | onConnectRecv =>
      obtain ⟨hc, ha⟩ := hl
      simp only [State.exec] at hs
      split at hs
      · obtain ⟨s₁', hs', he⟩ := Option.map_eq_some_iff.1 hs
        cases he
        refine goes_startIo hx (hkey ha hc.closes) hs' (.serving true 0 rfl (by simp) hc ha (.inr ?_))
        exact ⟨_, Multiset.mem_cons_self _ _, rfl⟩
      · cases hs
        exact goes_same hx rfl rfl rfl (.connecting _ rfl rfl ⟨hc, ha⟩)
    | echoSend _ | echoRecv => exact hl.elim
  | _ => exact hl.elim

omit hx in
/-- The main thread is done. -/
theorem goes_leave (h : Phase { c with mLock := false } rest posted)
    (hs : s.exec x c answer (.onConnectLeaveLock true) = some (s₁, next)) : Goes s x c rest posted s₁ next := by
  cases hs
  exact goes_update rfl (Nat.le_refl _) ((zero_add rest).symm ▸ h)

theorem phase_serving (hh : ∀ l ∈ line ::ₘ handlers, l.serves = true) (hc : c.Is true leaving 0)
    (ha : c.associated = true) (hkey : s.completionKey c.mSocket = some x)
    (hok : line.echoes = true → answer = true ∨ handlers = 0)
    (hs : s.exec x c answer line = some (s₁, next)) : Goes s x c (leave leaving + handlers) posted s₁ next := by
  have hrest : ∀ line ∈ handlers, line.serves = true := fun l hl => hh l (Multiset.mem_cons_of_mem hl)
  -- the thread stays in its handler
  have hstay (line' : Line) (h' : line'.serves = true) (posted' : Multiset OverlappedIOContext) :
      Phase c (([line'] : Multiset Line) + (leave leaving + handlers)) posted' := by
    refine .serving leaving (line' ::ₘ handlers) ?_ (fun l hl => ?_) hc ha (.inl (Multiset.cons_ne_zero))
    · rw [Multiset.coe_singleton, Multiset.singleton_add, Multiset.add_cons]
    · rcases Multiset.mem_cons.1 hl with rfl | hl
      · exact h'
      · exact hrest l hl
  have hclose (h0 : handlers = 0) :
      Phase c (([Line.disconnectEnterLock] : Multiset Line) + (leave leaving + handlers)) posted := by
    refine .closing leaving .disconnectEnterLock ?_ hc
    rw [h0, add_zero]
    rfl
  have hline := hh line (Multiset.mem_cons_self _ _)
  cases line with
  | isConnected p =>
    simp only [State.exec, hc.connected, if_true, Option.some.injEq, Prod.mk.injEq] at hs
    obtain ⟨rfl, rfl⟩ := hs
    refine goes_same hx rfl rfl rfl (hstay (.startIo p) ?_ posted)
    cases p with
    | onConnectRecv => cases hline
    | echoSend _ | echoRecv => rfl
  | startIo p =>
    simp only [State.exec] at hs
    split at hs
    next hans =>
      obtain ⟨s₁', hs', he⟩ := Option.map_eq_some_iff.1 hs
      cases he
      refine goes_startIo hx hkey hs' ?_
      cases p with
      | onConnectRecv => cases hline
      | echoSend n => exact hstay (.isConnected .echoRecv) rfl _
      | echoRecv => exact .serving leaving handlers (zero_add _) hrest hc ha (.inr ⟨_, Multiset.mem_cons_self _ _, rfl⟩)
    next hans =>
      cases hs
      refine goes_same hx rfl rfl rfl ?_
      cases p with
      | onConnectRecv => cases hline
      | echoSend n | echoRecv => exact hclose ((hok rfl).resolve_left hans)
  | _ => cases hline

theorem phase_closing (hl : line.Closes c leaving) (hs : s.exec x c answer line = some (s₁, next)) :
    Goes s x c (leave leaving) posted s₁ next := by
  cases line with
  | disconnectEnterLock =>
    simp only [State.exec] at hs
    split at hs
    · cases hs
    next hlock =>
      cases hs
      cases leaving with
      | true => exact absurd hl.locked hlock
      | false => exact goes_update rfl (Nat.le_refl _) (.closing false _ rfl ⟨rfl, hl.connected, rfl, hl.closes, hl.alive⟩)
  | disconnectIsConnected =>
    obtain ⟨rfl, hc⟩ := hl
    simp only [State.exec, hc.connected, if_true, Option.some.injEq, Prod.mk.injEq] at hs
    obtain ⟨rfl, rfl⟩ := hs
    exact goes_same hx rfl rfl rfl (.closing false _ rfl ⟨rfl, hc⟩)
  | decreaseConnectionCount =>
    obtain ⟨rfl, hc⟩ := hl
    cases hs
    exact goes_same hx rfl rfl rfl (.closing false _ rfl ⟨rfl, hc⟩)
  | closesocket =>
    obtain ⟨rfl, hc⟩ := hl
    cases hs
    refine goes_update rfl (Nat.le_succ _) (.closing false _ rfl ⟨rfl, hc.connected, hc.locked, ?_, hc.alive⟩)
    rw [hc.closes]
  | clearConnected =>
    obtain ⟨rfl, hc⟩ := hl
    cases hs
    exact goes_update rfl (Nat.le_refl _) (.closing false _ rfl ⟨rfl, rfl, hc.locked, hc.closes, hc.alive⟩)
  | disconnectLeaveLock =>
    obtain ⟨rfl, hc⟩ := hl
    cases hs
    exact goes_update rfl (Nat.le_refl _) (.closing false _ rfl ⟨rfl, hc.connected, rfl, hc.closes, hc.alive⟩)
  | deleteEnterLock =>
    obtain ⟨rfl, hc⟩ := hl
    simp only [State.exec] at hs
    split at hs <;> cases hs
    exact goes_same hx rfl rfl rfl (.closing false _ rfl ⟨rfl, hc⟩)
  | erase | deleteLeaveLock =>
    obtain ⟨rfl, hc⟩ := hl
    cases hs
    exact goes_same hx rfl rfl rfl (.closing false _ rfl ⟨rfl, hc⟩)
  | deleteClient =>
    obtain ⟨rfl, hc⟩ := hl
    cases hs
    refine goes_update rfl (Nat.le_refl _) (.deleted rfl ?_ hc.closes hc.locked)
    rw [hc.alive]
  | _ => exact hl.elim

/-- Two threads on one client, but the one that leaves `OnConnect`, are handlers. -/
theorem phase_exec (h : Phase c (line ::ₘ rest) posted)
    (hkey : c.associated = true → c.closes = 0 → s.completionKey c.mSocket = some x)
    (hconn : line = .setRcvBuf ∨ line = .createIoCompletionPort → answer = true)
    (hok : line.echoes = true → answer = true ∨ ∀ l ∈ rest, l.serves = false)
    (hs : s.exec x c answer line = some (s₁, next)) : Goes s x c rest posted s₁ next := by
  cases h with
  | connecting line' hl hp hc =>
    obtain ⟨rfl, rfl⟩ := (Multiset.singleton_eq_cons_iff _).1 hl.symm
    subst hp
    exact phase_connecting hx hc hkey hconn hs
  | serving leaving handlers hl hh hc ha hr =>
    by_cases hmem : line ∈ handlers
    · obtain ⟨others, rfl⟩ := Multiset.exists_cons_of_mem hmem
      rw [Multiset.add_cons] at hl
      obtain rfl := (Multiset.cons_inj_right line).1 hl
      refine phase_serving hx hh hc ha (hkey ha hc.closes) (fun hp => ?_) hs
      refine (hok hp).imp_right fun hrest => Multiset.eq_zero_of_forall_notMem fun l hl => ?_
      have hfalse := hrest l (Multiset.mem_add.2 (.inr hl))
      rw [hh l (Multiset.mem_cons_of_mem hl)] at hfalse
      cases hfalse
    · have hin : line ∈ leave leaving + handlers := hl ▸ Multiset.mem_cons_self _ _
      have hleave := (Multiset.mem_add.1 hin).resolve_right hmem
      cases leaving with
      | false => exact absurd hleave (Multiset.notMem_zero _)
      | true =>
        obtain rfl := Multiset.mem_singleton.1 hleave
        have hrest : rest = handlers := by
          rw [leave, if_pos rfl, Multiset.singleton_add] at hl
          exact (Multiset.cons_inj_right _).1 hl
        subst hrest
        exact goes_leave (.serving false rest (zero_add _).symm hh ⟨hc.connected, rfl, hc.closes, hc.alive⟩ ha hr) hs
  | closing leaving line' hl hc =>
    rcases Multiset.cons_eq_cons.1 hl with ⟨rfl, rfl⟩ | ⟨hne, cs, hrest, hleave⟩
    · exact phase_closing hx hc hs
    · cases leaving with
      | false => exact absurd hleave (Multiset.zero_ne_cons)
      | true =>
        obtain ⟨rfl, rfl⟩ := (Multiset.singleton_eq_cons_iff _).1 hleave
        rw [hrest]
        refine goes_leave ?_ hs
        cases line' with
        | disconnectEnterLock => exact .closing false _ rfl ⟨hc.connected, rfl, hc.closes, hc.alive⟩
        | disconnectIsConnected | decreaseConnectionCount | closesocket | clearConnected | disconnectLeaveLock
        | deleteEnterLock | erase | deleteLeaveLock | deleteClient => cases hc.1
        | _ => exact hc.elim
  | deleted hl => exact absurd hl (Multiset.cons_ne_zero)

end

/-! ## Completions -/

/-- A send that is complete. -/
def OverlappedIOContext.Full (context : OverlappedIOContext) (ret : Bool) (transferred : Nat) : Prop :=
  ret = true ∧ 0 < transferred ∧ context.mIoType = .send ∧ context.len = transferred

/-- Some bytes have come. -/
def OverlappedIOContext.Data (context : OverlappedIOContext) (ret : Bool) (transferred : Nat) : Prop :=
  ret = true ∧ 0 < transferred ∧ context.mIoType = .recv

theorem ioCompletion_cases (context : OverlappedIOContext) (ret : Bool) (transferred : Nat) :
    (context.Full ret transferred ∧ State.ioCompletion context ret transferred = none) ∨
    (context.Data ret transferred ∧
      State.ioCompletion context ret transferred = some (.isConnected (.echoSend transferred))) ∨
    (¬context.Full ret transferred ∧ ¬context.Data ret transferred ∧
      State.ioCompletion context ret transferred = some .disconnectEnterLock) := by
  unfold State.ioCompletion OverlappedIOContext.Full OverlappedIOContext.Data
  split
  next h =>
    have hnot (hret : ret = true) (hpos : 0 < transferred) : False := by
      rcases h with h | h
      · rw [hret] at h
        cases h
      · omega
    exact .inr (.inr ⟨fun h => hnot h.1 h.2.1, fun h => hnot h.1 h.2.1, rfl⟩)
  next h =>
    obtain ⟨hret, hpos⟩ := not_or.1 h
    have hret := Bool.not_eq_false _ ▸ hret
    have hpos := Nat.pos_of_ne_zero hpos
    cases hio : context.mIoType with
    | send =>
      dsimp only
      split
      next hne => exact .inr (.inr ⟨fun h => hne h.2.2.2, fun h => (by cases h.2.2), rfl⟩)
      next heq => exact .inl ⟨⟨hret, hpos, rfl, Decidable.not_not.1 heq⟩, rfl⟩
    | recv => exact .inr (.inl ⟨⟨hret, hpos, rfl⟩, rfl⟩)

/-- A completion that is not a full send finds the client served. -/
theorem phase_served (h : Phase c lines (context ::ₘ posted)) (hnot : ∀ l ∈ lines, l.closing = false) (hd : c.deletes = 0) :
    ∃ leaving handlers, lines = leave leaving + handlers ∧ (∀ l ∈ handlers, l.serves = true) ∧ c.Is true leaving 0 ∧
      c.associated = true := by
  cases h with
  | connecting line hl hp hc => exact absurd hp (Multiset.cons_ne_zero)
  | serving leaving handlers hl hh hc ha hr => exact ⟨leaving, handlers, hl, hh, hc, ha⟩
  | closing leaving line hl hc =>
    have hfalse := hnot line (hl ▸ Multiset.mem_cons_self _ _)
    cases line with
    | disconnectEnterLock | disconnectIsConnected | decreaseConnectionCount | closesocket | clearConnected
    | disconnectLeaveLock | deleteEnterLock | erase | deleteLeaveLock | deleteClient => cases hfalse
    | _ => exact hc.elim
  | deleted hl hone hc hk =>
    rw [hd] at hone
    cases hone

theorem phase_dequeue {ret : Bool} {transferred : Nat} (h : Phase c lines (context ::ₘ posted))
    (hok : context.Full ret transferred ∨ ((∀ l ∈ lines, l.closing = false) ∧ c.deletes = 0 ∧
      (context.Data ret transferred ∨ ∀ l ∈ lines, l.serves = false))) :
    Phase c (((State.ioCompletion context ret transferred).toList : Multiset Line) + lines) posted := by
  rcases ioCompletion_cases context ret transferred with ⟨hfull, hio⟩ | ⟨hdata, hio⟩ | ⟨hfull, hdata, hio⟩
  · rw [hio]
    refine (zero_add lines).symm ▸ ?_
    cases h with
    | connecting line hl hp hc => exact absurd hp (Multiset.cons_ne_zero)
    | serving leaving handlers hl hh hc ha hr =>
      refine .serving leaving handlers hl hh hc ha (hr.imp_right fun ⟨context', hmem, hrecv⟩ => ?_)
      rcases Multiset.mem_cons.1 hmem with rfl | hmem
      · rw [hfull.2.2.1] at hrecv
        cases hrecv
      · exact ⟨context', hmem, hrecv⟩
    | closing leaving line hl hc => exact .closing leaving line hl hc
    | deleted hl hd hc hk => exact .deleted hl hd hc hk
  · have hnotFull : ¬context.Full ret transferred := by
      intro hfull
      have hio := hfull.2.2.1
      rw [hdata.2.2] at hio
      cases hio
    obtain ⟨hnot, hd, -⟩ := hok.resolve_left hnotFull
    obtain ⟨leaving, handlers, hl, hh, hc, ha⟩ := phase_served h hnot hd
    rw [hio, hl]
    refine .serving leaving (.isConnected (.echoSend transferred) ::ₘ handlers) ?_ (fun l hm => ?_) hc ha
      (.inl (Multiset.cons_ne_zero))
    · exact (Multiset.singleton_add _ _).trans (Multiset.add_cons _ _ _).symm
    · rcases Multiset.mem_cons.1 hm with rfl | hm
      · rfl
      · exact hh l hm
  · obtain ⟨hnot, hd, halone⟩ := hok.resolve_left hfull
    obtain ⟨leaving, handlers, hl, hh, hc, ha⟩ := phase_served h hnot hd
    have h0 : handlers = 0 := by
      refine Multiset.eq_zero_of_forall_notMem fun l hm => ?_
      have hfalse := halone.resolve_left hdata l (hl ▸ Multiset.mem_add.2 (.inr hm))
      rw [hh l hm] at hfalse
      cases hfalse
    rw [hio, hl, h0, add_zero]
    exact .closing leaving .disconnectEnterLock rfl hc

/-! ## What a phase says -/

theorem Line.Connects.fresh (h : line.Connects c) :
    c.closes = 0 ∧ c.deletes = 0 ∧ (c.mLock = true → line.locked = true) ∧ line.pending = true := by
  have hidle (hc : c.Is false false 0) : c.closes = 0 ∧ c.deletes = 0 ∧ (c.mLock = true → line.locked = true) := by
    refine ⟨hc.closes, hc.alive, fun hk => ?_⟩
    rw [hc.locked] at hk
    cases hk
  cases line with
  | createEnterLock | insert | createLeaveLock | onConnectEnterLock =>
    obtain ⟨h0, hd, hk⟩ := hidle h
    exact ⟨h0, hd, hk, rfl⟩
  | setRcvBuf | createIoCompletionPort => exact ⟨h.closes, h.alive, fun _ => rfl, rfl⟩
  | setConnected | increaseConnectionCount => exact ⟨h.1.closes, h.1.alive, fun _ => rfl, rfl⟩
  | onConnectLeaveLock ret =>
    cases ret with
    | true => exact h.elim
    | false => exact ⟨h.1.closes, h.1.alive, fun _ => rfl, rfl⟩
  | isConnected p | startIo p =>
    cases p with
    | onConnectRecv => exact ⟨h.1.closes, h.1.alive, fun _ => rfl, rfl⟩
    | echoSend _ | echoRecv => exact h.elim
  | _ => exact h.elim

theorem Line.Closes.once (h : line.Closes c leaving) :
    c.closes ≤ 1 ∧ c.deletes = 0 ∧ (c.mLock = true → leaving = true ∨ line.locked = true) ∧
      (c.closes = 0 → line.pending = true) := by
  cases line with
  | disconnectEnterLock =>
    refine ⟨Nat.le_trans (Nat.le_of_eq h.closes) (Nat.zero_le 1), h.alive, fun hk => ?_, fun _ => rfl⟩
    rw [h.locked] at hk
    exact .inl hk
  | disconnectIsConnected | decreaseConnectionCount | closesocket =>
    exact ⟨Nat.le_trans (Nat.le_of_eq h.2.closes) (Nat.zero_le 1), h.2.alive, fun _ => .inr rfl, fun _ => rfl⟩
  | clearConnected | disconnectLeaveLock =>
    refine ⟨Nat.le_of_eq h.2.closes, h.2.alive, fun _ => .inr rfl, fun h0 => ?_⟩
    rw [h.2.closes] at h0
    cases h0
  | deleteEnterLock | erase | deleteLeaveLock | deleteClient =>
    refine ⟨Nat.le_of_eq h.2.closes, h.2.alive, fun hk => ?_, fun h0 => ?_⟩
    · rw [h.2.locked] at hk
      cases hk
    · rw [h.2.closes] at h0
      cases h0
  | _ => exact h.elim

end GameServer.ClientSessions
