import GameServer.ClientSessions.Phases
/-!
# The life of a client

In a run whose steps are `Spared`, every client is in one of its phases, so its
socket is closed once and nobody touches it when it is deleted
(`lifeCycle_of_spared`).
-/

namespace GameServer.ClientSessions

open Lib

variable {s s' : State} {x t i : Nat} {c : ClientSession}

/-- What is expected of a client in any state: its socket is closed at most once, and
exactly once before it is deleted; nobody uses it after that; mLock is held only
inside of `OnConnect` and `Disconnect`; and until the socket is closed, some thread has
it, or a receive will bring it back to one. -/
structure LifeCycle (s : State) (x : Nat) (c : ClientSession) : Prop where
  closedOnce : c.closes ≤ 1
  deletedOnce : c.deletes ≤ 1
  closed : 0 < c.deletes → c.closes = 1
  unused : 0 < c.deletes → ∀ line, some ⟨x, line⟩ ∈ s.threads → line.uses = false
  unlocked : c.mLock = true → ∃ line, some ⟨x, line⟩ ∈ s.threads ∧ line.locked = true
  pending : c.closes = 0 → (∃ line, some ⟨x, line⟩ ∈ s.threads ∧ line.pending = true) ∨
    ∃ context, (x, context) ∈ s.posted ∧ context.mIoType = .recv

/-! ## The condition -/

/-- A thread has begun to disconnect the client, or has deleted it. -/
def State.Over (s : State) (x : Nat) : Prop :=
  (∃ o ∈ s.threads, ∃ f ∈ o, f.client = x ∧ f.line.closing = true) ∨ ∃ c ∈ s.sessions[x]?, 0 < c.deletes

/-- No thread but `t` is in `ReceiveCompletion` with the client. -/
def State.Alone (s : State) (t x : Nat) : Prop :=
  ∀ o ∈ s.threads.eraseIdx t, ∀ f ∈ o, f.client = x → f.line.serves = false

/-- `OnConnect` can set the buffer's size and reach the port. A thread begins to
disconnect a client when no other is in `ReceiveCompletion` with it. From then on
only sends in full complete. -/
def Spared (s : State) : State.Action → Prop
  | .accept _ => True
  | .dequeue t i ret transferred => ∀ p ∈ s.posted[i]?, p.2.Full ret transferred ∨
      (¬s.Over p.1 ∧ (p.2.Data ret transferred ∨ s.Alone t p.1))
  | .run t answer => ∀ f ∈ s.threads[t]?.join,
      (f.line = .setRcvBuf ∨ f.line = .createIoCompletionPort → answer = true) ∧
      (f.line.echoes = true → answer = true ∨ s.Alone t f.client)

instance (context : OverlappedIOContext) (ret : Bool) (transferred : Nat) : Decidable (context.Full ret transferred) :=
  inferInstanceAs (Decidable (_ ∧ _))

instance (context : OverlappedIOContext) (ret : Bool) (transferred : Nat) : Decidable (context.Data ret transferred) :=
  inferInstanceAs (Decidable (_ ∧ _))

instance (s : State) (x : Nat) : Decidable (s.Over x) := inferInstanceAs (Decidable (_ ∨ _))

instance (s : State) (t x : Nat) : Decidable (s.Alone t x) := inferInstanceAs (Decidable (∀ o ∈ s.threads.eraseIdx t, _))

instance (s : State) : ∀ a, Decidable (Spared s a)
  | .accept _ => inferInstanceAs (Decidable True)
  | .dequeue _ i _ _ => inferInstanceAs (Decidable (∀ p ∈ s.posted[i]?, _))
  | .run t _ => inferInstanceAs (Decidable (∀ f ∈ s.threads[t]?.join, _))

theorem State.Alone.serves (h : s.Alone t x) : ∀ l ∈ s.otherLines t x, l.serves = false := by
  intro l hl
  exact h _ (State.mem_otherLines.1 hl) _ rfl rfl

/-! ## Runs -/

/-- The state in a run that meets the condition. -/
structure Phased (s : State) : Prop where
  phase : ∀ (x : Nat) (c : ClientSession), s.sessions[x]? = some c → Phase c (s.lines x) (s.contexts x)
  nobody : ∀ x : Nat, s.sessions[x]? = none → s.lines x = 0 ∧ s.contexts x = 0
  distinct : ∀ (x y : Nat) (c d : ClientSession), s.sessions[x]? = some c → s.sessions[y]? = some d →
    c.closes = 0 → d.closes = 0 → c.mSocket = d.mSocket → x = y

theorem phased_start (n : Nat) : Phased (.start n) where
  phase x c hx := by cases hx
  nobody x _ := ⟨State.lines_start n x, rfl⟩
  distinct x y c d hx := by cases hx

/-- A socket that is open and bound to the port is bound to its own client. -/
theorem Phased.completionKey (h : Phased s) (hx : s.sessions[x]? = some c) (ha : c.associated = true) (hc : c.closes = 0) :
    s.completionKey c.mSocket = some x := by
  obtain ⟨hlt, rfl⟩ := List.getElem?_eq_some_iff.1 hx
  unfold State.completionKey
  rw [List.findIdx?_eq_some_iff_getElem]
  refine ⟨hlt, by simp [ha, hc], fun j hj hfound => ?_⟩
  simp only [decide_eq_true_eq] at hfound
  have hj' : s.sessions[j]? = some s.sessions[j] := List.getElem?_eq_getElem (Nat.lt_trans hj hlt)
  have heq := h.distinct j x _ _ hj' hx hfound.2.1 hc hfound.1
  omega

theorem phased_runThread (h : Phased s) (hok : Spared s (.run t answer)) (hs : s.runThread t answer = some s') : Phased s' := by
  obtain ⟨x, line, c, s₁, next, ht, hx, he, hs'⟩ := State.of_runThread hs
  obtain ⟨hconn, halone⟩ := hok _ (by rw [ht]; rfl)
  have hphase := h.phase x c hx
  rw [State.lines_of_frame ht] at hphase
  obtain ⟨c', new, hsess, hthr, hpost, hsock, hle, hphase'⟩ :=
    phase_exec hx hphase (h.completionKey hx) hconn (fun hl => (halone hl).imp_right State.Alone.serves) he
  have hch : s.Changed t x c' next s' := ⟨by rw [hs']; exact hsess, by rw [hs', hthr]⟩
  have hpost' : s'.posted = s.posted ++ new.toList.map (x, ·) := by
    rw [hs']
    exact hpost
  have hold (y : Nat) (d : ClientSession) (hy : s'.sessions[y]? = some d) :
      ∃ d', s.sessions[y]? = some d' ∧ d.mSocket = d'.mSocket ∧ d'.closes ≤ d.closes := by
    by_cases hyx : y = x
    · subst hyx
      have hd : d = c' := Option.some.inj (hy.symm.trans (hch.session_self hx))
      exact ⟨c, hx, by rw [hd, hsock], by rw [hd]; exact hle⟩
    · exact ⟨d, (hch.session_ne hyx).symm.trans hy, rfl, Nat.le_refl _⟩
  refine ⟨fun y d hy => ?_, fun y hy => ?_, fun y z d e hy hz hd he' hsame => ?_⟩
  · by_cases hyx : y = x
    · subst hyx
      have hd : d = c' := Option.some.inj (hy.symm.trans (hch.session_self hx))
      rw [hd, hch.lines_self ht, State.contexts_posted hpost']
      exact hphase'
    · rw [hch.lines_ne ht (fun f hf => by cases hf; rfl) hyx, State.contexts_posted_ne hpost' hyx]
      exact h.phase y d ((hch.session_ne hyx).symm.trans hy)
  · have hyx : y ≠ x := by
      rintro rfl
      rw [hch.session_self hx] at hy
      cases hy
    rw [hch.lines_ne ht (fun f hf => by cases hf; rfl) hyx, State.contexts_posted_ne hpost' hyx]
    exact h.nobody y ((hch.session_ne hyx).symm.trans hy)
  · obtain ⟨d', hy', hsd, hcd⟩ := hold y d hy
    obtain ⟨e', hz', hse, hce⟩ := hold z e hz
    exact h.distinct y z d' e' hy' hz' (by omega) (by omega) (by rw [← hsd, ← hse, hsame])

theorem phased_dequeue {ret : Bool} {transferred : Nat} (h : Phased s) (hok : Spared s (.dequeue t i ret transferred))
    (hs : s.dequeue t i ret transferred = some s') : Phased s' := by
  obtain ⟨x, context, ht, hp, hpost, hsess, -, hchanged⟩ := State.of_dequeue hs
  have hmem : context ∈ s.contexts x := State.mem_contexts.2 (List.mem_of_getElem? hp)
  obtain ⟨c, hx⟩ : ∃ c, s.sessions[x]? = some c := by
    cases hx : s.sessions[x]? with
    | none =>
      rw [(h.nobody x hx).2] at hmem
      exact absurd hmem (Multiset.notMem_zero _)
    | some c => exact ⟨c, rfl⟩
  have hch := hchanged c hx
  have hphase := h.phase x c hx
  rw [State.contexts_erase hp hpost, State.lines_of_idle ht] at hphase
  refine ⟨fun y d hy => ?_, fun y hy => ?_, hsess ▸ h.distinct⟩
  · by_cases hyx : y = x
    · subst hyx
      rw [hsess] at hy
      cases hx.symm.trans hy
      rw [hch.lines_self ht]
      refine phase_dequeue hphase ((hok _ hp).imp_right fun ⟨hover, hdone⟩ => ?_)
      refine ⟨fun l hl => ?_, ?_, hdone.imp_right State.Alone.serves⟩
      · rw [← State.lines_of_idle ht] at hl
        by_contra hclosing
        exact hover (.inl ⟨_, State.mem_lines.1 hl, _, rfl, rfl, Bool.not_eq_false _ ▸ hclosing⟩)
      · by_contra hpos
        exact hover (.inr ⟨c, hx, Nat.pos_of_ne_zero hpos⟩)
    · rw [hch.lines_ne ht (fun f hf => by cases hf) hyx, State.contexts_erase_ne hp hpost hyx]
      exact h.phase y d (hsess ▸ hy)
  · have hyx : y ≠ x := by
      rintro rfl
      rw [hsess, hx] at hy
      cases hy
    rw [hch.lines_ne ht (fun f hf => by cases hf) hyx, State.contexts_erase_ne hp hpost hyx]
    exact h.nobody y (hsess ▸ hy)

/-- The operating system gives out a value under which no socket is open. -/
theorem phased_accept {sock : Nat} (h : Phased s) (hs : s.accept sock = some s') : Phased s' := by
  obtain ⟨ht, hopen, hsess, hthreads, hpost, -⟩ := State.of_accept hs
  have hfresh := h.nobody s.sessions.length (List.getElem?_eq_none (Nat.le_refl _))
  have hfree (y : Nat) (d : ClientSession) (hy : s.sessions[y]? = some d) (hd : d.closes = 0) : d.mSocket ≠ sock := by
    intro hsock
    have hany : s.isOpen sock = true := List.any_eq_true.2 ⟨d, List.mem_of_getElem? hy, decide_eq_true ⟨hsock, hd⟩⟩
    rw [hopen] at hany
    cases hany
  have hself : s'.lines s.sessions.length = {.createEnterLock} := State.lines_enter ht hthreads hfresh.1
  have hne (y : Nat) (hy : y ≠ s.sessions.length) : s'.lines y = s.lines y := State.lines_enter_ne ht hthreads hy
  have hctx (y : Nat) : s'.contexts y = s.contexts y := congrArg (visits some · y) hpost
  have hlt {y : Nat} {d : ClientSession} (hy : s.sessions[y]? = some d) : y ≠ s.sessions.length :=
    Nat.ne_of_lt (List.getElem?_eq_some_iff.1 hy).1
  refine ⟨fun y d hy => ?_, fun y hy => ?_, fun y z d e hy hz hd he hsame => ?_⟩
  · rw [hsess] at hy
    rcases getElem?_concat hy with hy | ⟨rfl, rfl⟩
    · rw [hne y (hlt hy), hctx]
      exact h.phase y d hy
    · rw [hself, hctx, hfresh.2]
      exact .connecting .createEnterLock rfl rfl ⟨rfl, rfl, rfl, rfl⟩
  · rw [hsess, List.getElem?_eq_none_iff, List.length_append, List.length_singleton] at hy
    rw [hne y (by omega), hctx]
    exact h.nobody y (List.getElem?_eq_none (by omega))
  · rw [hsess] at hy hz
    rcases getElem?_concat hy with hy | ⟨rfl, rfl⟩ <;> rcases getElem?_concat hz with hz | ⟨rfl, rfl⟩
    · exact h.distinct y z d e hy hz hd he hsame
    · exact absurd hsame (hfree y d hy hd)
    · exact absurd hsame.symm (hfree z e hz he)
    · rfl

theorem phased_step {a : State.Action} (h : Phased s) (hok : Spared s a) (hs : s.step a = some s') : Phased s' := by
  cases a with
  | accept sock => exact phased_accept h hs
  | dequeue t i ret transferred => exact phased_dequeue h hok hs
  | run t answer => exact phased_runThread h hok hs

/-! ## The life cycle -/

theorem lifeCycle_of_phase (h : Phase c (s.lines x) (s.contexts x)) : LifeCycle s x c := by
  have hthread {l : Line} (hl : l ∈ s.lines x) : some ⟨x, l⟩ ∈ s.threads := State.mem_lines.1 hl
  cases h with
  | connecting line hl hp hc =>
    obtain ⟨h0, hd, hk, hpend⟩ := hc.fresh
    have hmem : some ⟨x, line⟩ ∈ s.threads := hthread (hl ▸ Multiset.mem_singleton_self line)
    exact ⟨by omega, by omega, fun h => by omega, fun h => by omega, fun h => ⟨line, hmem, hk h⟩,
      fun _ => .inl ⟨line, hmem, hpend⟩⟩
  | serving leaving handlers hl hh hc ha hr =>
    have h0 := hc.closes
    have hd := hc.alive
    refine ⟨by omega, by omega, fun h => by omega, fun h => by omega, fun h => ?_, fun _ => ?_⟩
    · rw [hc.locked] at h
      subst h
      exact ⟨_, hthread (hl ▸ Multiset.mem_add.2 (.inl (Multiset.mem_singleton_self _))), rfl⟩
    · rcases hr with hne | ⟨context, hmem, hrecv⟩
      · obtain ⟨line, hline⟩ := Multiset.exists_mem_of_ne_zero hne
        refine .inl ⟨line, hthread (hl ▸ Multiset.mem_add.2 (.inr hline)), ?_⟩
        have hserves := hh line hline
        cases line with
        | isConnected p | startIo p => rfl
        | _ => cases hserves
      · exact .inr ⟨context, State.mem_contexts.1 hmem, hrecv⟩
  | closing leaving line hl hc =>
    obtain ⟨hle, hd, hk, hpend⟩ := hc.once
    have hmem : some ⟨x, line⟩ ∈ s.threads := hthread (hl ▸ Multiset.mem_cons_self line _)
    refine ⟨hle, by omega, fun h => by omega, fun h => by omega, fun h => ?_, fun h => .inl ⟨line, hmem, hpend h⟩⟩
    rcases hk h with rfl | hlocked
    · exact ⟨_, hthread (hl ▸ Multiset.mem_cons_of_mem (Multiset.mem_singleton_self _)), rfl⟩
    · exact ⟨line, hmem, hlocked⟩
  | deleted hl hd hc hk =>
    refine ⟨by omega, by omega, fun _ => hc, fun _ line hline => ?_, fun h => ?_, fun h => by omega⟩
    · have hin := State.mem_lines.2 hline
      rw [hl] at hin
      exact absurd hin (Multiset.notMem_zero _)
    · rw [hk] at h
      cases h

/-- In every run whose steps are spared, each client has the life it should. -/
theorem lifeCycle_of_spared {n : Nat} {as : List State.Action} (hr : run State.step (.start n) as = some s)
    (hm : Meets State.step Spared (.start n) as) (hx : s.sessions[x]? = some c) : LifeCycle s x c :=
  lifeCycle_of_phase ((inv_of_meets (fun _ _ _ => phased_step) (phased_start n) hm hr).phase x c hx)

/-- A client connects, sends five bytes that are echoed, and leaves. -/
def oneVisit : List State.Action :=
  .accept 7 :: runs 0 11 ++ [.dequeue 1 0 true 5] ++ runs 1 4 ++ [.dequeue 1 0 true 5, .dequeue 2 0 true 0] ++ runs 2 10

theorem lifeCycle_of_spared_oneVisit : ∃ s, run State.step (.start 2) oneVisit = some s ∧
    s.sessions = [⟨false, 7, false, true, 1, 1⟩] ∧ LifeCycle s 0 ⟨false, 7, false, true, 1, 1⟩ := by
  have hmap : (run State.step (.start 2) oneVisit).map State.sessions = some [⟨false, 7, false, true, 1, 1⟩] := by
    decide +kernel
  obtain ⟨s, hr, hs⟩ := Option.map_eq_some_iff.1 hmap
  exact ⟨s, hr, hs, lifeCycle_of_spared hr (by decide +kernel) (by rw [hs]; rfl)⟩

/-- The size of the receive buffer cannot be set, so `OnConnect` fails. -/
def onConnectFails : List State.Action := .accept 7 :: runs 0 4 ++ [.run 0 false] ++ runs 0 7

/-- The client resets the connection while a receive and a send of it are outstanding,
and two threads take them off the port. -/
def bothFail : List State.Action :=
  .accept 7 :: runs 0 11 ++ [.dequeue 1 0 true 5] ++ runs 1 4 ++ [.dequeue 1 0 false 0, .dequeue 2 0 false 0] ++
    runs 1 10 ++ runs 2 6

/-- The socket of the one is never closed, the other is deleted twice, and both locks
are held for ever. -/
theorem not_lifeCycle :
    (run State.step (.start 2) onConnectFails).map State.sessions = some [⟨false, 7, true, false, 0, 1⟩] ∧
    (run State.step (.start 2) bothFail).map State.sessions = some [⟨false, 7, true, true, 1, 2⟩] ∧
    ¬∀ (n : Nat) (as : List State.Action) (s : State), run State.step (.start n) as = some s →
      ∀ (x : Nat) (c : ClientSession), s.sessions[x]? = some c → LifeCycle s x c := by
  refine ⟨by decide +kernel, by decide +kernel, fun h => ?_⟩
  have hmap : (run State.step (.start 2) onConnectFails).map State.sessions = some [⟨false, 7, true, false, 0, 1⟩] := by
    decide +kernel
  obtain ⟨s, hr, hs⟩ := Option.map_eq_some_iff.1 hmap
  have hlife := h 2 onConnectFails s hr 0 ⟨false, 7, true, false, 0, 1⟩ (by rw [hs]; rfl)
  have hclosed := hlife.closed (Nat.zero_lt_one)
  cases hclosed

end GameServer.ClientSessions
