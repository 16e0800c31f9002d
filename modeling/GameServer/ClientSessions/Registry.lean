import GameServer.ClientSessions.Step
/-!
# The client list

A client is in the list from its insert to its erase (`Listed`), provided that the
key is free when it is inserted and its own when it is erased. The socket is closed
before the erase, so neither is sure: a new client may get the value in between,
its insert then does nothing, and the erase leaves it out of the list
(`not_registered`).
-/

namespace GameServer.ClientSessions

open Lib

variable {s s' s₁ : State} {x y t i : Nat} {c : ClientSession} {line : Line} {next : Option Line} {answer : Bool}
  {lines rest : Multiset Line}

/-! ## What a line does -/

/-- In `CreateClientSession`. -/
def Line.creating : Line → Bool
  | .createEnterLock | .insert | .createLeaveLock => true
  | _ => false

/-- Before the insert, or after the erase. -/
def Line.unlisted : Line → Bool
  | .createEnterLock | .insert | .deleteLeaveLock | .deleteClient => true
  | _ => false

/-- The session after the line. -/
def Line.session (answer : Bool) (c : ClientSession) : Line → ClientSession
  | .onConnectEnterLock | .disconnectEnterLock => { c with mLock := true }
  | .onConnectLeaveLock _ | .disconnectLeaveLock => { c with mLock := false }
  | .createIoCompletionPort => { c with associated := c.associated || answer }
  | .setConnected => { c with mConnected := true }
  | .clearConnected => { c with mConnected := false }
  | .closesocket => { c with closes := c.closes + 1 }
  | .deleteClient => { c with deletes := c.deletes + 1 }
  | _ => c

def Line.register (client sock : Nat) (m : SortedMap Nat Nat) : Line → SortedMap Nat Nat
  | .insert => m.insert sock client
  | .erase => m.erase sock
  | _ => m

theorem mSocket_session : (line.session answer c).mSocket = c.mSocket := by
  cases line <;> rfl

theorem associated_session (h : c.associated = true) : (line.session answer c).associated = true := by
  cases line with
  | createIoCompletionPort =>
    unfold Line.session
    dsimp only
    rw [h, Bool.true_or]
  | _ => exact h

theorem session_of_creating (h : line.creating = true) : line.session answer c = c := by
  cases line with
  | createEnterLock | insert | createLeaveLock => rfl
  | _ => cases h

theorem deletes_session (h : line ≠ .deleteClient) : (line.session answer c).deletes = c.deletes := by
  cases line with
  | deleteClient => exact absurd rfl h
  | _ => rfl

/-- Where a thread goes on, as far as the list is concerned. -/
inductive Flow : Line → Option Line → Prop
  | create : Flow .createEnterLock (some .insert)
  | insert : Flow .insert (some .createLeaveLock)
  | erase : Flow .erase (some .deleteLeaveLock)
  | leave : Flow .deleteLeaveLock (some .deleteClient)
  | delete : Flow .deleteClient none
  | other {line : Line} {next : Option Line} (hl : line.unlisted = false) (he : line ≠ .erase)
      (hn : ∀ l ∈ next, l.unlisted = false ∧ l.creating = false) : Flow line next

structure Effect (s : State) (x : Nat) (c : ClientSession) (answer : Bool) (line : Line) (s₁ : State) (next : Option Line) :
    Prop where
  threads : s₁.threads = s.threads
  sessions : s₁.sessions = s.sessions.set x (line.session answer c)
  mClientList : s₁.mClientList = line.register x c.mSocket s.mClientList
  posted : ∀ p ∈ s₁.posted, p ∈ s.posted ∨ s.completionKey c.mSocket = some p.1
  flow : Flow line next

theorem posted_startIo {context : OverlappedIOContext} (hs : s.startIo c context = some s₁) :
    s₁.threads = s.threads ∧ s₁.sessions = s.sessions ∧ s₁.mClientList = s.mClientList ∧
      ∀ p ∈ s₁.posted, p ∈ s.posted ∨ s.completionKey c.mSocket = some p.1 := by
  unfold State.startIo at hs
  split at hs
  · split at hs
    next key hkey =>
      cases hs
      refine ⟨rfl, rfl, rfl, fun p hp => ?_⟩
      rcases List.mem_append.1 hp with hp | hp
      · exact .inl hp
      · rw [List.mem_singleton.1 hp]
        exact .inr hkey
    · cases hs
      exact ⟨rfl, rfl, rfl, fun p hp => .inl hp⟩
  · cases hs

/-- On to a line that has nothing to do with the list. -/
theorem Flow.to {l : Line} (hl : line.unlisted = false) (he : line ≠ .erase) (hu : l.unlisted = false)
    (hc : l.creating = false) : Flow line (some l) := by
  refine .other hl he fun k hk => ?_
  cases hk
  exact ⟨hu, hc⟩

theorem flow_onFalse {p : Post} (hl : line.unlisted = false) (he : line ≠ .erase) : Flow line (some p.onFalse) := by
  cases p with
  | onConnectRecv | echoSend _ | echoRecv => exact .to hl he rfl rfl

theorem effect_of_exec (hx : s.sessions[x]? = some c) (hs : s.exec x c answer line = some (s₁, next)) :
    Effect s x c answer line s₁ next := by
  have hsame : s.sessions = s.sessions.set x c := (set_of_getElem? hx).symm
  have hkeep (p : Nat × OverlappedIOContext) (hp : p ∈ s.posted) :
      p ∈ s.posted ∨ s.completionKey c.mSocket = some p.1 := .inl hp
  cases line with
  | createEnterLock =>
    simp only [State.exec] at hs
    split at hs <;> cases hs
    exact ⟨rfl, hsame, rfl, hkeep, .create⟩
  | insert =>
    cases hs
    exact ⟨rfl, hsame, rfl, hkeep, .insert⟩
  | deleteEnterLock =>
    simp only [State.exec] at hs
    split at hs <;> cases hs
    exact ⟨rfl, hsame, rfl, hkeep, .to rfl nofun rfl rfl⟩
  | erase =>
    cases hs
    exact ⟨rfl, hsame, rfl, hkeep, .erase⟩
  | deleteLeaveLock =>
    cases hs
    exact ⟨rfl, hsame, rfl, hkeep, .leave⟩
  | deleteClient =>
    cases hs
    exact ⟨rfl, rfl, rfl, hkeep, .delete⟩
  | onConnectEnterLock | disconnectEnterLock =>
    simp only [State.exec] at hs
    split at hs <;> cases hs
    exact ⟨rfl, rfl, rfl, hkeep, .to rfl nofun rfl rfl⟩
  | createLeaveLock | increaseConnectionCount | decreaseConnectionCount =>
    cases hs
    exact ⟨rfl, hsame, rfl, hkeep, .to rfl nofun rfl rfl⟩
  | setConnected | closesocket | clearConnected | disconnectLeaveLock =>
    cases hs
    exact ⟨rfl, rfl, rfl, hkeep, .to rfl nofun rfl rfl⟩
  | setRcvBuf =>
    cases hs
    refine ⟨rfl, hsame, rfl, hkeep, ?_⟩
    split
    · exact .to rfl nofun rfl rfl
    · exact .to rfl nofun rfl rfl
  | createIoCompletionPort =>
    simp only [State.exec] at hs
    split at hs <;> cases hs
    next hans =>
      subst hans
      refine ⟨rfl, ?_, rfl, hkeep, .to rfl nofun rfl rfl⟩
      rw [Line.session, Bool.or_true]
      rfl
    next hans =>
      refine ⟨rfl, ?_, rfl, hkeep, .to rfl nofun rfl rfl⟩
      rw [Line.session, Bool.eq_false_iff.2 hans, Bool.or_false]
      exact hsame
  | onConnectLeaveLock ret =>
    cases hs
    refine ⟨rfl, rfl, rfl, hkeep, ?_⟩
    split
    · exact .other rfl nofun nofun
    · exact .to rfl nofun rfl rfl
  | disconnectIsConnected =>
    cases hs
    refine ⟨rfl, hsame, rfl, hkeep, ?_⟩
    split
    · exact .to rfl nofun rfl rfl
    · exact .to rfl nofun rfl rfl
  | isConnected p =>
    cases hs
    refine ⟨rfl, hsame, rfl, hkeep, ?_⟩
    split
    · exact .to rfl nofun rfl rfl
    · exact flow_onFalse rfl nofun
  | startIo p =>
    simp only [State.exec] at hs
    split at hs
    · obtain ⟨s₂, hs₂, he⟩ := Option.map_eq_some_iff.1 hs
      cases he
      obtain ⟨hthr, hsess, hmap, hpost⟩ := posted_startIo hs₂
      refine ⟨hthr, hsess.trans hsame, hmap, hpost, ?_⟩
      cases p with
      | onConnectRecv | echoSend _ => exact .to rfl nofun rfl rfl
      | echoRecv => exact .other rfl nofun nofun
    · cases hs
      exact ⟨rfl, hsame, rfl, hkeep, flow_onFalse rfl nofun⟩

/-! ## Listed clients -/

/-- Inserted, and not erased yet. -/
def Listed (c : ClientSession) (lines : Multiset Line) : Prop := c.deletes = 0 ∧ ∀ line ∈ lines, line.unlisted = false

theorem not_listed (h : line.unlisted = true) : ¬Listed c (line ::ₘ rest) := by
  intro hl
  have hfalse := hl.2 line (Multiset.mem_cons_self _ _)
  rw [h] at hfalse
  cases hfalse

theorem listed_flow (hf : Flow line next) (hi : line ≠ .insert) (he : line ≠ .erase) :
    Listed (line.session answer c) ((next.toList : Multiset Line) + rest) ↔ Listed c (line ::ₘ rest) := by
  cases hf with
  | create => exact iff_of_false (not_listed rfl) (not_listed rfl)
  | insert => exact absurd rfl hi
  | erase => exact absurd rfl he
  | leave => exact iff_of_false (not_listed rfl) (not_listed rfl)
  | delete => exact iff_of_false (fun h => absurd h.1 (Nat.succ_ne_zero _)) (not_listed rfl)
  | other hl _ hn =>
    have hne : line ≠ .deleteClient := by
      rintro rfl
      cases hl
    unfold Listed
    rw [deletes_session hne, Multiset.forall_mem_cons]
    refine and_congr_right fun _ => ⟨fun h => ⟨hl, fun l hm => h l (Multiset.mem_add.2 (.inr hm))⟩, fun h l hm => ?_⟩
    rcases Multiset.mem_add.1 hm with hm | hm
    · exact (hn l (Option.mem_toList.1 (Multiset.mem_coe.1 hm))).1
    · exact h.2 l hm

/-- While a client is created, nobody else knows of it, since it has not been given to
the port. -/
def Fresh (c : ClientSession) (lines : Multiset Line) : Prop :=
  ∀ line ∈ lines, line.creating = true → lines = {line} ∧ c.associated = false ∧ c.deletes = 0

theorem Flow.creating (hf : Flow line next) {l : Line} (hl : l ∈ next) (hc : l.creating = true) : line.creating = true := by
  cases hf with
  | create | insert => rfl
  | other _ _ hn =>
    rw [(hn l hl).2] at hc
    cases hc
  | erase | leave =>
    cases hl
    cases hc
  | delete => cases hl

theorem Fresh.alone (h : Fresh c (line ::ₘ rest)) (hl : line.creating = true) :
    rest = 0 ∧ c.associated = false ∧ c.deletes = 0 := by
  obtain ⟨hone, ha, hd⟩ := h line (Multiset.mem_cons_self _ _) hl
  exact ⟨(Multiset.cons_inj_right line).1 hone, ha, hd⟩

/-- Nobody else creates it. -/
theorem Fresh.others (h : Fresh c (line ::ₘ rest)) : ∀ l ∈ rest, l.creating = false := by
  intro l hl
  by_contra hc
  have hone := (h l (Multiset.mem_cons_of_mem hl) (Bool.not_eq_false _ ▸ hc)).1
  rw [((Multiset.singleton_eq_cons_iff _).1 hone.symm).2] at hl
  exact Multiset.notMem_zero l hl

theorem fresh_flow (h : Fresh c (line ::ₘ rest)) (hf : Flow line next) :
    Fresh (line.session answer c) ((next.toList : Multiset Line) + rest) := by
  intro l hl hc
  rcases Multiset.mem_add.1 hl with hnext | hrest
  · have hnext := Option.mem_toList.1 (Multiset.mem_coe.1 hnext)
    have hline := hf.creating hnext hc
    obtain ⟨rfl, ha, hd⟩ := h.alone hline
    rw [add_zero, session_of_creating hline, Option.mem_def.1 hnext]
    exact ⟨rfl, ha, hd⟩
  · rw [h.others l hrest] at hc
    cases hc

theorem listed_insert (h : Fresh c (.insert ::ₘ rest)) (hf : Flow .insert next) :
    Listed (Line.insert.session answer c) ((next.toList : Multiset Line) + rest) := by
  obtain ⟨rfl, -, hd⟩ := h.alone rfl
  rw [session_of_creating rfl, add_zero]
  cases hf with
  | insert => exact ⟨hd, by simp [Line.unlisted]⟩
  | other hl => cases hl

/-- The list has the clients that are listed. -/
structure Registers (s : State) : Prop where
  keys : ∀ p ∈ s.posted, ∃ c, s.sessions[p.1]? = some c ∧ c.associated = true
  bound : ∀ x : Nat, s.sessions[x]? = none → s.lines x = 0
  fresh : ∀ (x : Nat) (c : ClientSession), s.sessions[x]? = some c → Fresh c (s.lines x)
  map : ∀ sock x : Nat, s.mClientList.find? sock = some x ↔
    ∃ c, s.sessions[x]? = some c ∧ c.mSocket = sock ∧ Listed c (s.lines x)

/-- The key of a client is free when it is inserted, and not another client's when
it is erased. -/
def KeyFree (s : State) : State.Action → Prop
  | .run t _ => ∀ f ∈ s.threads[t]?.join, ∀ c ∈ s.sessions[f.client]?,
      (f.line = .insert → s.mClientList.find? c.mSocket = none) ∧
      (f.line = .erase → ∀ y ∈ s.mClientList.find? c.mSocket, y = f.client)
  | _ => True

instance (s : State) : ∀ a, Decidable (KeyFree s a)
  | .accept _ | .dequeue _ _ _ _ => inferInstanceAs (Decidable True)
  | .run t _ => inferInstanceAs (Decidable (∀ f ∈ s.threads[t]?.join, _))

theorem registers_start (n : Nat) : Registers (.start n) where
  keys p hp := by cases hp
  bound x _ := State.lines_start n x
  fresh x c hx := by cases hx
  map sock x := by
    apply iff_of_false
    · intro h
      cases h
    · rintro ⟨c, hx, -⟩
      cases hx

/-! ## The list after a line -/

section
variable {m : SortedMap Nat Nat} {sock : Nat} (hfree : line = .insert → m.find? c.mSocket = none)
include hfree

/-- The entries of the other clients stay. -/
theorem find?_register_ne (hown : line = .erase → ∀ y ∈ m.find? c.mSocket, y = x) (hy : y ≠ x) :
    (line.register x c.mSocket m).find? sock = some y ↔ m.find? sock = some y := by
  cases line with
  | insert =>
    have hn := hfree rfl
    unfold Line.register
    dsimp only
    rw [SortedMap.find?_insert]
    split
    next h =>
      rw [h.1, hn]
      exact iff_of_false (fun he => hy (Option.some.inj he).symm) nofun
    · rfl
  | erase =>
    unfold Line.register
    dsimp only
    rw [SortedMap.find?_erase]
    split
    next h =>
      rw [h]
      exact iff_of_false nofun fun he => hy (hown rfl y he)
    · rfl
  | _ => rfl

theorem find?_register_self (hmap : ∀ sock, m.find? sock = some x ↔ c.mSocket = sock ∧ Listed c (line ::ₘ rest))
    (hfresh : Fresh c (line ::ₘ rest)) (hflow : Flow line next) :
    (line.register x c.mSocket m).find? sock = some x ↔
      c.mSocket = sock ∧ Listed (line.session answer c) ((next.toList : Multiset Line) + rest) := by
  by_cases hi : line = .insert
  · subst hi
    rw [and_iff_left (listed_insert hfresh hflow)]
    unfold Line.register
    dsimp only
    rw [SortedMap.find?_insert]
    split
    next h => exact iff_of_true rfl h.1.symm
    next h => exact iff_of_false (fun he => h ⟨((hmap sock).1 he).1.symm, hfree rfl⟩) fun he => h ⟨he.symm, hfree rfl⟩
  by_cases he : line = .erase
  · subst he
    obtain rfl : next = some .deleteLeaveLock := by
      cases hflow with
      | erase => rfl
      | other _ h => exact absurd rfl h
    have hnot : ¬Listed (Line.erase.session answer c) (((some Line.deleteLeaveLock).toList : Multiset Line) + rest) :=
      not_listed rfl
    unfold Line.register
    dsimp only
    rw [SortedMap.find?_erase]
    refine iff_of_false (fun h => ?_) fun h => hnot h.2
    split at h
    · cases h
    next hne => exact hne ((hmap sock).1 h).1.symm
  · have hregister : line.register x c.mSocket m = m := by
      cases line with
      | insert => exact absurd rfl hi
      | erase => exact absurd rfl he
      | _ => rfl
    rw [hregister, listed_flow hflow hi he]
    exact hmap sock

end

/-! ## Runs -/

theorem completionKey_associated {sock : Nat} (h : s.completionKey sock = some x) :
    ∃ c, s.sessions[x]? = some c ∧ c.associated = true := by
  obtain ⟨hlt, hfound, -⟩ := List.findIdx?_eq_some_iff_getElem.1 h
  exact ⟨_, List.getElem?_eq_getElem hlt, (of_decide_eq_true hfound).2.2⟩

theorem registers_runThread (h : Registers s) (hok : KeyFree s (.run t answer)) (hs : s.runThread t answer = some s') :
    Registers s' := by
  obtain ⟨x, line, c, s₁, next, ht, hx, he, hs'⟩ := State.of_runThread hs
  obtain ⟨hfree, hown⟩ := hok ⟨x, line⟩ (by rw [ht]; rfl) c hx
  have heff := effect_of_exec hx he
  have hch : s.Changed t x (line.session answer c) next s' := ⟨by rw [hs']; exact heff.sessions, by rw [hs', heff.threads]⟩
  have hregister : s'.mClientList = line.register x c.mSocket s.mClientList := by
    rw [hs']
    exact heff.mClientList
  have hself := hch.session_self hx
  have hlines := hch.lines_self ht
  have hlinesNe {y : Nat} (hy : y ≠ x) : s'.lines y = s.lines y := hch.lines_ne ht (fun f hf => by cases hf; rfl) hy
  have hfresh := h.fresh x c hx
  rw [State.lines_of_frame ht] at hfresh
  refine ⟨fun p hp => ?_, fun y hy => ?_, fun y d hy => ?_, fun sock y => ?_⟩
  · have hold : ∃ d, s.sessions[p.1]? = some d ∧ d.associated = true := by
      rw [hs'] at hp
      exact (heff.posted p hp).elim (h.keys p) completionKey_associated
    obtain ⟨d, hd, ha⟩ := hold
    by_cases hpx : p.1 = x
    · rw [hpx, hx] at hd
      cases hd
      exact ⟨_, by rw [hpx]; exact hself, associated_session ha⟩
    · exact ⟨d, by rw [hch.session_ne hpx]; exact hd, ha⟩
  · have hyx : y ≠ x := by
      rintro rfl
      rw [hself] at hy
      cases hy
    rw [hlinesNe hyx]
    exact h.bound y ((hch.session_ne hyx).symm.trans hy)
  · by_cases hyx : y = x
    · subst hyx
      cases hself.symm.trans hy
      rw [hlines]
      exact fresh_flow hfresh heff.flow
    · rw [hlinesNe hyx]
      exact h.fresh y d ((hch.session_ne hyx).symm.trans hy)
  · rw [hregister]
    by_cases hyx : y = x
    · subst hyx
      have hmap (sock : Nat) : s.mClientList.find? sock = some y ↔ c.mSocket = sock ∧ Listed c (line ::ₘ s.otherLines t y) := by
        rw [h.map, State.lines_of_frame ht, hx]
        simp only [Option.some.injEq, exists_eq_left']
      have hnew : (line.register y c.mSocket s.mClientList).find? sock = some y ↔
          c.mSocket = sock ∧ Listed (line.session answer c) ((next.toList : Multiset Line) + s.otherLines t y) :=
        find?_register_self hfree hmap hfresh heff.flow
      rw [hnew, hlines, hself]
      simp only [Option.some.injEq, exists_eq_left', mSocket_session]
    · rw [find?_register_ne hfree hown hyx, h.map, hch.session_ne hyx, hlinesNe hyx]

theorem registers_dequeue {ret : Bool} {transferred : Nat} (h : Registers s)
    (hs : s.dequeue t i ret transferred = some s') : Registers s' := by
  obtain ⟨x, context, ht, hp, hpost, hsess, hmap, hchanged⟩ := State.of_dequeue hs
  obtain ⟨c, hx, ha⟩ := h.keys _ (List.mem_of_getElem? hp)
  have hch := hchanged c hx
  have hlinesNe {y : Nat} (hy : y ≠ x) : s'.lines y = s.lines y := hch.lines_ne ht (fun f hf => by cases hf) hy
  have hlines : s'.lines x = ((State.ioCompletion context ret transferred).toList : Multiset Line) + s.lines x := by
    rw [hch.lines_self ht, State.lines_of_idle ht]
  have hnext : ∀ l ∈ State.ioCompletion context ret transferred, l.unlisted = false ∧ l.creating = false := by
    unfold State.ioCompletion
    split
    · simp [Line.unlisted, Line.creating]
    · split
      · split <;> simp [Line.unlisted, Line.creating]
      · simp [Line.unlisted, Line.creating]
  refine ⟨fun p hmem => ?_, fun y hy => ?_, fun y d hy => ?_, fun sock y => ?_⟩
  · rw [hpost] at hmem
    rw [hsess]
    exact h.keys p (List.mem_of_mem_eraseIdx hmem)
  · have hyx : y ≠ x := by
      rintro rfl
      rw [hsess, hx] at hy
      cases hy
    rw [hlinesNe hyx]
    exact h.bound y (hsess ▸ hy)
  · rw [hsess] at hy
    by_cases hyx : y = x
    · subst hyx
      cases hx.symm.trans hy
      intro l hl hc
      rw [hlines] at hl
      rcases Multiset.mem_add.1 hl with hin | hold
      · rw [(hnext l (Option.mem_toList.1 (Multiset.mem_coe.1 hin))).2] at hc
        cases hc
      · rw [(h.fresh y c hx l hold hc).2.1] at ha
        cases ha
    · rw [hlinesNe hyx]
      exact h.fresh y d hy
  · rw [hmap, hsess, h.map]
    by_cases hyx : y = x
    · subst hyx
      have hlisted (d : ClientSession) : Listed d (s'.lines y) ↔ Listed d (s.lines y) := by
        rw [hlines]
        refine and_congr_right fun _ => ⟨fun hall l hl => hall l (Multiset.mem_add.2 (.inr hl)), fun hall l hl => ?_⟩
        rcases Multiset.mem_add.1 hl with hin | hold
        · exact (hnext l (Option.mem_toList.1 (Multiset.mem_coe.1 hin))).1
        · exact hall l hold
      simp only [hlisted]
    · rw [hlinesNe hyx]

theorem registers_accept {sock : Nat} (h : Registers s) (hs : s.accept sock = some s') : Registers s' := by
  obtain ⟨ht, -, hsess, hthreads, hpost, hmap⟩ := State.of_accept hs
  have hnone : s.sessions[s.sessions.length]? = none := List.getElem?_eq_none (Nat.le_refl _)
  have hself : s'.lines s.sessions.length = {.createEnterLock} := State.lines_enter ht hthreads (h.bound _ hnone)
  have hne (y : Nat) (hy : y ≠ s.sessions.length) : s'.lines y = s.lines y := State.lines_enter_ne ht hthreads hy
  have hlt {y : Nat} {d : ClientSession} (hy : s.sessions[y]? = some d) : y ≠ s.sessions.length :=
    Nat.ne_of_lt (List.getElem?_eq_some_iff.1 hy).1
  have hold {y : Nat} {d : ClientSession} (hy : s.sessions[y]? = some d) : s'.sessions[y]? = some d := by
    rw [hsess, List.getElem?_append_left (List.getElem?_eq_some_iff.1 hy).1, hy]
  refine ⟨fun p hp => ?_, fun y hy => ?_, fun y d hy => ?_, fun sock' y => ?_⟩
  · rw [hpost] at hp
    obtain ⟨d, hd, ha⟩ := h.keys p hp
    exact ⟨d, hold hd, ha⟩
  · rw [hsess, List.getElem?_eq_none_iff, List.length_append, List.length_singleton] at hy
    rw [hne y (by omega)]
    exact h.bound y (List.getElem?_eq_none (by omega))
  · rw [hsess] at hy
    rcases getElem?_concat hy with hy | ⟨rfl, rfl⟩
    · rw [hne y (hlt hy)]
      exact h.fresh y d hy
    · rw [hself]
      intro l hl _
      exact ⟨by rw [Multiset.mem_singleton.1 hl], rfl, rfl⟩
  · rw [hmap, h.map]
    constructor
    · rintro ⟨d, hd, hsock, hl⟩
      exact ⟨d, hold hd, hsock, by rw [hne y (hlt hd)]; exact hl⟩
    · rintro ⟨d, hd, hsock, hl⟩
      rw [hsess] at hd
      rcases getElem?_concat hd with hd | ⟨rfl, rfl⟩
      · exact ⟨d, hd, hsock, by rw [← hne y (hlt hd)]; exact hl⟩
      · rw [hself] at hl
        exact absurd hl (not_listed rfl)

theorem registers_step {a : State.Action} (h : Registers s) (hok : KeyFree s a) (hs : s.step a = some s') :
    Registers s' := by
  cases a with
  | accept sock => exact registers_accept h hs
  | dequeue t i ret transferred => exact registers_dequeue h hs
  | run t answer => exact registers_runThread h hok hs

/-- In `CreateClientSession` or `DeleteClientSession`. -/
def Line.registering : Line → Bool
  | .createEnterLock | .insert | .createLeaveLock | .deleteEnterLock | .erase | .deleteLeaveLock | .deleteClient => true
  | _ => false

/-- What is expected of the list: the socket of every live client leads to it, and there
are no other entries. -/
def Registered (s : State) : Prop :=
  ∀ sock x : Nat, s.mClientList.find? sock = some x ↔ ∃ c, s.sessions[x]? = some c ∧ c.mSocket = sock ∧ c.deletes = 0

def Quiet (s : State) : Prop := ∀ o ∈ s.threads, ∀ f ∈ o, f.line.registering = false

instance (s : State) : Decidable (Quiet s) := inferInstanceAs (Decidable (∀ o ∈ s.threads, _))

theorem registered_of_registers (h : Registers s) (hq : Quiet s) : Registered s := by
  have hlisted (x : Nat) (c : ClientSession) : Listed c (s.lines x) ↔ c.deletes = 0 := by
    refine and_iff_left fun line hline => ?_
    have hreg := hq _ (State.mem_lines.1 hline) _ rfl
    cases line with
    | createEnterLock | insert | createLeaveLock | deleteEnterLock | erase | deleteLeaveLock | deleteClient => cases hreg
    | _ => rfl
  intro sock x
  rw [h.map]
  simp only [hlisted]

/-- In every run in which keys are free, the list is right whenever nobody is changing it. -/
theorem registered_of_keyFree {n : Nat} {as : List State.Action} (hr : run State.step (.start n) as = some s)
    (hm : Meets State.step KeyFree (.start n) as) (hq : Quiet s) : Registered s :=
  registered_of_registers (inv_of_meets (fun _ _ _ => registers_step) (registers_start n) hm hr) hq

/-- A client leaves, and the next one gets its socket value when it has been deleted. -/
def oneAfterAnother : List State.Action :=
  .accept 7 :: runs 0 11 ++ [.dequeue 1 0 true 0] ++ runs 1 10 ++ [.accept 7] ++ runs 0 11

theorem registered_of_keyFree_oneAfterAnother : ∃ s, run State.step (.start 1) oneAfterAnother = some s ∧
    s.mClientList.entries = [(7, 1)] ∧ Registered s := by
  have hmap : (run State.step (.start 1) oneAfterAnother).map (fun s => (s.mClientList.entries, s.threads)) =
      some ([(7, 1)], [none, none]) := by
    decide +kernel
  obtain ⟨s, hr, hs⟩ := Option.map_eq_some_iff.1 hmap
  obtain ⟨hentries, hthreads⟩ := Prod.mk.inj hs
  refine ⟨s, hr, hentries, registered_of_keyFree hr (by decide +kernel) ?_⟩
  unfold Quiet
  rw [hthreads]
  decide

/-- The next one gets it when `Disconnect` has closed the socket. -/
def oneIntoAnother : List State.Action :=
  .accept 7 :: runs 0 11 ++ [.dequeue 1 0 true 0] ++ runs 1 4 ++ [.accept 7] ++ runs 0 11 ++ runs 1 6

/-- The second client is connected, no thread is doing anything, and the list is empty. -/
theorem not_registered :
    (run State.step (.start 1) oneIntoAnother).map (fun s => (s.sessions, s.mClientList.entries, s.threads)) =
      some ([⟨false, 7, false, true, 1, 1⟩, ⟨true, 7, false, true, 0, 0⟩], [], [none, none]) ∧
    ¬∀ (n : Nat) (as : List State.Action) (s : State), run State.step (.start n) as = some s → Quiet s → Registered s := by
  have hmap : (run State.step (.start 1) oneIntoAnother).map (fun s => (s.sessions, s.mClientList.entries, s.threads)) =
      some ([⟨false, 7, false, true, 1, 1⟩, ⟨true, 7, false, true, 0, 0⟩], [], [none, none]) := by
    decide +kernel
  refine ⟨hmap, fun h => ?_⟩
  obtain ⟨s, hr, hs⟩ := Option.map_eq_some_iff.1 hmap
  simp only [Prod.mk.injEq] at hs
  obtain ⟨hsess, hentries, hthreads⟩ := hs
  have hquiet : Quiet s := by
    unfold Quiet
    rw [hthreads]
    decide
  have hentry := (h 1 oneIntoAnother s hr hquiet 7 1).2 ⟨⟨true, 7, false, true, 0, 0⟩, by rw [hsess]; rfl, rfl, rfl⟩
  rw [SortedMap.find?_eq_some, hentries] at hentry
  cases hentry

end GameServer.ClientSessions
