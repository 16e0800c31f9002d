import GameServer.DataSendingClient
import GameServer.Lib.Entries
import GameServer.Lib.Workers
/-!
# Echo in order

The receives of a session are items of a queue, and the threads its workers
(`Workers.Flow`). A thread posts the next receive before it sends what this one has
brought, so two threads may have data of one session, and the later data may go out
first. The echo is in order if and only if that never happens (`echoes_iff`).
-/

namespace GameServer.DataSendingClient

open Lib

/-- What a thread has of a session's receives, and has not passed to `SendData` yet. -/
def Thread.echo (s : Nat) : Thread → Option Chunk
  | .disconnect pOV chunk => if pOV = ⟨.recv, s⟩ then some chunk else none
  | .postRecv session echo => if session = s then echo else none
  | .sendData session chunk => if session = s then some chunk else none
  | .waiting | .left => none

/-- What a packet has of them. -/
def Packet.echo (s : Nat) (p : Packet) : Option Chunk := if p.pOV = some ⟨.recv, s⟩ then p.transferred else none

namespace Machine

def queue (m : Machine) (s : Nat) : List Chunk := m.port.filterMap (Packet.echo s)

def held (m : Machine) (s t : Nat) : Option Chunk := (m.threads t).echo s

/-- What a session has passed to `SendData` is what its receives have brought, up to
what is still at the port or with a thread. -/
structure Echoes (m : Machine) (s : Nat) : Prop where
  inOrder : m.passed s <+: m.received s
  all : m.queue s = [] → (∀ t, m.held s t = none) → m.passed s = m.received s

/-- When a thread calls `SendData`, none has data of an earlier receive of the session. -/
def InTurn (m : Machine) : Action → Prop
  | .runThread t _ => ∀ session chunk, m.threads t = .sendData session chunk →
    ∀ t' c, m.held session t' = some c → chunk.number ≤ c.number
  | _ => True

/-! ## What a step can do -/

/-- A receive completes, a thread takes its data, a thread passes data on, or no data
moves. -/
inductive Moves (m m' : Machine) (a : Action) : Prop
  | quiet (hr : m'.received = m.received) (hp : m'.passed = m.passed) (hq : ∀ s, m'.queue s = m.queue s)
      (hh : ∀ s, m'.held s = m.held s)
  | arrive (session : Nat) (chunk : Chunk) (hn : chunk.number = (m.received session).length)
      (hr : m'.received = Function.update m.received session (m.received session ++ [chunk]))
      (hp : m'.passed = m.passed) (hq : ∀ s, m'.queue s = m.queue s ++ if s = session then [chunk] else [])
      (hh : ∀ s, m'.held s = m.held s)
  | take (t session : Nat) (chunk : Chunk) (hr : m'.received = m.received) (hp : m'.passed = m.passed)
      (hq : ∀ s, m.queue s = (if s = session then [chunk] else []) ++ m'.queue s) (ht : ∀ s, m.held s t = none)
      (hh : ∀ s, m'.held s = Function.update (m.held s) t (if s = session then some chunk else none))
  | give (t : Nat) (ok : Bool) (session : Nat) (chunk : Chunk) (ha : a = .runThread t ok)
      (ht : m.threads t = .sendData session chunk) (hr : m'.received = m.received)
      (hp : m'.passed = Function.update m.passed session (m.passed session ++ [chunk]))
      (hq : ∀ s, m'.queue s = m.queue s) (hh : ∀ s, m'.held s = Function.update (m.held s) t none)

variable {m m' : Machine} {a : Action} {s t : Nat} {pOV : OverlappedContext} {chunk : Chunk} {p : Packet}

theorem echo_handle (pOV : OverlappedContext) (chunk : Chunk) :
    (handle pOV chunk).echo s = if pOV = ⟨.recv, s⟩ then some chunk else none := by
  obtain ⟨type, session⟩ := pOV
  cases type <;> simp [handle, Thread.echo]

/-- A thread has what its packet had. -/
theorem echo_ioThread (p : Packet) : (ioThread p).echo s = p.echo s := by
  obtain ⟨pOV, transferred⟩ := p
  unfold ioThread Packet.echo
  cases transferred with
  | none => simp [Thread.echo]
  | some chunk =>
    cases pOV with
    | none => simp [Thread.echo]
    | some pOV =>
      dsimp only
      split
      · simp [Thread.echo]
      · simp [echo_handle]

theorem held_setThread (m : Machine) (t : Nat) (th : Thread) :
    (m.setThread t th).held s = Function.update (m.held s) t (th.echo s) := by
  funext t'
  unfold held setThread
  by_cases ht : t' = t
  · subst ht
    simp
  · simp [ht]

/-- A thread goes on with the data it has. -/
theorem held_keep {th : Thread} (h : th.echo s = m.held s t) : (m.setThread t th).held s = m.held s := by
  rw [held_setThread, h, Function.update_eq_self]

theorem post_eq (m : Machine) (ok : Bool) (pOV : OverlappedContext) :
    ∃ posted, m.post ok pOV = { m with posted := posted } := by
  cases ok
  · exact ⟨m.posted, rfl⟩
  · exact ⟨m.posted ++ [pOV], rfl⟩

theorem queue_of_port (h : m'.port = m.port ++ [p]) : m'.queue s = m.queue s ++ (p.echo s).toList := by
  unfold queue
  rw [h, List.filterMap_append]
  cases hp : p.echo s <;> simp [hp]

/-- The data of a packet, if there is any, is of one session. -/
theorem echo_packet (p : Packet) :
    (∃ session chunk, ∀ s, p.echo s = if s = session then some chunk else none) ∨ ∀ s, p.echo s = none := by
  obtain ⟨pOV, transferred⟩ := p
  by_cases hrecv : ∃ session chunk, pOV = some ⟨.recv, session⟩ ∧ transferred = some chunk
  · obtain ⟨session, chunk, rfl, rfl⟩ := hrecv
    refine .inl ⟨session, chunk, fun s => ?_⟩
    simp [Packet.echo, eq_comm]
  · refine .inr fun s => ?_
    unfold Packet.echo
    split
    next hp =>
      cases ht : transferred with
      | none => rfl
      | some chunk => exact absurd ⟨s, chunk, hp, ht⟩ hrecv
    · rfl

theorem moves_complete {i : Nat} {bytes : Option (List UInt8)} (hs : m.complete i bytes = some m') : Moves m m' a := by
  obtain ⟨pOV, -, hs⟩ := Option.bind_eq_some_iff.1 hs
  cases bytes with
  | none =>
    cases hs
    refine .quiet rfl rfl (fun s => ?_) fun s => rfl
    rw [queue_of_port (m := m) rfl]
    simp [Packet.echo]
  | some bytes =>
    dsimp only at hs
    split at hs
    next hrecv =>
      split at hs <;> cases hs
      refine .arrive pOV.mSession _ rfl rfl rfl (fun s => ?_) fun s => rfl
      rw [queue_of_port (m := m) rfl]
      obtain ⟨type, session⟩ := pOV
      cases hrecv
      by_cases hsession : s = session
      · simp [Packet.echo, hsession]
      · simp [Packet.echo, hsession, Ne.symm hsession]
    next hrecv =>
      cases hs
      refine .quiet rfl rfl (fun s => ?_) fun s => rfl
      have hne : pOV ≠ ⟨.recv, s⟩ := by
        rintro rfl
        exact hrecv rfl
      rw [queue_of_port (m := m) rfl]
      simp [Packet.echo, hne]

theorem moves_dequeue (hs : m.dequeue t = some m') : Moves m m' a := by
  unfold dequeue at hs
  split at hs
  next p port hwait hport =>
    cases hs
    have hnone (s : Nat) : m.held s t = none := by
      unfold held
      rw [hwait]
      rfl
    have hheld (s : Nat) : (setThread { m with port := port } t (ioThread p)).held s =
        Function.update (m.held s) t (p.echo s) := by
      rw [held_setThread, echo_ioThread]
      rfl
    have hqueue (s : Nat) : m.queue s = (p.echo s).toList ++ (setThread { m with port := port } t (ioThread p)).queue s := by
      unfold queue
      rw [hport, List.filterMap_cons]
      cases p.echo s <;> rfl
    rcases echo_packet p with ⟨session, chunk, hecho⟩ | hecho
    · refine .take t session chunk rfl rfl (fun s => ?_) hnone fun s => ?_
      · rw [hqueue s, hecho]
        split <;> rfl
      · rw [hheld, hecho]
    · refine .quiet rfl rfl (fun s => ?_) fun s => ?_
      · rw [hqueue s, hecho]
        rfl
      · rw [hheld, hecho, ← hnone s, Function.update_eq_self]
  · cases hs

/-- `SendData` for a receive, and then the thread waits. -/
theorem runThread_sendData {session : Nat} {ok : Bool} (ht : m.threads t = .sendData session chunk)
    (hs : m.runThread t ok = some m') :
    ∃ posted, m' = setThread { m with
      posted := posted
      passed := Function.update m.passed session (m.passed session ++ [chunk]) } t .waiting := by
  unfold runThread at hs
  rw [ht] at hs
  cases hs
  generalize hsent : ({ m with passed := Function.update m.passed session (m.passed session ++ [chunk]) } : Machine) = sent
  obtain ⟨posted, hpost⟩ := post_eq sent ok ⟨.send, session⟩
  rw [hpost, ← hsent]
  exact ⟨posted, rfl⟩

theorem moves_runThread {ok : Bool} (hs : m.runThread t ok = some m') : Moves m m' (.runThread t ok) := by
  have hrun := hs
  unfold runThread at hs
  split at hs
  next pOV chunk ht =>
    cases hs
    obtain ⟨posted, hpost⟩ := post_eq m ok ⟨.disconnect, pOV.mSession⟩
    rw [hpost]
    refine .quiet rfl rfl (fun s => rfl) fun s => ?_
    refine held_keep (m := { m with posted := posted }) ?_
    rw [echo_handle]
    unfold held
    rw [ht]
    rfl
  next session echo ht =>
    cases hs
    obtain ⟨posted, hpost⟩ := post_eq m ok ⟨.recv, session⟩
    rw [hpost]
    refine .quiet rfl rfl (fun s => rfl) fun s => ?_
    refine held_keep (m := { m with posted := posted }) ?_
    unfold held
    rw [ht]
    cases echo <;> simp [Thread.echo]
  next session chunk ht =>
    obtain ⟨posted, rfl⟩ := runThread_sendData ht hrun
    refine .give t ok session chunk rfl ht rfl rfl (fun s => rfl) fun s => ?_
    rw [held_setThread]
    rfl
  · cases hs
  · cases hs

/-- Posting an operation moves no data. -/
theorem moves_post (m : Machine) (ok : Bool) (pOV : OverlappedContext) : Moves m (m.post ok pOV) a := by
  obtain ⟨posted, hpost⟩ := post_eq m ok pOV
  rw [hpost]
  exact .quiet rfl rfl (fun s => rfl) fun s => rfl

theorem moves_step (hs : m.step a = some m') : Moves m m' a := by
  cases a with
  | connectAndStart session ok =>
    cases hs
    exact moves_post m ok ⟨.connect, session⟩
  | bombardData session ok =>
    cases hs
    exact moves_post m ok ⟨.send, session⟩
  | cleanUp =>
    cases hs
    refine .quiet rfl rfl (fun s => ?_) fun s => rfl
    rw [queue_of_port (m := m) rfl]
    simp [Packet.echo]
  | complete i bytes => exact moves_complete hs
  | dequeue t => exact moves_dequeue hs
  | runThread t ok => exact moves_runThread hs

/-! ## In order -/

/-- The numbers of a session's receives flow from the port through the threads, and
carry the data they came with. -/
structure Flows (m : Machine) (s : Nat) : Prop where
  numbered : ∀ (i : Nat) (c : Chunk), (m.received s)[i]? = some c → c.number = i
  came : ∀ c, c ∈ m.queue s ∨ (∃ t, m.held s t = some c) ∨ c ∈ m.passed s → c ∈ m.received s
  flow : Workers.Flow (m.received s).length ((m.queue s).map Chunk.number) (Option.map Chunk.number ∘ m.held s)
    ((m.passed s).map Chunk.number)

theorem Flows.congr (h : Flows m s) (hr : m'.received s = m.received s) (hp : m'.passed s = m.passed s)
    (hq : m'.queue s = m.queue s) (hh : m'.held s = m.held s) : Flows m' s where
  numbered := hr ▸ h.numbered
  came := by
    rw [hr, hp, hq, hh]
    exact h.came
  flow := by
    rw [hr, hp, hq, hh]
    exact h.flow

theorem Flows.echoes (h : Flows m s) : Echoes m s := by
  have hpassed : m.passed s <+: m.received s := by
    rw [List.prefix_iff_getElem?]
    intro i hi
    have hnumber : ((m.passed s)[i]).number = i := by
      have hout := congrArg (·[i]?) h.flow.out_eq
      simpa [hi] using hout
    obtain ⟨j, hj⟩ := List.getElem?_of_mem (h.came _ (.inr (.inr (List.getElem_mem hi))))
    rw [h.numbered j _ hj] at hnumber
    rwa [hnumber] at hj
  refine ⟨hpassed, fun hq hh => hpassed.eq_of_length ?_⟩
  have hflow := h.flow
  rw [hq] at hflow
  have hdone := congrArg List.length (hflow.done fun t => by simp [hh t])
  simpa using hdone

theorem flows_start (n s : Nat) : Flows (start n) s where
  numbered i c h := by cases h
  came c h := by
    rcases h with h | ⟨t, ht⟩ | h
    · cases h
    · unfold held start at ht
      dsimp only at ht
      split at ht <;> cases ht
    · cases h
  flow := by
    have hheld : Option.map Chunk.number ∘ (start n).held s = fun _ => none := by
      funext t
      unfold Function.comp held start
      dsimp only
      split <;> rfl
    rw [hheld]
    exact Workers.flow_nil

theorem numbered_concat {l : List Chunk} (hl : ∀ (i : Nat) (c : Chunk), l[i]? = some c → c.number = i)
    (hn : chunk.number = l.length) (i : Nat) (c : Chunk) (hc : (l ++ [chunk])[i]? = some c) : c.number = i := by
  rcases getElem?_concat hc with hc | ⟨hi, rfl⟩
  · exact hl i c hc
  · rw [hn, hi]

theorem Flows.arrive (h : Flows m s) {session : Nat} (hn : chunk.number = (m.received session).length)
    (hr : m'.received = Function.update m.received session (m.received session ++ [chunk])) (hp : m'.passed = m.passed)
    (hq : ∀ s, m'.queue s = m.queue s ++ if s = session then [chunk] else []) (hh : ∀ s, m'.held s = m.held s) :
    Flows m' s := by
  by_cases hs : s = session
  · subst hs
    have hqs := hq s
    rw [if_pos rfl] at hqs
    constructor
    · rw [hr, Function.update_self]
      exact numbered_concat h.numbered hn
    · rw [hr, hp, hqs, hh s, Function.update_self]
      intro c hc
      rcases hc with hc | hc | hc
      · rcases List.mem_append.1 hc with hc | hc
        · exact List.mem_append_left _ (h.came c (.inl hc))
        · exact List.mem_append_right _ hc
      · exact List.mem_append_left _ (h.came c (.inr (.inl hc)))
      · exact List.mem_append_left _ (h.came c (.inr (.inr hc)))
    · rw [hr, hp, hqs, hh s, Function.update_self, List.length_append, List.map_append, List.map_singleton, hn]
      exact h.flow.arrive
  · refine h.congr ?_ (by rw [hp]) ?_ (hh s)
    · rw [hr, Function.update_of_ne hs]
    · rw [hq s, if_neg hs, List.append_nil]

theorem Flows.take (h : Flows m s) {session : Nat} (hr : m'.received = m.received) (hp : m'.passed = m.passed)
    (hq : ∀ s, m.queue s = (if s = session then [chunk] else []) ++ m'.queue s) (ht : ∀ s, m.held s t = none)
    (hh : ∀ s, m'.held s = Function.update (m.held s) t (if s = session then some chunk else none)) : Flows m' s := by
  by_cases hs : s = session
  · subst hs
    have hqs := hq s
    have hhs := hh s
    rw [if_pos rfl] at hqs hhs
    have hflow := h.flow
    rw [hqs] at hflow
    constructor
    · rw [hr]
      exact h.numbered
    · rw [hr, hp, hhs]
      intro c hc
      rcases hc with hc | ⟨t', ht'⟩ | hc
      · exact h.came c (.inl (hqs ▸ List.mem_cons_of_mem _ hc))
      · by_cases htt : t' = t
        · subst htt
          rw [Function.update_self] at ht'
          cases ht'
          exact h.came chunk (.inl (hqs ▸ List.mem_cons_self))
        · rw [Function.update_of_ne htt] at ht'
          exact h.came c (.inr (.inl ⟨t', ht'⟩))
      · exact h.came c (.inr (.inr hc))
    · rw [hr, hp, hhs, Function.comp_update]
      exact hflow.take (by simp [ht s])
  · refine h.congr (by rw [hr]) (by rw [hp]) ?_ ?_
    · rw [hq s, if_neg hs, List.nil_append]
    · rw [hh s, if_neg hs, ← ht s, Function.update_eq_self]

theorem held_sendData {session : Nat} (ht : m.threads t = .sendData session chunk) :
    m.held s t = if session = s then some chunk else none := by
  unfold held
  rw [ht]
  rfl

/-- The numbers that threads hold come in the order of `InTurn`. -/
theorem inTurn_held {session : Nat} {ok : Bool} (ht : m.threads t = .sendData session chunk) :
    m.InTurn (.runThread t ok) ↔ Workers.InTurn (Option.map Chunk.number ∘ m.held session) chunk.number := by
  unfold InTurn Workers.InTurn
  constructor
  · intro h t' k' hk'
    obtain ⟨c, hc, rfl⟩ := Option.map_eq_some_iff.1 hk'
    exact h session chunk ht t' c hc
  · intro h session' chunk' ht' t' c hc
    cases ht.symm.trans ht'
    exact h t' c.number (Option.map_eq_some_iff.2 ⟨c, hc, rfl⟩)

theorem Flows.give (h : Flows m s) {session : Nat} {ok : Bool} (ht : m.threads t = .sendData session chunk)
    (hi : m.InTurn (.runThread t ok)) (hr : m'.received = m.received)
    (hp : m'.passed = Function.update m.passed session (m.passed session ++ [chunk])) (hq : ∀ s, m'.queue s = m.queue s)
    (hh : ∀ s, m'.held s = Function.update (m.held s) t none) : Flows m' s := by
  have hhold : m.held s t = if session = s then some chunk else none := held_sendData ht
  by_cases hs : session = s
  · subst hs
    rw [if_pos rfl] at hhold
    constructor
    · rw [hr]
      exact h.numbered
    · rw [hr, hp, hq, hh, Function.update_self]
      intro c hc
      rcases hc with hc | ⟨t', ht'⟩ | hc
      · exact h.came c (.inl hc)
      · by_cases htt : t' = t
        · subst htt
          rw [Function.update_self] at ht'
          cases ht'
        · rw [Function.update_of_ne htt] at ht'
          exact h.came c (.inr (.inl ⟨t', ht'⟩))
      · rcases List.mem_append.1 hc with hc | hc
        · exact h.came c (.inr (.inr hc))
        · rw [List.mem_singleton.1 hc]
          exact h.came chunk (.inr (.inl ⟨t, hhold⟩))
    · rw [hr, hp, hq, hh, Function.update_self, Function.comp_update, List.map_append, List.map_singleton]
      exact h.flow.give (by simp [hhold]) ((inTurn_held ht).1 hi)
  · rw [if_neg hs] at hhold
    refine h.congr (by rw [hr]) ?_ (hq s) ?_
    · rw [hp, Function.update_of_ne (Ne.symm hs)]
    · rw [hh s, ← hhold, Function.update_eq_self]

theorem flows_step (h : ∀ s, Flows m s) (hi : m.InTurn a) (hs : m.step a = some m') (s : Nat) : Flows m' s := by
  cases moves_step hs with
  | quiet hr hp hq hh => exact (h s).congr (by rw [hr]) (by rw [hp]) (hq s) (hh s)
  | arrive session chunk hn hr hp hq hh =>
    by_cases hss : s = session
    · subst hss
      exact (h s).arrive hn hr hp hq hh
    · refine (h s).congr ?_ (by rw [hp]) ?_ (hh s)
      · rw [hr, Function.update_of_ne hss]
      · rw [hq s, if_neg hss, List.append_nil]
  | take t session chunk hr hp hq ht hh => exact (h s).take hr hp hq ht hh
  | give t ok session chunk ha ht hr hp hq hh => exact (h s).give ht (ha ▸ hi) hr hp hq hh

/-! ## Out of order -/

/-- A session has passed the data of a receive at another's place. -/
structure Lost (m : Machine) : Prop where
  numbered : ∀ (s i : Nat) (c : Chunk), (m.received s)[i]? = some c → c.number = i
  early : ∃ (s i : Nat) (c : Chunk), (m.passed s)[i]? = some c ∧ c.number ≠ i

theorem Lost.not_echoes (h : Lost m) : ¬ ∀ s, Echoes m s := by
  intro he
  obtain ⟨s, i, c, hc, hne⟩ := h.early
  obtain ⟨hi, rfl⟩ := List.getElem?_eq_some_iff.1 hc
  exact hne (h.numbered s i _ (List.prefix_iff_getElem?.1 (he s).inOrder i hi))

/-- What came and what was passed only gets more. -/
theorem Moves.grows (h : Moves m m' a)
    (hn : ∀ (s i : Nat) (c : Chunk), (m.received s)[i]? = some c → c.number = i) :
    (∀ (s i : Nat) (c : Chunk), (m'.received s)[i]? = some c → c.number = i) ∧ ∀ s, m.passed s <+: m'.passed s := by
  cases h with
  | quiet hr hp | take t session chunk hr hp => exact ⟨hr ▸ hn, fun s => hp ▸ List.prefix_rfl⟩
  | arrive session chunk hk hr hp =>
    refine ⟨fun s i c hc => ?_, fun s => hp ▸ List.prefix_rfl⟩
    rw [hr] at hc
    by_cases hs : s = session
    · subst hs
      rw [Function.update_self] at hc
      exact numbered_concat (hn s) hk i c hc
    · rw [Function.update_of_ne hs] at hc
      exact hn s i c hc
  | give t ok session chunk ha ht hr hp =>
    refine ⟨hr ▸ hn, fun s => ?_⟩
    rw [hp]
    by_cases hs : s = session
    · subst hs
      rw [Function.update_self]
      exact List.prefix_append _ _
    · simp [Function.update_of_ne hs]

/-- Nothing sets it right again. -/
theorem Lost.step (h : Lost m) (hs : m.step a = some m') : Lost m' := by
  obtain ⟨hn, hpre⟩ := (moves_step hs).grows h.numbered
  obtain ⟨s, i, c, hc, hne⟩ := h.early
  obtain ⟨hi, he⟩ := List.getElem?_eq_some_iff.1 hc
  refine ⟨hn, s, i, c, ?_, hne⟩
  rw [List.prefix_iff_getElem?.1 (hpre s) i hi, he]

/-- A thread that does not wait its turn passes data at the wrong place. -/
theorem lost_of_not_inTurn (h : ∀ s, Flows m s) (hi : ¬ m.InTurn a) (hs : m.step a = some m') : Lost m' := by
  refine ⟨((moves_step hs).grows fun s => (h s).numbered).1, ?_⟩
  cases a with
  | runThread t ok =>
    obtain ⟨session, chunk, ht⟩ : ∃ session chunk, m.threads t = .sendData session chunk := by
      by_contra hnot
      exact hi fun session chunk ht => absurd ⟨session, chunk, ht⟩ hnot
    have hearly := (h session).flow.early (mt (inTurn_held ht).2 hi)
    rw [List.length_map] at hearly
    obtain ⟨posted, rfl⟩ := runThread_sendData ht hs
    refine ⟨session, (m.passed session).length, chunk, ?_, Nat.ne_of_gt hearly⟩
    simp [setThread]
  | _ => exact absurd trivial hi

/-! ## Runs -/

/-- In a run of any number of threads and sessions the echo is in order if and only if
no thread calls `SendData` while one has data of an earlier receive of the session. -/
theorem echoes_iff {n : Nat} {as : List Action} {m : Machine} (hr : run step (start n) as = some m) :
    (∀ s, m.Echoes s) ↔ Meets step InTurn (start n) as := by
  rcases run_or_lost (I := fun _ m => ∀ s, Flows m s) (J := Lost) (fun _ _ _ _ h hi hs => flows_step h hi hs)
    (fun _ _ _ _ h hi hs => lost_of_not_inTurn h hi hs) (fun _ _ _ h hs => h.step hs) (flows_start n) hr with
    ⟨hm, hf⟩ | ⟨hm, hl⟩
  · exact ⟨fun _ => hm, fun _ s => (hf s).echoes⟩
  · exact ⟨fun he => absurd he hl.not_echoes, fun h => absurd h hm⟩

/-- Two receives of a session, handled one after the other by two threads. -/
def oneAfterAnother : List Action :=
  [.connectAndStart 0 true, .complete 0 (some []), .dequeue 0, .runThread 0 true, .complete 0 (some [1]), .dequeue 0,
    .runThread 0 true, .runThread 0 true, .complete 0 (some [2]), .dequeue 1, .runThread 1 true, .runThread 1 true]

theorem echoes_iff_oneAfterAnother :
    ∃ m, run step (start 2) oneAfterAnother = some m ∧ m.passed 0 = [⟨0, [1]⟩, ⟨1, [2]⟩] ∧
      ((∀ s, m.Echoes s) ↔ Meets step InTurn (start 2) oneAfterAnother) := by
  have hmap : (run step (start 2) oneAfterAnother).map (fun m => m.passed 0) = some [⟨0, [1]⟩, ⟨1, [2]⟩] := by
    decide +kernel
  obtain ⟨m, hr, hm⟩ := Option.map_eq_some_iff.1 hmap
  exact ⟨m, hr, hm, echoes_iff hr⟩

/-- The first thread has posted the next receive, and the second one is faster. -/
def overtaken : List Action :=
  [.connectAndStart 0 true, .complete 0 (some []), .dequeue 0, .runThread 0 true, .complete 0 (some [1]), .dequeue 0,
    .runThread 0 true, .complete 0 (some [2]), .dequeue 1, .runThread 1 true, .runThread 1 true, .runThread 0 true]

/-- The bytes 1 and 2 go back as 2 and 1. -/
theorem not_echoes_overtaken :
    ¬ ∀ (n : Nat) (as : List Action) (m : Machine), run step (start n) as = some m → ∀ s, m.Echoes s := by
  intro hall
  have hmap : (run step (start 2) overtaken).map (fun m => (m.received 0, m.passed 0)) =
      some ([⟨0, [1]⟩, ⟨1, [2]⟩], [⟨1, [2]⟩, ⟨0, [1]⟩]) := by
    decide +kernel
  obtain ⟨m, hr, hm⟩ := Option.map_eq_some_iff.1 hmap
  simp only [Prod.mk.injEq] at hm
  have hpassed := (hall 2 overtaken m hr 0).inOrder
  rw [hm.1, hm.2] at hpassed
  exact absurd hpassed (by decide)

end Machine

end GameServer.DataSendingClient
