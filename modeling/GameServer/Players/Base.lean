import GameServer.Lib.Entries
import GameServer.Lifecycle.Homework4
import GameServer.Players
/-!
# The server without its players

Erasing the players from a run leaves a run of `GameServer.Lifecycle`: a step is
one of that machine, or changes nothing of it (`step_base`). So what holds of
the sessions in every state there holds here (`run_base`).
-/

namespace GameServer.Players

open Lib Lifecycle

variable {p p' q : Process} {t : Nat} {th th' : Thread} {answer : Bool} {top : Nat} {a : Action} {i : Step}
  {next : List Step}

/-! ## What a step of the machine is -/

namespace Process

/-- A step of thread `t`. -/
theorem step_run (hs : p.step (.run t answer top) = some p') :
    p.tripped = false ∧ p.server.crashed = none ∧ ∃ th i rest q th' next, p.threads[t]? = some th ∧
      th.todo = i :: rest ∧ p.exec t th answer top i = some (q, th', next) ∧
      p' = q.setThread t { th' with todo := next ++ rest } := by
  unfold step at hs
  split at hs
  · cases hs
  next hc =>
    obtain ⟨th, ht, hs⟩ := Option.bind_eq_some_iff.1 hs
    simp only [Bool.or_eq_true, not_or, Bool.not_eq_true, Option.isSome_eq_false_iff, Option.isNone_iff_eq_none] at hc
    refine ⟨hc.1, hc.2, th, ?_⟩
    unfold runThread at hs
    split at hs
    · cases hs
    next i rest htodo =>
      obtain ⟨⟨q, th', next⟩, hr, rfl⟩ := Option.map_eq_some_iff.1 hs
      exact ⟨i, rest, q, th', next, ht, htodo, hr, rfl⟩

/-- A thread that can take its next step. -/
theorem step_of_exec {rest : List Step} (h₁ : p.tripped = false) (h₂ : p.server.crashed = none)
    (ht : p.threads[t]? = some th) (htodo : th.todo = i :: rest)
    (he : p.exec t th answer top i = some (q, th', next)) :
    p.step (.run t answer top) = some (q.setThread t { th' with todo := next ++ rest }) := by
  simp [step, h₁, h₂, ht, runThread, htodo, he]

/-- A completion is dequeued by an idle thread, which handles it or not. -/
theorem step_dequeue {j : Nat} {c : Completion} (hs : p.step (.dequeue t j c) = some p') :
    p.tripped = false ∧ p.server.crashed = none ∧ ∃ th v, ∃ todo : List Instr, p.threads[t]? = some th ∧ th.todo = [] ∧
      p.base.step .homework4 (.dequeue t j c) = some v ∧ (todo = [] ∨ ∃ job, todo = handler .homework4 c job) ∧
      v.threads = p.base.threads.set t ⟨th.type, todo, []⟩ ∧
      v.mFreeSessionList = p.server.mFreeSessionList ∧
      p' = { p with server := { v with threads := [] } }.setThread t { th with todo := todo.flatMap steps ++ [Step.doTimerJob] } := by
  unfold step at hs
  split at hs
  · cases hs
  next hc =>
    obtain ⟨th, ht, hs⟩ := Option.bind_eq_some_iff.1 hs
    simp only [Bool.or_eq_true, not_or, Bool.not_eq_true, Option.isSome_eq_false_iff, Option.isNone_iff_eq_none] at hc
    unfold dequeue at hs
    split at hs
    next htodo =>
      obtain ⟨v, hv, rfl⟩ := Option.map_eq_some_iff.1 hs
      refine ⟨hc.1, hc.2, th, v, (v.threads[t]?.map Lifecycle.Thread.todo).getD [], ht, htodo, hv, ?_⟩
      have hb : p.base.threads[t]? = some ⟨th.type, [], []⟩ := by simp [base, ht, Thread.base, htodo]
      obtain ⟨-, w, job, hw, -, -, -, ⟨-, rfl⟩ | ⟨-, rfl⟩⟩ := Server.step_dequeue hv
      · simp only [hb, Option.map_some, Option.getD_some, set_of_getElem? hb, true_or, true_and, and_true]
        rfl
      · obtain rfl := Option.some.inj (hw.symm.trans hb)
        have hget : (p.base.threads.set t ⟨th.type, handler .homework4 c job, []⟩)[t]? =
            some ⟨th.type, handler .homework4 c job, []⟩ := by
          simp [(List.getElem?_eq_some_iff.1 hb).1]
        simp only [Server.assign, Server.setThread, hget, Option.map_some, Option.getD_some, true_and, and_true]
        exact ⟨.inr ⟨job, rfl⟩, rfl⟩
    · cases hs

theorem step_tick {ms : Nat} (hs : p.step (.tick ms) = some p') : p' = { p with tickCount := p.tickCount + ms } := by
  unfold step at hs
  split at hs
  · cases hs
  · exact (Option.some.inj hs).symm

end Process

/-! ## Erasing the players -/

theorem filterMap_steps (j : Instr) : (steps j).filterMap Step.instr? = [j] := by
  cases j with
  | isConnected c s => cases c <;> rfl
  | returning r s => cases r <;> rfl
  | _ => rfl

theorem filterMap_flatMap_steps (is : List Instr) : (is.flatMap steps).filterMap Step.instr? = is := by
  induction is with
  | nil => rfl
  | cons j is ih => rw [List.flatMap_cons, List.filterMap_append, filterMap_steps, ih, List.singleton_append]

theorem filterMap_frameSteps (frames : List GrandCentralExecuter.Frame) :
    (frames.flatMap frameSteps).filterMap Step.instr? = [] := by
  induction frames with
  | nil => rfl
  | cons frame frames ih =>
    rw [List.flatMap_cons, List.filterMap_append, ih]
    cases frame <;> rfl

namespace Process

theorem base_setThread : (p.setThread t th).base = p.base.setThread t th.base := by
  simp [base, setThread, Server.setThread, List.map_set]

/-- A step is an instruction of the server, or leaves it alone. -/
theorem exec_base (he : p.exec t th answer top i = some (q, th', next)) :
    th'.type = th.type ∧ q.threads = p.threads ∧
    ((∃ j v n, i = .server j ∧ p.base.exec .homework4 answer j = some (v, n) ∧
        q = { p with server := { v with threads := [] } } ∧ th' = th ∧ next = n.flatMap steps) ∨
      (i.instr? = none ∧ q.server = p.server ∧ next.filterMap Step.instr? = [])) := by
  cases i with
  | server j =>
    obtain ⟨⟨v, n⟩, hv, hr⟩ := Option.map_eq_some_iff.1 he
    cases hr
    exact ⟨rfl, rfl, .inl ⟨j, v, n, rfl, hv, rfl, rfl, rfl⟩⟩
  | push k | pop k =>
    simp only [exec] at he
    split at he <;> cases he <;> exact ⟨rfl, rfl, .inr ⟨rfl, rfl, rfl⟩⟩
  | enterLock s =>
    simp only [exec] at he
    split at he <;> cases he
    exact ⟨rfl, rfl, .inr ⟨rfl, rfl, rfl⟩⟩
  | enterManager exclusive =>
    simp only [exec] at he
    split at he
    · cases he
    · split at he <;> cases he <;> exact ⟨rfl, rfl, .inr ⟨rfl, rfl, rfl⟩⟩
  | leaveManager exclusive =>
    simp only [exec] at he
    split at he <;> cases he <;> exact ⟨rfl, rfl, .inr ⟨rfl, rfl, rfl⟩⟩
  | timerTop =>
    obtain ⟨⟨th₁, n⟩, hr, h⟩ := Option.map_eq_some_iff.1 he
    cases h
    unfold Thread.timerTop at hr
    split at hr
    · split at hr <;> cases hr
      exact ⟨rfl, rfl, .inr ⟨rfl, rfl, rfl⟩⟩
    next e _ =>
      split at hr
      · split at hr <;> cases hr
        · exact ⟨rfl, rfl, .inr ⟨rfl, rfl, rfl⟩⟩
        · refine ⟨rfl, rfl, .inr ⟨rfl, rfl, ?_⟩⟩
          cases e.mTask <;> rfl
      · cases hr
  | onTick s =>
    cases he
    refine ⟨rfl, rfl, .inr ⟨rfl, rfl, ?_⟩⟩
    split
    · cases answer <;> rfl
    · rfl
  | rearm s =>
    cases he
    refine ⟨?_, rfl, .inr ⟨rfl, rfl, rfl⟩⟩
    split <;> rfl
  | gce frame =>
    cases he
    exact ⟨rfl, rfl, .inr ⟨rfl, rfl, filterMap_frameSteps _⟩⟩
  | _ => cases he; exact ⟨rfl, rfl, .inr ⟨rfl, rfl, rfl⟩⟩

/-- An instruction is a step of the server. -/
theorem run_server {j : Instr} {rest : List Step} (hd : p.base.Direct) (hs : p.step (.run t answer top) = some p')
    (ht : p.threads[t]? = some th) (htodo : th.todo = .server j :: rest) :
    p.base.step .homework4 (.run t answer) = some p'.base := by
  obtain ⟨-, hc, th₁, i, rest₁, q, th', next, ht₁, htodo₁, he, rfl⟩ := step_run hs
  obtain rfl := Option.some.inj (ht.symm.trans ht₁)
  obtain ⟨rfl, rfl⟩ := List.cons.inj (htodo.symm.trans htodo₁)
  obtain ⟨⟨v, n⟩, hv, hr⟩ := Option.map_eq_some_iff.1 he
  cases hr
  have hb : p.base.threads[t]? = some th.base := by simp [base, ht]
  have hj : th.base.todo = j :: rest.filterMap Step.instr? := by simp [Thread.base, htodo, Step.instr?]
  have hl : j.later = false := hd.todo _ (List.mem_of_getElem? hb) j (by simp [hj])
  have hvt : v.threads = p.base.threads := Server.exec_threads hv
  have hcb : p.base.crashed.isSome = false := by simp [base, hc]
  have hlist : th.base.LSendRequestSessionList = [] := rfl
  have hstep : p.base.step .homework4 (.run t answer) =
      some (v.setThread t { th.base with todo := n ++ rest.filterMap Step.instr? }) := by
    simp [Server.step, hcb, hb, Server.runThread, hj, hv, hlist, Server.sendRequests_direct hl]
  rw [hstep, base_setThread]
  simp only [Server.setThread, hvt, base, Thread.base, List.filterMap_append, filterMap_flatMap_steps]

/-- A step is one of the server, or leaves it as it is. -/
theorem step_base (hd : p.base.Direct) (hs : p.step a = some p') :
    p'.base = p.base ∨ ∃ b, p.base.step .homework4 b = some p'.base := by
  cases a with
  | run t answer top =>
    obtain ⟨-, -, th, i, rest, q, th', next, ht, htodo, he, hp⟩ := step_run hs
    obtain ⟨hty, hth, ⟨j, v, n, rfl, -⟩ | ⟨hi, hsrv, hn⟩⟩ := exec_base he
    · exact .inr ⟨.run t answer, run_server hd hs ht htodo⟩
    · left
      have hb : p.base.threads[t]? = some th.base := by simp [base, ht]
      have hsame : ({ th' with todo := next ++ rest } : Thread).base = th.base := by
        simp [Thread.base, hty, hn, htodo, hi, List.filterMap_append]
      rw [hp, base_setThread, hsame]
      have hset : (p.threads.map Thread.base).set t th.base = p.threads.map Thread.base := set_of_getElem? hb
      simp only [base, Server.setThread, hsrv, hth, hset]
  | dequeue t j c =>
    obtain ⟨-, -, th, v, todo, ht, -, hv, -, hvt, -, rfl⟩ := step_dequeue hs
    right
    refine ⟨.dequeue t j c, ?_⟩
    rw [hv, base_setThread]
    have htodo : (todo.flatMap steps ++ [Step.doTimerJob]).filterMap Step.instr? = todo := by
      rw [List.filterMap_append, filterMap_flatMap_steps]
      exact List.append_nil todo
    simp only [Server.setThread, base, Thread.base, htodo]
    simp only [base] at hvt
    rw [← hvt]
  | tick ms =>
    obtain rfl := step_tick hs
    exact .inl rfl

/-- What `Lifecycle` says of the sessions. -/
structure Sound (p : Process) : Prop where
  consistent : p.base.Consistent
  direct : p.base.Direct
  crashed : p.server.crashed = none

theorem step_sound (hp : p.Sound) (hs : p.step a = some p') : p'.Sound := by
  rcases step_base hp.direct hs with hb | ⟨b, hb⟩
  · refine ⟨hb ▸ hp.consistent, hb ▸ hp.direct, ?_⟩
    have hc : p'.base.crashed = none := hb ▸ hp.crashed
    exact hc
  · have hc : p'.base.crashed = none := Server.step_direct_no_crash hp.consistent hp.direct hb
    exact ⟨Server.step_consistent hp.consistent (Server.direct_spares hp.direct b) hb, Server.step_direct hp.direct hb, hc⟩

theorem start_base (n : Nat) : (start n).base = Server.start .homework4 n := by
  have hmain : (Thread.start .main (steps .startAccept)).base = ⟨.main, [.startAccept], []⟩ := rfl
  have hworker : (Thread.start .ioWorker [.doTimerJob]).base = ⟨.ioWorker, [], []⟩ := rfl
  simp only [start, base, List.map_cons, List.map_replicate, hmain, hworker]
  rfl

theorem start_sound (n : Nat) : (start n).Sound := by
  have hb := start_base n
  refine ⟨?_, ?_, by simp [start, Server.start]⟩
  · rw [hb]; exact Server.start_consistent .homework4 n
  · rw [hb]; exact Server.start_direct n

end Process

/-! ## Contexts that nobody dequeues -/

/-- The same action behind `n` more contexts. -/
def Action.shift (n : Nat) : Action → Action
  | .dequeue t i c => .dequeue t (n + i) c
  | a => a

namespace Process

def behind (p : Process) (jobs : List Job) : Process := { p with server := p.server.behind jobs }

/-- A step that is no instruction does not see the server. -/
theorem exec_with (w : Server) (hi : i.instr? = none) (he : p.exec t th answer top i = some (q, th', next)) :
    ({ p with server := w } : Process).exec t th answer top i = some ({ q with server := w }, th', next) := by
  cases i with
  | server j => cases hi
  | push k | pop k =>
    simp only [exec] at he
    split at he <;> cases he
    next hk => simp only [exec, hk]
    next hk => simp only [exec, hk]
  | enterLock x =>
    simp only [exec] at he
    split at he <;> cases he
    next hk => exact if_neg hk
  | enterManager exclusive =>
    simp only [exec] at he
    split at he
    · cases he
    next hw =>
      split at he <;> cases he
      next hx => exact (if_neg hw).trans (if_pos hx)
      next hx => exact (if_neg hw).trans (if_neg hx)
  | leaveManager exclusive =>
    simp only [exec] at he
    split at he <;> cases he
    next hx => exact if_pos hx
    next hx => exact if_neg hx
  | timerTop =>
    obtain ⟨r, hr, h⟩ := Option.map_eq_some_iff.1 he
    cases h
    exact Option.map_eq_some_iff.2 ⟨r, hr, rfl⟩
  | _ => cases he; rfl

theorem exec_behind (jobs : List Job) (he : p.exec t th answer top i = some (q, th', next)) :
    (p.behind jobs).exec t th answer top i = some (q.behind jobs, th', next) := by
  obtain ⟨-, -, ⟨j, v, n, rfl, hv, rfl, rfl, rfl⟩ | ⟨hi, hq, -⟩⟩ := exec_base he
  · have hb : (p.behind jobs).base = p.base.behind jobs := rfl
    simp only [exec, hb, Server.exec_behind, hv, Option.map_some]
    rfl
  · rw [behind, exec_with (p.server.behind jobs) hi he, behind, hq]

theorem step_behind (jobs : List Job) (hs : p.step a = some p') :
    (p.behind jobs).step (a.shift jobs.length) = some (p'.behind jobs) := by
  cases a with
  | run t answer top =>
    obtain ⟨htr, hc, th, i, rest, q, th', next, ht, htodo, he, rfl⟩ := step_run hs
    have hexec := exec_behind jobs he
    exact step_of_exec (p := p.behind jobs) htr hc ht htodo hexec
  | dequeue t k c =>
    obtain ⟨htr, hc, th, -, -, ht, htodo, -⟩ := step_dequeue hs
    have hb : (p.behind jobs).base = p.base.behind jobs := rfl
    have ht' : (p.behind jobs).threads[t]? = some th := ht
    simp only [step, ht, Option.bind_some, dequeue, htodo, if_true, Option.ite_none_left_eq_some] at hs
    obtain ⟨v, hv, rfl⟩ := Option.map_eq_some_iff.1 hs.2
    have hcrash : ¬ ((p.behind jobs).tripped || (p.behind jobs).server.crashed.isSome) = true := hs.1
    simp only [step, Action.shift, hcrash, ht', Option.bind_some, dequeue, htodo, if_true, hb, Server.step_dequeue_behind, hv]
    rfl
  | tick ms =>
    unfold step at hs ⊢
    split at hs <;> cases hs
    next hc => exact if_neg hc

theorem run_behind (jobs : List Job) {as : List Action} (hr : run step p as = some q) :
    run step (p.behind jobs) (as.map (·.shift jobs.length)) = some (q.behind jobs) :=
  run_map (·.behind jobs) (·.shift jobs.length) (fun _ _ _ => step_behind jobs) hr

end Process

end GameServer.Players
