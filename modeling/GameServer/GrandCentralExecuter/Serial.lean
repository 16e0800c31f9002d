import Mathlib.Data.List.Nodup
import Mathlib.Data.List.Perm.Basic
import Mathlib.Data.List.Range
import GameServer.GrandCentralExecuter
import GameServer.Lib.Entries
import GameServer.Lib.Tally
/-!
# One executor, no stranded task

The counter is the number of tasks that are counted and not finished: in front
of the push, in the queue, or run. While it is not 0 there is one thread in the
loop, and it leaves the loop exactly when it brings the counter to 0.
-/

namespace GameServer

open Lib

namespace GrandCentralExecuter

variable {s s' : Process} {t : Thread} {task : Task} {i j n : Nat} {f : Frame} {rest new : List Frame}

/-! ## What a frame stands for -/

/-- The task is counted and neither in the queue nor finished. -/
def Frame.counts : Frame → Bool
  | .push _ | .pushFirst _ | .running _ | .decrement _ => true
  | .increment _ | .tryPop => false

/-- The task is not counted yet. -/
def Frame.uncounted : Frame → Option Task
  | .increment task => some task
  | _ => none

/-- The task is counted and not pushed yet. -/
def Frame.entering : Frame → Option Task
  | .push task | .pushFirst task => some task
  | _ => none

/-- The task is not pushed yet. -/
def Frame.unpushed : Frame → Option Task
  | .increment task | .push task | .pushFirst task => some task
  | _ => none

/-- The task is popped and not finished. -/
def Frame.active : Frame → Option Task
  | .running task | .decrement task => some task
  | _ => none

def Frame.isRunning : Frame → Bool
  | .running _ => true
  | _ => false

namespace Process

/-- The frames of all threads. -/
def frames (s : Process) : List (List Frame) := s.threads.map (·.frames)

/-- Thread `i`, or one that has made no call. -/
def thread (s : Process) (i : Nat) : Thread := s.threads[i]?.getD ⟨0, []⟩

/-- The tasks of thread `i` are those of `done`, then those `left` in its frames, in the order of its calls. -/
def InOrder (s : Process) (done : List Task) (left : Frame → Option Task) (i : Nat) : Prop :=
  done.filter (·.caller = i) ++ (s.thread i).frames.filterMap left = (List.range (s.thread i).calls).map (⟨i, ·⟩)

/-- What every step keeps. -/
structure Serial (s : Process) : Prop where
  count : s.gce.mRemainTaskCount = ((tally Frame.counts s.frames + s.gce.mCentralTaskQueue.length : Nat) : Int)
  single : tally Frame.executes s.frames = if s.gce.mRemainTaskCount = 0 then 0 else 1
  below : ∀ t ∈ s.threads, ∀ f ∈ t.frames.tail, f.isRunning = true
  fifo : s.gce.pushed = s.gce.executed ++ s.gce.mCentralTaskQueue
  active : s.gce.executed = s.gce.completed ++ s.frames.flatten.filterMap Frame.active
  entering : s.gce.incremented.Perm (s.gce.pushed ++ s.frames.flatten.filterMap Frame.entering)
  counted : ∀ i, s.InOrder s.gce.incremented Frame.uncounted i
  pushed : ∀ i, s.InOrder s.gce.pushed Frame.unpushed i

end Process

/-! ## Replacing one frame -/

section
variable {ls : List (List Frame)}

theorem tally_replace (new : List Frame) {p : Frame → Bool} (h : ls[i]? = some (f :: rest)) :
    tally p (ls.set i (new ++ rest)) + (p f).toNat = tally p ls + new.countP p := by
  rw [tally_set h, tally_eq_erase h, List.countP_append, List.countP_cons]
  cases p f <;> simp only [Bool.toNat_true, Bool.toNat_false, Bool.false_eq_true, if_true, if_false] <;> omega

theorem flatten_perm {l : List Frame} (h : ls[i]? = some l) : ls.flatten.Perm (l ++ (ls.eraseIdx i).flatten) := by
  obtain ⟨hlt, rfl⟩ := List.getElem?_eq_some_iff.1 h
  exact (List.getElem_cons_eraseIdx_perm hlt).symm.flatten

theorem flatten_set_perm {l : List Frame} (l' : List Frame) (h : ls[i]? = some l) :
    (ls.set i l').flatten.Perm (l' ++ (ls.eraseIdx i).flatten) := by
  have hlt : i < ls.length := (List.getElem?_eq_some_iff.1 h).1
  have hset : (ls.set i l')[i]? = some l' := by simp [hlt]
  have hp := flatten_perm hset
  rwa [List.eraseIdx_set_eq] at hp

theorem filterMap_replace (new : List Frame) {g : Frame → Option Task} (h : ls[i]? = some (f :: rest)) :
    ((ls.set i (new ++ rest)).flatten.filterMap g ++ [f].filterMap g).Perm
      (ls.flatten.filterMap g ++ new.filterMap g) := by
  have h₁ := (flatten_perm h).filterMap g
  have h₂ := (flatten_set_perm (new ++ rest) h).filterMap g
  rw [← List.singleton_append (l := rest)] at h₁
  simp only [List.filterMap_append, List.append_assoc] at h₁ h₂
  refine List.perm_iff_count.2 fun a => ?_
  have hc₁ := h₁.count_eq a
  have hc₂ := h₂.count_eq a
  simp only [List.count_append] at hc₁ hc₂ ⊢
  omega

theorem filterMap_set_same {g : Frame → Option Task} {l l' : List Frame} (h : ls[i]? = some l)
    (hg : l'.filterMap g = l.filterMap g) :
    (ls.set i l').flatten.filterMap g = ls.flatten.filterMap g := by
  obtain ⟨hlt, rfl⟩ := List.getElem?_eq_some_iff.1 h
  rw [List.filterMap_flatten, List.map_set, hg, ← List.map_set, List.set_getElem_self, List.filterMap_flatten]

theorem filterMap_replace_same {g : Frame → Option Task} (h : ls[i]? = some (f :: rest))
    (hg : new.filterMap g = [f].filterMap g) :
    (ls.set i (new ++ rest)).flatten.filterMap g = ls.flatten.filterMap g := by
  refine filterMap_set_same h ?_
  rw [← List.singleton_append (l := rest), List.filterMap_append, List.filterMap_append, hg]

/-- If one frame of all executes, the tasks popped are those of that frame. -/
theorem filterMap_active (new : List Frame) (h : ls[i]? = some (f :: rest)) (h1 : tally Frame.executes ls = 1)
    (hf : f.executes = true) :
    ((ls.set i (new ++ rest)).flatten.filterMap Frame.active).Perm (new.filterMap Frame.active) := by
  have hidle : ∀ l : List Frame, l.countP Frame.executes = 0 → l.filterMap Frame.active = [] := by
    intro l hl
    refine List.filterMap_eq_nil_iff.2 fun g hg => ?_
    have := List.countP_eq_zero.1 hl g hg
    cases g <;> simp_all [Frame.executes, Frame.active]
  rw [tally_eq_erase h, List.countP_cons, hf, if_pos rfl] at h1
  have hrest : rest.countP Frame.executes = 0 := by omega
  have herase : (ls.eraseIdx i).flatten.countP Frame.executes = 0 := by
    rw [List.countP_flatten]
    unfold tally at h1
    omega
  refine ((flatten_set_perm _ h).filterMap _).trans (List.Perm.of_eq ?_)
  rw [List.filterMap_append, List.filterMap_append, hidle _ hrest, hidle _ herase, List.append_nil, List.append_nil]

end

namespace Process

variable {g' : GrandCentralExecuter} {done d : List Task} {left : Frame → Option Task}

theorem thread_eq (ht : s.threads[i]? = some t) : s.thread i = t := by
  simp [thread, ht]

theorem thread_set (ht : s.threads[i]? = some t) (t' : Thread) (j : Nat) :
    (Process.mk g' (s.threads.set i t')).thread j = if j = i then t' else s.thread j := by
  have hlt : i < s.threads.length := (List.getElem?_eq_some_iff.1 ht).1
  by_cases hj : j = i
  · subst hj
    simp [thread, hlt]
  · simp [thread, hj, List.getElem?_set_ne (Ne.symm hj)]

/-- A step of thread `i` that moves `d` from its frames to `done` keeps the order of calls. -/
theorem inOrder_replace (h : ∀ j, s.InOrder done left j) (ht : s.threads[i]? = some t)
    (hf : t.frames = f :: rest) (hd : [f].filterMap left = d ++ new.filterMap left) (j : Nat) :
    InOrder ⟨g', s.threads.set i { t with frames := new ++ rest }⟩ (done ++ d) left j := by
  have hi := h i
  simp only [InOrder, thread_eq ht, hf] at hi
  rw [← List.singleton_append (l := rest), List.filterMap_append, hd] at hi
  have hcaller : ∀ task ∈ d, task.caller = i := by
    intro task hmem
    have : task ∈ (List.range t.calls).map (Task.mk i) := hi ▸ by simp [hmem]
    obtain ⟨k, -, rfl⟩ := List.mem_map.1 this
    rfl
  rw [InOrder, thread_set ht]
  by_cases hj : j = i
  · subst hj
    have hdj : d.filter (·.caller = j) = d := List.filter_eq_self.2 fun task hmem => by simp [hcaller task hmem]
    rw [if_pos rfl, List.filter_append, hdj, List.filterMap_append, ← hi]
    simp only [List.append_assoc]
  · have hdj : d.filter (·.caller = j) = [] :=
      List.filter_eq_nil_iff.2 fun task hmem => by simp [hcaller task hmem, Ne.symm hj]
    rw [if_neg hj, List.filter_append, hdj, List.append_nil]
    exact h j

theorem below_replace (h : ∀ t ∈ s.threads, ∀ f ∈ t.frames.tail, f.isRunning = true)
    (ht : s.threads[i]? = some t) (hf : t.frames = f :: rest) (hnew : new.length ≤ 1) :
    ∀ u ∈ s.threads.set i { t with frames := new ++ rest }, ∀ f ∈ u.frames.tail, f.isRunning = true := by
  have hrest : ∀ f ∈ rest, f.isRunning = true := by
    have := h t (List.mem_of_getElem? ht)
    rwa [hf] at this
  intro u hu k hk
  rcases List.mem_or_eq_of_mem_set hu with hu | rfl
  · exact h u hu k hk
  · match new, hnew with
    | [], _ => exact hrest k (List.mem_of_mem_tail hk)
    | [_], _ => exact hrest k hk

/-! ## One step -/

theorem serial_start (n : Nat) : Serial (start n) := by
  have hframes : (start n).frames = List.replicate n [] := List.map_replicate
  have htally (p : Frame → Bool) : tally p (start n).frames = 0 := by
    rw [hframes, tally_eq_zero]
    intro l hl f hf
    rw [List.eq_of_mem_replicate hl] at hf
    cases hf
  have hflat : (start n).frames.flatten = [] := by
    rw [hframes, List.flatten_eq_nil_iff]
    exact fun l hl => List.eq_of_mem_replicate hl
  have hthread (i : Nat) : (start n).thread i = ⟨0, []⟩ := by
    unfold thread start
    by_cases hi : i < n <;> simp [hi]
  refine ⟨?_, ?_, ?_, rfl, ?_, ?_, fun i => ?_, fun i => ?_⟩
  · rw [htally]
    rfl
  · rw [htally]
    rfl
  · intro t ht
    rw [List.eq_of_mem_replicate ht]
    simp
  · rw [hflat]
    rfl
  · rw [hflat]
    exact .refl _
  · rw [InOrder, hthread]
    rfl
  · rw [InOrder, hthread]
    rfl

/-- A thread that calls `DoDispatch` has only calls that run a task around it. -/
theorem running_of_free (hs : Serial s) (ht : s.threads[i]? = some t) (hfree : t.free = true) :
    ∀ f ∈ t.frames, f.isRunning = true := by
  have hbelow := hs.below t (List.mem_of_getElem? ht)
  intro f hf
  cases hfr : t.frames with
  | nil => simp [hfr] at hf
  | cons g rest =>
    rw [hfr] at hf hbelow
    rcases List.mem_cons.1 hf with rfl | hf
    · cases f <;> simp_all [Thread.free, Frame.isRunning]
    · exact hbelow f hf

theorem inOrder_dispatch (h : ∀ j, s.InOrder done left j) (ht : s.threads[i]? = some t)
    (hl : ∀ task, left (.increment task) = some task) (hr : t.frames.filterMap left = []) (j : Nat) :
    InOrder { s with threads := s.threads.set i ⟨t.calls + 1, .increment ⟨i, t.calls⟩ :: t.frames⟩ } done left j := by
  rw [InOrder, thread_set ht]
  by_cases hj : j = i
  · subst hj
    have hi := h j
    rw [InOrder, thread_eq ht, hr, List.append_nil] at hi
    rw [if_pos rfl, List.range_succ, List.map_append, ← hi, List.filterMap_cons, hl, hr]
    rfl
  · rw [if_neg hj]
    exact h j

theorem serial_dispatch (hs : Serial s) (ht : s.threads[i]? = some t) (hfree : t.free = true) :
    Serial { s with threads := s.threads.set i ⟨t.calls + 1, .increment ⟨i, t.calls⟩ :: t.frames⟩ } := by
  have hls : s.frames[i]? = some t.frames := by simp [frames, ht]
  have hframes : (Process.mk s.gce (s.threads.set i ⟨t.calls + 1, .increment ⟨i, t.calls⟩ :: t.frames⟩)).frames =
      s.frames.set i (.increment ⟨i, t.calls⟩ :: t.frames) := List.map_set
  have hrun := running_of_free hs ht hfree
  have htally {p : Frame → Bool} (hp : p (.increment ⟨i, t.calls⟩) = false) :
      tally p (s.frames.set i (.increment ⟨i, t.calls⟩ :: t.frames)) = tally p s.frames := by
    rw [tally_set hls, List.countP_cons_of_neg (by simp [hp]), ← tally_eq_erase hls]
  have hnil {g : Frame → Option Task} (hg : ∀ task, g (.running task) = none) : t.frames.filterMap g = [] := by
    refine List.filterMap_eq_nil_iff.2 fun f hf => ?_
    have := hrun f hf
    cases f <;> simp_all [Frame.isRunning]
  refine ⟨?_, ?_, ?_, hs.fifo, ?_, ?_, ?_, ?_⟩
  · rw [hframes, htally rfl]
    exact hs.count
  · rw [hframes, htally rfl]
    exact hs.single
  · exact forall_set hs.below hrun
  · rw [hframes, filterMap_set_same hls (List.filterMap_cons_none rfl)]
    exact hs.active
  · rw [hframes, filterMap_set_same hls (List.filterMap_cons_none rfl)]
    exact hs.entering
  · exact inOrder_dispatch hs.counted ht (fun _ => rfl) (hnil fun _ => rfl)
  · exact inOrder_dispatch hs.pushed ht (fun _ => rfl) (hnil fun _ => rfl)

/-- What is left to check of a step that turns the frame `f` into `new`: the
tasks `dI` are counted and the tasks `dP` pushed. -/
theorem serial_replace (hs : Serial s) (ht : s.threads[i]? = some t) (hf : t.frames = f :: rest)
    (dI dP : List Task) (hnew : new.length ≤ 1)
    (hcount : g'.mRemainTaskCount + f.counts.toNat + s.gce.mCentralTaskQueue.length =
      s.gce.mRemainTaskCount + new.countP Frame.counts + g'.mCentralTaskQueue.length)
    (hsingle : tally Frame.executes s.frames + new.countP Frame.executes =
      (if g'.mRemainTaskCount = 0 then 0 else 1) + f.executes.toNat)
    (hfifo : g'.pushed = g'.executed ++ g'.mCentralTaskQueue)
    (hactive : g'.executed = g'.completed ++ (s.frames.set i (new ++ rest)).flatten.filterMap Frame.active)
    (hI : g'.incremented = s.gce.incremented ++ dI) (hP : g'.pushed = s.gce.pushed ++ dP)
    (hentering : (dI ++ [f].filterMap Frame.entering).Perm (dP ++ new.filterMap Frame.entering))
    (huncounted : [f].filterMap Frame.uncounted = dI ++ new.filterMap Frame.uncounted)
    (hunpushed : [f].filterMap Frame.unpushed = dP ++ new.filterMap Frame.unpushed) :
    Serial ⟨g', s.threads.set i { t with frames := new ++ rest }⟩ := by
  have hls : s.frames[i]? = some (f :: rest) := by simp [frames, ht, hf]
  have hframes : (Process.mk g' (s.threads.set i { t with frames := new ++ rest })).frames =
      s.frames.set i (new ++ rest) := List.map_set
  have hcounts := tally_replace new (p := Frame.counts) hls
  have hexec := tally_replace new (p := Frame.executes) hls
  have hc := hs.count
  refine ⟨?_, ?_, below_replace hs.below ht hf hnew, hfifo, hframes ▸ hactive, ?_, ?_, ?_⟩
  · rw [hframes]
    simp only
    omega
  · rw [hframes]
    simp only
    omega
  · rw [hframes]
    refine List.perm_iff_count.2 fun a => ?_
    have h₁ := hs.entering.count_eq a
    have h₂ := (filterMap_replace new (g := Frame.entering) hls).count_eq a
    have h₃ := hentering.count_eq a
    simp only [List.count_append, hI, hP] at h₁ h₂ h₃ ⊢
    omega
  · exact hI ▸ inOrder_replace hs.counted ht hf huncounted
  · exact hP ▸ inOrder_replace hs.pushed ht hf hunpushed

theorem serial_advance (hs : Serial s) (ht : s.threads[i]? = some t) (hf : t.frames = f :: rest) :
    Serial ⟨(s.gce.doDispatch f).1, s.threads.set i { t with frames := (s.gce.doDispatch f).2 ++ rest }⟩ := by
  have hls : s.frames[i]? = some (f :: rest) := by simp [frames, ht, hf]
  have hc := hs.count
  have hone := hs.single
  -- a frame that executes is the only one of the kind
  have hmine : f.executes = true → tally Frame.executes s.frames = 1 ∧ s.gce.mRemainTaskCount ≠ 0 := by
    intro hfe
    have hpos : 0 < tally Frame.executes s.frames := by
      rw [tally_eq_erase hls, List.countP_cons, hfe, if_pos rfl]
      omega
    split at hone
    · omega
    · exact ⟨hone, ‹_›⟩
  have hkeep {new : List Frame} (hg : new.filterMap Frame.active = [f].filterMap Frame.active) :
      s.gce.executed = s.gce.completed ++ (s.frames.set i (new ++ rest)).flatten.filterMap Frame.active := by
    rw [filterMap_replace_same hls hg]
    exact hs.active
  cases f with
  | increment task =>
    by_cases h1 : s.gce.mRemainTaskCount + 1 > 1
    · have h0 : s.gce.mRemainTaskCount ≠ 0 := by omega
      have h0' : s.gce.mRemainTaskCount + 1 ≠ 0 := by omega
      simp only [doDispatch, if_pos h1]
      refine serial_replace hs ht hf [task] [] le_rfl ?_ ?_ hs.fifo (hkeep rfl) rfl
        (List.append_nil _).symm (.refl _) rfl rfl
      · simp [Frame.counts]
      · simp [Frame.executes, hone, h0, h0']
    · have h0 : s.gce.mRemainTaskCount = 0 := by omega
      simp only [doDispatch, if_neg h1]
      refine serial_replace hs ht hf [task] [] le_rfl ?_ ?_ hs.fifo (hkeep rfl) rfl
        (List.append_nil _).symm (.refl _) rfl rfl
      · simp [Frame.counts]
      · simp [Frame.executes, hone, h0]
  | push task =>
    refine serial_replace hs ht hf [] [task] (Nat.zero_le _) ?_ ?_ ?_ (hkeep rfl)
      (List.append_nil _).symm rfl (.refl _) rfl rfl
    · simp [doDispatch, enqueue, Frame.counts]
      omega
    · exact congrArg (· + 0) hone
    · simp [doDispatch, enqueue, hs.fifo]
  | pushFirst task =>
    refine serial_replace hs ht hf [] [task] le_rfl ?_ ?_ ?_ (hkeep rfl)
      (List.append_nil _).symm rfl (.refl _) rfl rfl
    · simp [doDispatch, enqueue, Frame.counts]
      omega
    · exact congrArg (· + 1) hone
    · simp [doDispatch, enqueue, hs.fifo]
  | tryPop =>
    cases hq : s.gce.mCentralTaskQueue with
    | nil =>
      simp only [doDispatch, hq]
      refine serial_replace hs ht hf [] [] le_rfl ?_ ?_ hs.fifo (hkeep rfl)
        (List.append_nil _).symm (List.append_nil _).symm (.refl _) rfl rfl
      · simp [Frame.counts]
      · exact congrArg (· + 1) hone
    | cons task queue =>
      obtain ⟨h1, -⟩ := hmine rfl
      -- nothing else is run: what was popped so far is finished
      have hnil := List.perm_nil.1 (filterMap_active [.tryPop] hls h1 rfl)
      have hnow := List.perm_singleton.1 (filterMap_active [.running task] hls h1 rfl)
      rw [filterMap_replace_same hls rfl] at hnil
      have hact := hs.active
      rw [hnil, List.append_nil] at hact
      simp only [doDispatch, hq]
      refine serial_replace hs ht hf [] [] le_rfl ?_ ?_ ?_ ?_
        (List.append_nil _).symm (List.append_nil _).symm (.refl _) rfl rfl
      · simp [Frame.counts, hq]
        omega
      · exact congrArg (· + 1) hone
      · simp [hs.fifo, hq]
      · simp only [hnow, hact]
  | running task =>
    refine serial_replace hs ht hf [] [] le_rfl ?_ ?_ hs.fifo (hkeep rfl)
      (List.append_nil _).symm (List.append_nil _).symm (.refl _) rfl rfl
    · simp [doDispatch, Frame.counts]
    · exact congrArg (· + 1) hone
  | decrement task =>
    obtain ⟨h1, h0⟩ := hmine rfl
    have hthis := List.perm_singleton.1 (filterMap_active [.decrement task] hls h1 rfl)
    rw [filterMap_replace_same hls rfl] at hthis
    have hact := hs.active
    rw [hthis] at hact
    have hafter (new : List Frame) (hg : new.filterMap Frame.active = []) :
        (s.frames.set i (new ++ rest)).flatten.filterMap Frame.active = [] := by
      have := filterMap_active new hls h1 rfl
      rwa [hg, List.perm_nil] at this
    by_cases hlast : 0 = s.gce.mRemainTaskCount - 1
    · simp only [doDispatch, if_pos hlast]
      refine serial_replace hs ht hf [] [] (Nat.zero_le _) ?_ ?_ hs.fifo ?_
        (List.append_nil _).symm (List.append_nil _).symm (.refl _) rfl rfl
      · simp [Frame.counts]
      · simp [Frame.executes, h1, hlast.symm]
      · simp only [hafter [] rfl, List.append_nil, hact]
    · simp only [doDispatch, if_neg hlast]
      refine serial_replace hs ht hf [] [] le_rfl ?_ ?_ hs.fifo ?_
        (List.append_nil _).symm (List.append_nil _).symm (.refl _) rfl rfl
      · simp [Frame.counts]
      · simp [Frame.executes, h1, Ne.symm hlast]
      · simp only [hafter [.tryPop] rfl, List.append_nil, hact]

theorem serial_step {a : Action} (hs : Serial s) (h : step s a = some s') : Serial s' := by
  cases a with
  | dispatch i =>
    simp only [step, Option.bind_eq_some_iff, Option.ite_none_right_eq_some, Option.some.injEq] at h
    obtain ⟨t, ht, hfree, rfl⟩ := h
    exact serial_dispatch hs ht hfree
  | advance i =>
    simp only [step, Option.bind_eq_some_iff] at h
    obtain ⟨t, ht, h⟩ := h
    cases hf : t.frames with
    | nil => simp [hf] at h
    | cons f rest =>
      simp only [hf, Option.some.injEq] at h
      exact h ▸ serial_advance hs ht hf

/-! ## Every task, once, in order -/

theorem nodup_of_inOrder (h : ∀ i, s.InOrder done left i) : done.Nodup := by
  refine List.nodup_iff_count_le_one.2 fun task => ?_
  have hnodup : ((List.range (s.thread task.caller).calls).map (Task.mk task.caller)).Nodup :=
    List.nodup_range.map fun _ _ heq => (Task.mk.inj heq).2
  rw [← h task.caller] at hnodup
  have hcount := List.nodup_iff_count_le_one.1 hnodup task
  rw [List.count_append, List.count_filter (by simp)] at hcount
  omega

theorem pairwise_of_inOrder (h : s.InOrder done left i) :
    (done.filter (·.caller = i)).Pairwise (·.number < ·.number) := by
  have hrange : ((List.range (s.thread i).calls).map (Task.mk i)).Pairwise (·.number < ·.number) :=
    List.pairwise_map.2 List.pairwise_lt_range
  rw [← h] at hrange
  exact (List.pairwise_append.1 hrange).1

theorem dispatched_iff : s.Dispatched task ↔ task ∈ (List.range (s.thread task.caller).calls).map (Task.mk task.caller) := by
  have hmem : task ∈ (List.range (s.thread task.caller).calls).map (Task.mk task.caller) ↔
      task.number < (s.thread task.caller).calls := by
    simp only [List.mem_map, List.mem_range]
    constructor
    · rintro ⟨k, hk, heq⟩
      exact heq ▸ hk
    · exact fun hlt => ⟨task.number, hlt, rfl⟩
  rw [hmem, Dispatched, thread]
  cases ht : s.threads[task.caller]? with
  | none => simp
  | some t => simp

theorem dispatched_of_mem (h : ∀ i, s.InOrder done left i) (hmem : task ∈ done) : s.Dispatched task := by
  rw [dispatched_iff, ← h task.caller]
  simp [hmem]

/-- With no call going on, every dispatched task has been executed, and once. -/
theorem count_eq_one (hs : Serial s) (hidle : ∀ t ∈ s.threads, t.frames = []) (hd : s.Dispatched task) :
    s.gce.executed.count task = 1 := by
  have hnone (p : Frame → Bool) : tally p s.frames = 0 := by
    refine tally_eq_zero.2 fun l hl f hf => ?_
    obtain ⟨t, ht, rfl⟩ := List.mem_map.1 hl
    simp [hidle t ht] at hf
  have h0 : s.gce.mRemainTaskCount = 0 := by
    have hone := hs.single
    rw [hnone] at hone
    split at hone
    · assumption
    · cases hone
  have hc := hs.count
  rw [h0, hnone, Nat.zero_add] at hc
  have hq : s.gce.mCentralTaskQueue = [] := List.eq_nil_of_length_eq_zero (by omega)
  have hexec := hs.fifo
  rw [hq, List.append_nil] at hexec
  obtain ⟨t, ht, -⟩ := id hd
  have hp := hs.pushed task.caller
  rw [InOrder, thread_eq ht, hidle t (List.mem_of_getElem? ht), List.filterMap_nil, List.append_nil] at hp
  rw [dispatched_iff, thread_eq ht, ← hp] at hd
  rw [← hexec]
  exact List.count_eq_one_of_mem (nodup_of_inOrder hs.pushed) (List.mem_of_mem_filter hd)

theorem countP_counts (l : List Frame) :
    l.countP Frame.counts = (l.filterMap Frame.active).length + (l.filterMap Frame.entering).length := by
  induction l with
  | nil => rfl
  | cons f l ih =>
    cases f <;>
      simp [List.countP_cons, List.filterMap_cons, Frame.counts, Frame.active, Frame.entering, ih] <;> omega

theorem mRemainTaskCount_eq (hs : Serial s) :
    s.gce.mRemainTaskCount = ((s.gce.incremented.filter (· ∉ s.gce.completed)).length : Int) := by
  have htally : tally Frame.counts s.frames = (s.frames.flatten.filterMap Frame.active).length +
      (s.frames.flatten.filterMap Frame.entering).length := by
    rw [← countP_counts, List.countP_flatten]
    rfl
  have hperm := hs.entering
  rw [hs.fifo, hs.active, List.append_assoc, List.append_assoc] at hperm
  have hnodup := hperm.nodup_iff.1 (nodup_of_inOrder hs.counted)
  have hdisj := List.disjoint_of_nodup_append hnodup
  have hkeep : ∀ task ∈ s.frames.flatten.filterMap Frame.active ++
      (s.gce.mCentralTaskQueue ++ s.frames.flatten.filterMap Frame.entering), task ∉ s.gce.completed :=
    fun task hmem hc => hdisj hc hmem
  rw [(hperm.filter _).length_eq, List.filter_append, List.filter_eq_nil_iff.2 (by simp), List.nil_append,
    List.filter_eq_self.2 (by simpa using hkeep), hs.count, htally]
  simp only [List.length_append]
  omega

/-! ## Calls come to an end -/

/-- Steps left for the task or the call of a frame. -/
def weight : Frame → Nat
  | .increment _ => 6
  | .push _ | .pushFirst _ => 5
  | .running _ => 3
  | .decrement _ => 2
  | .tryPop => 0

def weights (l : List Frame) : Nat := (l.map weight).sum

/-- What the calls made so far can still do, apart from polling an empty queue. -/
def remaining (s : Process) : Nat := weights s.frames.flatten + 4 * s.gce.mCentralTaskQueue.length

theorem weights_replace (new : List Frame) {ls : List (List Frame)} (h : ls[i]? = some (f :: rest)) :
    weights (ls.set i (new ++ rest)).flatten + weight f = weights ls.flatten + weights new := by
  have h₁ := ((flatten_perm h).map weight).sum_nat
  have h₂ := ((flatten_set_perm (new ++ rest) h).map weight).sum_nat
  unfold weights
  simp only [List.map_append, List.map_cons, List.sum_append, List.sum_cons] at h₁ h₂
  omega

/-- A step of a call polls the empty queue, or leaves less to do. -/
theorem doDispatch_remaining (ht : s.threads[i]? = some t) (hf : t.frames = f :: rest)
    (hpoll : f = .tryPop → s.gce.mCentralTaskQueue ≠ []) :
    remaining ⟨(s.gce.doDispatch f).1, s.threads.set i { t with frames := (s.gce.doDispatch f).2 ++ rest }⟩ <
      s.remaining := by
  have hls : s.frames[i]? = some (f :: rest) := by simp [frames, ht, hf]
  have hframes (g' : GrandCentralExecuter) (new : List Frame) :
      (Process.mk g' (s.threads.set i { t with frames := new ++ rest })).frames = s.frames.set i (new ++ rest) :=
    List.map_set
  have hsum := weights_replace (s.gce.doDispatch f).2 hls
  rw [remaining, remaining, hframes]
  cases f with
  | increment task =>
    have hw : weights (s.gce.doDispatch (.increment task)).2 = 5 := by
      simp only [doDispatch]
      split <;> rfl
    have hw' : weight (.increment task) = 6 := rfl
    simp only [hw, hw'] at hsum
    simp only [doDispatch] at hsum ⊢
    omega
  | push task | pushFirst task =>
    simp [doDispatch, enqueue, weights, weight] at hsum ⊢
    omega
  | tryPop =>
    cases hq : s.gce.mCentralTaskQueue with
    | nil => exact absurd hq (hpoll rfl)
    | cons task queue =>
      simp only [doDispatch, hq, weights, weight, List.map_cons, List.map_nil, List.sum_cons, List.sum_nil,
        List.length_cons] at hsum ⊢
      omega
  | running task =>
    simp only [doDispatch, weights, weight, List.map_cons, List.map_nil, List.sum_cons, List.sum_nil] at hsum ⊢
    omega
  | decrement task =>
    have hw : weights (s.gce.doDispatch (.decrement task)).2 = 0 := by
      simp only [doDispatch]
      split <;> rfl
    have hw' : weight (.decrement task) = 2 := rfl
    simp only [hw, hw'] at hsum
    simp only [doDispatch] at hsum ⊢
    omega

/-- While a call goes on, some call can take a step other than polling. -/
theorem exists_advance (hs : Serial s) (h : ¬ ∀ t ∈ s.threads, t.frames = []) :
    ∃ i s', step s (.advance i) = some s' ∧ s'.remaining < s.remaining := by
  have hstep {i : Nat} {t : Thread} {f : Frame} {rest : List Frame} (ht : s.threads[i]? = some t)
      (hf : t.frames = f :: rest) (hpoll : f = .tryPop → s.gce.mCentralTaskQueue ≠ []) :
      ∃ i s', step s (.advance i) = some s' ∧ s'.remaining < s.remaining :=
    ⟨i, _, by simp [step, ht, hf], doDispatch_remaining ht hf hpoll⟩
  simp only [not_forall] at h
  obtain ⟨t, ht, hne⟩ := h
  obtain ⟨i, hi⟩ := List.getElem?_of_mem ht
  obtain ⟨f, rest, hf⟩ := List.exists_cons_of_ne_nil hne
  by_cases hpoll : f = .tryPop → s.gce.mCentralTaskQueue ≠ []
  · exact hstep hi hf hpoll
  · -- the executor polls an empty queue: a counted task is still to be pushed
    simp only [Classical.not_imp, not_not] at hpoll
    obtain ⟨rfl, hq⟩ := hpoll
    have hmem : t.frames ∈ s.frames := List.mem_map.2 ⟨t, ht, rfl⟩
    have hexec : 0 < tally Frame.executes s.frames := by
      have := countP_le_tally (p := Frame.executes) hmem
      rw [hf, List.countP_cons_of_pos rfl] at this
      omega
    have h1 : tally Frame.executes s.frames = 1 ∧ s.gce.mRemainTaskCount ≠ 0 := by
      have hone := hs.single
      split at hone
      · omega
      · exact ⟨hone, ‹_›⟩
    have hcounted : tally Frame.counts s.frames ≠ 0 := by
      have hc := hs.count
      rw [hq] at hc
      intro h0
      exact h1.2 (by rw [hc, h0]; rfl)
    rw [Ne, tally_eq_zero] at hcounted
    simp only [not_forall, not_not] at hcounted
    obtain ⟨l, hl, g, hg, hgc⟩ := hcounted
    obtain ⟨u, hu, rfl⟩ := List.mem_map.1 hl
    obtain ⟨j, hj⟩ := List.getElem?_of_mem hu
    obtain ⟨k, below, hk⟩ := List.exists_cons_of_ne_nil (List.ne_nil_of_mem hg)
    refine hstep hj hk fun hkp => ?_
    subst hkp
    rw [hk] at hg
    have hrun : g.isRunning = true := by
      rcases List.mem_cons.1 hg with rfl | hg
      · cases hgc
      · exact hs.below u hu g (hk ▸ hg)
    have htwo := countP_le_tally (p := Frame.executes) hl
    rw [hk, List.countP_cons_of_pos rfl, h1.1] at htwo
    have hg' : g ∈ below := (List.mem_cons.1 hg).resolve_left fun heq => by simp [heq, Frame.counts] at hgc
    have : 0 < below.countP Frame.executes :=
      List.countP_pos_iff.2 ⟨g, hg', by cases g <;> simp_all [Frame.isRunning, Frame.executes]⟩
    omega

theorem dispatched_advance (h : step s (.advance i) = some s') (hd : s.Dispatched task) : s'.Dispatched task := by
  simp only [step, Option.bind_eq_some_iff] at h
  obtain ⟨t, ht, h⟩ := h
  cases hf : t.frames with
  | nil => simp [hf] at h
  | cons f rest =>
    simp only [hf, Option.some.injEq] at h
    subst h
    obtain ⟨u, hu, hlt⟩ := hd
    by_cases hj : task.caller = i
    · rw [hj] at hu
      cases ht.symm.trans hu
      refine ⟨{ t with frames := (s.gce.doDispatch f).2 ++ rest }, ?_, hlt⟩
      rw [hj]
      exact List.getElem?_set_self (List.getElem?_eq_some_iff.1 ht).1
    · exact ⟨u, by rw [List.getElem?_set_ne (Ne.symm hj)]; exact hu, hlt⟩

/-- From every reachable state the calls made so far can be brought to their end. -/
theorem exists_completion (hs : Serial s) :
    ∃ (ids : List Nat) (s' : Process), run step s (ids.map .advance) = some s' ∧
      (∀ t ∈ s'.threads, t.frames = []) ∧ ∀ task, s.Dispatched task → s'.gce.executed.count task = 1 := by
  generalize hn : s.remaining = n
  induction n using Nat.strong_induction_on generalizing s with
  | _ n ih =>
    by_cases hidle : ∀ t ∈ s.threads, t.frames = []
    · exact ⟨[], s, rfl, hidle, fun task hd => count_eq_one hs hidle hd⟩
    · obtain ⟨i, s₁, h₁, hlt⟩ := exists_advance hs hidle
      obtain ⟨ids, s', hr, hend, hall⟩ := ih _ (hn ▸ hlt) (serial_step hs h₁) rfl
      exact ⟨i :: ids, s', run_cons.2 ⟨s₁, h₁, hr⟩, hend, fun task hd => hall task (dispatched_advance h₁ hd)⟩

/-- Over every interleaving: one frame at most executes, tasks run in the order
of their pushes, which for each thread is that of its calls, none twice and none
that was not dispatched, each dispatched one by the time its calls are over, and
they can be brought to that. The counter is the number of tasks counted and not
finished, and at 0 the queue is empty with nobody in the loop. -/
theorem serialises {as : List Action} (hr : run step (start n) as = some s) :
    tally Frame.executes s.frames ≤ 1 ∧
    s.gce.pushed = s.gce.executed ++ s.gce.mCentralTaskQueue ∧
    (∀ i, (s.gce.pushed.filter (·.caller = i)).Pairwise (·.number < ·.number)) ∧
    s.gce.executed.Nodup ∧ (∀ task ∈ s.gce.executed, s.Dispatched task) ∧
    ((∀ t ∈ s.threads, t.frames = []) → ∀ task, s.Dispatched task → s.gce.executed.count task = 1) ∧
    (∃ (ids : List Nat) (s' : Process), run step s (ids.map .advance) = some s' ∧
      (∀ t ∈ s'.threads, t.frames = []) ∧ ∀ task, s.Dispatched task → s'.gce.executed.count task = 1) ∧
    s.gce.mRemainTaskCount = ((s.gce.incremented.filter (· ∉ s.gce.completed)).length : Int) ∧
    (s.gce.mRemainTaskCount = 0 → s.gce.mCentralTaskQueue = [] ∧ tally Frame.executes s.frames = 0) := by
  have hs := inv_of_run (fun _ _ _ => serial_step) (serial_start n) hr
  have hsub : s.gce.executed.Sublist s.gce.pushed := by
    rw [hs.fifo]
    exact List.sublist_append_left ..
  refine ⟨?_, hs.fifo, fun i => pairwise_of_inOrder (hs.pushed i), (nodup_of_inOrder hs.pushed).sublist hsub,
    fun task hmem => dispatched_of_mem hs.pushed (hsub.mem hmem), fun hidle task => count_eq_one hs hidle,
    exists_completion hs, mRemainTaskCount_eq hs, fun h0 => ⟨?_, ?_⟩⟩
  · have hone := hs.single
    split at hone <;> omega
  · have hc := hs.count
    exact List.eq_nil_of_length_eq_zero (by omega)
  · rw [hs.single, if_pos h0]

/-- Thread 0 runs a task that dispatches another one, with thread 1 in between its count and its push. -/
def nested : List Action :=
  [.dispatch 0, .dispatch 1, .advance 0, .advance 1, .advance 0, .advance 0, .dispatch 0, .advance 0, .advance 0]

theorem serialises_nested :
    ∃ s, run step (start 2) nested = some s ∧ s.gce.mRemainTaskCount = 3 ∧
      tally Frame.executes s.frames ≤ 1 ∧
      s.gce.pushed = s.gce.executed ++ s.gce.mCentralTaskQueue ∧
      (∀ i, (s.gce.pushed.filter (·.caller = i)).Pairwise (·.number < ·.number)) ∧
      s.gce.executed.Nodup ∧ (∀ task ∈ s.gce.executed, s.Dispatched task) ∧
      ((∀ t ∈ s.threads, t.frames = []) → ∀ task, s.Dispatched task → s.gce.executed.count task = 1) ∧
      (∃ (ids : List Nat) (s' : Process), run step s (ids.map .advance) = some s' ∧
        (∀ t ∈ s'.threads, t.frames = []) ∧ ∀ task, s.Dispatched task → s'.gce.executed.count task = 1) ∧
      s.gce.mRemainTaskCount = ((s.gce.incremented.filter (· ∉ s.gce.completed)).length : Int) ∧
      (s.gce.mRemainTaskCount = 0 → s.gce.mCentralTaskQueue = [] ∧ tally Frame.executes s.frames = 0) := by
  have hmap : (run step (start 2) nested).map (·.gce.mRemainTaskCount) = some 3 := by decide +kernel
  obtain ⟨s, hr, hc⟩ := Option.map_eq_some_iff.1 hmap
  exact ⟨s, hr, hc, serialises hr⟩

end Process

end GrandCentralExecuter

end GameServer
