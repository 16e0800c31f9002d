import GameServer.GameDB.Store
import GameServer.Lib.Custody
import Mathlib.Data.Multiset.Range
/-!
# One store behind all threads

Whatever the database threads do between their statements, each answer that a job gets is
that of one store, on the jobs in the order in which the server performed them
(`serial_answers`).
-/

namespace GameServer.GameDB

open Lib

variable {F : Type}

/-! ## What a helper has bound -/

theorem numbered_nil {α : Type} : (numbered [] : Nat → Option α) = fun _ => none := by
  funext k
  simp [numbered]

theorem update_numbered {α : Type} (l : List α) (a : α) :
    Function.update (numbered l) (l.length + 1) (some a) = numbered (l ++ [a]) := by
  funext k
  rw [Function.update_apply]
  simp only [numbered]
  by_cases hk : k = l.length + 1
  · simp [hk]
  · rw [if_neg hk]
    by_cases h0 : k = 0
    · simp [h0]
    · rw [if_neg h0, if_neg h0]
      rcases Nat.lt_or_ge (k - 1) l.length with hlt | hge
      · rw [List.getElem?_append_left hlt]
      · rw [List.getElem?_eq_none hge, List.getElem?_eq_none]
        rw [List.length_append, List.length_singleton]
        omega

namespace DBHelper

/-- One that has bound nothing yet. -/
def fresh : DBHelper F := ⟨{ SqlConn.new with mUsingNow := true }, 1, 1⟩

theorem foldl_bindParam (params : List (Value F)) :
    params.foldl bindParam fresh = ⟨⟨true, numbered params, fun _ => none, none⟩, 1, params.length + 1⟩ := by
  induction params using List.reverseRecOn with
  | nil =>
    rw [numbered_nil]
    rfl
  | append_singleton params param ih =>
    rw [List.foldl_append, ih, List.foldl_cons, List.foldl_nil, bindParam, ← update_numbered, List.length_append,
      List.length_singleton]

theorem foldl_bindResultColumn (columns : List Column) (params : Nat → Option (Value F)) (k : Nat) :
    columns.foldl bindResultColumn ⟨⟨true, params, fun _ => none, none⟩, 1, k⟩ =
      ⟨⟨true, params, numbered columns, none⟩, columns.length + 1, k⟩ := by
  induction columns using List.reverseRecOn with
  | nil =>
    rw [numbered_nil]
    rfl
  | append_singleton columns column ih =>
    rw [List.foldl_append, ih, List.foldl_cons, List.foldl_nil, bindResultColumn, ← update_numbered,
      List.length_append, List.length_singleton]

theorem arguments_numbered (l l' : List (Value F)) :
    arguments (numbered (l ++ l')) (l.length + 1) l'.length = some l' := by
  induction l' generalizing l with
  | nil => rfl
  | cons value l' ih =>
    have hrest := ih (l ++ [value])
    rw [List.append_assoc, List.singleton_append, List.length_append, List.length_singleton] at hrest
    rw [List.length_cons, arguments, hrest]
    simp [numbered]

end DBHelper

theorem Query.bind_fresh (query : Query F) :
    query.bind .fresh = ⟨⟨true, numbered query.params, numbered query.columns, none⟩,
      query.columns.length + 1, query.params.length + 1⟩ := by
  rw [Query.bind, DBHelper.foldl_bindParam, DBHelper.foldl_bindResultColumn]

/-- Each statement has a marker for every parameter. -/
theorem Context.markers [Zero F] (context : Context F) :
    context.onSQLExecute.sqlstmt.markers = context.onSQLExecute.params.length := by
  cases context <;> rfl

theorem Query.answer_false (query : Query F) (helper : DBHelper F) : query.answer helper false = .failed := by
  rw [Query.answer, DBHelper.fetchRow]
  split <;> rename_i h
  · split at h <;> simp at h
  · rfl

/-! ## A statement on the store -/

/-- What `Execute` makes of the table and of the cursor, once the context is bound. -/
structure Executed [Zero F] (s : Store F) (t : PlayerTable F) (context : Context F) (fate : DBHelper.Fate)
    (r : Bool × DBHelper F × PlayerTable F) : Prop where
  refused : fate = .refused → r.2.2 = t
  performed : fate ≠ .refused → Holds r.2.2 (s.perform context).1
  returned : r.1 = true →
    fate ≠ .refused ∧ context.onSQLExecute.answer r.2.1 true = (s.perform context).2

theorem Holds.execute [Zero F] {t : PlayerTable F} {s : Store F} (h : Holds t s) (context : Context F)
    (fate : DBHelper.Fate) :
    Executed s t context fate
      ((context.onSQLExecute.bind .fresh).execute t context.onSQLExecute.sqlstmt fate) := by
  have hbound : ((context.onSQLExecute.bind .fresh : DBHelper F)).conn =
      ⟨true, numbered context.onSQLExecute.params, numbered context.onSQLExecute.columns, none⟩ := by
    rw [Query.bind_fresh]
  have hargs : DBHelper.arguments (numbered context.onSQLExecute.params) 1 context.onSQLExecute.sqlstmt.markers =
      some context.onSQLExecute.params := by
    rw [context.markers]
    exact DBHelper.arguments_numbered [] _
  have hperform := h.perform context
  simp only [DBHelper.execute, hbound, hargs, Option.isSome_none, Bool.false_eq_true, if_false, Option.bind_some]
  cases hcall : t.call context.onSQLExecute.sqlstmt context.onSQLExecute.params with
  | none =>
    rw [hcall] at hperform
    refine ⟨fun _ => rfl, fun _ => ?_, nofun⟩
    rw [hperform]
    exact h
  | some r =>
    obtain ⟨t', rows⟩ := r
    rw [hcall] at hperform
    cases fate with
    | refused => exact ⟨fun _ => rfl, fun hne => absurd rfl hne, nofun⟩
    | lost => exact ⟨nofun, fun _ => hperform.1, nofun⟩
    | returned =>
      refine ⟨nofun, fun _ => hperform.1, fun _ => ⟨nofun, ?_⟩⟩
      rw [← hperform.2]
      cases rows with
      | nil => rfl
      | cons row rows => simp [Query.answer, DBHelper.fetchRow, Query.ofRows]

/-! ## What a run keeps -/

/-- The job has its place among the performed ones, and the answer is the store's there. -/
def Answered [Zero F] (performed : List (Nat × Context F)) (job : Nat) (context : Context F)
    (answer : Answer F) : Prop :=
  ∃ before after, performed = before ++ (job, context) :: after ∧
    answer = ((Store.new.after (before.map Prod.snd)).perform context).2

theorem Answered.mono [Zero F] {performed performed' : List (Nat × Context F)} {job : Nat} {context : Context F}
    {answer : Answer F} (h : Answered performed job context answer) (hp : performed <+: performed') :
    Answered performed' job context answer := by
  obtain ⟨before, after, rfl, rfl⟩ := h
  obtain ⟨more, rfl⟩ := hp
  exact ⟨before, after ++ more, by simp, rfl⟩

namespace Thread

def job : Thread F → Option Nat
  | .idle _ => none
  | .bound _ job _ => some job
  | .executed _ job _ _ => some job

/-- The job that it has yet to execute. -/
def waiting : Thread F → Option Nat
  | .bound _ job _ => some job
  | _ => none

end Thread

namespace State

variable [Zero F] {s s' : State F} {a : Action F}

/-- What a step does. -/
theorem step_cases (h : step s a = some s') :
    (∃ i context conn helper, s.threads[i]? = some (.idle conn) ∧ DBHelper.new conn = some helper ∧
      s' = { s with
        threads := s.threads.set i (.bound (context.onSQLExecute.bind helper) s.jobs context), jobs := s.jobs + 1 }) ∨
    (∃ i fate helper job context r, s.threads[i]? = some (.bound helper job context) ∧
      helper.execute s.table context.onSQLExecute.sqlstmt fate = r ∧
      s' = { s with
        table := r.2.2
        threads := s.threads.set i (.executed r.2.1 job context r.1)
        performed := if fate = .refused then s.performed else s.performed ++ [(job, context)] }) ∨
    ∃ i answered helper job context success, s.threads[i]? = some (.executed helper job context success) ∧
      s' = { s with
        threads := s.threads.set i (.idle helper.delete)
        answers := s.answers ++
          [(job, context, if success then context.onSQLExecute.answer helper answered else .failed)] } := by
  cases a with
  | begin i context =>
    rw [step] at h
    split at h
    case h_2 => cases h
    rename_i conn hi
    obtain ⟨helper, hnew, rfl⟩ := Option.map_eq_some_iff.1 h
    exact .inl ⟨i, context, conn, helper, hi, hnew, rfl⟩
  | execute i fate =>
    rw [step] at h
    split at h <;> cases h
    rename_i helper job context hi
    exact .inr (.inl ⟨i, fate, helper, job, context, _, hi, rfl, rfl⟩)
  | finish i answered =>
    rw [step] at h
    split at h <;> cases h
    rename_i helper job context success hi
    exact .inr (.inr ⟨i, answered, helper, job, context, success, hi, rfl⟩)

/-- The jobs that wait for the server or were performed by it. -/
def claimed (s : State F) : Multiset Nat :=
  (s.threads.filterMap Thread.waiting : List Nat) + (s.performed.map Prod.fst : List Nat)

structure Serial (s : State F) : Prop where
  holds : Holds s.table (Store.new.after (s.performed.map Prod.snd))
  idle : ∀ conn, .idle conn ∈ s.threads → conn = .new
  bound : ∀ helper job context, .bound helper job context ∈ s.threads → helper = context.onSQLExecute.bind .fresh
  executed : ∀ helper job context, .executed helper job context true ∈ s.threads →
    Answered s.performed job context (context.onSQLExecute.answer helper true)
  answers : ∀ job context answer, (job, context, answer) ∈ s.answers →
    answer = .failed ∨ Answered s.performed job context answer
  custody : ((s.threads.filterMap Thread.job : List Nat) + (s.answers.map Prod.fst : List Nat) : Multiset Nat) =
    Multiset.range s.jobs
  once : s.claimed.Nodup
  begun : ∀ job ∈ s.claimed, job < s.jobs

theorem serial_start (n : Nat) : Serial (start n : State F) := by
  have hidle : ∀ thread : Thread F, thread ∈ (start n : State F).threads → thread = .idle .new := by
    intro thread hmem
    exact List.eq_of_mem_replicate hmem
  have hjob : (start n : State F).threads.filterMap Thread.job = [] := by
    rw [List.filterMap_eq_nil_iff]
    intro thread hmem
    rw [hidle thread hmem]
    rfl
  have hclaimed : (start n : State F).claimed = 0 := by
    have hwaiting : (start n : State F).threads.filterMap Thread.waiting = [] := by
      rw [List.filterMap_eq_nil_iff]
      intro thread hmem
      rw [hidle thread hmem]
      rfl
    rw [claimed, hwaiting]
    rfl
  constructor
  · exact holds_new
  · intro conn hmem
    exact Thread.idle.inj (hidle _ hmem)
  · intro helper job context hmem
    cases hidle _ hmem
  · intro helper job context hmem
    cases hidle _ hmem
  · intro job context answer hmem
    cases hmem
  · rw [hjob]
    rfl
  · rw [hclaimed]
    exact Multiset.nodup_zero
  · intro job hmem
    rw [hclaimed] at hmem
    exact absurd hmem (Multiset.notMem_zero job)

theorem after_append_singleton (s : Store F) (contexts : List (Context F)) (context : Context F) :
    s.after (contexts ++ [context]) = ((s.after contexts).perform context).1 := by
  rw [Store.after, List.foldl_append]
  rfl

/-- A thread begins: its helper is fresh, and the job is a new one. -/
theorem Serial.begin (h : Serial s) {i : Nat} {conn : SqlConn F} {helper : DBHelper F} (context : Context F)
    (hi : s.threads[i]? = some (.idle conn)) (hnew : DBHelper.new conn = some helper) :
    Serial { s with
      threads := s.threads.set i (.bound (context.onSQLExecute.bind helper) s.jobs context), jobs := s.jobs + 1 } := by
  have hconn := h.idle conn (List.mem_of_getElem? hi)
  subst hconn
  have hfresh : helper = .fresh := (Option.some.inj hnew).symm
  subst hfresh
  have hclaimed : claimed { s with
      threads := s.threads.set i (.bound (context.onSQLExecute.bind .fresh) s.jobs context), jobs := s.jobs + 1 } =
      s.jobs ::ₘ s.claimed := by
    rw [claimed, claimed, coe_filterMap_set Thread.waiting hi, coe_filterMap_erase Thread.waiting hi]
    simp [Thread.waiting]
  constructor
  · exact h.holds
  · intro conn hmem
    rcases List.mem_or_eq_of_mem_set hmem with hmem | heq
    · exact h.idle conn hmem
    · cases heq
  · intro helper job context' hmem
    rcases List.mem_or_eq_of_mem_set hmem with hmem | heq
    · exact h.bound helper job context' hmem
    · cases heq
      rfl
  · intro helper job context' hmem
    rcases List.mem_or_eq_of_mem_set hmem with hmem | heq
    · exact h.executed helper job context' hmem
    · cases heq
  · exact h.answers
  · have hcustody := h.custody
    rw [coe_filterMap_erase Thread.job hi] at hcustody
    rw [coe_filterMap_set Thread.job hi, Multiset.range_succ, ← hcustody]
    simp [Thread.job]
  · rw [hclaimed, Multiset.nodup_cons]
    exact ⟨fun hmem => Nat.lt_irrefl _ (h.begun _ hmem), h.once⟩
  · intro job hmem
    rw [hclaimed, Multiset.mem_cons] at hmem
    rcases hmem with rfl | hmem
    · exact Nat.lt_succ_self _
    · exact Nat.lt_succ_of_lt (h.begun job hmem)

/-- The server gets a statement: the job takes the next place among the performed ones. -/
theorem Serial.execute (h : Serial s) {i job : Nat} {helper : DBHelper F} {context : Context F} (fate : DBHelper.Fate)
    (hi : s.threads[i]? = some (.bound helper job context)) {r : Bool × DBHelper F × PlayerTable F}
    (hr : helper.execute s.table context.onSQLExecute.sqlstmt fate = r) :
    Serial { s with
      table := r.2.2
      threads := s.threads.set i (.executed r.2.1 job context r.1)
      performed := if fate = .refused then s.performed else s.performed ++ [(job, context)] } := by
  have hbound := h.bound helper job context (List.mem_of_getElem? hi)
  subst hbound
  have hexec := h.holds.execute context fate
  rw [hr] at hexec
  have hprefix : s.performed <+: if fate = .refused then s.performed else s.performed ++ [(job, context)] := by
    split
    · exact List.prefix_rfl
    · exact List.prefix_append _ _
  have hthreads : (s.threads.filterMap Thread.waiting : Multiset Nat) =
      job ::ₘ ((s.threads.set i (.executed r.2.1 job context r.1)).filterMap Thread.waiting : List Nat) := by
    rw [coe_filterMap_set Thread.waiting hi, coe_filterMap_erase Thread.waiting hi]
    simp [Thread.waiting]
  have hclaimed : claimed { s with
      table := r.2.2
      threads := s.threads.set i (.executed r.2.1 job context r.1)
      performed := if fate = .refused then s.performed else s.performed ++ [(job, context)] } ≤ s.claimed := by
    rw [claimed, claimed, hthreads]
    split
    · exact Multiset.add_le_add_right (Multiset.le_cons_self _ _)
    · rw [List.map_append, ← Multiset.coe_add, List.map_singleton, Multiset.coe_singleton, ← Multiset.singleton_add]
      apply le_of_eq
      ac_rfl
  constructor
  · split
    · rename_i hfate
      rw [hexec.refused hfate]
      exact h.holds
    · rename_i hfate
      rw [List.map_append, List.map_singleton, after_append_singleton]
      exact hexec.performed hfate
  · intro conn hmem
    rcases List.mem_or_eq_of_mem_set hmem with hmem | heq
    · exact h.idle conn hmem
    · cases heq
  · intro helper job' context' hmem
    rcases List.mem_or_eq_of_mem_set hmem with hmem | heq
    · exact h.bound helper job' context' hmem
    · cases heq
  · intro helper job' context' hmem
    rcases List.mem_or_eq_of_mem_set hmem with hmem | heq
    · exact (h.executed helper job' context' hmem).mono hprefix
    · injection heq with hhelper hjob hcontext hsuccess
      subst hhelper hjob hcontext
      obtain ⟨hfate, hanswer⟩ := hexec.returned hsuccess.symm
      refine ⟨s.performed, [], ?_, hanswer⟩
      rw [if_neg hfate]
  · intro job' context' answer hmem
    exact (h.answers job' context' answer hmem).imp_right fun ha => ha.mono hprefix
  · have hcustody := h.custody
    rw [coe_filterMap_erase Thread.job hi] at hcustody
    rw [coe_filterMap_set Thread.job hi, ← hcustody]
    rfl
  · exact Multiset.nodup_of_le hclaimed h.once
  · intro job' hmem
    exact h.begun job' (Multiset.mem_of_le hclaimed hmem)

/-- A thread answers: its connection is as it was. -/
theorem Serial.finish (h : Serial s) {i job : Nat} {helper : DBHelper F} {context : Context F} {success : Bool}
    (answered : Bool) (hi : s.threads[i]? = some (.executed helper job context success)) :
    Serial { s with
      threads := s.threads.set i (.idle helper.delete)
      answers := s.answers ++
        [(job, context, if success then context.onSQLExecute.answer helper answered else .failed)] } := by
  have hmem := List.mem_of_getElem? hi
  have hclaimed : claimed { s with
      threads := s.threads.set i (.idle helper.delete)
      answers := s.answers ++
        [(job, context, if success then context.onSQLExecute.answer helper answered else .failed)] } = s.claimed := by
    rw [claimed, claimed, coe_filterMap_set Thread.waiting hi, coe_filterMap_erase Thread.waiting hi]
    rfl
  constructor
  · exact h.holds
  · intro conn hmem
    rcases List.mem_or_eq_of_mem_set hmem with hmem | heq
    · exact h.idle conn hmem
    · cases heq
      rfl
  · intro helper' job' context' hmem
    rcases List.mem_or_eq_of_mem_set hmem with hmem | heq
    · exact h.bound helper' job' context' hmem
    · cases heq
  · intro helper' job' context' hmem
    rcases List.mem_or_eq_of_mem_set hmem with hmem | heq
    · exact h.executed helper' job' context' hmem
    · cases heq
  · intro job' context' answer hanswer
    rcases List.mem_append.1 hanswer with hanswer | hanswer
    · exact h.answers job' context' answer hanswer
    · cases List.mem_singleton.1 hanswer
      cases success with
      | false => exact .inl rfl
      | true =>
        cases answered with
        | false => exact .inl (Query.answer_false _ _)
        | true => exact .inr (h.executed helper job context hmem)
  · have hcustody := h.custody
    rw [coe_filterMap_erase Thread.job hi] at hcustody
    rw [coe_filterMap_set Thread.job hi, ← hcustody, List.map_append, ← Multiset.coe_add]
    simp only [Thread.job, Option.toList_none, Option.toList_some, List.map_singleton, Multiset.coe_nil,
      Multiset.coe_singleton, zero_add]
    ac_rfl
  · rw [hclaimed]
    exact h.once
  · intro job' hmem
    rw [hclaimed] at hmem
    exact h.begun job' hmem

theorem serial_step (h : Serial s) (hs : step s a = some s') : Serial s' := by
  rcases step_cases hs with ⟨i, context, conn, helper, hi, hnew, rfl⟩ |
    ⟨i, fate, helper, job, context, r, hi, hr, rfl⟩ | ⟨i, answered, helper, job, context, success, hi, rfl⟩
  · exact h.begin context hi hnew
  · exact h.execute fate hi hr
  · exact h.finish answered hi

theorem serial_run {n : Nat} {as : List (Action F)} (h : run step (start n) as = some s) : Serial s :=
  inv_of_run (fun _ _ _ => serial_step) (serial_start n) h

theorem performed_step (hs : step s a = some s') : s.performed <+: s'.performed := by
  rcases step_cases hs with ⟨i, context, conn, helper, hi, hnew, rfl⟩ |
    ⟨i, fate, helper, job, context, r, hi, hr, rfl⟩ | ⟨i, answered, helper, job, context, success, hi, rfl⟩
  · exact List.prefix_rfl
  · show s.performed <+: if fate = .refused then s.performed else s.performed ++ [(job, context)]
    split
    · exact List.prefix_rfl
    · exact List.prefix_append _ _
  · exact List.prefix_rfl

theorem performed_run {as : List (Action F)} (h : run step s as = some s') : s.performed <+: s'.performed :=
  inv_of_run (I := fun s' => s.performed <+: s'.performed) (fun _ _ _ hp hs => hp.trans (performed_step hs))
    List.prefix_rfl h

theorem Serial.performed_lt (h : Serial s) {e : Nat × Context F} (hmem : e ∈ s.performed) : e.1 < s.jobs :=
  h.begun e.1 (Multiset.mem_add.2 (.inr (List.mem_map_of_mem hmem)))

/-- Between `s` and `s'` the server performs more statements, none of them twice. Every
job begun is with one thread or answered once, by failure or by what a single store
answers at its place. The connection of an idle thread is free for the next job. -/
theorem serial_answers {n : Nat} {as as' : List (Action F)} (h : run step (start n) as = some s)
    (h' : run step s as' = some s') :
    ((∀ e ∈ s.performed, e.1 < s.jobs) ∧ s.performed <+: s'.performed ∧ (s'.performed.map Prod.fst).Nodup) ∧
      ((s'.threads.filterMap Thread.job : List Nat) + (s'.answers.map Prod.fst : List Nat) : Multiset Nat) =
        Multiset.range s'.jobs ∧
      (∀ job context answer, (job, context, answer) ∈ s'.answers →
        answer = .failed ∨ Answered s'.performed job context answer) ∧
      ∀ i conn context, s'.threads[i]? = some (.idle conn) → (step s' (.begin i context)).isSome := by
  have hserial := serial_run h
  have hserial' := serial_run (run_append.2 ⟨s, h, h'⟩)
  refine ⟨⟨fun e => hserial.performed_lt, performed_run h', ?_⟩, hserial'.custody, hserial'.answers, ?_⟩
  · have hle : (s'.performed.map Prod.fst : Multiset Nat) ≤ s'.claimed := Multiset.le_add_left _ _
    exact Multiset.coe_nodup.1 (Multiset.nodup_of_le hle hserial'.once)
  · intro i conn context hi
    cases hserial'.idle conn (List.mem_of_getElem? hi)
    rw [step, hi]
    rfl

/-- One thread creates a player, another one loads it before the first has its answer. -/
def interleaved : List (Action Nat) :=
  [.begin 0 (.createPlayer [65]), .begin 1 (.loadPlayer 100), .execute 0 .returned, .execute 1 .returned,
    .finish 1 true, .finish 0 true]

theorem serial_answers_interleaved :
    ∃ s, run step (start 2) interleaved = some s ∧
      s.answers = [(1, .loadPlayer 100, .loaded [65] 0 0 0 true []), (0, .createPlayer [65], .created 100)] ∧
      Answered s.performed 1 (.loadPlayer 100) (.loaded [65] 0 0 0 true []) := by
  refine ⟨_, rfl, rfl, ?_⟩
  have hr : run step (start 2) interleaved = some _ := rfl
  exact ((serial_answers hr (run_nil _)).2.2.1 1 _ _ List.mem_cons_self).resolve_left nofun

end State

end GameServer.GameDB
