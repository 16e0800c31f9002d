import GameServer.GameDB.Serial
/-!
# What a load gives back

A key is given out once. So a load gives the player that the updates since its creation
make of it (`load_reads`), and a player that was deleted stays away (`deleted_stays`).
-/

namespace GameServer.GameDB

open Lib
open DatabaseJobs (Comment Field Player Update)

variable {F : Type}

namespace Context

/-- The update that it makes of a player. -/
def updateOf (id : Int32) : Context F → Option (Update F)
  | .updatePlayerPosition mPlayerId mPosX mPosY mPosZ =>
    if mPlayerId = id then some (.position mPosX mPosY mPosZ) else none
  | .updatePlayerComment mPlayerId mComment => if mPlayerId = id then some (.comment (cutComment mComment)) else none
  | .updatePlayerValid mPlayerId mIsValid => if mPlayerId = id then some (.validation mIsValid) else none
  | _ => none

/-- The player that it asks for. -/
def mPlayerId : Context F → Option Int32
  | .createPlayer _ => none
  | .deletePlayer id | .loadPlayer id => some id
  | .updatePlayerPosition id _ _ _ | .updatePlayerComment id _ | .updatePlayerValid id _ => some id

end Context

namespace Store

variable {s : Store F} {context : Context F} {contexts : List (Context F)} {id : Int32} {p : Saved F}

/-- The key was given out before. -/
def Given (s : Store F) (id : Int32) : Prop := ∃ k, k < s.next ∧ k < 2 ^ 31 ∧ id = Int32.ofNat k

theorem Given.fresh (h : s.Given id) (hlt : s.next < 2 ^ 31) : id ≠ Int32.ofNat s.next := by
  obtain ⟨k, hk, hk', rfl⟩ := h
  intro heq
  have hint := congrArg Int32.toInt heq
  rw [Int32.toInt_ofNat_of_lt hk', Int32.toInt_ofNat_of_lt hlt] at hint
  omega

/-! ## One job -/

theorem update_player {u : Update F} {id' : Int32} (h : (s.update id' u).1.player id = some p) :
    ∃ p₀, s.player id = some p₀ ∧ p = if id' = id then p₀.response u else p₀ := by
  simp only [update, Function.update_apply] at h
  split at h
  case isTrue heq =>
    subst heq
    obtain ⟨p₀, hp₀, rfl⟩ := Option.map_eq_some_iff.1 h
    exact ⟨p₀, hp₀, by rw [if_pos rfl]⟩
  case isFalse hne => exact ⟨p, h, by rw [if_neg fun e => hne e.symm]⟩

variable [Zero F]

theorem perform_created {name : Text} (h : (s.perform (.createPlayer name)).2 = .created id) :
    s.next < 2 ^ 31 ∧ id = Int32.ofNat s.next ∧ (s.perform (.createPlayer name)).1.next = s.next + 1 := by
  rw [perform] at h ⊢
  by_cases hlt : s.next < 2 ^ 31
  · rw [if_pos hlt] at h ⊢
    cases h
    exact ⟨hlt, rfl, rfl⟩
  · rw [if_neg hlt] at h
    cases h

theorem next_le_perform (s : Store F) (context : Context F) : s.next ≤ (s.perform context).1.next := by
  cases context with
  | createPlayer name =>
    rw [perform]
    split
    · exact Nat.le_succ _
    · exact Nat.le_refl _
  | _ => exact Nat.le_refl _

/-- A player that is there was created just now, or it was there and is not deleted. -/
theorem perform_player (h : (s.perform context).1.player id = some p) :
    (∃ name, context = .createPlayer name ∧ (s.perform context).2 = .created id ∧ p = .created name) ∨
      context ≠ .deletePlayer id ∧
        ∃ p₀, s.player id = some p₀ ∧ p = (context.updateOf id).toList.foldl Saved.response p₀ := by
  cases context with
  | createPlayer name =>
    rw [perform] at h ⊢
    split at h
    case isTrue hlt =>
      simp only [Function.update_apply] at h
      split at h
      case isTrue heq =>
        cases h
        refine .inl ⟨name, rfl, ?_, rfl⟩
        rw [if_pos hlt, heq]
      case isFalse hne => exact .inr ⟨by simp, p, h, rfl⟩
    case isFalse => exact .inr ⟨by simp, p, h, rfl⟩
  | deletePlayer id' =>
    simp only [perform, Function.update_apply] at h
    split at h
    case isTrue => cases h
    case isFalse hne =>
      refine .inr ⟨fun e => hne ?_, p, h, rfl⟩
      cases e
      rfl
  | loadPlayer id' => exact .inr ⟨by simp, p, h, rfl⟩
  | updatePlayerPosition id' posX posY posZ =>
    obtain ⟨p₀, hp₀, rfl⟩ := update_player h
    refine .inr ⟨by simp, p₀, hp₀, ?_⟩
    rw [Context.updateOf]
    split <;> rfl
  | updatePlayerComment id' comment =>
    obtain ⟨p₀, hp₀, rfl⟩ := update_player h
    refine .inr ⟨by simp, p₀, hp₀, ?_⟩
    rw [Context.updateOf]
    split <;> rfl
  | updatePlayerValid id' isValid =>
    obtain ⟨p₀, hp₀, rfl⟩ := update_player h
    refine .inr ⟨by simp, p₀, hp₀, ?_⟩
    rw [Context.updateOf]
    split <;> rfl

/-- Nothing is done for a player that is not there. -/
theorem perform_absent (h : s.player id = none) (hc : context.mPlayerId = some id) :
    (s.perform context).2 = .failed ∨ (s.perform context).2 = .deleted 0 := by
  cases context with
  | createPlayer name => cases hc
  | deletePlayer id' =>
    cases hc
    simp [perform, h]
  | _ =>
    cases hc
    simp [perform, update, h]

/-! ## Many jobs -/

theorem after_append (s : Store F) (contexts contexts' : List (Context F)) :
    s.after (contexts ++ contexts') = (s.after contexts).after contexts' := List.foldl_append

theorem after_cons (s : Store F) (context : Context F) (contexts : List (Context F)) :
    s.after (context :: contexts) = (s.perform context).1.after contexts := rfl

theorem next_le_after (s : Store F) (contexts : List (Context F)) : s.next ≤ (s.after contexts).next := by
  induction contexts generalizing s with
  | nil => exact Nat.le_refl _
  | cons context contexts ih => exact (s.next_le_perform context).trans (ih _)

/-- Where a player comes from: its creation, and what was made of it since. -/
def Origin (contexts : List (Context F)) (id : Int32) (p : Saved F) : Prop :=
  ∃ before name middle, contexts = before ++ .createPlayer name :: middle ∧
    ((Store.new.after before).perform (.createPlayer name)).2 = .created id ∧
    .deletePlayer id ∉ middle ∧
    p = (middle.filterMap (Context.updateOf id)).foldl Saved.response (.created name)

theorem origin (h : (Store.new.after contexts).player id = some p) : Origin contexts id p := by
  induction contexts using List.reverseRecOn generalizing p with
  | nil => cases h
  | append_singleton contexts context ih =>
    rw [after_append] at h
    rcases perform_player h with ⟨name, rfl, hcreated, rfl⟩ | ⟨hdel, p₀, hp₀, rfl⟩
    · exact ⟨contexts, name, [], rfl, hcreated, List.not_mem_nil, rfl⟩
    · obtain ⟨before, name, middle, rfl, hcreated, hmiddle, rfl⟩ := ih hp₀
      refine ⟨before, name, middle ++ [context], by simp, hcreated, ?_, ?_⟩
      · intro hmem
        rcases List.mem_append.1 hmem with hmem | hmem
        · exact hmiddle hmem
        · exact hdel (List.mem_singleton.1 hmem).symm
      · rw [List.filterMap_append, List.foldl_append]
        cases hu : context.updateOf id <;> simp [hu]

theorem given_of_player (h : (Store.new.after contexts).player id = some p) : (Store.new.after contexts).Given id := by
  obtain ⟨before, name, middle, rfl, hcreated, -, -⟩ := origin h
  obtain ⟨hlt, hid, hnext⟩ := perform_created hcreated
  refine ⟨(Store.new.after before).next, ?_, hlt, hid⟩
  rw [after_append]
  have hle := next_le_after ((Store.new.after before).perform (.createPlayer name)).1 middle
  rw [hnext] at hle
  exact hle

theorem Given.perform (h : s.Given id) (context : Context F) : (s.perform context).1.Given id := by
  obtain ⟨k, hk, hk', rfl⟩ := h
  exact ⟨k, Nat.lt_of_lt_of_le hk (s.next_le_perform context), hk', rfl⟩

theorem Given.after (h : s.Given id) (contexts : List (Context F)) : (s.after contexts).Given id := by
  obtain ⟨k, hk, hk', rfl⟩ := h
  exact ⟨k, Nat.lt_of_lt_of_le hk (s.next_le_after contexts), hk', rfl⟩

theorem createPlayer_of_created (h : (s.perform context).2 = .created id) : ∃ name, context = .createPlayer name := by
  cases context with
  | createPlayer name => exact ⟨name, rfl⟩
  | deletePlayer id' => cases h
  | loadPlayer id' => cases hp : s.player id' <;> rw [perform, hp] at h <;> cases h
  | _ =>
    simp only [perform, update] at h
    split at h <;> cases h

theorem given_of_created (h : (s.perform context).2 = .created id) : (s.perform context).1.Given id := by
  obtain ⟨name, rfl⟩ := createPlayer_of_created h
  obtain ⟨hlt, hid, hnext⟩ := perform_created h
  exact ⟨s.next, by rw [hnext]; exact Nat.lt_succ_self _, hlt, hid⟩

/-- A key is given out once. -/
theorem Given.not_created (h : s.Given id) (context : Context F) : (s.perform context).2 ≠ .created id := by
  intro hcreated
  obtain ⟨name, rfl⟩ := createPlayer_of_created hcreated
  obtain ⟨hlt, hid, -⟩ := perform_created hcreated
  exact h.fresh hlt hid

/-- A key that was given out and has no player gets none. -/
theorem absent_after (hg : s.Given id) (h : s.player id = none) : (s.after contexts).player id = none := by
  induction contexts generalizing s with
  | nil => exact h
  | cons context contexts ih =>
    apply ih (hg.perform context)
    rw [Option.eq_none_iff_forall_ne_some]
    intro p hp
    rcases perform_player hp with ⟨name, rfl, hcreated, -⟩ | ⟨-, p₀, hp₀, -⟩
    · exact hg.not_created _ hcreated
    · rw [h] at hp₀
      cases hp₀

end Store

/-! ## The answers of a run -/

theorem prefix_of_cons_notMem {α : Type} {l before after : List α} {a : α} (hp : l <+: before ++ a :: after)
    (ha : a ∉ l) : l <+: before := by
  rcases List.prefix_or_prefix_of_prefix hp (List.prefix_append before (a :: after)) with hle | hle
  · exact hle
  · obtain ⟨more, rfl⟩ := hle
    rw [List.prefix_append_right_inj] at hp
    cases more with
    | nil => simp
    | cons b more =>
      rw [List.cons_prefix_cons] at hp
      exact absurd (List.mem_append_right before (hp.1 ▸ List.mem_cons_self)) ha

theorem Saved.foldl_response (us : List (Update F)) (p : Saved F) :
    us.foldl Saved.response p = { p with player := us.foldl Player.response p.player } := by
  induction us generalizing p with
  | nil => rfl
  | cons u us ih => exact ih (p.response u)

namespace State

variable [Zero F] {s s' : State F} {as as' : List (Action F)} {n job : Nat} {id : Int32} {answer : Answer F}

/-- Job `job` comes where player `id` was created and not deleted since. `p` has the name
and, of each field, the last update that the server performed in between. -/
def Built (performed : List (Nat × Context F)) (job : Nat) (id : Int32) (p : Saved F) : Prop :=
  ∃ before job' name middle after,
    performed = before ++ (job', .createPlayer name) :: (middle ++ (job, .loadPlayer id) :: after) ∧
      ((Store.new.after (before.map Prod.snd)).perform (.createPlayer name)).2 = .created id ∧
      .deletePlayer id ∉ middle.map Prod.snd ∧ p.name = name.take 31 ∧
      ∀ f, p.player.read f = (lastWrite Update.field f ((middle.map Prod.snd).filterMap (Context.updateOf id))).getD
        ((Saved.created name).player.read f)

/-- A load fails, or it gives what was made of the player until then. -/
theorem load_reads (h : run step (start n) as = some s) (hl : (job, .loadPlayer id, answer) ∈ s.answers) :
    answer = .failed ∨ ∃ p : Saved F, answer = p.loaded ∧ Built s.performed job id p := by
  rcases (serial_run h).answers job _ answer hl with hfailed | ⟨before, after, hperf, hanswer⟩
  · exact .inl hfailed
  · rw [Store.perform] at hanswer
    cases hp : (Store.new.after (before.map Prod.snd)).player id with
    | none =>
      rw [hp] at hanswer
      exact .inl hanswer
    | some p =>
      rw [hp] at hanswer
      obtain ⟨before₁, name, middle, hsplit, hcreated, hdel, rfl⟩ := Store.origin hp
      obtain ⟨before', rest, rfl, rfl, hrest⟩ := List.map_eq_append_iff.1 hsplit
      obtain ⟨⟨job', context⟩, middle', rfl, rfl, rfl⟩ := List.map_eq_cons_iff.1 hrest
      refine .inr ⟨_, hanswer, before', job', name, middle', after, ?_, hcreated, hdel, ?_, ?_⟩
      · rw [hperf, List.append_assoc, List.cons_append]
      · rw [Saved.foldl_response]
        rfl
      · intro f
        rw [Saved.foldl_response]
        exact read_foldl Player.read_response _

/-- Two threads move a player. The answer of the move that comes last is lost. -/
def moved : List (Action Nat) :=
  [.begin 0 (.createPlayer [65]), .execute 0 .returned, .finish 0 true,
    .begin 0 (.updatePlayerPosition 100 1 2 3), .begin 1 (.updatePlayerPosition 100 4 5 6),
    .execute 1 .returned, .execute 0 .lost, .finish 0 false, .finish 1 true,
    .begin 1 (.loadPlayer 100), .execute 1 .returned, .finish 1 true]

theorem load_reads_moved :
    ∃ s, run step (start 2) moved = some s ∧
      ∃ p : Saved Nat, .loaded [65] 1 2 3 true [] = p.loaded ∧ Built s.performed 3 100 p := by
  refine ⟨_, rfl, ?_⟩
  have hr : run step (start 2) moved = some _ := rfl
  have hload (answer : Answer Nat) (hl : (3, Context.loadPlayer 100, answer) ∈ _) := load_reads hr hl
  exact (hload (.loaded [65] 1 2 3 true []) (List.mem_append_right _ List.mem_cons_self)).resolve_left nofun

/-- Of two jobs that were performed, the first may have been given a key. Then it is the
other one too, or finds the key given out. -/
theorem given_later {before₁ before₂ after₁ after₂ : List (Nat × Context F)} {job₁ job₂ : Nat}
    {context₁ context₂ : Context F}
    (h : before₁ ++ (job₁, context₁) :: after₁ = before₂ ++ (job₂, context₂) :: after₂) (hp : before₁ <+: before₂)
    (hcreated : ((Store.new.after (before₁.map Prod.snd)).perform context₁).2 = .created id) :
    job₁ = job₂ ∨ (Store.new.after (before₂.map Prod.snd)).Given id := by
  obtain ⟨middle, rfl⟩ := hp
  rw [List.append_assoc, List.append_right_inj] at h
  cases middle with
  | nil =>
    cases h
    exact .inl rfl
  | cons job middle =>
    obtain ⟨rfl, -⟩ := List.cons.inj h
    rw [List.map_append, Store.after_append, List.map_cons, Store.after_cons]
    exact .inr ((Store.given_of_created hcreated).after _)

theorem created_unique {job₁ job₂ : Nat} {context₁ context₂ : Context F} (h : run step (start n) as = some s)
    (h₁ : (job₁, context₁, .created id) ∈ s.answers) (h₂ : (job₂, context₂, .created id) ∈ s.answers) : job₁ = job₂ := by
  obtain ⟨before₁, after₁, hperf₁, hcreated₁⟩ := ((serial_run h).answers _ _ _ h₁).resolve_left nofun
  obtain ⟨before₂, after₂, hperf₂, hcreated₂⟩ := ((serial_run h).answers _ _ _ h₂).resolve_left nofun
  have hsplit := hperf₁.symm.trans hperf₂
  rcases List.prefix_or_prefix_of_prefix (List.prefix_append before₁ _) (hsplit ▸ List.prefix_append before₂ _) with hp | hp
  · exact (given_later hsplit hp hcreated₁.symm).resolve_right fun hg => hg.not_created _ hcreated₂.symm
  · exact ((given_later hsplit.symm hp hcreated₂.symm).resolve_right fun hg => hg.not_created _ hcreated₁.symm).symm

/-- What is begun after a deletion was answered is performed on a store without the player,
whose key was given out. -/
theorem absent_later {context : Context F} {deleted : Nat} {rows : Int32} (h : run step (start n) as = some s)
    (hd : (deleted, .deletePlayer id, .deleted rows) ∈ s.answers) (hrows : rows ≠ 0) (h' : run step s as' = some s')
    (hlater : s.jobs ≤ job) {before after : List (Nat × Context F)}
    (hperf : s'.performed = before ++ (job, context) :: after) :
    (Store.new.after (before.map Prod.snd)).player id = none ∧ (Store.new.after (before.map Prod.snd)).Given id := by
  have hserial := serial_run h
  obtain ⟨before', after', hperf', hdeleted⟩ := (hserial.answers _ _ _ hd).resolve_left nofun
  have hprefix := performed_run h'
  rw [hperf] at hprefix
  have hnot : (job, context) ∉ s.performed := fun hmem => Nat.not_lt.2 hlater (hserial.performed_lt hmem)
  obtain ⟨more, rfl⟩ := prefix_of_cons_notMem hprefix hnot
  rw [hperf', List.append_assoc, List.map_append, Store.after_append, List.cons_append, List.map_cons, Store.after_cons]
  have hthere : ∃ p, (Store.new.after (before'.map Prod.snd)).player id = some p := by
    cases hp : (Store.new.after (before'.map Prod.snd)).player id with
    | some p => exact ⟨p, rfl⟩
    | none =>
      rw [Store.perform, hp] at hdeleted
      cases hdeleted
      exact absurd rfl hrows
  obtain ⟨p, hp⟩ := hthere
  have hgiven := (Store.given_of_player hp).perform (.deletePlayer id)
  exact ⟨Store.absent_after hgiven (by simp [Store.perform]), hgiven.after _⟩

/-- Once a player was deleted and that is answered, nothing begun later finds it: a load
and the updates fail, and another delete counts no row. Nor is its key given out again, as
none is. -/
theorem deleted_stays {deleted : Nat} {rows : Int32} (h : run step (start n) as = some s)
    (hd : (deleted, .deletePlayer id, .deleted rows) ∈ s.answers) (hrows : rows ≠ 0) (h' : run step s as' = some s') :
    (∀ job context answer, s.jobs ≤ job → (job, context, answer) ∈ s'.answers → context.mPlayerId = some id →
      answer = .failed ∨ answer = .deleted 0) ∧
    (∀ job context, s.jobs ≤ job → (job, context, .created id) ∉ s'.answers) ∧
    (∀ job₁ job₂ context₁ context₂ key, (job₁, context₁, .created key) ∈ s'.answers →
      (job₂, context₂, .created key) ∈ s'.answers → job₁ = job₂) := by
  have hrun := run_append.2 ⟨s, h, h'⟩
  have hanswers := (serial_run hrun).answers
  refine ⟨fun job context answer hlater ha hc => ?_, fun job context hlater ha => ?_,
    fun _ _ _ _ _ h₁ h₂ => created_unique hrun h₁ h₂⟩
  · rcases hanswers job context answer ha with hfailed | ⟨before, after, hperf, rfl⟩
    · exact .inl hfailed
    · exact Store.perform_absent (absent_later h hd hrows h' hlater hperf).1 hc
  · obtain ⟨before, after, hperf, hcreated⟩ := (hanswers _ _ _ ha).resolve_left nofun
    exact (absent_later h hd hrows h' hlater hperf).2.not_created _ hcreated.symm

/-- A player that is deleted again, and the load that comes then. -/
def deletedAgain : List (Action Nat) :=
  [.begin 0 (.createPlayer [65]), .execute 0 .returned, .finish 0 true,
    .begin 0 (.deletePlayer 100), .execute 0 .returned, .finish 0 true]

def loadedThen : List (Action Nat) := [.begin 0 (.loadPlayer 100), .execute 0 .returned, .finish 0 true]

theorem deleted_stays_again :
    ∃ s s', run step (start 1) deletedAgain = some s ∧ run step s loadedThen = some s' ∧
      (∀ answer, (2, .loadPlayer 100, answer) ∈ s'.answers → answer = .failed ∨ answer = .deleted 0) ∧
      ∀ job context, 2 ≤ job → (job, context, .created 100) ∉ s'.answers := by
  obtain ⟨s, hs⟩ : ∃ s, run step (start 1) deletedAgain = some s := ⟨_, rfl⟩
  have hd : (1, .deletePlayer 100, .deleted 1) ∈ s.answers := by
    cases hs
    exact List.mem_append_right _ List.mem_cons_self
  have hjobs : s.jobs = 2 := by
    cases hs
    rfl
  obtain ⟨s', hs'⟩ : ∃ s', run step s loadedThen = some s' := by
    cases hs
    exact ⟨_, rfl⟩
  obtain ⟨hgone, hkey, -⟩ := deleted_stays hs hd (by decide) hs'
  rw [hjobs] at hgone hkey
  exact ⟨s, s', hs, hs', fun answer ha => hgone 2 _ answer (Nat.le_refl 2) ha rfl, hkey⟩

end State

end GameServer.GameDB
