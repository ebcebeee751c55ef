import Mathlib.Data.List.Perm.Subperm
import Mathlib.Data.Prod.Lex
import Mathlib.Order.WellFounded
import WarheadDiscord.Scheduler.Dispatch

/-!
# The loop over the tasks ends

A handler may schedule new tasks that are due in the same pass, and it may repeat its own,
so the queue may grow while the loop works on it.  But nothing new ends before the task that
is being handled, nor at the same time, if all durations are positive: new ends are relative
to the end of that task.  So the tasks come in the order of their ends, and between two
points in time the loop works on what the queue had at the first of them.

That is the measure: how much time is left up to `_now`, from the end of the first task of
the queue, and then how many tasks end at that time.  Each turn makes one of the two smaller,
in this order (`progress_lt`).

## Main definitions

* `TaskScheduler.Forward` — the operations that a handler may make.
* `TaskScheduler.Onward` — what a handler has then done to the queue.
* `TaskScheduler.progress` — the measure.
-/

namespace WarheadDiscord

open KeyOrder

namespace TaskScheduler
variable {H A : Type} {s s' : TaskScheduler H A} {e : ℤ}

/-- The operations that a handler with this context may make: tasks are scheduled and
repeated with positive durations, through this context or through the scheduler, and they are
not moved to an earlier time. -/
def Forward (context : ℕ) (s : TaskScheduler H A) : Op H → Prop
  | .schedule time _ _ => 0 < time
  | .contextSchedule context' time _ _ => context' = context ∧ 0 < time
  | .repeatTask context' duration =>
      context' = context ∧
        ∀ c, s.contexts[context]? = some c → 0 < duration.getD (s.tasks c.task).duration
  | .delayAll duration => 0 ≤ duration
  | .delayGroup _ duration => 0 ≤ duration
  | .rescheduleAll _ => False
  | .rescheduleGroup _ _ => False
  | .cancelAll | .cancelGroup _ | .cancelGroupsOf _ | .setGroup _ _ | .clearGroup _ => True

/-- No task has come to end earlier, and what is new in the queue ends after `e`. -/
structure Onward (e : ℤ) (s s' : TaskScheduler H A) : Prop where
  now : s'.now = s.now
  created : s.created ≤ s'.created
  key : ∀ i < s.created, s.key i ≤ s'.key i
  holder : ∀ i ∈ s'.holder, i ∈ s.holder ∨ e < s'.key i
  contexts : ∀ (k : ℕ) (c : TaskContext), s.contexts[k]? = some c →
    ∃ c', s'.contexts[k]? = some c' ∧ c'.task = c.task

theorem Onward.refl (e : ℤ) (s : TaskScheduler H A) : s.Onward e s where
  now := rfl
  created := le_refl _
  key := fun _ _ => le_refl _
  holder := fun _ hi => .inl hi
  contexts := fun _ c hc => ⟨c, hc, rfl⟩

theorem Onward.trans {u : TaskScheduler H A} (h : s.Onward e u) (hu : u.Inv)
    (h' : u.Onward e s') : s.Onward e s' where
  now := h'.now.trans h.now
  created := h.created.trans h'.created
  key := fun i hi => (h.key i hi).trans (h'.key i (hi.trans_le h.created))
  holder := by
    intro i hi
    rcases h'.holder i hi with hi | hlt
    · refine (h.holder i hi).imp_right fun hlt => ?_
      exact hlt.trans_le (h'.key i (hu.created i hi))
    · exact .inr hlt
  contexts := by
    intro k c hc
    obtain ⟨c₁, hc₁, htask⟩ := h.contexts k c hc
    obtain ⟨c₂, hc₂, htask'⟩ := h'.contexts k c₁ hc₁
    exact ⟨c₂, hc₂, htask'.trans htask⟩

/-! ## One operation -/

theorem onward_scheduleAt {point time : ℤ} (h : e < point + time) (group : Option UInt32)
    (task : H) : s.Onward e (s.scheduleAt point time group task) where
  now := rfl
  created := Nat.le_succ _
  key := by
    intro i hi
    simp [scheduleAt, push, TaskScheduler.key, Function.update_of_ne hi.ne]
  holder := by
    intro i hi
    rcases mem_insertByKey.mp hi with rfl | hi
    · refine .inr ?_
      simpa [scheduleAt, push, TaskScheduler.key] using h
    · exact .inl hi
  contexts := fun _ c hc => ⟨c, hc, rfl⟩

theorem onward_of_subset {holder : List ℕ} (h : holder ⊆ s.holder) (asyncHolder : List A) :
    s.Onward e { s with holder := holder, asyncHolder := asyncHolder } :=
  { Onward.refl e s with holder := fun _ hi => .inl (h hi) }

/-- `Delay` with a duration that is not negative. -/
theorem onward_modifyIf (hnodup : s.holder.Nodup) {newEnd : Task H → Option ℤ}
    (h : ∀ t e, newEnd t = some e → t.endTime ≤ e) :
    s.Onward e (s.modifyIf (newEndFilter newEnd)) := by
  have hmodified := modified_modifyIf hnodup newEnd
  obtain ⟨hnow, hcreated, -, hcontexts⟩ := hmodified.rest
  refine ⟨hnow, hcreated.ge, ?_, ?_, ?_⟩
  · intro i _
    by_cases hi : i ∈ s.holder
    · cases hnew : newEnd (s.tasks i) with
      | none => rw [TaskScheduler.key, TaskScheduler.key, hmodified.others i (.inr hnew)]
      | some e' =>
          rw [TaskScheduler.key, TaskScheduler.key, hmodified.selected i hi e' hnew]
          exact h _ _ hnew
    · rw [TaskScheduler.key, TaskScheduler.key, hmodified.others i (.inl hi)]
  · intro i hi
    exact .inl (hmodified.holder.mem_iff.mp hi)
  · intro k c hc
    exact ⟨c, by rw [hcontexts]; exact hc, rfl⟩

theorem le_of_modification {context : ℕ} {o : Op H} {newEnd : Task H → Option ℤ}
    (hforward : s.Forward context o) (h : o.modification s.now = some newEnd) (t : Task H) (e : ℤ)
    (he : newEnd t = some e) : t.endTime ≤ e := by
  cases o with
  | delayAll duration =>
      cases h
      cases he
      exact Int.le_add_of_nonneg_right hforward
  | delayGroup group duration =>
      cases h
      rw [Option.ite_none_right_eq_some] at he
      cases he.2
      exact Int.le_add_of_nonneg_right hforward
  | rescheduleAll duration => cases hforward
  | rescheduleGroup group duration => cases hforward
  | _ => cases h

theorem onward_repeatTask {context : ℕ} {c : TaskContext} {duration : ℤ}
    (hc : s.contexts[context]? = some c) (hkey : e ≤ s.key c.task) (h : 0 < duration) :
    s.Onward e (s.repeatTask context c.task duration) where
  now := rfl
  created := le_refl _
  key := by
    intro i _
    by_cases hi : i = c.task
    · subst hi
      have hle : s.key c.task ≤ s.key c.task + duration := by omega
      simpa [repeatTask, push, TaskScheduler.key] using hle
    · simp [repeatTask, push, TaskScheduler.key, Function.update_of_ne hi]
  holder := by
    intro i hi
    rcases mem_insertByKey.mp hi with rfl | hi
    · refine .inr ?_
      have hlt : e < s.key c.task + duration := by omega
      simpa [repeatTask, push, TaskScheduler.key] using hlt
    · exact .inl hi
  contexts := by
    intro k c' hc'
    obtain ⟨hlt, -⟩ := List.getElem?_eq_some_iff.mp hc
    by_cases hk : k = context
    · subst hk
      cases hc.symm.trans hc'
      exact ⟨⟨c.task, true⟩, List.getElem?_set_self hlt, rfl⟩
    · exact ⟨c', by rw [← hc']; exact List.getElem?_set_ne (Ne.symm hk), rfl⟩

theorem onward_setTaskGroup (i : ℕ) (group : Option UInt32) :
    s.Onward e (s.setTaskGroup i group) := by
  refine { Onward.refl e s with key := ?_, holder := fun _ hi => .inl hi }
  intro j _
  by_cases hj : j = i
  · subst hj
    simp [setTaskGroup, TaskScheduler.key]
  · simp [setTaskGroup, TaskScheduler.key, Function.update_of_ne hj]

/-- An operation of a handler whose task has ended at `e`, or has been repeated since. -/
theorem onward_apply (h : s.Inv) (he : e ≤ s.now) {context : ℕ} {c : TaskContext}
    (hc : s.contexts[context]? = some c) (hkey : e ≤ s.key c.task) {o : Op H}
    (hforward : s.Forward context o) (ho : s.apply o = some s') : s.Onward e s' := by
  cases apply_cases ho with
  | scheduled =>
      have htime : (0 : ℤ) < _ := hforward
      exact onward_scheduleAt (by omega) _ _
  | contextScheduled hc' =>
      obtain ⟨rfl, htime⟩ := hforward
      cases hc.symm.trans hc'
      exact onward_scheduleAt (by omega) _ _
  | cancelled => exact onward_of_subset (List.nil_subset _) []
  | removed _ hsub => exact onward_of_subset hsub.subset s.asyncHolder
  | modified hmodification =>
      exact onward_modifyIf h.nodup (le_of_modification hforward hmodification)
  | repeated hc' _ =>
      obtain ⟨rfl, hduration⟩ := hforward
      cases hc.symm.trans hc'
      exact onward_repeatTask hc hkey (hduration c hc)
  | regrouped _ => exact onward_setTaskGroup _ _

/-- All operations of the handler. -/
theorem onward_run (h : s.Inv) (he : e ≤ s.now) {context : ℕ} {c : TaskContext}
    (hc : s.contexts[context]? = some c) (hkey : e ≤ s.key c.task) {ops : List (Op H)}
    (hforward : Machine.Along apply (Forward context) s ops)
    (hrun : Machine.run apply s ops = some s') : s'.Inv ∧ s.Onward e s' := by
  refine Machine.run_induction_of (P := fun u => u.Inv ∧ s.Onward e u) ?_ hforward
    ⟨h, .refl e s⟩ hrun
  rintro u o u' ⟨hu, honward⟩ ho hnext
  obtain ⟨c', hc', htask⟩ := honward.contexts context c hc
  have hkey' : e ≤ u.key c'.task := by
    rw [htask]
    exact hkey.trans (honward.key _ (h.contextTask c (List.mem_of_getElem? hc)))
  have hstep := onward_apply hu (he.trans honward.now.ge) hc' hkey' ho hnext
  exact ⟨inv_apply hu hnext, honward.trans hu hstep⟩

/-! ## The measure -/

/-- How many tasks of the queue end at `e` or before. -/
def early (s : TaskScheduler H A) (e : ℤ) : ℕ := (s.holder.filter fun i => s.key i ≤ e).length

/-- The time from the end of the first task up to `_now`, and then how many tasks have the
same end. -/
def progress (s : TaskScheduler H A) : ℕ ×ₗ ℕ :=
  match s.holder with
  | [] => toLex (0, 0)
  | i :: _ => toLex ((s.now + 1 - s.key i).toNat, s.early (s.key i))

theorem early_le (h : s.Inv) (h' : s'.Inv) (honward : s.Onward e s') : s'.early e ≤ s.early e := by
  refine (List.Nodup.subperm (h'.nodup.filter _) ?_).length_le
  intro i hi
  obtain ⟨hmem, hkey⟩ := List.mem_filter.mp hi
  have hle : s'.key i ≤ e := of_decide_eq_true hkey
  rcases honward.holder i hmem with hmem' | hlt
  · refine List.mem_filter.mpr ⟨hmem', decide_eq_true ?_⟩
    exact (honward.key i (h.created i hmem')).trans hle
  · exact absurd hlt (not_lt.mpr hle)

theorem le_key_of_onward (h : s.Inv) {i : ℕ} {rest : List ℕ} (hholder : s.holder = i :: rest)
    (honward : (s.popTask i rest).Onward (s.key i) s') (j : ℕ) (hj : j ∈ s'.holder) :
    s.key i ≤ s'.key j := by
  have hordered := h.ordered
  rw [hholder, ordered_cons] at hordered
  rcases honward.holder j hj with hmem | hlt
  · have hcreated : j < s.created := by
      refine h.created j ?_
      rw [hholder]
      exact List.mem_cons_of_mem _ hmem
    exact (hordered.1 j hmem).trans (honward.key j hcreated)
  · exact hlt.le

/-- **A turn makes the measure smaller.** -/
theorem progress_lt (h : s.Inv) (h' : s'.Inv) {i : ℕ} {rest : List ℕ}
    (hholder : s.holder = i :: rest) (hdue : s.key i ≤ s.now)
    (honward : (s.popTask i rest).Onward (s.key i) s') : s'.progress < s.progress := by
  have hprogress : s.progress = toLex ((s.now + 1 - s.key i).toNat, s.early (s.key i)) := by
    rw [progress, hholder]
  have hnow : s'.now = s.now := honward.now
  rw [hprogress, progress]
  cases hholder' : s'.holder with
  | nil =>
      refine Prod.Lex.toLex_lt_toLex.mpr (.inl ?_)
      simp only
      omega
  | cons j rest' =>
      have hle : s.key i ≤ s'.key j := by
        refine le_key_of_onward h hholder honward j ?_
        rw [hholder']
        exact List.mem_cons_self
      refine Prod.Lex.toLex_lt_toLex.mpr ?_
      rcases hle.lt_or_eq with hlt | heq
      · refine .inl ?_
        simp only [hnow]
        omega
      · -- one task with this end is gone, and none has come
        refine .inr ⟨by simp only [hnow, heq], ?_⟩
        have hearly := early_le (inv_popTask h hholder) h' honward
        have hcons : s.early (s.key i) = (s.popTask i rest).early (s.key i) + 1 := by
          simp only [early, hholder, popTask, List.filter_cons, le_refl, decide_true, if_true,
            List.length_cons]
          rfl
        simp only [← heq]
        omega

end TaskScheduler

namespace World
variable {H A σ : Type} {code : Code H A σ} {w₀ w w' : World H A σ} {now : ℤ}

/-! ## All turns -/

/-- Every invocation of a handler that the loop makes from `w₀` on makes forward operations. -/
def Onwards (code : Code H A σ) (w₀ : World H A σ) : Prop :=
  ∀ w i rest, Loop.Reaches (taskTurn code) w₀ w → w.scheduler.due = some (i, rest) →
    Machine.Along TaskScheduler.apply (TaskScheduler.Forward w.scheduler.contexts.length)
      (w.scheduler.popTask i rest) (w.handle code i rest).1

/-- The tasks were executed in the order of their ends, and none too early. -/
structure InOrder (now : ℤ) (executed : List (ℕ × ℤ)) : Prop where
  ends : (executed.map Prod.snd).Pairwise (· ≤ ·)
  due : ∀ x ∈ executed, x.2 ≤ now

theorem InOrder.concat {executed : List (ℕ × ℤ)} (h : InOrder now executed) {x : ℕ × ℤ}
    (hx : x.2 ≤ now) (hle : ∀ y ∈ executed, y.2 ≤ x.2) : InOrder now (executed ++ [x]) where
  ends := by
    rw [List.map_append, List.pairwise_append]
    refine ⟨h.ends, List.pairwise_singleton _ _, ?_⟩
    intro a ha b hb
    obtain ⟨y, hy, rfl⟩ := List.mem_map.mp ha
    rw [List.map_singleton, List.mem_singleton] at hb
    rw [hb]
    exact hle y hy
  due := by
    intro y hy
    rcases List.mem_append.mp hy with hy | hy
    · exact h.due y hy
    · rw [List.mem_singleton.mp hy]
      exact hx

/-- In front of the loop: what is still in the queue does not end before anything that was
executed. -/
structure TurnInv (w₀ w : World H A σ) (code : Code H A σ) : Prop where
  inv : w.scheduler.Inv
  now : w.scheduler.now = w₀.scheduler.now
  inOrder : InOrder w.scheduler.now w.executed
  later : ∀ x ∈ w.executed, ∀ i ∈ w.scheduler.holder, x.2 ≤ w.scheduler.key i
  reached : Loop.Reaches (taskTurn code) w₀ w

/-- The task that is taken comes last in the history. -/
theorem TurnInv.pop (h : TurnInv w₀ w code) {i : ℕ} {rest : List ℕ}
    (hdue : w.scheduler.due = some (i, rest)) :
    InOrder w.scheduler.now (w.pop i rest).executed := by
  obtain ⟨hholder, hkey⟩ := Dispatcher.due_eq_some hdue
  refine h.inOrder.concat hkey ?_
  intro x hx
  refine h.later x hx i ?_
  rw [hholder]
  exact List.mem_cons_self

theorem turnInv_of_taskTurn (hcode : Onwards code w₀) (h : TurnInv w₀ w code)
    (hturn : taskTurn code w = .inl w') :
    TurnInv w₀ w' code ∧ w'.scheduler.progress < w.scheduler.progress := by
  obtain ⟨i, rest, hdue, hperform⟩ := taskTurn_eq_inl hturn
  obtain ⟨hholder, hkey⟩ := Dispatcher.due_eq_some hdue
  obtain ⟨hrun, -, hexecuted⟩ := perform_eq_some hperform
  have hpopped := TaskScheduler.inv_popTask h.inv hholder
  have hcontext : (w.scheduler.popTask i rest).contexts[w.scheduler.contexts.length]? =
      some ⟨i, false⟩ := List.getElem?_concat_length
  obtain ⟨hinv, honward⟩ := TaskScheduler.onward_run hpopped hkey hcontext (le_refl _)
    (hcode w i rest h.reached hdue) hrun
  refine ⟨⟨hinv, honward.now.trans h.now, ?_, ?_, h.reached.tail hturn⟩,
    TaskScheduler.progress_lt h.inv hinv hholder hkey honward⟩
  · rw [hexecuted, honward.now]
    exact h.pop hdue
  · intro x hx j hj
    have hle := TaskScheduler.le_key_of_onward h.inv hholder honward j hj
    rw [hexecuted] at hx
    rcases List.mem_append.mp hx with hx | hx
    · refine le_trans (h.later x hx i ?_) hle
      rw [hholder]
      exact List.mem_cons_self
    · rw [List.mem_singleton.mp hx]
      exact hle

/-- When nothing is due, everything ends later. -/
theorem lt_key_of_due_eq_none {s : TaskScheduler H A} (h : s.Inv) (hdue : s.due = none) (i : ℕ)
    (hi : i ∈ s.holder) : s.now < s.key i := by
  have hordered := h.ordered
  unfold TaskScheduler.due at hdue
  split at hdue
  · rename_i hholder
    rw [hholder] at hi
    cases hi
  · rename_i j rest hholder
    rw [hholder, ordered_cons] at hordered
    rw [hholder] at hi
    split at hdue
    · rename_i hlt
      rcases List.mem_cons.mp hi with rfl | hi
      · exact hlt
      · exact hlt.trans_le (hordered.1 i hi)
    · cases hdue

/-- The history of a loop that has ended, also of one that has failed. -/
def executedOf : Except (List (ℕ × ℤ)) (World H A σ) → List (ℕ × ℤ)
  | .ok w => w.executed
  | .error executed => executed

/-- **The loop over the tasks ends**, with the tasks executed in the order of their ends and
none before its end; and unless an assertion fails, all that is left in the queue ends
later. -/
theorem taskLoop_ends {s : TaskScheduler H A} (hinv : s.Inv) (memory : σ)
    (hcode : Onwards code ⟨s, memory, []⟩) :
    ∃ fuel r, Loop.loop (taskTurn code) fuel ⟨s, memory, []⟩ = some r ∧
      ((executedOf r).map Prod.snd).Pairwise (· ≤ ·) ∧ (∀ x ∈ executedOf r, x.2 ≤ s.now) ∧
      ∀ w, r = .ok w → w.scheduler.now = s.now ∧
        ∀ i ∈ w.scheduler.holder, s.now < w.scheduler.key i := by
  have hstart : TurnInv ⟨s, memory, []⟩ ⟨s, memory, []⟩ code :=
    ⟨hinv, rfl, ⟨.nil, nofun⟩, nofun, .refl⟩
  have hends : ∃ r, Loop.Returns (taskTurn code) ⟨s, memory, []⟩ r ∧
      InOrder s.now (executedOf r) ∧ ∀ w, r = .ok w → w.scheduler.now = s.now ∧
        ∀ i ∈ w.scheduler.holder, s.now < w.scheduler.key i := by
    refine Loop.exists_returns_of_lt (fun w => w.scheduler.progress)
      (P := fun w => TurnInv ⟨s, memory, []⟩ w code) ?_ hstart
    intro w hw
    have hnow : w.scheduler.now = s.now := hw.now
    cases hturn : taskTurn code w with
    | inl w' => exact .inr ⟨w', rfl, turnInv_of_taskTurn hcode hw hturn⟩
    | inr r =>
        refine .inl ⟨r, rfl, ?_⟩
        cases r with
        | ok w' =>
            obtain ⟨rfl, hdue⟩ := taskTurn_eq_ok hturn
            refine ⟨hnow ▸ hw.inOrder, ?_⟩
            rintro _ ⟨⟩
            refine ⟨hnow, ?_⟩
            rw [← hnow]
            exact lt_key_of_due_eq_none hw.inv hdue
        | error executed =>
            obtain ⟨i, rest, hdue, rfl⟩ := taskTurn_eq_error hturn
            exact ⟨hnow ▸ hw.pop hdue, nofun⟩
  obtain ⟨r, ⟨fuel, hfuel⟩, hinOrder, hrest⟩ := hends
  exact ⟨fuel, r, hfuel, hinOrder.ends, hinOrder.due, hrest⟩

/-- A handler that repeats its task and schedules another one. -/
def repeatingCode : Code Bool Unit Unit where
  handler := fun isRepeated context _ _ =>
    (if isRepeated then
      [.repeatTask context (some 2), .contextSchedule context 1 none false, .delayAll 0]
    else [], ())
  callable := fun _ _ _ => ([], ())

/-- Nothing was updated for some time. -/
def lateScheduler : TaskScheduler Bool Unit :=
  (TaskScheduler.new 6 ⟨0, 0, none, 0, false⟩).scheduleAt 0 1 none true

theorem taskLoop_ends_repeatingCode :
    (∃ w, Loop.loop (taskTurn repeatingCode) 6 ⟨lateScheduler, (), []⟩ = some (.ok w) ∧
      w.executed = [(0, 1), (0, 3), (1, 4), (0, 5), (2, 6)] ∧ w.scheduler.holder = [0, 3]) ∧
      ∃ fuel r, Loop.loop (taskTurn repeatingCode) fuel ⟨lateScheduler, (), []⟩ = some r ∧
        ((executedOf r).map Prod.snd).Pairwise (· ≤ ·) ∧
        (∀ x ∈ executedOf r, x.2 ≤ lateScheduler.now) ∧
        ∀ w, r = .ok w → w.scheduler.now = lateScheduler.now ∧
          ∀ i ∈ w.scheduler.holder, lateScheduler.now < w.scheduler.key i := by
  refine ⟨⟨_, rfl, by decide, by decide⟩, taskLoop_ends ?_ () ?_⟩
  · exact TaskScheduler.inv_scheduleAt (TaskScheduler.inv_new _ _) _ _ _ _
  · intro w i rest _ _
    simp only [handle, repeatingCode]
    split
    · refine ⟨⟨rfl, fun _ _ => (by decide : (0 : ℤ) < 2)⟩,
        fun _ _ => ⟨⟨rfl, by decide⟩, fun _ _ => ?_⟩⟩
      exact ⟨le_refl (0 : ℤ), fun _ _ => trivial⟩
    · trivial

end World
end WarheadDiscord
