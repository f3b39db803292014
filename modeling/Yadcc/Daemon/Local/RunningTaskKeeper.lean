/-
# What a delegate knows of the tasks that run on servants

Every second a daemon asks the scheduler which tasks are running, and keeps the last answer
by digest. When the scheduler has not answered for more than five seconds the daemon forgets
it. Until then an entry may be about a task that ended long ago.
-/

import Yadcc.Daemon.Local.DistributedTaskDispatcher
import Yadcc.Lib.UnorderedMap
import Yadcc.Scheduler.TaskDispatcher

namespace Yadcc.Daemon.Local

open Yadcc.Lib

structure RunningTaskKeeper where
  runningTasks : UnorderedMap String RunningTaskDesc
  lastUpdateTime : TimePoint

namespace RunningTaskKeeper

/-- A keeper that has not asked yet. -/
def new (now : TimePoint) : RunningTaskKeeper := ⟨∅, now⟩

def FiveSeconds : TimePoint := 5 * 10 ^ 9

/-- File a task under its digest, over another one with that digest. -/
def file (runningTasks : UnorderedMap String RunningTaskDesc) (task : Scheduler.RunningTask) :
    UnorderedMap String RunningTaskDesc :=
  runningTasks.insert task.taskDigest ⟨task.servantLocation, task.servantTaskId⟩

/-- One round of the timer; `none` is an RPC that failed. -/
def refresh (result : Option (List Scheduler.RunningTask)) (now : TimePoint)
    (keeper : RunningTaskKeeper) : RunningTaskKeeper :=
  match result with
  | none =>
      if keeper.lastUpdateTime + FiveSeconds < now then { keeper with runningTasks := ∅ }
      else keeper
  | some runningTasks => ⟨runningTasks.foldl file ∅, now⟩

def tryFindTask (taskDigest : String) (keeper : RunningTaskKeeper) : Option RunningTaskDesc :=
  keeper.runningTasks.lookup taskDigest

/-! ## What is found -/

/-- An entry was there before, or is a task of the answer. -/
theorem lookup_foldl_file {tasks : List Scheduler.RunningTask} {taskDigest : String}
    {running : RunningTaskDesc} :
    ∀ {m : UnorderedMap String RunningTaskDesc},
      (tasks.foldl file m).lookup taskDigest = some running →
      m.lookup taskDigest = some running ∨
        ∃ task ∈ tasks, task.taskDigest = taskDigest ∧
          running = ⟨task.servantLocation, task.servantTaskId⟩ := by
  induction tasks with
  | nil =>
      intro m h
      exact .inl h
  | cons task tasks ih =>
      intro m h
      rcases ih h with hfiled | ⟨task', hmem, htask'⟩
      · rw [file, AList.lookup_insert_eq] at hfiled
        split at hfiled
        · next heq =>
            cases hfiled
            exact .inr ⟨task, List.mem_cons_self, heq.symm, rfl⟩
        · exact .inl hfiled
      · exact .inr ⟨task', List.mem_cons_of_mem _ hmem, htask'⟩

/-- What a keeper finds after an answer is a task of the answer with that digest. -/
theorem mem_of_tryFindTask_refresh (keeper : RunningTaskKeeper)
    {tasks : List Scheduler.RunningTask} {now : TimePoint} {taskDigest : String}
    {running : RunningTaskDesc}
    (h : (keeper.refresh (some tasks) now).tryFindTask taskDigest = some running) :
    ∃ task ∈ tasks, task.taskDigest = taskDigest ∧
      running = ⟨task.servantLocation, task.servantTaskId⟩ := by
  rcases lookup_foldl_file h with hempty | hmem
  · cases hempty
  · exact hmem

/-- A round without an answer finds nothing new. -/
theorem tryFindTask_refresh_none {now : TimePoint} {keeper : RunningTaskKeeper}
    {taskDigest : String} {running : RunningTaskDesc}
    (h : (keeper.refresh none now).tryFindTask taskDigest = some running) :
    keeper.tryFindTask taskDigest = some running := by
  unfold refresh at h
  dsimp only at h
  split at h
  · cases h
  · exact h

end RunningTaskKeeper

end Yadcc.Daemon.Local
