/-
# Keeping grants alive

A daemon renews the grants of its tasks every few seconds, in one request to the scheduler
for all of them, and gives up a task that was not renewed for a minute. A task that runs
under a grant of the daemon's own is renewed as long as the scheduler keeps the grant. A
task that was attached to one of another daemon has no grant here, and the request names
the grant 0 for it.
-/

import Yadcc.Daemon.Local.AbortTimer
import Yadcc.Scheduler.Zombies

namespace Yadcc.Daemon.Local

open Yadcc.Lib
open Yadcc.Scheduler (TaskAllocation TaskPersonality)
open Yadcc.Scheduler.TaskDispatcher (Op Reply StartAttempt)

namespace Event

/-- The grant that the event brings. -/
def grant : Event → Option GrantDesc
  | .getGrant grant _ => grant
  | _ => none

end Event

namespace DistributedTaskDispatcher.Action

def reading : Action → Option TimePoint
  | .queueTask _ _ _ _ _ now => some now
  | .perform _ event => event.reading
  | .onAbortTimer now => some now
  | .onCleanupTimer now => some now
  | _ => none

/-- The grant that a fiber takes from the `TaskGrantKeeper`. -/
def grant : Action → Option GrantDesc
  | .perform _ event => event.grant
  | _ => none

/-- Whether it is one of the two halves of `OnKeepAliveTimer`. -/
def keepsAlive : Action → Bool
  | .onKeepAliveTimer _ => true
  | .keptAlive _ => true
  | _ => false

end DistributedTaskDispatcher.Action

structure ClusterConfig where
  daemon : DispatcherConfig
  scheduler : Scheduler.DispatcherConfig

/-- The dispatcher of a daemon with the grants in its `TaskGrantKeeper`, the scheduler, and
the statuses of the request that the scheduler is serving. The grants that the daemon was
handed are written down, and so are the clock of the daemon and the reading of its last
tick. -/
structure Cluster where
  dispatcher : DistributedTaskDispatcher
  scheduler : Scheduler.TaskDispatcher
  grantKeeper : List GrantDesc
  statuses : List Bool
  handed : List UInt64
  clock : TimePoint
  lastTick : TimePoint

/-- A grant for the daemon, an operation of the scheduler for others, a step of the daemon,
and the four parts of a renewal: the tick, the service of each grant, and the answer. -/
inductive ClusterEvent
  | grant (personality : TaskPersonality) (expiresIn : Scheduler.Time) (prefetching : Bool)
      (now now' : Scheduler.Time) (allocation : TaskAllocation)
  | others (op : Op) (reply : Reply)
  | daemon (action : DistributedTaskDispatcher.Action)
  | tick (now : TimePoint)
  | serve (taskGrantId : UInt64) (now : Scheduler.Time) (status : Bool)
  | answered

namespace Cluster

def empty : Cluster where
  dispatcher := .empty
  scheduler := .empty
  grantKeeper := []
  statuses := []
  handed := []
  clock := 0
  lastTick := 0

def fiveSeconds : TimePoint := 5000000000

/-- `next_keep_alive_in_ms` of the request, in nanoseconds. -/
def nextKeepAlive : Scheduler.Time := 10000000000

/-- The clock does not run backwards, nor for more than five seconds without a tick. -/
def Timely (s : Cluster) (now : TimePoint) : Prop :=
  s.clock ≤ now ∧ now ≤ s.lastTick + fiveSeconds

inductive Step (cfg : ClusterConfig) (s : Cluster) : ClusterEvent → Cluster → Prop
  | grant {personality : TaskPersonality} {expiresIn : Scheduler.Time} {prefetching : Bool}
      {now now' : Scheduler.Time} {allocation : TaskAllocation}
      {scheduler : Scheduler.TaskDispatcher} :
      Scheduler.TaskDispatcher.Step cfg.scheduler s.scheduler
        (.waitForStartingNewTask personality expiresIn prefetching now now',
          .attempt (.allocated allocation)) scheduler →
      Step cfg s (.grant personality expiresIn prefetching now now' allocation)
        { s with
          scheduler
          grantKeeper := s.grantKeeper ++ [⟨allocation.taskId, allocation.servantLocation⟩]
          handed := allocation.taskId :: s.handed }
  | others {op : Op} {reply : Reply} {scheduler : Scheduler.TaskDispatcher} :
      Scheduler.TaskDispatcher.Step cfg.scheduler s.scheduler (op, reply) scheduler →
      Step cfg s (.others op reply) { s with scheduler }
  | daemon {action : DistributedTaskDispatcher.Action} {dispatcher : DistributedTaskDispatcher} :
      action.keepsAlive = false → (∀ grant ∈ action.grant, grant ∈ s.grantKeeper) →
      (∀ now ∈ action.reading, s.Timely now) →
      DistributedTaskDispatcher.Step cfg.daemon s.dispatcher action dispatcher →
      Step cfg s (.daemon action)
        { s with
          dispatcher
          grantKeeper := s.grantKeeper.filter fun grant => action.grant ≠ some grant
          clock := action.reading.getD s.clock }
  | tick {now : TimePoint} {dispatcher : DistributedTaskDispatcher} : s.Timely now →
      DistributedTaskDispatcher.Step cfg.daemon s.dispatcher (.onKeepAliveTimer now)
        dispatcher →
      Step cfg s (.tick now)
        { s with
          dispatcher
          statuses := []
          clock := now
          lastTick := now }
  -- The handler renews one grant after the other, each under the lock.
  | serve {request : KeepAlive} {taskGrantId : UInt64} {now : Scheduler.Time} {status : Bool}
      {scheduler : Scheduler.TaskDispatcher} : s.dispatcher.keepAlive = some request →
      request.taskGrantIds[s.statuses.length]? = some taskGrantId →
      Scheduler.TaskDispatcher.Step cfg.scheduler s.scheduler
        (.keepTaskAlive taskGrantId nextKeepAlive now, .kept status) scheduler →
      Step cfg s (.serve taskGrantId now status)
        { s with
          scheduler
          statuses := s.statuses ++ [status] }
  | answered {request : KeepAlive} {dispatcher : DistributedTaskDispatcher} :
      s.dispatcher.keepAlive = some request →
      s.statuses.length = request.taskGrantIds.length →
      DistributedTaskDispatcher.Step cfg.daemon s.dispatcher (.keptAlive (some s.statuses))
        dispatcher →
      Step cfg s .answered { s with dispatcher }

/-- The steps of the scheduler in a sequence of events. -/
def schedulerLabels (events : List ClusterEvent) : List (Op × Reply) :=
  events.filterMap fun
    | .grant personality expiresIn prefetching now now' allocation =>
        some (.waitForStartingNewTask personality expiresIn prefetching now now',
          .attempt (.allocated allocation))
    | .others op reply => some (op, reply)
    | .serve taskGrantId now status =>
        some (.keepTaskAlive taskGrantId nextKeepAlive now, .kept status)
    | _ => none

end Cluster

namespace Descriptor

/-- The servant runs the task under a grant: under the one of an own task, or, where the task
was attached, under one of another daemon. -/
def RunsUnder (desc : Descriptor) (taskGrantId : UInt64) : Prop :=
  desc.fiber.referenced ≠ [] ∨ desc.fiber.task.taskGrantId = taskGrantId

end Descriptor

namespace Cluster

/-- The scheduler holds a grant, and it is no zombie. -/
def Holds (scheduler : Scheduler.TaskDispatcher) (taskGrantId : UInt64) : Prop :=
  ∃ task, scheduler.tasks.lookup taskGrantId = some task ∧ task.zombie = false

/-- No tick finds an attached task with its servant that is not aborted. -/
def NoneAttached (s : Cluster) : ClusterEvent → Prop
  | .tick _ => ∀ id ∈ s.dispatcher.tasks, ∀ desc, s.dispatcher.descs id = some desc →
      desc.underway = true → desc.fiber.task.aborted = false → desc.fiber.referenced = []
  | _ => True

/-! ## The scheduler -/

/-- A grant that is gone, or a zombie, stays so until its number comes round. -/
theorem holds_before {cfg : Scheduler.DispatcherConfig} {s t : Scheduler.TaskDispatcher}
    (hs : s.Consistent) {op : Op} {reply : Reply} (h : s.apply cfg op = .ok (reply, t))
    {taskGrantId : UInt64} (hold : taskGrantId ≠ s.nextTaskId) (hholds : Holds t taskGrantId) :
    Holds s taskGrantId := by
  obtain ⟨task, htask, halive⟩ := hholds
  have hsome : (t.tasks.lookup taskGrantId).isSome := Option.isSome_of_eq_some htask
  rcases Scheduler.TaskDispatcher.lookup_apply hs.counted h hsome with ⟨-, hnew⟩ | hbefore
  · exact absurd hnew hold
  · obtain ⟨before, hbefore⟩ := Option.isSome_iff_exists.mp hbefore
    cases hzombie : before.zombie with
    | false => exact ⟨before, hbefore, hzombie⟩
    | true =>
        rcases Scheduler.TaskDispatcher.zombie_step hs h hbefore hzombie with hsame | hrelease
        · rw [htask] at hsame
          cases hsame
          rw [hzombie] at halive
          cases halive
        · rw [Scheduler.TaskDispatcher.zombie_released hs h hbefore hzombie hrelease] at htask
          cases htask

/-- The scheduler renews what it holds. -/
theorem status_of_holds {cfg : Scheduler.DispatcherConfig} {s t : Scheduler.TaskDispatcher}
    {taskGrantId : UInt64} {newExpiresIn now : Scheduler.Time} {status : Bool}
    (h : s.apply cfg (.keepTaskAlive taskGrantId newExpiresIn now) = .ok (.kept status, t))
    (hholds : Holds s taskGrantId) : status = true := by
  obtain ⟨task, htask, halive⟩ := hholds
  simp only [Scheduler.TaskDispatcher.apply, Scheduler.TaskDispatcher.keepTaskAlive, htask,
    halive] at h
  cases h
  rfl

/-- The scheduler makes a run of its own. -/
theorem scheduler_run {cfg : ClusterConfig} {events : List ClusterEvent} {s : Cluster}
    (run : Run (Step cfg) empty events s) :
    Run (Scheduler.TaskDispatcher.Step cfg.scheduler) .empty (schedulerLabels events)
      s.scheduler := by
  refine Run.invariant_labels (I := fun events s =>
    Run (Scheduler.TaskDispatcher.Step cfg.scheduler) .empty (schedulerLabels events)
      s.scheduler) (.nil _) ?_ run
  intro events s event t hrun hstep
  have hone : schedulerLabels (events ++ [event]) =
      schedulerLabels events ++ schedulerLabels [event] := List.filterMap_append ..
  rw [hone]
  refine hrun.append ?_
  cases hstep with
  | grant hgrant => exact .cons hgrant (.nil _)
  | others hothers => exact .cons hothers (.nil _)
  | daemon hkeeps hgrant htimely haction => exact .nil _
  | tick htimely haction => exact .nil _
  | serve hrequest hnext hserve => exact .cons hserve (.nil _)
  | answered hrequest hlength haction => exact .nil _

/-! ## The fiber of a task -/

end Cluster

/-- The points before the task has a grant or a reference. -/
def Pc.early : Pc → Bool
  | .readingCache => true
  | .findingTask => true
  | .referencing _ => true
  | .gettingGrant => true
  | .awaitingGrant => true
  | _ => false

namespace Fiber

variable {cfg : DispatcherConfig} {f f' : Fiber} {event : Event}

/-- The state that the task has at the first points of the fiber. -/
structure Placed (f : Fiber) : Prop where
  early : f.pc.early = true → f.task.state = .pending
  starting : ∀ grant, f.pc = .starting grant → f.task.state = .readyToFire

theorem placed_of_not {f : Fiber} (hearly : f.pc.early = false)
    (hstarting : ∀ grant, f.pc ≠ .starting grant) : Placed f where
  early h := by
    rw [hearly] at h
    cases h
  starting grant h := absurd h (hstarting grant)

/-- A step from one early point to another one. -/
theorem Placed.early_step (pc : Pc) (h : Placed f) (hpc : f.pc.early = true)
    (hstarting : ∀ grant, pc ≠ .starting grant) (hpc' : f'.pc = pc)
    (hstate : f'.task.state = f.task.state) : Placed f' where
  early _ := hstate.trans (h.early hpc)
  starting grant heq := absurd (hpc'.symm.trans heq) (hstarting grant)

theorem Placed.step (h : Placed f) (hstep : f.Step cfg event f') : Placed f' := by
  have hearly : ∀ {pc : Pc}, f.pc = pc → pc.early = true → f.pc.early = true :=
    fun hpc hearly => by rw [hpc]; exact hearly
  cases took_of_step hstep with
  | abort => exact ⟨h.early, h.starting⟩
  | readCache entry hpc =>
      unfold readCache
      split
      · exact h.early_step .findingTask (hearly hpc rfl) nofun rfl rfl
      · split
        · exact placed_of_not rfl nofun
        · exact h.early_step .findingTask (hearly hpc rfl) nofun rfl rfl
  | findTask running hpc =>
      cases running with
      | none => exact h.early_step .gettingGrant (hearly hpc rfl) nofun rfl rfl
      | some running => exact h.early_step (.referencing running) (hearly hpc rfl) nofun rfl rfl
  | referenceTask running ok now hpc =>
      cases ok with
      | false => exact h.early_step .gettingGrant (hearly hpc rfl) nofun rfl rfl
      | true => exact placed_of_not rfl nofun
  | checkGrant hpc =>
      unfold checkGrant
      split
      · exact placed_of_not rfl nofun
      · exact h.early_step .awaitingGrant (hearly hpc rfl) nofun rfl rfl
  | getGrant grant now hpc =>
      cases grant with
      | none => exact h.early_step .gettingGrant (hearly hpc rfl) nofun rfl rfl
      | some grant => exact ⟨nofun, fun _ _ => rfl⟩
  | startTask grant servantTaskId now hpc =>
      cases servantTaskId with
      | none => exact placed_of_not rfl nofun
      | some servantTaskId => exact placed_of_not rfl nofun
  | checkWait held retriesLeft hpc =>
      unfold checkWait
      split
      · exact placed_of_not rfl nofun
      · exact placed_of_not rfl nofun
  | poll held retriesLeft result hpc =>
      unfold poll
      split
      · exact placed_of_not rfl nofun
      · exact placed_of_not rfl nofun
      · exact placed_of_not rfl nofun
      · exact placed_of_not rfl nofun
  | freeServantTask held hpc =>
      cases held with
      | referenced running => exact placed_of_not rfl nofun
      | started grant servantTaskId => exact placed_of_not rfl nofun
  | freeGrant grantId hpc => exact placed_of_not rfl nofun
  | complete now hpc => exact placed_of_not rfl nofun

/-- The task is with a servant, or about to be, and was not attached. -/
def Own (f : Fiber) : Prop :=
  (f.task.state = .readyToFire ∨ f.task.state = .dispatched) ∧ f.referenced = []

/-- What the renewal of a task depends on. -/
structure SameGrant (f f' : Fiber) : Prop where
  own : f.Own
  taskGrantId : f'.task.taskGrantId = f.task.taskGrantId
  lastKeepAliveAt : f'.task.lastKeepAliveAt = f.task.lastKeepAliveAt

/-- A task comes to run under a grant of the daemon when it gets the grant. -/
theorem own_of_step (h : Placed f) (hstep : f.Step cfg event f') (hown : f'.Own) :
    SameGrant f f' ∨ f.task.state = .pending ∧ ∃ grant now,
      event = .getGrant (some grant) now ∧ f'.task.taskGrantId = grant.grantId ∧
      f'.task.lastKeepAliveAt = now := by
  cases took_of_step hstep with
  | abort => exact .inl ⟨hown, rfl, rfl⟩
  | readCache entry hpc =>
      unfold readCache at hown ⊢
      split at hown
      · exact .inl ⟨hown, rfl, rfl⟩
      · next output =>
          by_cases hallow : f.task.cacheSetting = .allow
          · simp only [hallow, if_true] at hown ⊢
            exact .inl ⟨hown, rfl, rfl⟩
          · simp only [hallow, if_false] at hown ⊢
            exact .inl ⟨hown, rfl, rfl⟩
  | findTask running hpc =>
      cases running with
      | none => exact .inl ⟨hown, rfl, rfl⟩
      | some running => exact .inl ⟨hown, rfl, rfl⟩
  | referenceTask running ok now hpc =>
      cases ok with
      | false => exact .inl ⟨hown, rfl, rfl⟩
      | true => cases hown.2
  | checkGrant hpc => exact .inl ⟨hown, rfl, rfl⟩
  | getGrant grant now hpc =>
      cases grant with
      | none => exact .inl ⟨hown, rfl, rfl⟩
      | some grant =>
          have hpending : f.task.state = .pending := h.early (by rw [hpc]; rfl)
          exact .inr ⟨hpending, grant, now, rfl, rfl, rfl⟩
  | startTask grant servantTaskId now hpc =>
      cases servantTaskId with
      | none => exact .inl ⟨hown, rfl, rfl⟩
      | some servantTaskId => exact .inl ⟨⟨.inl (h.starting grant hpc), hown.2⟩, rfl, rfl⟩
  | checkWait held retriesLeft hpc => exact .inl ⟨hown, rfl, rfl⟩
  | poll held retriesLeft result hpc =>
      cases hresult : waitServantForTask cfg result with
      | ok output =>
          simp only [poll, hresult] at hown ⊢
          exact .inl ⟨hown, rfl, rfl⟩
      | error status =>
          cases status with
          | running =>
              simp only [poll, hresult] at hown ⊢
              exact .inl ⟨hown, rfl, rfl⟩
          | rpcError =>
              simp only [poll, hresult] at hown ⊢
              exact .inl ⟨hown, rfl, rfl⟩
          | failed =>
              simp only [poll, hresult] at hown ⊢
              exact .inl ⟨hown, rfl, rfl⟩
  | freeServantTask held hpc => exact .inl ⟨hown, rfl, rfl⟩
  | freeGrant grantId hpc => exact .inl ⟨hown, rfl, rfl⟩
  | complete now hpc => rcases hown.1 with hstate | hstate <;> cases hstate

/-- A task does not become pending again. -/
theorem left_of_step (hstep : f.Step cfg event f') (hleft : f.task.state ≠ .pending) :
    f'.task.state ≠ .pending := by
  by_cases hevent : event = .abort
  · subst hevent
    cases took_of_step hstep
    exact hleft
  · obtain ⟨-, hmoved | ⟨now, -, rfl⟩⟩ := moved_or_complete hstep hevent
    · rcases hmoved.state with hsame | hnot
      · rwa [hsame]
      · exact hnot.1
    · exact nofun

end Fiber

namespace DistributedTaskDispatcher

variable {cfg : DispatcherConfig} {d d' : DistributedTaskDispatcher} {action : Action}

theorem placed_changed {id : ℕ} {desc desc' : Descriptor} (h : desc.fiber.Placed)
    (hchanged : Changed cfg d id desc action desc') : desc'.fiber.Placed := by
  cases hchanged with
  | same => exact h
  | performed hevent hfiber => exact h.step hfiber
  | taken hwaiter hid hpc => exact h
  | late hmem hlate => exact ⟨h.early, h.starting⟩
  | overdue hmem hoverdue => exact ⟨h.early, h.starting⟩
  | renewed hmem hrequest hkept => exact ⟨h.early, h.starting⟩
  | orphaned hmem haborted htask hdead => exact ⟨h.early, h.starting⟩

theorem left_changed {id : ℕ} {desc desc' : Descriptor}
    (h : desc.fiber.task.state ≠ .pending) (hchanged : Changed cfg d id desc action desc') :
    desc'.fiber.task.state ≠ .pending := by
  cases hchanged with
  | same => exact h
  | performed hevent hfiber => exact Fiber.left_of_step hfiber h
  | taken hwaiter hid hpc => exact h
  | late hmem hlate => exact h
  | overdue hmem hoverdue => exact h
  | renewed hmem hrequest hkept => exact h
  | orphaned hmem haborted htask hdead => exact h

/-- The `aborted` flag is not taken back. -/
theorem aborted_changed {id : ℕ} {desc desc' : Descriptor}
    (hchanged : Changed cfg d id desc action desc') (h : desc'.fiber.task.aborted = false) :
    desc.fiber.task.aborted = false := by
  cases hchanged with
  | same => exact h
  | performed hevent hfiber => exact (kept_of_step hfiber hevent).2.symm.trans h
  | taken hwaiter hid hpc => exact h
  | late hmem hlate => cases h
  | overdue hmem hoverdue => cases h
  | renewed hmem hrequest hkept => exact h
  | orphaned hmem haborted htask hdead => cases h

/-- Where a task that runs under a grant of the daemon was before a step. -/
inductive OwnBefore (cfg : DispatcherConfig) (d : DistributedTaskDispatcher) (id : ℕ)
    (action : Action) (desc' : Descriptor) : Prop
  | same (desc : Descriptor) : d.descs id = some desc → Changed cfg d id desc action desc' →
      desc.fiber.Own → desc'.fiber.task.taskGrantId = desc.fiber.task.taskGrantId →
      (desc'.fiber.task.lastKeepAliveAt = desc.fiber.task.lastKeepAliveAt ∨
        ∃ request statuses, d.keepAlive = some request ∧ action = .keptAlive statuses ∧
          desc'.fiber.task.lastKeepAliveAt = request.now) →
      OwnBefore cfg d id action desc'
  | gets (desc : Descriptor) (grant : GrantDesc) (now : TimePoint) : d.descs id = some desc →
      desc.fiber.task.state = .pending → action = .perform id (.getGrant (some grant) now) →
      desc'.fiber.task.taskGrantId = grant.grantId →
      desc'.fiber.task.lastKeepAliveAt = now → OwnBefore cfg d id action desc'

theorem ownBefore_of_step (hnumbered : Numbered d)
    (hplaced : ∀ id desc, d.descs id = some desc → desc.fiber.Placed)
    (h : Step cfg d action d') {id : ℕ} {desc' : Descriptor} (hdesc' : d'.descs id = some desc')
    (hown : desc'.fiber.Own) : OwnBefore cfg d id action desc' := by
  cases hdesc : d.descs id with
  | none =>
      obtain ⟨-, _, _, _, _, _, _, -, rfl⟩ := queued_of_step h hdesc hdesc'
      rcases hown.1 with hstate | hstate <;> cases hstate
  | some desc =>
      obtain ⟨desc₀, hdesc₀, hchanged⟩ := changed_of_step hnumbered h hdesc
      cases hdesc'.symm.trans hdesc₀
      have hsame := @OwnBefore.same cfg d id action desc' desc hdesc hchanged
      cases hchanged with
      | same => exact hsame hown rfl (.inl rfl)
      | @performed event fiber hevent hfiber =>
          rcases Fiber.own_of_step (hplaced id desc hdesc) hfiber hown with hgrant |
            ⟨hpending, grant, now, rfl, hgrantId, hlast⟩
          · exact hsame hgrant.own hgrant.taskGrantId (.inl hgrant.lastKeepAliveAt)
          · exact .gets desc grant now hdesc hpending rfl hgrantId hlast
      | taken hwaiter hid hpc => exact hsame hown rfl (.inl rfl)
      | late hmem hlate => exact hsame hown rfl (.inl rfl)
      | overdue hmem hoverdue => exact hsame hown rfl (.inl rfl)
      | @renewed request statuses hmem hrequest hkept =>
          exact hsame hown rfl (.inr ⟨request, some statuses, hrequest, rfl, rfl⟩)
      | orphaned hmem haborted htask hdead => exact hsame hown rfl (.inl rfl)

/-- Only the timer itself touches its request. -/
theorem keepAlive_of_step (h : Step cfg d action d') (hkeeps : action.keepsAlive = false) :
    d'.keepAlive = d.keepAlive := by
  cases h with
  | queueTask => rfl
  | perform hdesc hevent hfiber => rfl
  | waitForTask taskType taskId hnone => rfl
  | latchTimeout hwaiter hpc => rfl
  | latchPassed hwaiter hpc hdesc hcompletions => rfl
  | eraseTask hwaiter hpc => rfl
  | takeTask hwaiter hpc hdesc => rfl
  | onAbortTimer now => rfl
  | onKeepAliveTimer now hnone => cases hkeeps
  | keptAlive statuses hrequest => cases hkeeps
  | onKillOrphanTimer isProcessAlive => rfl
  | onCleanupTimer now => rfl

end DistributedTaskDispatcher

namespace Cluster

variable {cfg : ClusterConfig} {s t : Cluster} {event : ClusterEvent}
  {events : List ClusterEvent}

/-! ## What the renewals keep -/

/-- The request in flight names tasks that have left `Pending`, with their grants. -/
structure Matches (s : Cluster) (request : KeepAlive) : Prop where
  now : request.now = s.lastTick
  length : request.taskIds.length = request.taskGrantIds.length
  grants : ∀ (k id : ℕ), request.taskIds[k]? = some id → ∃ desc,
    s.dispatcher.descs id = some desc ∧ desc.fiber.task.state ≠ .pending ∧
      (desc.fiber.Own → request.taskGrantIds[k]? = some desc.fiber.task.taskGrantId)

/-- A task was renewed since the last tick, or the request of that tick has no bad status
for it. -/
def Fresh (s : Cluster) (id : ℕ) (lastKeepAliveAt : TimePoint) : Prop :=
  s.lastTick ≤ lastKeepAliveAt ∨
  s.lastTick ≤ lastKeepAliveAt + fiveSeconds ∧ ∃ request,
    s.dispatcher.keepAlive = some request ∧ id ∈ request.taskIds ∧
    ∀ (k : ℕ) (status : Bool), request.taskIds[k]? = some id → s.statuses[k]? = some status →
      status = true

/-- The invariant of the renewals. -/
structure Steady (s : Cluster) : Prop where
  numbered : s.dispatcher.Numbered
  placed : ∀ id desc, s.dispatcher.descs id = some desc → desc.fiber.Placed
  keeper : ∀ grant ∈ s.grantKeeper, grant.grantId ∈ s.handed
  known : ∀ taskGrantId ∈ s.handed, taskGrantId < s.scheduler.nextTaskId
  owned : ∀ id desc, s.dispatcher.descs id = some desc → desc.fiber.Own →
    desc.fiber.task.taskGrantId ∈ s.handed
  ticked : s.lastTick ≤ s.clock
  request : ∀ request, s.dispatcher.keepAlive = some request → Matches s request
  fresh : ∀ id desc, id ∈ s.dispatcher.tasks → s.dispatcher.descs id = some desc →
    desc.fiber.Own → desc.fiber.task.aborted = false →
    Holds s.scheduler desc.fiber.task.taskGrantId →
    Fresh s id desc.fiber.task.lastKeepAliveAt

/-- The grant of an own task was held before the scheduler's step if it is held after it. -/
theorem Steady.holds_before (hsteady : Steady s) (hs : s.scheduler.Consistent) {op : Op}
    {reply : Reply} {scheduler : Scheduler.TaskDispatcher}
    (h : Scheduler.TaskDispatcher.Step cfg.scheduler s.scheduler (op, reply) scheduler)
    {id : ℕ} {desc : Descriptor} (hdesc : s.dispatcher.descs id = some desc)
    (hown : desc.fiber.Own) (hholds : Holds scheduler desc.fiber.task.taskGrantId) :
    Holds s.scheduler desc.fiber.task.taskGrantId := by
  have hlt := hsteady.known _ (hsteady.owned id desc hdesc hown)
  refine Cluster.holds_before hs h ?_ hholds
  rintro heq
  rw [heq] at hlt
  exact UInt64.lt_irrefl _ hlt

theorem Steady.grant {allocation : TaskAllocation} {personality : TaskPersonality}
    {expiresIn : Scheduler.Time} {prefetching : Bool} {now now' : Scheduler.Time}
    {scheduler : Scheduler.TaskDispatcher} (hsteady : Steady s) (hs : s.scheduler.Consistent)
    (h : Scheduler.TaskDispatcher.Step cfg.scheduler s.scheduler
      (.waitForStartingNewTask personality expiresIn prefetching now now',
        .attempt (.allocated allocation)) scheduler)
    (hnext : s.scheduler.nextTaskId < scheduler.nextTaskId) :
    Steady { s with
      scheduler
      grantKeeper := s.grantKeeper ++ [⟨allocation.taskId, allocation.servantLocation⟩]
      handed := allocation.taskId :: s.handed } where
  numbered := hsteady.numbered
  placed := hsteady.placed
  keeper grant hgrant := by
    rcases List.mem_append.mp hgrant with hold | hnew
    · exact List.mem_cons_of_mem _ (hsteady.keeper grant hold)
    · rw [List.mem_singleton.mp hnew]
      exact List.mem_cons_self
  known taskGrantId hmem := by
    rcases List.mem_cons.mp hmem with rfl | hold
    · have hid : allocation.taskId = s.scheduler.nextTaskId := by
        obtain ⟨⟨result, u⟩, hwait, hreply⟩ := bind_eq_ok.mp h
        cases hreply
        rcases Scheduler.TaskDispatcher.waitForStartingNewTask_cases hwait with
          ⟨hno | hno, -⟩ | ⟨pick, -, -, hallocated, -⟩
        · cases hno
        · cases hno
        · cases hallocated
          rfl
      rw [hid]
      exact hnext
    · exact UInt64.lt_trans (hsteady.known taskGrantId hold) hnext
  owned id desc hdesc hown := List.mem_cons_of_mem _ (hsteady.owned id desc hdesc hown)
  ticked := hsteady.ticked
  request request hrequest := by
    have hmatches := hsteady.request request hrequest
    exact ⟨hmatches.now, hmatches.length, hmatches.grants⟩
  fresh id desc hmem hdesc hown haborted hholds :=
    hsteady.fresh id desc hmem hdesc hown haborted (hsteady.holds_before hs h hdesc hown hholds)

theorem Steady.others {op : Op} {reply : Reply} {scheduler : Scheduler.TaskDispatcher}
    (hsteady : Steady s) (hs : s.scheduler.Consistent)
    (h : Scheduler.TaskDispatcher.Step cfg.scheduler s.scheduler (op, reply) scheduler)
    (hnext : s.scheduler.nextTaskId ≤ scheduler.nextTaskId) : Steady { s with scheduler } where
  numbered := hsteady.numbered
  placed := hsteady.placed
  keeper := hsteady.keeper
  known taskGrantId hmem := UInt64.lt_of_lt_of_le (hsteady.known taskGrantId hmem) hnext
  owned := hsteady.owned
  ticked := hsteady.ticked
  request request hrequest := by
    have hmatches := hsteady.request request hrequest
    exact ⟨hmatches.now, hmatches.length, hmatches.grants⟩
  fresh id desc hmem hdesc hown haborted hholds :=
    hsteady.fresh id desc hmem hdesc hown haborted (hsteady.holds_before hs h hdesc hown hholds)

/-- The scheduler answers well for the grants that it holds. -/
theorem Steady.serve {request : KeepAlive} {taskGrantId : UInt64} {now : Scheduler.Time}
    {status : Bool} {scheduler : Scheduler.TaskDispatcher} (hsteady : Steady s)
    (hs : s.scheduler.Consistent) (hrequest : s.dispatcher.keepAlive = some request)
    (hserved : request.taskGrantIds[s.statuses.length]? = some taskGrantId)
    (h : Scheduler.TaskDispatcher.Step cfg.scheduler s.scheduler
      (.keepTaskAlive taskGrantId nextKeepAlive now, .kept status) scheduler)
    (hnext : s.scheduler.nextTaskId ≤ scheduler.nextTaskId) :
    Steady { s with
      scheduler
      statuses := s.statuses ++ [status] } where
  numbered := hsteady.numbered
  placed := hsteady.placed
  keeper := hsteady.keeper
  known taskGrantId hmem := UInt64.lt_of_lt_of_le (hsteady.known taskGrantId hmem) hnext
  owned := hsteady.owned
  ticked := hsteady.ticked
  request request hrequest := by
    have hmatches := hsteady.request request hrequest
    exact ⟨hmatches.now, hmatches.length, hmatches.grants⟩
  fresh id desc hmem hdesc hown haborted hholds := by
    have hbefore := hsteady.holds_before hs h hdesc hown hholds
    rcases hsteady.fresh id desc hmem hdesc hown haborted hbefore with hrenewed |
      ⟨hrecent, request', hrequest', hlisted, hstatuses⟩
    · exact .inl hrenewed
    · refine .inr ⟨hrecent, request', hrequest', hlisted, fun k status' hk hstatus => ?_⟩
      cases hrequest.symm.trans hrequest'
      rcases Nat.lt_or_ge k s.statuses.length with hlt | hge
      · exact hstatuses k status' hk ((List.getElem?_append_left hlt).symm.trans hstatus)
      · have hlast : k = s.statuses.length := by
          have hbound := (List.getElem?_eq_some_iff.mp hstatus).1
          simp only [List.length_append, List.length_singleton] at hbound
          omega
        subst hlast
        obtain ⟨desc', hdesc', -, hgrant⟩ := (hsteady.request request hrequest).grants _ id hk
        cases hdesc.symm.trans hdesc'
        cases hserved.symm.trans (hgrant hown)
        have heq : status' = status := by simpa using hstatus.symm
        rw [heq]
        exact status_of_holds h hbefore

/-- After a step of the dispatcher the new tasks are at their beginning. -/
theorem Steady.placed_step {action : DistributedTaskDispatcher.Action}
    {dispatcher : DistributedTaskDispatcher} (hsteady : Steady s)
    (h : DistributedTaskDispatcher.Step cfg.daemon s.dispatcher action dispatcher) (id : ℕ)
    (desc' : Descriptor) (hdesc' : dispatcher.descs id = some desc') : desc'.fiber.Placed := by
  cases hdesc : s.dispatcher.descs id with
  | none =>
      obtain ⟨-, _, _, _, _, _, _, -, rfl⟩ :=
        DistributedTaskDispatcher.queued_of_step h hdesc hdesc'
      exact ⟨fun _ => rfl, nofun⟩
  | some desc =>
      obtain ⟨desc₀, hdesc₀, hchanged⟩ :=
        DistributedTaskDispatcher.changed_of_step hsteady.numbered h hdesc
      cases hdesc'.symm.trans hdesc₀
      exact DistributedTaskDispatcher.placed_changed (hsteady.placed id desc hdesc) hchanged

/-- A task gets its grant from the keeper. -/
theorem Steady.owned_step {action : DistributedTaskDispatcher.Action}
    {dispatcher : DistributedTaskDispatcher} (hsteady : Steady s)
    (hgrant : ∀ grant ∈ action.grant, grant ∈ s.grantKeeper)
    (h : DistributedTaskDispatcher.Step cfg.daemon s.dispatcher action dispatcher) (id : ℕ)
    (desc' : Descriptor) (hdesc' : dispatcher.descs id = some desc') (hown : desc'.fiber.Own) :
    desc'.fiber.task.taskGrantId ∈ s.handed := by
  cases DistributedTaskDispatcher.ownBefore_of_step hsteady.numbered hsteady.placed h hdesc'
    hown with
  | same desc hdesc hchanged hbefore hid hlast =>
      rw [hid]
      exact hsteady.owned id desc hdesc hbefore
  | gets desc grant now hdesc hpending haction hid hlast =>
      rw [hid]
      refine hsteady.keeper grant (hgrant grant ?_)
      rw [haction]
      rfl

/-- A task that is there after a step, and was made before it, was there. -/
theorem Steady.mem_before {action : DistributedTaskDispatcher.Action}
    {dispatcher : DistributedTaskDispatcher} (hsteady : Steady s)
    (h : DistributedTaskDispatcher.Step cfg.daemon s.dispatcher action dispatcher) {id : ℕ}
    {desc : Descriptor} (hdesc : s.dispatcher.descs id = some desc)
    (hmem : id ∈ dispatcher.tasks) : id ∈ s.dispatcher.tasks := by
  rcases DistributedTaskDispatcher.tasks_before_step h hmem with hmem | ⟨hnew, -⟩
  · exact hmem
  · have := hsteady.numbered id desc hdesc
    omega

/-- A step of the daemon outside the timer. -/
theorem Steady.daemon {action : DistributedTaskDispatcher.Action}
    {dispatcher : DistributedTaskDispatcher} (hsteady : Steady s)
    (hkeeps : action.keepsAlive = false) (hgrant : ∀ grant ∈ action.grant, grant ∈ s.grantKeeper)
    (htimely : ∀ now ∈ action.reading, s.Timely now)
    (h : DistributedTaskDispatcher.Step cfg.daemon s.dispatcher action dispatcher) :
    Steady { s with
      dispatcher
      grantKeeper := s.grantKeeper.filter fun grant => action.grant ≠ some grant
      clock := action.reading.getD s.clock } where
  numbered := hsteady.numbered.step h
  placed := hsteady.placed_step h
  keeper grant hmem := hsteady.keeper grant (List.mem_of_mem_filter hmem)
  known := hsteady.known
  owned := hsteady.owned_step hgrant h
  ticked := by
    show s.lastTick ≤ action.reading.getD s.clock
    cases hreading : action.reading with
    | none => exact hsteady.ticked
    | some now => exact hsteady.ticked.trans (htimely now hreading).1
  request request hrequest := by
    have hrequest : dispatcher.keepAlive = some request := hrequest
    rw [DistributedTaskDispatcher.keepAlive_of_step h hkeeps] at hrequest
    have hmatches := hsteady.request request hrequest
    refine ⟨hmatches.now, hmatches.length, fun k id hk => ?_⟩
    obtain ⟨desc, hdesc, hleft, hgrants⟩ := hmatches.grants k id hk
    obtain ⟨desc', hdesc', hchanged⟩ :=
      DistributedTaskDispatcher.changed_of_step hsteady.numbered h hdesc
    refine ⟨desc', hdesc', DistributedTaskDispatcher.left_changed hleft hchanged, fun hown => ?_⟩
    cases DistributedTaskDispatcher.ownBefore_of_step hsteady.numbered hsteady.placed h hdesc'
      hown with
    | same desc₀ hdesc₀ _ hbefore hid _ =>
        cases hdesc.symm.trans hdesc₀
        rw [hid]
        exact hgrants hbefore
    | gets desc₀ grant now hdesc₀ hpending haction hid hlast =>
        cases hdesc.symm.trans hdesc₀
        exact absurd hpending hleft
  fresh id desc' hmem hdesc' hown haborted hholds := by
    have hkeepAlive := DistributedTaskDispatcher.keepAlive_of_step h hkeeps
    cases DistributedTaskDispatcher.ownBefore_of_step hsteady.numbered hsteady.placed h hdesc'
      hown with
    | same desc hdesc hchanged hbefore hid hlast =>
        have hmem' : id ∈ s.dispatcher.tasks := hsteady.mem_before h hdesc hmem
        have hsame : desc'.fiber.task.lastKeepAliveAt = desc.fiber.task.lastKeepAliveAt := by
          rcases hlast with hlast | ⟨request, statuses, -, rfl, -⟩
          · exact hlast
          · cases hkeeps
        rw [hid] at hholds
        rw [hsame]
        rcases hsteady.fresh id desc hmem' hdesc hbefore
          (DistributedTaskDispatcher.aborted_changed hchanged haborted) hholds with hrenewed |
            ⟨hrecent, request, hrequest, hrest⟩
        · exact .inl hrenewed
        · exact .inr ⟨hrecent, request, hkeepAlive.trans hrequest, hrest⟩
    | gets desc grant now hdesc hpending haction hid hlast =>
        rw [hlast]
        have hreading : now ∈ action.reading := by
          rw [haction]
          rfl
        exact .inl (hsteady.ticked.trans (htimely now hreading).1)

theorem mem_tasksWith {d : DistributedTaskDispatcher} {p : Descriptor → Bool} {id : ℕ} :
    id ∈ d.tasksWith p ↔ id ∈ d.tasks ∧ ∃ desc, d.descs id = some desc ∧ p desc = true := by
  rw [DistributedTaskDispatcher.tasksWith, List.mem_filter]
  cases hdesc : d.descs id with
  | none => simp
  | some desc => simp

/-- What `OnKeepAliveTimer` sends. -/
theorem keepAlive_onKeepAliveTimer {d : DistributedTaskDispatcher} {now : TimePoint}
    {request : KeepAlive} (h : (d.onKeepAliveTimer now).keepAlive = some request) :
    request = ⟨now, d.tasksWith (·.renewable now), (d.tasksWith (·.renewable now)).map fun id =>
      ((d.descs id).map (·.fiber.task.taskGrantId)).getD 0⟩ := by
  have h : (if d.tasksWith (·.renewable now) = [] then none
    else some (⟨now, d.tasksWith (·.renewable now), _⟩ : KeepAlive)) = some request := h
  split at h
  · cases h
  · cases h
    rfl

theorem renewable_iff {desc : Descriptor} {now : TimePoint} : desc.renewable now = true ↔
    (desc.fiber.task.state = .readyToFire ∨ desc.fiber.task.state = .dispatched) ∧
      desc.fiber.task.aborted = false ∧
      now - desc.fiber.task.lastKeepAliveAt ≤ Descriptor.minute := by
  simp [Descriptor.renewable, Descriptor.underway]

/-- The tick sends what has to be renewed, and what it passes over was aborted. -/
theorem Steady.tick {now : TimePoint} {dispatcher : DistributedTaskDispatcher}
    (hsteady : Steady s) (htimely : s.Timely now)
    (h : DistributedTaskDispatcher.Step cfg.daemon s.dispatcher (.onKeepAliveTimer now)
      dispatcher) :
    Steady { s with
      dispatcher
      statuses := []
      clock := now
      lastTick := now } := by
  have hchange := fun id desc => @DistributedTaskDispatcher.changed_of_step cfg.daemon
    s.dispatcher dispatcher _ hsteady.numbered h id desc
  have hbefore := fun id desc' => @DistributedTaskDispatcher.ownBefore_of_step cfg.daemon
    s.dispatcher dispatcher _ hsteady.numbered hsteady.placed h id desc'
  have hplaced := hsteady.placed_step h
  have howned := hsteady.owned_step (fun _ hgrant => (Option.not_mem_none _ hgrant).elim) h
  have hnumbered := hsteady.numbered.step h
  cases h with
  | onKeepAliveTimer _ hnone =>
      refine ⟨hnumbered, hplaced, hsteady.keeper, hsteady.known, howned, le_rfl,
        fun request hrequest => ?_, fun id desc' hmem hdesc' hown haborted hholds => ?_⟩
      · cases keepAlive_onKeepAliveTimer hrequest
        refine ⟨rfl, List.length_map .. |>.symm, fun k id hk => ?_⟩
        obtain ⟨hmem, desc, hdesc, hrenewable⟩ := mem_tasksWith.mp (List.mem_of_getElem? hk)
        obtain ⟨desc', hdesc', hchanged⟩ := hchange id desc hdesc
        have hleft : desc.fiber.task.state ≠ .pending := by
          rcases (renewable_iff.mp hrenewable).1 with hstate | hstate
          · rw [hstate]
            exact nofun
          · rw [hstate]
            exact nofun
        refine ⟨desc', hdesc', DistributedTaskDispatcher.left_changed hleft hchanged,
          fun hown => ?_⟩
        cases hbefore id desc' hdesc' hown with
        | same desc₀ hdesc₀ _ _ hid _ =>
            cases hdesc.symm.trans hdesc₀
            have hk : (s.dispatcher.tasksWith (·.renewable now))[k]? = some id := hk
            rw [List.getElem?_map, hk, hid, Option.map_some, hdesc]
            rfl
        | gets desc₀ grant now hdesc₀ hpending haction hid hlast => cases haction
      · cases hbefore id desc' hdesc' hown with
        | same desc hdesc hchanged hownBefore hid hlast =>
            have hsame : desc'.fiber.task.lastKeepAliveAt = desc.fiber.task.lastKeepAliveAt := by
              rcases hlast with hlast | ⟨request, statuses, -, haction, -⟩
              · exact hlast
              · cases haction
            have hfine := DistributedTaskDispatcher.aborted_changed hchanged haborted
            rw [hid] at hholds
            rw [hsame]
            have hrenewed : s.lastTick ≤ desc.fiber.task.lastKeepAliveAt := by
              rcases hsteady.fresh id desc hmem hdesc hownBefore hfine hholds with hrenewed |
                ⟨-, request, hrequest, -⟩
              · exact hrenewed
              · rw [hnone] at hrequest
                cases hrequest
            have hrecent : now ≤ desc.fiber.task.lastKeepAliveAt + fiveSeconds :=
              htimely.2.trans (Nat.add_le_add_right hrenewed _)
            have hrenewable : desc.renewable now = true := by
              refine renewable_iff.mpr ⟨hownBefore.1, hfine, ?_⟩
              have hminute : fiveSeconds ≤ Descriptor.minute := by decide
              exact (Nat.sub_le_iff_le_add'.mpr hrecent).trans hminute
            have hlisted : id ∈ s.dispatcher.tasksWith (·.renewable now) :=
              mem_tasksWith.mpr ⟨hmem, desc, hdesc, hrenewable⟩
            refine .inr ⟨hrecent, _, if_neg (List.ne_nil_of_mem hlisted), hlisted,
              fun k status _ hstatus => ?_⟩
            cases hstatus
        | gets desc grant now hdesc hpending haction hid hlast => cases haction

/-- A task that a request names has its status in the answer. -/
theorem mem_zip_statuses {request : KeepAlive} {statuses : List Bool} {id : ℕ}
    (hlength : request.taskIds.length = statuses.length) (hlisted : id ∈ request.taskIds)
    (hgood : ∀ (k : ℕ) (status : Bool), request.taskIds[k]? = some id →
      statuses[k]? = some status → status = true) :
    (id, true) ∈ request.taskIds.zip statuses := by
  obtain ⟨k, hk⟩ := List.getElem?_of_mem hlisted
  have hbound : k < statuses.length := by
    rw [← hlength]
    exact (List.getElem?_eq_some_iff.mp hk).1
  have hstatus := hgood k _ hk (List.getElem?_eq_getElem hbound)
  apply List.mem_of_getElem? (i := k)
  rw [List.getElem?_zip_eq_some]
  exact ⟨hk, (List.getElem?_eq_getElem hbound).trans (congrArg some hstatus)⟩

/-- The answer renews the tasks with a good status. -/
theorem Steady.answered {request : KeepAlive} {dispatcher : DistributedTaskDispatcher}
    (hsteady : Steady s) (hrequest : s.dispatcher.keepAlive = some request)
    (hlength : s.statuses.length = request.taskGrantIds.length)
    (h : DistributedTaskDispatcher.Step cfg.daemon s.dispatcher (.keptAlive (some s.statuses))
      dispatcher) : Steady { s with dispatcher } := by
  have hmatches := hsteady.request request hrequest
  have hbefore := fun id desc' => @DistributedTaskDispatcher.ownBefore_of_step cfg.daemon
    s.dispatcher dispatcher _ hsteady.numbered hsteady.placed h id desc'
  have howned := hsteady.owned_step (fun _ hgrant => (Option.not_mem_none _ hgrant).elim) h
  have hdispatcher : dispatcher = s.dispatcher.keptAlive request (some s.statuses) := by
    cases h with
    | keptAlive _ hrequest' =>
        cases hrequest.symm.trans hrequest'
        rfl
  have hkept : dispatcher.keepAlive = none ∧ dispatcher.descs = (s.dispatcher.mapTasks
      fun id desc => if (id, true) ∈ request.taskIds.zip s.statuses then desc.renew request.now
        else desc).descs := by
    rw [hdispatcher, DistributedTaskDispatcher.keptAlive]
    dsimp only
    rw [if_neg (fun hne => hne hlength)]
    exact ⟨rfl, rfl⟩
  refine ⟨hsteady.numbered.step h, hsteady.placed_step h, hsteady.keeper, hsteady.known, howned,
    hsteady.ticked, fun request' hrequest' => ?_,
    fun id desc' hmem hdesc' hown haborted hholds => ?_⟩
  · have hsome : dispatcher.keepAlive = some request' := hrequest'
    rw [hkept.1] at hsome
    cases hsome
  · cases hbefore id desc' hdesc' hown with
    | same desc hdesc hchanged hownBefore hid hlast =>
        have hmem' : id ∈ s.dispatcher.tasks := hsteady.mem_before h hdesc hmem
        have hfine := DistributedTaskDispatcher.aborted_changed hchanged haborted
        rw [hid] at hholds
        left
        show s.lastTick ≤ desc'.fiber.task.lastKeepAliveAt
        rcases hlast with hlast | ⟨request', statuses, hrequest', -, hlast⟩
        · rw [hlast]
          rcases hsteady.fresh id desc hmem' hdesc hownBefore hfine hholds with hrenewed |
            ⟨-, request', hrequest', hlisted, hstatuses⟩
          · exact hrenewed
          · -- The request has a status for the task, and it is good.
            cases hrequest.symm.trans hrequest'
            have hpair := mem_zip_statuses (hmatches.length.trans hlength.symm) hlisted hstatuses
            have hrenewed : dispatcher.descs id = some (desc.renew request.now) := by
              rw [hkept.2]
              refine (DistributedTaskDispatcher.mapTasks_descs hdesc).trans ?_
              rw [if_pos hmem', if_pos hpair]
            cases hrenewed.symm.trans hdesc'
            rw [← hlast]
            exact hmatches.now.ge
        · cases hrequest.symm.trans hrequest'
          rw [hlast]
          exact hmatches.now.ge
    | gets desc grant now hdesc hpending haction hid hlast => cases haction

theorem steady_empty : Steady empty where
  numbered _ _ hdesc := nomatch hdesc
  placed _ _ hdesc := nomatch hdesc
  keeper _ hgrant := nomatch hgrant
  known _ hmem := nomatch hmem
  owned _ _ hdesc := nomatch hdesc
  ticked := le_rfl
  request _ hrequest := nomatch hrequest
  fresh _ _ hmem := nomatch hmem

/-- A step keeps the invariant as long as the numbers of grants do not come round. -/
theorem Steady.step (hsteady : Steady s) (hs : s.scheduler.Consistent) (h : Step cfg s event t)
    (hnext : t.scheduler.nextTaskId.toNat = s.scheduler.nextTaskId.toNat +
      Scheduler.TaskDispatcher.grants (schedulerLabels [event])) : Steady t := by
  cases h with
  | grant hgrant =>
      refine hsteady.grant hs hgrant ?_
      rw [UInt64.lt_iff_toNat_lt]
      exact Nat.lt_of_lt_of_eq (Nat.lt_succ_self _) hnext.symm
  | others hothers =>
      refine hsteady.others hs hothers ?_
      rw [UInt64.le_iff_toNat_le]
      exact Nat.le.intro hnext.symm
  | daemon hkeeps hgrant htimely haction => exact hsteady.daemon hkeeps hgrant htimely haction
  | tick htimely haction => exact hsteady.tick htimely haction
  | serve hrequest hserved hserve =>
      refine hsteady.serve hs hrequest hserved hserve ?_
      rw [UInt64.le_iff_toNat_le]
      exact Nat.le.intro hnext.symm
  | answered hrequest hlength haction => exact hsteady.answered hrequest hlength haction

theorem schedulerLabels_append : schedulerLabels (events ++ [event]) =
    schedulerLabels events ++ schedulerLabels [event] :=
  List.filterMap_append ..

theorem steady_of_run (run : Run (Step cfg) empty events s)
    (hgrants : Scheduler.TaskDispatcher.grants (schedulerLabels events) < 2 ^ 64) : Steady s := by
  refine (Run.invariant_labels (I := fun events s => Run (Step cfg) empty events s ∧
    (Scheduler.TaskDispatcher.grants (schedulerLabels events) < 2 ^ 64 → Steady s))
    ⟨.nil _, fun _ => steady_empty⟩ ?_ run).2 hgrants
  rintro events s event t ⟨hrun, ih⟩ hstep
  have hrun' := hrun.append (.cons hstep (.nil t))
  refine ⟨hrun', fun hlt => ?_⟩
  have hcount := hlt
  rw [schedulerLabels_append, Scheduler.TaskDispatcher.grants_append] at hcount
  have hbefore := Scheduler.TaskDispatcher.numbered_of_run (scheduler_run hrun) (by omega)
  have hafter := Scheduler.TaskDispatcher.numbered_of_run (scheduler_run hrun') hlt
  refine (ih (by omega)).step (Scheduler.TaskDispatcher.consistent_of_run (scheduler_run hrun))
    hstep ?_
  rw [hafter.2, hbefore.2, schedulerLabels_append, Scheduler.TaskDispatcher.grants_append]

/-- In a run in which no tick finds an attached task with its servant, a tick sends grants that
the daemon was handed and that own tasks run under, and it aborts no task whose grant the
scheduler holds. The scheduler has not made so many grants that their numbers come round. -/
theorem tick_renews_own {now : TimePoint}
    (run : Run (Guarded (Step cfg) NoneAttached) empty events s)
    (hgrants : Scheduler.TaskDispatcher.grants (schedulerLabels events) < 2 ^ 64)
    (h : Guarded (Step cfg) NoneAttached s (.tick now) t) :
    (∀ request, t.dispatcher.keepAlive = some request →
      ∀ taskGrantId ∈ request.taskGrantIds, taskGrantId ∈ s.handed ∧
        ∃ id ∈ s.dispatcher.tasks, ∃ desc, s.dispatcher.descs id = some desc ∧
          desc.fiber.Own ∧ desc.fiber.task.taskGrantId = taskGrantId) ∧
    ∀ id ∈ s.dispatcher.tasks, ∀ desc desc', s.dispatcher.descs id = some desc →
      t.dispatcher.descs id = some desc' → ∀ taskGrantId, desc.RunsUnder taskGrantId →
        Holds s.scheduler taskGrantId → desc'.abortedBy = desc.abortedBy := by
  have hsteady := steady_of_run (run.mono fun _ _ _ h => h.1) hgrants
  obtain ⟨hstep, hguard⟩ := h
  cases hstep with
  | @tick _ dispatcher htimely haction =>
      constructor
      · intro request hrequest taskGrantId hmem
        have hrequest : dispatcher.keepAlive = some request := hrequest
        cases haction with
        | onKeepAliveTimer _ hnone =>
            cases keepAlive_onKeepAliveTimer hrequest
            obtain ⟨id, hlisted, hid⟩ := List.mem_map.mp hmem
            obtain ⟨htask, desc, hdesc, hrenewable⟩ := mem_tasksWith.mp hlisted
            obtain ⟨hstate, hfine, -⟩ := renewable_iff.mp hrenewable
            have hown : desc.fiber.Own :=
              ⟨hstate, hguard id htask desc hdesc (decide_eq_true hstate) hfine⟩
            have hgrant : desc.fiber.task.taskGrantId = taskGrantId := by
              rw [hdesc] at hid
              exact hid
            refine ⟨?_, id, htask, desc, hdesc, hown, hgrant⟩
            rw [← hgrant]
            exact hsteady.owned id desc hdesc hown
      · intro id hmem desc desc' hdesc hdesc' taskGrantId hrunsUnder hholds
        have hkeepAlive : s.dispatcher.keepAlive = none := by
          cases haction with
          | onKeepAliveTimer _ hnone => exact hnone
        obtain ⟨desc₀, hdesc₀, hchanged⟩ :=
          DistributedTaskDispatcher.changed_of_step hsteady.numbered haction hdesc
        cases hdesc'.symm.trans hdesc₀
        cases hchanged with
        | same => rfl
        | overdue _ hoverdue =>
            exfalso
            obtain ⟨hunderway, hfine, hlate⟩ := of_decide_eq_true hoverdue
            have hattached := hguard id hmem desc hdesc hunderway hfine
            have hown : desc.fiber.Own := ⟨of_decide_eq_true hunderway, hattached⟩
            have hgrant : desc.fiber.task.taskGrantId = taskGrantId :=
              hrunsUnder.resolve_left fun hne => hne hattached
            rcases hsteady.fresh id desc hmem hdesc hown hfine (hgrant ▸ hholds) with hrenewed |
              ⟨-, request, hrequest, -⟩
            · have hrecent : now ≤ desc.fiber.task.lastKeepAliveAt + fiveSeconds :=
                htimely.2.trans (Nat.add_le_add_right hrenewed _)
              have hminute : fiveSeconds ≤ Descriptor.minute := by decide
              exact absurd hlate
                (Nat.not_lt.mpr ((Nat.sub_le_iff_le_add'.mpr hrecent).trans hminute))
            · rw [hkeepAlive] at hrequest
              cases hrequest

/-! ## An attached task -/

instance (s : Cluster) (now : TimePoint) : Decidable (s.Timely now) :=
  inferInstanceAs (Decidable (_ ∧ _))

/-- The step of an event as a partial function. -/
def next (cfg : ClusterConfig) (s : Cluster) : ClusterEvent → Option Cluster
  | .grant personality expiresIn prefetching now now' allocation =>
      (Scheduler.TaskDispatcher.next cfg.scheduler s.scheduler
        (.waitForStartingNewTask personality expiresIn prefetching now now',
          .attempt (.allocated allocation))).map fun scheduler =>
        { s with
          scheduler
          grantKeeper := s.grantKeeper ++ [⟨allocation.taskId, allocation.servantLocation⟩]
          handed := allocation.taskId :: s.handed }
  | .others op reply =>
      (Scheduler.TaskDispatcher.next cfg.scheduler s.scheduler (op, reply)).map fun scheduler =>
        { s with scheduler }
  | .daemon action =>
      if action.keepsAlive = false ∧ (∀ grant ∈ action.grant, grant ∈ s.grantKeeper) ∧
          ∀ now ∈ action.reading, s.Timely now then
        (DistributedTaskDispatcher.next cfg.daemon s.dispatcher action).map fun dispatcher =>
          { s with
            dispatcher
            grantKeeper := s.grantKeeper.filter fun grant => action.grant ≠ some grant
            clock := action.reading.getD s.clock }
      else none
  | .tick now =>
      if s.Timely now then
        (DistributedTaskDispatcher.next cfg.daemon s.dispatcher (.onKeepAliveTimer now)).map
          fun dispatcher =>
            { s with
              dispatcher
              statuses := []
              clock := now
              lastTick := now }
      else none
  | .serve taskGrantId now status =>
      match s.dispatcher.keepAlive with
      | none => none
      | some request =>
          if request.taskGrantIds[s.statuses.length]? = some taskGrantId then
            (Scheduler.TaskDispatcher.next cfg.scheduler s.scheduler
              (.keepTaskAlive taskGrantId nextKeepAlive now, .kept status)).map fun scheduler =>
                { s with
                  scheduler
                  statuses := s.statuses ++ [status] }
          else none
  | .answered =>
      match s.dispatcher.keepAlive with
      | none => none
      | some request =>
          if s.statuses.length = request.taskGrantIds.length then
            (DistributedTaskDispatcher.next cfg.daemon s.dispatcher
              (.keptAlive (some s.statuses))).map fun dispatcher => { s with dispatcher }
          else none

theorem step_of_next (s : Cluster) (event : ClusterEvent) (t : Cluster)
    (h : next cfg s event = some t) : Step cfg s event t := by
  cases event with
  | grant personality expiresIn prefetching now now' allocation =>
      obtain ⟨scheduler, hnext, rfl⟩ := Option.map_eq_some_iff.mp h
      exact .grant (Scheduler.TaskDispatcher.step_of_next _ _ _ hnext)
  | others op reply =>
      obtain ⟨scheduler, hnext, rfl⟩ := Option.map_eq_some_iff.mp h
      exact .others (Scheduler.TaskDispatcher.step_of_next _ _ _ hnext)
  | daemon action =>
      obtain ⟨⟨hkeeps, hgrant, htimely⟩, h⟩ := Option.ite_none_right_eq_some.mp h
      obtain ⟨dispatcher, hnext, rfl⟩ := Option.map_eq_some_iff.mp h
      exact .daemon hkeeps hgrant htimely (DistributedTaskDispatcher.step_of_next _ _ _ hnext)
  | tick now =>
      obtain ⟨htimely, h⟩ := Option.ite_none_right_eq_some.mp h
      obtain ⟨dispatcher, hnext, rfl⟩ := Option.map_eq_some_iff.mp h
      exact .tick htimely (DistributedTaskDispatcher.step_of_next _ _ _ hnext)
  | serve taskGrantId now status =>
      simp only [next] at h
      split at h
      · cases h
      · next request hrequest =>
          obtain ⟨hserved, h⟩ := Option.ite_none_right_eq_some.mp h
          obtain ⟨scheduler, hnext, rfl⟩ := Option.map_eq_some_iff.mp h
          exact .serve hrequest hserved (Scheduler.TaskDispatcher.step_of_next _ _ _ hnext)
  | answered =>
      simp only [next] at h
      split at h
      · cases h
      · next request hrequest =>
          obtain ⟨hlength, h⟩ := Option.ite_none_right_eq_some.mp h
          obtain ⟨dispatcher, hnext, rfl⟩ := Option.map_eq_some_iff.mp h
          exact .answered hrequest hlength
            (DistributedTaskDispatcher.step_of_next _ _ _ hnext)

def sampleClusterConfig : ClusterConfig where
  daemon := DistributedTaskDispatcher.plainConfig
  scheduler := Scheduler.TaskDispatcher.sampleConfig

/-- A servant has registered, and grant 0 was made for another daemon. -/
def withServant : List ClusterEvent :=
  [.others (.keepServantAlive (Scheduler.TaskDispatcher.sampleServant "10.0.0.1:8335") 100 0 0)
      .done,
    .others (.waitForStartingNewTask Scheduler.TaskDispatcher.sampleTask 100 false 0 0)
      (.attempt (.allocated ⟨0, "10.0.0.1:8335"⟩))]

/-- A task of the daemon runs under grant 1. -/
def ownTask : List ClusterEvent :=
  withServant ++
    [.grant Scheduler.TaskDispatcher.sampleTask 100 false 0 0 ⟨1, "10.0.0.1:8335"⟩,
      .daemon (.queueTask 0 7 "digest" .disallow 100 0), .daemon (.perform 1 (.readCache none)),
      .daemon (.perform 1 (.findTask none)), .daemon (.perform 1 .checkGrant),
      .daemon (.perform 1 (.getGrant (some ⟨1, "10.0.0.1:8335"⟩) 3))]

/-- A task of the daemon is attached to one that a servant runs under grant 1 of another
daemon, which has given grant 0 back. -/
def attachedTask : List ClusterEvent :=
  withServant ++
    [.others (.waitForStartingNewTask Scheduler.TaskDispatcher.sampleTask 100 false 0 0)
        (.attempt (.allocated ⟨1, "10.0.0.1:8335"⟩)),
      .others (.freeTask 0) .done,
      .daemon (.queueTask 0 7 "digest" .disallow 100 0), .daemon (.perform 1 (.readCache none)),
      .daemon (.perform 1 (.findTask (some ⟨"10.0.0.1:8335", 5⟩))),
      .daemon (.perform 1 (.referenceTask true 0))]

/-- A minute of ticks, each with its answer. -/
def minuteOfTicks : List ClusterEvent :=
  (List.range 12).flatMap fun k =>
    [.tick ((k + 1) * 5000000000), .serve 0 0 false, .answered]

/-- What a tick meets: no task that was attached. -/
def noneReferenced (s : Cluster) : ClusterEvent → Bool
  | .tick _ => s.dispatcher.tasks.all fun id =>
      (s.dispatcher.descs id).all fun desc => desc.fiber.referenced.isEmpty
  | _ => true

theorem noneAttached_of_noneReferenced (h : noneReferenced s event = true) :
    NoneAttached s event := by
  cases event with
  | tick now =>
      intro id hmem desc hdesc _ _
      have hall := List.all_eq_true.mp h id hmem
      rw [hdesc] at hall
      exact List.isEmpty_iff.mp hall
  | _ => trivial

theorem run_of_follow
    (h : follow (guardedNext (next cfg) fun s event => noneReferenced s event = true) events s =
      some t) : Run (Guarded (Step cfg) NoneAttached) s events t :=
  (Run.of_follow (guarded_of_guardedNext step_of_next) h).mono fun _ _ _ h =>
    ⟨h.1, noneAttached_of_noneReferenced h.2⟩

/-- The request of a tick names grant 1 only. -/
theorem tick_renews_ownTask : ∃ (s t : Cluster) (request : KeepAlive),
    Step sampleClusterConfig s (.tick 5) t ∧ t.dispatcher.keepAlive = some request ∧
      request.taskGrantIds = [1] ∧ ∀ taskGrantId ∈ request.taskGrantIds,
        taskGrantId ∈ s.handed ∧ ∃ id ∈ s.dispatcher.tasks, ∃ desc,
          s.dispatcher.descs id = some desc ∧ desc.fiber.Own ∧
            desc.fiber.task.taskGrantId = taskGrantId := by
  have hend : (follow (guardedNext (next sampleClusterConfig) fun s event =>
      noneReferenced s event = true) (ownTask ++ [.tick 5]) empty).bind (fun t =>
        t.dispatcher.keepAlive.map fun request => request.taskGrantIds) = some [1] := by
    decide +kernel
  obtain ⟨t, hfollow, hrequest⟩ := Option.bind_eq_some_iff.mp hend
  obtain ⟨request, hrequest, hgrants⟩ := Option.map_eq_some_iff.mp hrequest
  obtain ⟨s, hrun, hlast⟩ := Run.concat_iff.mp (run_of_follow hfollow)
  have hkept := (tick_renews_own hrun (by decide) hlast).1 request hrequest
  exact ⟨s, t, request, hlast.1, hrequest, hgrants, hkept⟩

/-- An attached task makes the daemon name a grant of another one, and it is given up after a
minute although the servant runs it under a grant that the scheduler holds. -/
theorem attached_not_renewed :
    ¬ (∀ (events : List ClusterEvent) (s t : Cluster) (now : TimePoint) (request : KeepAlive),
        Run (Step sampleClusterConfig) empty events s →
        Step sampleClusterConfig s (.tick now) t → t.dispatcher.keepAlive = some request →
        ∀ taskGrantId ∈ request.taskGrantIds, taskGrantId ∈ s.handed) ∧
    ¬ (∀ (events : List ClusterEvent) (s t : Cluster) (now : TimePoint),
        Run (Step sampleClusterConfig) empty events s →
        Step sampleClusterConfig s (.tick now) t →
        ∀ id ∈ s.dispatcher.tasks, ∀ desc desc', s.dispatcher.descs id = some desc →
          t.dispatcher.descs id = some desc' → ∀ taskGrantId, desc.RunsUnder taskGrantId →
            Holds s.scheduler taskGrantId → desc'.abortedBy = desc.abortedBy) := by
  constructor
  · intro h
    have hend : (follow (next sampleClusterConfig) attachedTask empty).bind (fun s =>
        (next sampleClusterConfig s (.tick 5)).bind fun t => t.dispatcher.keepAlive.map
          fun request => (request.taskGrantIds, s.handed)) = some ([0], []) := by decide +kernel
    obtain ⟨s, hfollow, hend⟩ := Option.bind_eq_some_iff.mp hend
    obtain ⟨t, htick, hend⟩ := Option.bind_eq_some_iff.mp hend
    obtain ⟨request, hrequest, hend⟩ := Option.map_eq_some_iff.mp hend
    obtain ⟨hgrants, hhanded⟩ := Prod.mk.inj hend
    have hmem := h _ s t 5 request (Run.of_follow step_of_next hfollow) (step_of_next _ _ _ htick)
      hrequest 0 (by rw [hgrants]; exact List.mem_cons_self)
    rw [hhanded] at hmem
    cases hmem
  · intro h
    have hend : (follow (next sampleClusterConfig) (attachedTask ++ minuteOfTicks) empty).bind
        (fun s => (next sampleClusterConfig s (.tick 65000000000)).bind fun t =>
          (s.dispatcher.descs 1).bind fun desc => (t.dispatcher.descs 1).bind fun desc' =>
            (s.scheduler.tasks.lookup 1).map fun task =>
              (s.dispatcher.tasks, desc.fiber.referenced.length, desc.abortedBy,
                desc'.abortedBy, task.zombie)) =
        some ([1], 1, [], [.onKeepAliveTimer], false) := by decide +kernel
    obtain ⟨s, hfollow, hend⟩ := Option.bind_eq_some_iff.mp hend
    obtain ⟨t, htick, hend⟩ := Option.bind_eq_some_iff.mp hend
    obtain ⟨desc, hdesc, hend⟩ := Option.bind_eq_some_iff.mp hend
    obtain ⟨desc', hdesc', hend⟩ := Option.bind_eq_some_iff.mp hend
    obtain ⟨task, htask, hend⟩ := Option.map_eq_some_iff.mp hend
    simp only [Prod.mk.injEq] at hend
    obtain ⟨htasks, hreferenced, hbefore, hafter, hzombie⟩ := hend
    have hattached : desc.RunsUnder 1 := by
      left
      rw [← List.length_pos_iff, hreferenced]
      exact Nat.one_pos
    have hsame := h _ s t _ (Run.of_follow step_of_next hfollow) (step_of_next _ _ _ htick) 1
      (by rw [htasks]; exact List.mem_cons_self) desc desc' hdesc hdesc' 1 hattached
      ⟨task, htask, hzombie⟩
    rw [hbefore, hafter] at hsame
    cases hsame

end Cluster

end Yadcc.Daemon.Local
