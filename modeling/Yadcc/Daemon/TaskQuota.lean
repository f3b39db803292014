/-
# Quotas of local tasks

Before a client runs a compiler on its own machine it asks the daemon for a quota, and it
releases the quota afterwards. What passes between them is lost or late at times: a client
gives up waiting for an answer and asks again, although the daemon may grant its first
request later; it does not care whether a release arrives; and it dies at any point, with the
daemon noticing only by its check of processes.

The daemon keeps process ids and no requests, so a release that is still under way when its
process asks for another quota would take away that one. Runs without this are the subject.
Nothing is assumed of process ids otherwise: they may be used again.
-/

import Yadcc.Daemon.Local.LocalTaskMonitor

namespace Yadcc.Daemon.TaskQuota

open Yadcc.Lib
open Yadcc.Daemon.Local
open LocalTaskMonitor (Pid Request Op Limits isProcessAlive)

/-- The status that `AcquireQuota` answers. -/
def acquireQuota (success : Bool) : ℤ := if success then 200 else 503

/-- Whether `TryAcquireTaskQuota` has a quota after an answer with a status. It is -1 when
there is no answer. -/
def tryAcquireTaskQuota (status : ℤ) : Bool := status = 200

/-- A client process that is alive. `acquiring` has the request it waits for. -/
inductive Client
  | running
  | acquiring (id : ℕ) (lightweight : Bool)
  | holding (lightweight : Bool)
  deriving DecidableEq

/-- The daemon's monitor with all requests that were sent, the clients, and the releases that
are under way. -/
structure System where
  monitor : Monitor.State (Finset Pid) Request
  clients : Pid → Option Client
  releases : List Pid

def System.start : System := ⟨Monitor.start ∅, fun _ => none, []⟩

namespace System

def setClient (s : System) (pid : Pid) (client : Option Client) : System :=
  { s with clients := Function.update s.clients pid client }

@[simp]
theorem setClient_self (s : System) (pid : Pid) (client : Option Client) :
    (s.setClient pid client).clients pid = client :=
  Function.update_self ..

theorem setClient_of_ne {s : System} {pid pid' : Pid} {client : Option Client}
    (h : pid' ≠ pid) : (s.setClient pid client).clients pid' = s.clients pid' :=
  Function.update_of_ne h ..

end System

inductive Event
  | start (pid : Pid)
  | acquire (pid : Pid) (id : ℕ) (lightweight : Bool)
  | receive (pid : Pid)
  | giveUp (pid : Pid)
  | release (pid : Pid)
  | die (pid : Pid)
  | lose (pid : Pid)
  | drop (pid : Pid)
  | check (procfs : Pid → Option Bytes)
  | serve (event : Monitor.Event Request Op)

/-- What the daemon does with the requests it has. -/
def IsServing : Monitor.Event Request Op → Prop
  | .look _ | .deadline _ | .notify => True
  | .call _ _ | .operate _ => False

/-- A request is under way until its first look. A request that is lost never has one. -/
inductive Step (limits : Limits) : System → Event → System → Prop
  | start {s : System} (pid : Pid) : s.clients pid = none →
      Step limits s (.start pid) (s.setClient pid (some .running))
  | acquire {s : System} {pid : Pid} {monitor : Monitor.State (Finset Pid) Request} (id : ℕ)
      (lightweight : Bool) : s.clients pid = some .running →
      (localTaskMonitor limits).Step s.monitor (.call id ⟨pid, lightweight⟩) monitor →
      Step limits s (.acquire pid id lightweight)
        { s.setClient pid (some (.acquiring id lightweight)) with monitor }
  | receive {s : System} {pid : Pid} {id : ℕ} {lightweight success : Bool} {request : Request} :
      s.clients pid = some (.acquiring id lightweight) →
      s.monitor.calls id = some (request, .returned success) →
      Step limits s (.receive pid) (s.setClient pid (some
        (if tryAcquireTaskQuota (acquireQuota success) then .holding lightweight else .running)))
  | giveUp {s : System} {pid : Pid} {id : ℕ} {lightweight : Bool} :
      s.clients pid = some (.acquiring id lightweight) →
      Step limits s (.giveUp pid) (s.setClient pid (some .running))
  | release {s : System} {pid : Pid} {lightweight : Bool} :
      s.clients pid = some (.holding lightweight) →
      Step limits s (.release pid)
        { s.setClient pid (some .running) with releases := pid :: s.releases }
  | die {s : System} {pid : Pid} {client : Client} : s.clients pid = some client →
      Step limits s (.die pid) (s.setClient pid none)
  | lose {s : System} {pid : Pid} : pid ∈ s.releases →
      Step limits s (.lose pid) { s with releases := s.releases.erase pid }
  | drop {s : System} {pid : Pid} {monitor : Monitor.State (Finset Pid) Request} :
      pid ∈ s.releases →
      (localTaskMonitor limits).Step s.monitor (.operate (.dropTaskPermission pid)) monitor →
      Step limits s (.drop pid) { s with monitor, releases := s.releases.erase pid }
  | check {s : System} {procfs : Pid → Option Bytes}
      {monitor : Monitor.State (Finset Pid) Request} :
      (∀ pid client, s.clients pid = some client → isProcessAlive (procfs pid) = some true) →
      (localTaskMonitor limits).Step s.monitor (.operate (.onAliveProcessCheck procfs)) monitor →
      Step limits s (.check procfs) { s with monitor }
  | serve {s : System} {event : Monitor.Event Request Op}
      {monitor : Monitor.State (Finset Pid) Request} : IsServing event →
      (localTaskMonitor limits).Step s.monitor event monitor →
      Step limits s (.serve event) { s with monitor }

/-- No process asks for a quota while a release of it is under way. -/
def Settled (s : System) : Event → Prop
  | .acquire pid _ _ => pid ∉ s.releases
  | _ => True

/-! ## Who has permission -/

/-- A client that has a quota, or is about to learn that it has. -/
def Granted (s : System) (pid : Pid) (lightweight : Bool) : Prop :=
  s.clients pid = some (.holding lightweight) ∨
  ∃ id, s.clients pid = some (.acquiring id lightweight) ∧
    s.monitor.calls id = some (⟨pid, lightweight⟩, .returned true)

/-- The table has everyone with a quota. `heavy` are processes of the table among which are
those with a quota for a heavyweight task. -/
structure Accounted (limits : Limits) (heavy : Finset Pid) (s : System) : Prop where
  asked : ∀ pid id lightweight, s.clients pid = some (.acquiring id lightweight) →
    ∃ pc, s.monitor.calls id = some (⟨pid, lightweight⟩, pc)
  settled : ∀ pid client, s.clients pid = some client → client ≠ .running → pid ∉ s.releases
  granted : ∀ pid lightweight, Granted s pid lightweight →
    pid ∈ s.monitor.shared ∧ (lightweight = false → pid ∈ heavy)
  heavy_subset : heavy ⊆ s.monitor.shared
  heavy_le : heavy.card ≤ limits.maxTasks.toNat
  most : s.monitor.shared.card ≤ limits.most

variable {limits : Limits} {heavy : Finset Pid} {s t : System} {event : Event}

theorem Granted.not_running {pid : Pid} {lightweight : Bool} (h : Granted s pid lightweight) :
    ∃ client, s.clients pid = some client ∧ client ≠ .running := by
  rcases h with hholding | ⟨id, hacquiring, -⟩
  · exact ⟨_, hholding, fun h => nomatch h⟩
  · exact ⟨_, hacquiring, fun h => nomatch h⟩

theorem accounted_start : Accounted limits ∅ System.start where
  asked _ _ _ h := nomatch h
  settled _ _ h := nomatch h
  granted _ _ h := by
    obtain ⟨client, hclient, -⟩ := h.not_running
    cases hclient
  heavy_subset := Finset.empty_subset _
  heavy_le := Nat.zero_le _
  most := Nat.zero_le _

/-- A client may stop what it does. -/
theorem Accounted.setClient (h : Accounted limits heavy s) (pid : Pid) {client : Option Client}
    (hclient : ∀ c, client = some c → c = .running ∨
      ∃ lightweight, c = .holding lightweight ∧ Granted s pid lightweight) :
    Accounted limits heavy (s.setClient pid client) where
  asked pid' id lightweight hacquiring := by
    by_cases hpid : pid' = pid
    · rw [hpid, System.setClient_self] at hacquiring
      rcases hclient _ hacquiring with hrunning | ⟨_, hholding, -⟩
      · cases hrunning
      · cases hholding
    · rw [System.setClient_of_ne hpid] at hacquiring
      exact h.asked pid' id lightweight hacquiring
  settled pid' c hc hnot := by
    by_cases hpid : pid' = pid
    · rw [hpid, System.setClient_self] at hc
      rcases hclient _ hc with hrunning | ⟨_, -, hgranted⟩
      · exact absurd hrunning hnot
      · obtain ⟨c', hc', hnot'⟩ := hgranted.not_running
        rw [hpid]
        exact h.settled pid c' hc' hnot'
    · rw [System.setClient_of_ne hpid] at hc
      exact h.settled pid' c hc hnot
  granted pid' lightweight hgranted := by
    by_cases hpid : pid' = pid
    · rw [Granted, hpid, System.setClient_self] at hgranted
      rw [hpid]
      rcases hgranted with hholding | ⟨id, hacquiring, -⟩
      · rcases hclient _ hholding with hrunning | ⟨_, heq, hbefore⟩
        · cases hrunning
        · cases heq
          exact h.granted pid lightweight hbefore
      · rcases hclient _ hacquiring with hrunning | ⟨_, hholding, -⟩
        · cases hrunning
        · cases hholding
    · rw [Granted, System.setClient_of_ne hpid] at hgranted
      exact h.granted pid' lightweight hgranted
  heavy_subset := h.heavy_subset
  heavy_le := h.heavy_le
  most := h.most

/-- Releases under way matter to clients that ask or hold. -/
theorem Accounted.setReleases (h : Accounted limits heavy s) {releases : List Pid}
    (hreleases : ∀ pid client, s.clients pid = some client → client ≠ .running →
      pid ∉ releases) : Accounted limits heavy { s with releases } where
  asked := h.asked
  settled := hreleases
  granted := h.granted
  heavy_subset := h.heavy_subset
  heavy_le := h.heavy_le
  most := h.most

/-! ## What the daemon does -/

/-- The daemon keeps the requests, whatever it does. -/
def KeepsRequests (before after : Monitor.State (Finset Pid) Request) : Prop :=
  ∀ id request pc, before.calls id = some (request, pc) →
    ∃ pc', after.calls id = some (request, pc')

theorem Accounted.setMonitor (h : Accounted limits heavy s)
    (monitor : Monitor.State (Finset Pid) Request) (hkeeps : KeepsRequests s.monitor monitor)
    (heavy' : Finset Pid)
    (hgranted : ∀ pid lightweight, Granted { s with monitor } pid lightweight →
      pid ∈ monitor.shared ∧ (lightweight = false → pid ∈ heavy'))
    (hsubset : heavy' ⊆ monitor.shared) (hheavy : heavy'.card ≤ limits.maxTasks.toNat)
    (hmost : monitor.shared.card ≤ limits.most) :
    Accounted limits heavy' { s with monitor } where
  asked pid id lightweight hacquiring := by
    obtain ⟨pc, hcall⟩ := h.asked pid id lightweight hacquiring
    exact hkeeps id _ pc hcall
  settled := h.settled
  granted := hgranted
  heavy_subset := hsubset
  heavy_le := hheavy
  most := hmost

/-- The table stays as it is, and no request is granted. -/
theorem Accounted.idle (h : Accounted limits heavy s)
    {monitor : Monitor.State (Finset Pid) Request} (hkeeps : KeepsRequests s.monitor monitor)
    (hshared : monitor.shared = s.monitor.shared)
    (hreturned : ∀ id request, monitor.calls id = some (request, .returned true) →
      s.monitor.calls id = some (request, .returned true)) :
    Accounted limits heavy { s with monitor } := by
  refine h.setMonitor monitor hkeeps heavy (fun pid lightweight hgranted => ?_) ?_ h.heavy_le ?_
  · rw [hshared]
    exact h.granted pid lightweight (hgranted.imp id fun ⟨id, hacquiring, hcall⟩ =>
      ⟨id, hacquiring, hreturned id _ hcall⟩)
  · rw [hshared]
    exact h.heavy_subset
  · rw [hshared]
    exact h.most

theorem keepsRequests_setCall {monitor : Monitor.State (Finset Pid) Request} {id : ℕ}
    {request : Request} {pc : Monitor.Pc} (hcall : monitor.calls id = some (request, pc))
    (pc' : Monitor.Pc) : KeepsRequests monitor (monitor.setCall id (request, pc')) := by
  intro id' request' pc'' hcall'
  by_cases hid : id' = id
  · rw [hid, hcall] at hcall'
    cases hcall'
    exact ⟨pc', by rw [hid, Monitor.State.setCall_self]⟩
  · exact ⟨pc'', by rw [Monitor.State.setCall_of_ne hid, hcall']⟩

/-- A request is granted. A heavyweight one finds room below `maxTasks`, so that the whole
table fits there with it. -/
theorem Accounted.grant (h : Accounted limits heavy s) {id : ℕ} {request : Request}
    {pc : Monitor.Pc} (hcall : s.monitor.calls id = some (request, pc))
    (hready : (localTaskMonitor limits).ready request s.monitor.shared = true) :
    ∃ heavy', Accounted limits heavy' { s with
      monitor := { s.monitor.setCall id (request, .returned true) with
        shared := LocalTaskMonitor.grant request s.monitor.shared } } := by
  have hcard := LocalTaskMonitor.card_grant_le hready
  have hmost := hcard.trans (limits.limit_le_most _)
  have hkeeps := keepsRequests_setCall hcall (.returned true)
  have hold : ∀ pid lightweight, Granted { s with
      monitor := { s.monitor.setCall id (request, .returned true) with
        shared := LocalTaskMonitor.grant request s.monitor.shared } } pid lightweight →
      Granted s pid lightweight ∨ request = ⟨pid, lightweight⟩ := by
    rintro pid lightweight (hholding | ⟨id', hacquiring, hcall'⟩)
    · exact .inl (.inl hholding)
    · by_cases hid : id' = id
      · rw [hid, show Monitor.State.calls _ id = _ from Monitor.State.setCall_self ..] at hcall'
        cases hcall'
        exact .inr rfl
      · have hbefore : s.monitor.calls id' = some (⟨pid, lightweight⟩, .returned true) :=
          (Monitor.State.setCall_of_ne hid).symm.trans hcall'
        exact .inl (.inr ⟨id', hacquiring, hbefore⟩)
  rw [LocalTaskMonitor.grant_eq_insert] at hcard hmost hold ⊢
  refine ⟨if request.lightweight then heavy else insert request.startingTaskPid heavy,
    h.setMonitor { s.monitor.setCall id (request, .returned true) with
      shared := insert request.startingTaskPid s.monitor.shared } hkeeps _
      (fun pid lightweight hgranted => ?_) ?_ ?_ hmost⟩
  · rcases hold pid lightweight hgranted with hbefore | rfl
    · obtain ⟨hmem, hheavy⟩ := h.granted pid lightweight hbefore
      refine ⟨Finset.mem_insert_of_mem hmem, fun hfalse => ?_⟩
      split
      · exact hheavy hfalse
      · exact Finset.mem_insert_of_mem (hheavy hfalse)
    · refine ⟨Finset.mem_insert_self _ _, ?_⟩
      rintro rfl
      exact Finset.mem_insert_self _ _
  · split
    · exact h.heavy_subset.trans (Finset.subset_insert _ _)
    · exact Finset.insert_subset_insert _ h.heavy_subset
  · split
    · exact h.heavy_le
    · next hlightweight =>
        rw [Bool.not_eq_true] at hlightweight
        rw [hlightweight, Limits.limit_false] at hcard
        exact (Finset.card_le_card (Finset.insert_subset_insert _ h.heavy_subset)).trans hcard

theorem Accounted.look (h : Accounted limits heavy s) {id : ℕ} {request : Request}
    {pc otherwise : Monitor.Pc} (hcall : s.monitor.calls id = some (request, pc))
    (hotherwise : otherwise ≠ .returned true) :
    ∃ heavy', Accounted limits heavy' { s with
      monitor := (localTaskMonitor limits).look s.monitor id request otherwise } := by
  cases hready : (localTaskMonitor limits).ready request s.monitor.shared with
  | true =>
      rw [Monitor.look_of_ready hready]
      exact h.grant hcall hready
  | false =>
      rw [Monitor.look_of_not_ready hready]
      refine ⟨heavy, h.idle (keepsRequests_setCall hcall otherwise) rfl ?_⟩
      intro id' request' hreturned
      by_cases hid : id' = id
      · rw [hid, Monitor.State.setCall_self] at hreturned
        cases hreturned
        exact absurd rfl hotherwise
      · rwa [Monitor.State.setCall_of_ne hid] at hreturned

theorem Accounted.notifyAll (h : Accounted limits heavy s) :
    Accounted limits heavy { s with monitor := s.monitor.notifyAll } :=
  h.idle (fun _ _ _ hcall => Monitor.State.notifyAll_request hcall) rfl
    fun _ _ hreturned => Monitor.State.notifyAll_returned.mp hreturned

/-- Permissions are taken from processes that have no quota. -/
theorem Accounted.restrict (h : Accounted limits heavy s) {permissionsGranted : Finset Pid}
    (hsubset : permissionsGranted ⊆ s.monitor.shared)
    (hkept : ∀ pid client, s.clients pid = some client → client ≠ .running →
      pid ∈ s.monitor.shared → pid ∈ permissionsGranted) :
    Accounted limits (heavy ∩ permissionsGranted)
      { s with monitor := { s.monitor with shared := permissionsGranted } } := by
  refine h.setMonitor { s.monitor with shared := permissionsGranted }
    (fun id request pc hcall => ⟨pc, hcall⟩) _ (fun pid lightweight hgranted => ?_)
    Finset.inter_subset_right ?_ ?_
  · have hbefore : Granted s pid lightweight := hgranted
    obtain ⟨hmem, hheavy⟩ := h.granted pid lightweight hbefore
    obtain ⟨client, hclient, hnot⟩ := hbefore.not_running
    have hmem' := hkept pid client hclient hnot hmem
    exact ⟨hmem', fun hfalse => Finset.mem_inter.mpr ⟨hheavy hfalse, hmem'⟩⟩
  · exact (Finset.card_le_card Finset.inter_subset_left).trans h.heavy_le
  · exact (Finset.card_le_card hsubset).trans h.most

theorem Accounted.finish (h : Accounted limits heavy s) {op : Op} {permissionsGranted : Finset Pid}
    (hoperate : (localTaskMonitor limits).operate op s.monitor.shared = some permissionsGranted)
    (hkept : ∀ pid client, s.clients pid = some client → client ≠ .running →
      pid ∈ s.monitor.shared → pid ∈ permissionsGranted) :
    ∃ heavy', Accounted limits heavy' { s with
      monitor := (localTaskMonitor limits).finish s.monitor op permissionsGranted } := by
  have hrestricted := h.restrict (LocalTaskMonitor.operate_subset hoperate) hkept
  unfold Monitor.finish
  split
  · exact ⟨_, hrestricted⟩
  · exact ⟨_, hrestricted.notifyAll⟩
  · exact ⟨_, hrestricted.idle (fun _ _ pc hcall => ⟨pc, hcall⟩) rfl fun _ _ hreturned => hreturned⟩

/-! ## What the clients do -/

theorem Accounted.acquire (h : Accounted limits heavy s) {pid : Pid} {id : ℕ} {lightweight : Bool}
    (hfresh : s.monitor.calls id = none) (hsettled : pid ∉ s.releases) :
    Accounted limits heavy { s.setClient pid (some (.acquiring id lightweight)) with
      monitor := s.monitor.setCall id (⟨pid, lightweight⟩, .looking) } where
  asked pid' id' lightweight' hacquiring := by
    have hacquiring : (s.setClient pid _).clients pid' = _ := hacquiring
    by_cases hpid : pid' = pid
    · rw [hpid, System.setClient_self] at hacquiring
      cases hacquiring
      exact ⟨.looking, by rw [hpid]; exact Monitor.State.setCall_self ..⟩
    · rw [System.setClient_of_ne hpid] at hacquiring
      obtain ⟨pc, hcall⟩ := h.asked pid' id' lightweight' hacquiring
      have hid : id' ≠ id := by
        rintro rfl
        cases hfresh.symm.trans hcall
      exact ⟨pc, (Monitor.State.setCall_of_ne hid).trans hcall⟩
  settled pid' client hclient hnot := by
    have hclient : (s.setClient pid _).clients pid' = _ := hclient
    by_cases hpid : pid' = pid
    · rw [hpid]
      exact hsettled
    · rw [System.setClient_of_ne hpid] at hclient
      exact h.settled pid' client hclient hnot
  granted pid' lightweight' hgranted := by
    refine h.granted pid' lightweight' ?_
    rcases hgranted with hholding | ⟨id', hacquiring, hcall⟩
    · have hholding : (s.setClient pid _).clients pid' = _ := hholding
      by_cases hpid : pid' = pid
      · rw [hpid, System.setClient_self] at hholding
        cases hholding
      · rw [System.setClient_of_ne hpid] at hholding
        exact .inl hholding
    · have hid : id' ≠ id := by
        rintro rfl
        rw [show Monitor.State.calls _ id' = _ from Monitor.State.setCall_self ..] at hcall
        cases hcall
      have hacquiring : (s.setClient pid _).clients pid' = _ := hacquiring
      by_cases hpid : pid' = pid
      · rw [hpid, System.setClient_self] at hacquiring
        cases hacquiring
        exact absurd rfl hid
      · rw [System.setClient_of_ne hpid] at hacquiring
        exact .inr ⟨id', hacquiring, (Monitor.State.setCall_of_ne hid).symm.trans hcall⟩
  heavy_subset := h.heavy_subset
  heavy_le := h.heavy_le
  most := h.most

/-- A release takes its process out of those that matter. -/
theorem Accounted.release (h : Accounted limits heavy s) (pid : Pid) :
    Accounted limits heavy
      { s.setClient pid (some .running) with releases := pid :: s.releases } := by
  have hrunning : Accounted limits heavy (s.setClient pid (some .running)) :=
    h.setClient pid fun _ heq => .inl (Option.some.inj heq).symm
  refine hrunning.setReleases fun pid' client hclient hnot hmem => ?_
  rcases List.mem_cons.mp hmem with rfl | hmem
  · rw [System.setClient_self] at hclient
    exact hnot (Option.some.inj hclient).symm
  · exact hrunning.settled pid' client hclient hnot hmem

/-! ## Runs -/

theorem accounted_step (h : Accounted limits heavy s)
    (hstep : Guarded (Step limits) Settled s event t) : ∃ heavy', Accounted limits heavy' t := by
  obtain ⟨hstep, hsettled⟩ := hstep
  cases hstep with
  | start pid _ => exact ⟨heavy, h.setClient pid fun _ heq => .inl (Option.some.inj heq).symm⟩
  | @acquire pid monitor id lightweight hrunning hmonitor =>
      cases hmonitor with
      | call _ _ hfresh => exact ⟨heavy, h.acquire hfresh hsettled⟩
  | @receive pid id lightweight success request hacquiring hcall =>
      refine ⟨heavy, h.setClient pid fun c heq => ?_⟩
      obtain ⟨pc, hasked⟩ := h.asked pid id lightweight hacquiring
      cases hcall.symm.trans hasked
      cases success with
      | false => exact .inl (Option.some.inj heq).symm
      | true => exact .inr ⟨lightweight, (Option.some.inj heq).symm, .inr ⟨id, hacquiring, hcall⟩⟩
  | @giveUp pid id lightweight hacquiring =>
      exact ⟨heavy, h.setClient pid fun _ heq => .inl (Option.some.inj heq).symm⟩
  | release _ => exact ⟨heavy, h.release _⟩
  | die _ => exact ⟨heavy, h.setClient _ fun _ heq => nomatch heq⟩
  | @lose pid hpid =>
      exact ⟨heavy, h.setReleases fun pid' client hclient hnot hmem =>
        h.settled pid' client hclient hnot (List.mem_of_mem_erase hmem)⟩
  | @drop pid monitor hpid hmonitor =>
      cases hmonitor with
      | operate hoperate =>
          obtain ⟨heavy', h'⟩ := h.finish hoperate fun pid' client hclient hnot hmem => by
            cases hoperate
            exact Finset.mem_erase.mpr
              ⟨fun heq => h.settled pid' client hclient hnot (heq ▸ hpid), hmem⟩
          exact ⟨heavy', h'.setReleases fun pid' client hclient hnot hmem =>
            h.settled pid' client hclient hnot (List.mem_of_mem_erase hmem)⟩
  | @check procfs monitor halive hmonitor =>
      cases hmonitor with
      | operate hoperate =>
          have hcheck := (LocalTaskMonitor.operate_eq _).symm.trans hoperate
          exact h.finish hoperate fun pid client hclient _ hmem =>
            (LocalTaskMonitor.alive_of_check hcheck).mpr ⟨hmem, halive pid client hclient⟩
  | @serve event monitor hserving hmonitor =>
      cases hmonitor with
      | call _ _ _ => exact hserving.elim
      | operate _ => exact hserving.elim
      | look hcall => exact h.look hcall fun heq => nomatch heq
      | lastLook hcall => exact h.look hcall fun heq => nomatch heq
      | @deadline id request pc hcall _ =>
          refine ⟨heavy, h.idle (keepsRequests_setCall hcall .expired) rfl
            fun id' request' hreturned => ?_⟩
          by_cases hid : id' = id
          · rw [hid, Monitor.State.setCall_self] at hreturned
            cases hreturned
          · rwa [Monitor.State.setCall_of_ne hid] at hreturned
      | notify _ => exact ⟨heavy, h.notifyAll.idle (fun _ _ pc hcall => ⟨pc, hcall⟩) rfl
          fun _ _ hreturned => hreturned⟩

theorem accounted {events : List Event}
    (run : Run (Guarded (Step limits) Settled) System.start events s) :
    ∃ heavy, Accounted limits heavy s :=
  run.invariant (I := fun s => ∃ heavy, Accounted limits heavy s)
    (fun _ _ _ h hstep => accounted_step h.choose_spec hstep) ⟨∅, accounted_start⟩

/-- A process gets its quota. -/
theorem process_holds : ∃ s,
    Run (Guarded (Step LocalTaskMonitor.sampleLimits) Settled) System.start
      [.start 100, .acquire 100 0 false, .serve (.look 0), .receive 100] s ∧
      s.clients 100 = some (.holding false) :=
  ⟨_, .cons ⟨.start 100 rfl, trivial⟩
    (.cons ⟨.acquire 0 false rfl (.call 0 _ rfl), List.not_mem_nil⟩
      (.cons ⟨.serve trivial (.look rfl), trivial⟩
        (.cons ⟨.receive rfl rfl, trivial⟩ (.nil _)))), rfl⟩

end Yadcc.Daemon.TaskQuota
