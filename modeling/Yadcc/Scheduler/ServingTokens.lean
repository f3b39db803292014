/-
# Serving daemon tokens

The service keeps a window of three tokens. A user is given the middle one, a servant is
told to accept all three. The window advances lazily, inside a call that finds the rollout
time passed, and the next rollout time is counted from that call. A servant must accept
the token of every user who asked less than a rollout interval before or after it did.
-/

import Yadcc.Scheduler.Heartbeat

namespace Yadcc.Scheduler

open Yadcc.Lib

/-! ## The servant's side -/

/-- The servant's service, as far as it checks tokens. -/
structure DaemonService where
  tokenVerifier : TokenVerifier

namespace DaemonService

def isTokenAcceptable (daemon : DaemonService) (token : String) : Bool :=
  daemon.tokenVerifier.verify token

/-- What the response to a heartbeat does to the servant. -/
def updateAcceptableTokens (_ : DaemonService) (tokens : List String) : DaemonService where
  tokenVerifier := ⟨tokens⟩

theorem isTokenAcceptable_update {daemon : DaemonService} {tokens : List String}
    {token : String} :
    (daemon.updateAcceptableTokens tokens).isTokenAcceptable token = true ↔ token ∈ tokens := by
  simp [isTokenAcceptable, updateAcceptableTokens, TokenVerifier.verify]

end DaemonService

namespace SchedulerService

/-! ## Calls -/

/-- The service as it is constructed, with three tokens drawn at random. -/
def new (cfg : ServiceConfig) (now : Time) (first second third : String) : SchedulerService where
  nextServingDaemonTokenRollout := now + cfg.servingDaemonTokenRolloutInterval
  activeServingDaemonTokens := [first, second, third]
  dispatcher := TaskDispatcher.empty

/-- A call with its request, the clock readings it makes and the token it would draw. The
other handlers and the expiration timer only drive the dispatcher. -/
inductive Call
  | getConfig (token : String) (now : Time) (fresh : String)
  | heartbeat (peer : RemotePeer) (request : HeartbeatRequest) (clock : HeartbeatClock)
  | dispatcher (op : TaskDispatcher.Op)

inductive CallReply
  | config (result : Except Status String)
  | heartbeat (result : Except Status HeartbeatResponse)
  | dispatcher (reply : TaskDispatcher.Reply)

/-- The reading a call makes of the clock under the lock of the tokens. -/
def Call.readsAt : Call → Option Time
  | .getConfig _ now _ => some now
  | .heartbeat _ _ clock => some clock.rolloutAt
  | .dispatcher _ => none

def handle (cfg : ServiceConfig) (service : SchedulerService) :
    Call → Except ServiceFault (CallReply × SchedulerService)
  | .getConfig token now fresh => do
      let (result, service) ← service.getConfig cfg token now fresh
      return (.config result, service)
  | .heartbeat peer request clock => do
      let (result, service) ← service.heartbeat cfg peer request clock
      return (.heartbeat result, service)
  | .dispatcher op =>
      match service.dispatcher.apply cfg.dispatcher op with
      | .ok (reply, dispatcher) => .ok (.dispatcher reply, { service with dispatcher })
      | .error fault => .error (.dispatcher fault)

/-- The service with the latest reading of its steady clock. -/
structure Clocked where
  service : SchedulerService
  now : Time

/-- One call. The readings under the lock never go back. -/
def Step (cfg : ServiceConfig) (s : Clocked) (label : Call × CallReply) (t : Clocked) : Prop :=
  s.service.handle cfg label.1 = .ok (label.2, t.service) ∧
    match label.1.readsAt with
    | some now => s.now ≤ now ∧ t.now = now
    | none => t.now = s.now

variable {cfg : ServiceConfig} {service service' : SchedulerService}

/-! ## What one call does to the window -/

/-- A look at the window at a clock reading: it stays as it is until its rollout is due,
and advances by one token then. -/
inductive Advance (interval now : Time) (s t : SchedulerService) : Prop
  | kept : now ≤ s.nextServingDaemonTokenRollout →
      t.activeServingDaemonTokens = s.activeServingDaemonTokens →
      t.nextServingDaemonTokenRollout = s.nextServingDaemonTokenRollout →
      Advance interval now s t
  | rolled (fresh : String) : s.nextServingDaemonTokenRollout < now →
      t.activeServingDaemonTokens = s.activeServingDaemonTokens.drop 1 ++ [fresh] →
      t.nextServingDaemonTokenRollout = now + interval → Advance interval now s t

theorem determineActiveServingDaemonTokens_advance {now : Time} {fresh : String}
    {tokens : List String}
    (h : service.determineActiveServingDaemonTokens cfg now fresh = .ok (tokens, service')) :
    tokens = service'.activeServingDaemonTokens ∧ tokens.length = 3 ∧
      Advance cfg.servingDaemonTokenRolloutInterval now service service' := by
  unfold determineActiveServingDaemonTokens at h
  by_cases hdue : service.nextServingDaemonTokenRollout < now
  · simp only [if_pos hdue] at h
    split at h
    · next hlength =>
        cases h
        exact ⟨rfl, hlength, .rolled fresh hdue rfl rfl⟩
    · cases h
  · simp only [if_neg hdue] at h
    split at h
    · next hlength =>
        cases h
        exact ⟨rfl, hlength, .kept (not_lt.mp hdue) rfl rfl⟩
    · cases h

/-- A `GetConfig` is refused, or answers with the middle one of the window it looked at. -/
theorem getConfig_cases {token : String} {now : Time} {fresh : String}
    {result : Except Status String}
    (h : service.getConfig cfg token now fresh = .ok (result, service')) :
    (∃ status, result = .error status ∧ service' = service) ∨
      (result = .ok (service'.activeServingDaemonTokens.getD 1 "") ∧
        service'.activeServingDaemonTokens.length = 3 ∧
        Advance cfg.servingDaemonTokenRolloutInterval now service service') := by
  unfold getConfig at h
  split_ifs at h
  · cases h
    exact .inl ⟨_, rfl, rfl⟩
  · split at h
    · cases h
    · next tokens service₁ htokens =>
        cases h
        obtain ⟨rfl, hlength, hadvance⟩ := determineActiveServingDaemonTokens_advance htokens
        exact .inr ⟨rfl, hlength, hadvance⟩

/-- A heartbeat is refused, or answers with the window it looked at. -/
theorem heartbeat_cases {peer : RemotePeer} {request : HeartbeatRequest}
    {clock : HeartbeatClock} {result : Except Status HeartbeatResponse}
    (h : service.heartbeat cfg peer request clock = .ok (result, service')) :
    (∃ status, result = .error status ∧ service' = service) ∨
      (∃ response, result = .ok response ∧
        response.acceptableTokens = service'.activeServingDaemonTokens ∧
        service'.activeServingDaemonTokens.length = 3 ∧
        Advance cfg.servingDaemonTokenRolloutInterval clock.rolloutAt service service') := by
  unfold heartbeat at h
  split_ifs at h
  · cases h
    exact .inl ⟨_, rfl, rfl⟩
  · cases h
    exact .inl ⟨_, rfl, rfl⟩
  · split at h
    · cases h
      exact .inl ⟨_, rfl, rfl⟩
    · split at h
      · cases h
      · dsimp only at h
        split_ifs at h
        · cases h
          exact .inl ⟨_, rfl, rfl⟩
        · split at h
          · cases h
          · next tokens service₁ htokens =>
              split at h
              · cases h
              · cases h
                obtain ⟨htokens', hlength, hadvance⟩ :=
                  determineActiveServingDaemonTokens_advance htokens
                refine .inr ⟨_, rfl, htokens', htokens' ▸ hlength, ?_⟩
                -- What the two dispatcher calls changed is no part of the window.
                cases hadvance with
                | kept hdue hactive hnext => exact .kept hdue hactive hnext
                | rolled fresh hdue hactive hnext => exact .rolled fresh hdue hactive hnext

/-- The token fields of the service, and the clock, after a step. -/
theorem step_cases {s t : Clocked} {label : Call × CallReply} (h : Step cfg s label t) :
    s.now ≤ t.now ∧
      ((t.service.activeServingDaemonTokens = s.service.activeServingDaemonTokens ∧
          t.service.nextServingDaemonTokenRollout = s.service.nextServingDaemonTokenRollout) ∨
        Advance cfg.servingDaemonTokenRolloutInterval t.now s.service t.service) := by
  obtain ⟨call, reply⟩ := label
  obtain ⟨service, time⟩ := t
  obtain ⟨hhandle, hclock⟩ := h
  cases call with
  | getConfig token now fresh =>
      obtain ⟨hnow, htime⟩ := hclock
      obtain ⟨⟨result, service₁⟩, hconfig, hreply⟩ := bind_eq_ok.mp hhandle
      cases hreply
      rw [htime]
      refine ⟨hnow, ?_⟩
      rcases getConfig_cases hconfig with ⟨status, -, hsame⟩ | ⟨-, -, hadvance⟩
      · exact .inl ⟨by rw [hsame], by rw [hsame]⟩
      · exact .inr hadvance
  | heartbeat peer request clock =>
      obtain ⟨hnow, htime⟩ := hclock
      obtain ⟨⟨result, service₁⟩, hbeat, hreply⟩ := bind_eq_ok.mp hhandle
      cases hreply
      rw [htime]
      refine ⟨hnow, ?_⟩
      rcases heartbeat_cases hbeat with ⟨status, -, hsame⟩ | ⟨response, -, -, -, hadvance⟩
      · exact .inl ⟨by rw [hsame], by rw [hsame]⟩
      · exact .inr hadvance
  | dispatcher op =>
      refine ⟨le_of_eq hclock.symm, .inl ?_⟩
      rw [handle] at hhandle
      split at hhandle
      · cases hhandle
        exact ⟨rfl, rfl⟩
      · cases hhandle

/-! ## The window between two calls -/

/-- Where the window can be after a call has looked at it at `since` and left it as in
`s`: unmoved, or advanced once with the next rollout more than an interval after the call,
or more than an interval has passed. -/
inductive Since (interval since : Time) (s : SchedulerService) (t : Clocked) : Prop
  | unmoved : t.service.activeServingDaemonTokens = s.activeServingDaemonTokens →
      t.service.nextServingDaemonTokenRollout = s.nextServingDaemonTokenRollout →
      Since interval since s t
  | advanced (fresh : String) :
      t.service.activeServingDaemonTokens = s.activeServingDaemonTokens.drop 1 ++ [fresh] →
      since + interval < t.service.nextServingDaemonTokenRollout → Since interval since s t
  | passed : since + interval < t.now → Since interval since s t

variable {interval since : Time}

/-- The rollout that a call was too early for is after the call, so the one that follows
is more than an interval after it. -/
theorem Since.advance {s : SchedulerService} {t u : Clocked} (h : Since interval since s t)
    (hdue : since ≤ s.nextServingDaemonTokenRollout) (hnow : t.now ≤ u.now)
    (hadvance : Advance interval u.now t.service u.service) : Since interval since s u := by
  cases h with
  | unmoved hactive hnext =>
      cases hadvance with
      | kept hearly hactive' hnext' =>
          exact .unmoved (hactive'.trans hactive) (hnext'.trans hnext)
      | rolled fresh hlate hactive' hnext' =>
          refine .advanced fresh (by rw [hactive', hactive]) ?_
          rw [hnext'] at *
          rw [hnext] at hlate
          exact add_lt_add_left (lt_of_le_of_lt hdue hlate) interval
  | advanced fresh hactive hnext =>
      cases hadvance with
      | kept hearly hactive' hnext' =>
          exact .advanced fresh (hactive'.trans hactive) (hnext'.symm ▸ hnext)
      | rolled fresh' hlate hactive' hnext' => exact .passed (hnext.trans hlate)
  | passed hpassed => exact .passed (lt_of_lt_of_le hpassed hnow)

theorem Since.step {s : SchedulerService} {t u : Clocked} {label : Call × CallReply}
    (h : Since cfg.servingDaemonTokenRolloutInterval since s t)
    (hdue : since ≤ s.nextServingDaemonTokenRollout) (hstep : Step cfg t label u) :
    Since cfg.servingDaemonTokenRolloutInterval since s u := by
  obtain ⟨hnow, ⟨hactive, hnext⟩ | hadvance⟩ := step_cases hstep
  · cases h with
    | unmoved hactive' hnext' => exact .unmoved (hactive.trans hactive') (hnext.trans hnext')
    | advanced fresh hactive' hnext' =>
        exact .advanced fresh (hactive.trans hactive') (hnext.symm ▸ hnext')
    | passed hpassed => exact .passed (lt_of_lt_of_le hpassed hnow)
  · exact h.advance hdue hnow hadvance

theorem since_of_run {s t : Clocked} {labels : List (Call × CallReply)}
    (hdue : since ≤ s.service.nextServingDaemonTokenRollout) (run : Run (Step cfg) s labels t) :
    Since cfg.servingDaemonTokenRolloutInterval since s.service t :=
  run.invariant (I := Since cfg.servingDaemonTokenRolloutInterval since s.service)
    (fun _ _ _ h hstep => h.step hdue hstep) (.unmoved rfl rfl)

/-- The rollout time is not before a call that has just looked at it. -/
theorem Advance.due {now : Time} {s t : SchedulerService} (h : Advance interval now s t)
    (hinterval : 0 ≤ interval) : now ≤ t.nextServingDaemonTokenRollout := by
  cases h with
  | kept hearly hactive hnext => exact hnext.symm ▸ hearly
  | rolled fresh hlate hactive hnext => exact hnext.symm ▸ le_add_of_nonneg_right hinterval

/-- The middle one of three tokens stays in the window through one advance, and was in it
before the last one. -/
theorem Since.middle {s : SchedulerService} {t : Clocked} (h : Since interval since s t)
    (hthree : s.activeServingDaemonTokens.length = 3) (hclose : t.now ≤ since + interval) :
    s.activeServingDaemonTokens.getD 1 "" ∈ t.service.activeServingDaemonTokens ∧
      t.service.activeServingDaemonTokens.getD 1 "" ∈ s.activeServingDaemonTokens := by
  obtain ⟨first, second, third, htokens⟩ := List.length_eq_three.mp hthree
  cases h with
  | unmoved hactive hnext => simp [hactive, htokens]
  | advanced fresh hactive hnext => simp [hactive, htokens]
  | passed hpassed => exact absurd hclose (not_le.mpr hpassed)

/-! ## Delegates and servants -/

/-- What the handled call of a successful `GetConfig` tells. -/
theorem step_config {s t : Clocked} {token x : String} {now : Time} {fresh : String}
    (h : Step cfg s (.getConfig token now fresh, .config (.ok x)) t) :
    t.now = now ∧ x = t.service.activeServingDaemonTokens.getD 1 "" ∧
      t.service.activeServingDaemonTokens.length = 3 ∧
      Advance cfg.servingDaemonTokenRolloutInterval now s.service t.service := by
  obtain ⟨service, time⟩ := t
  obtain ⟨hhandle, hnow, htime⟩ := h
  obtain ⟨⟨result, service₁⟩, hconfig, hreply⟩ := bind_eq_ok.mp hhandle
  cases hreply
  rcases getConfig_cases hconfig with ⟨status, hrefused, -⟩ | ⟨hmiddle, hthree, hadvance⟩
  · cases hrefused
  · cases hmiddle
    exact ⟨htime, rfl, hthree, hadvance⟩

/-- What the handled call of a successful heartbeat tells. -/
theorem step_heartbeat {s t : Clocked} {peer : RemotePeer} {request : HeartbeatRequest}
    {clock : HeartbeatClock} {response : HeartbeatResponse}
    (h : Step cfg s (.heartbeat peer request clock, .heartbeat (.ok response)) t) :
    t.now = clock.rolloutAt ∧
      response.acceptableTokens = t.service.activeServingDaemonTokens ∧
      t.service.activeServingDaemonTokens.length = 3 ∧
      Advance cfg.servingDaemonTokenRolloutInterval clock.rolloutAt s.service t.service := by
  obtain ⟨service, time⟩ := t
  obtain ⟨hhandle, hnow, htime⟩ := h
  obtain ⟨⟨result, service₁⟩, hbeat, hreply⟩ := bind_eq_ok.mp hhandle
  cases hreply
  rcases heartbeat_cases hbeat with ⟨status, hrefused, -⟩ | ⟨response', haccepted, hrest⟩
  · cases hrefused
  · cases haccepted
    exact ⟨htime, hrest⟩

/-- In every run of the service, a servant accepts the token of a delegate when its last
heartbeat and the delegate's `GetConfig` were handled at most a rollout interval apart. -/
theorem acceptable_within_interval {start : Time} {first second third : String} {s : Clocked}
    {labels : List (Call × CallReply)}
    (run : Run (Step cfg) ⟨new cfg start first second third, start⟩ labels s)
    {token x : String} {now : Time} {fresh : String}
    (hconfig : (Call.getConfig token now fresh, CallReply.config (.ok x)) ∈ labels)
    {peer : RemotePeer} {request : HeartbeatRequest} {clock : HeartbeatClock}
    {response : HeartbeatResponse}
    (hbeat : (Call.heartbeat peer request clock, CallReply.heartbeat (.ok response)) ∈ labels)
    (hclose : |clock.rolloutAt - now| ≤ cfg.servingDaemonTokenRolloutInterval)
    (daemon : DaemonService) :
    (daemon.updateAcceptableTokens response.acceptableTokens).isTokenAcceptable x = true := by
  rw [DaemonService.isTokenAcceptable_update]
  have hinterval : 0 ≤ cfg.servingDaemonTokenRolloutInterval := (abs_nonneg _).trans hclose
  obtain ⟨hafter, hbefore⟩ := abs_le.mp hclose
  obtain ⟨earlier, later, t, t', rfl, hearlier, hstep, hlater⟩ := run.of_mem hconfig
  obtain ⟨htime, rfl, hthree, hadvance⟩ := step_config hstep
  rcases List.mem_append.mp hbeat with hmem | hmem
  · -- The servant asked first.
    obtain ⟨before, between, u, u', rfl, -, hfirst, hbetween⟩ := hearlier.of_mem hmem
    obtain ⟨htime', htokens, hthree', hadvance'⟩ := step_heartbeat hfirst
    have hsince := (since_of_run (hadvance'.due hinterval) hbetween).step
      (hadvance'.due hinterval) hstep
    rw [htokens]
    exact (hsince.middle hthree' (by rw [htime]; linarith)).2
  · rcases List.mem_cons.mp hmem with heq | hmem
    · cases heq
    · obtain ⟨between, after, u, u', rfl, hbetween, hsecond, -⟩ := hlater.of_mem hmem
      obtain ⟨htime', htokens, -, -⟩ := step_heartbeat hsecond
      have hsince := (since_of_run (hadvance.due hinterval) hbetween).step
        (hadvance.due hinterval) hsecond
      rw [htokens]
      exact (hsince.middle hthree (by rw [htime']; linarith)).1

/-- A user asks at 3000, the window advances at 3700, and a servant asks at 6600. -/
theorem acceptable_within_interval_rolled :
    ∃ labels s response, Run (Step sampleServiceConfig)
        ⟨new sampleServiceConfig 0 "a" "b" "c", 0⟩ labels s ∧
      (Call.heartbeat ⟨.inet, "10.0.0.2"⟩ (idleHeartbeat "10.0.0.2:8335")
        ⟨6600, 6600, 6600, "e"⟩, CallReply.heartbeat (.ok response)) ∈ labels ∧
      response.acceptableTokens = ["b", "c", "d"] ∧
      ((⟨⟨[]⟩⟩ : DaemonService).updateAcceptableTokens
        response.acceptableTokens).isTokenAcceptable "b" = true := by
  have run : Run (Step sampleServiceConfig) ⟨new sampleServiceConfig 0 "a" "b" "c", 0⟩
      [(.getConfig "user" 3000 "d", .config (.ok "b")),
        (.getConfig "user" 3700 "d", .config (.ok "c")),
        (.heartbeat ⟨.inet, "10.0.0.2"⟩ (idleHeartbeat "10.0.0.2:8335")
          ⟨6600, 6600, 6600, "e"⟩, .heartbeat (.ok ⟨["b", "c", "d"], []⟩))] _ :=
    .cons (t := ⟨_, 3000⟩) ⟨rfl, by decide, rfl⟩
      (.cons (t := ⟨_, 3700⟩) ⟨rfl, by decide, rfl⟩
        (.cons (t := ⟨_, 6600⟩) ⟨rfl, by decide, rfl⟩ (.nil _)))
  have hclose : |(6600 : Time) - 3000| ≤ 3600 := by norm_num
  exact ⟨_, _, ⟨["b", "c", "d"], []⟩, run, .tail _ (.tail _ (.head _)), rfl,
    acceptable_within_interval run (.head _) (.tail _ (.tail _ (.head _))) hclose ⟨⟨[]⟩⟩⟩

end SchedulerService

end Yadcc.Scheduler
