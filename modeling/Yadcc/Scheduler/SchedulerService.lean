/-
# The scheduler's RPC service

`SchedulerServiceImpl` verifies a request, translates it, and calls the dispatcher. The
waiting of `WaitForStartingTask` is left to the dispatcher's own model; every other
handler is here. A handler makes its dispatcher calls one after the other.
-/

import Yadcc.Common.Service
import Yadcc.Scheduler.TaskDispatcher

namespace Yadcc.Scheduler

/-! ## Messages -/

/-- The statuses of `scheduler.proto` that the handlers below answer with. -/
inductive Status
  | accessDenied
  | invalidArgument
  | versionTooOld
  | environmentNotAvailable
  | noQuotaAvailable
  deriving DecidableEq

structure HeartbeatRequest where
  token : String
  nextHeartbeatInMs : UInt32
  version : UInt32
  location : String
  numProcessors : UInt32
  currentLoad : UInt32
  servantPriority : ServantPriority
  notAcceptingTaskReason : UInt32
  capacity : UInt32
  totalMemoryInBytes : UInt64
  memoryAvailableInBytes : UInt64
  envDescs : List EnvironmentDesc
  runningTasks : List RunningTask

structure HeartbeatResponse where
  acceptableTokens : List String
  expiredTasks : List UInt64
  deriving DecidableEq

structure KeepTaskAliveRequest where
  token : String
  taskGrantIds : List UInt64
  nextKeepAliveInMs : UInt32

structure FreeTaskRequest where
  token : String
  taskGrantIds : List UInt64

/-! ## The service -/

/-- The flags of the service and the libraries it uses. -/
structure ServiceConfig where
  dispatcher : DispatcherConfig
  endpoints : EndpointLibrary
  isUserVerifier : TokenVerifier
  isServantVerifier : TokenVerifier
  minDaemonVersion : Int32
  servingDaemonTokenRolloutInterval : Time

/-- The members of the service, with the dispatcher it drives. -/
structure SchedulerService where
  nextServingDaemonTokenRollout : Time
  activeServingDaemonTokens : List String
  dispatcher : TaskDispatcher

/-- The assertions that a handler can fail. -/
inductive ServiceFault
  | addressFamily
  | servingDaemonTokens
  | dispatcher (fault : DispatcherFault)
  deriving DecidableEq

/-- The clock readings of a heartbeat, and the random token that a rollout would draw. -/
structure HeartbeatClock where
  discoveredAt : Time
  expiresFrom : Time
  rolloutAt : Time
  nextServingDaemonToken : String

namespace SchedulerService

def milliseconds (count : UInt32) : Time := count.toNat * 1000000

/-- The tokens that servants should accept now; the oldest leaves when a rollout is due. -/
def determineActiveServingDaemonTokens (cfg : ServiceConfig) (now : Time) (fresh : String)
    (service : SchedulerService) : Except ServiceFault (List String × SchedulerService) :=
  let service :=
    if service.nextServingDaemonTokenRollout < now then
      { service with
        nextServingDaemonTokenRollout := now + cfg.servingDaemonTokenRolloutInterval
        activeServingDaemonTokens := service.activeServingDaemonTokens.drop 1 ++ [fresh] }
    else service
  if service.activeServingDaemonTokens.length = 3 then
    .ok (service.activeServingDaemonTokens, service)
  else .error .servingDaemonTokens

/-- The peer's own address, with the port the servant reports. -/
def observedLocationOf (peer : RemotePeer) (port : UInt16) : Except ServiceFault String :=
  match peer.family with
  | .inet => .ok (peer.ip ++ ":" ++ toString port.toNat)
  | .inet6 => .ok ("[" ++ peer.ip ++ "]:" ++ toString port.toNat)
  | .other => .error .addressFamily

def notAcceptingTaskReasonOf (code : UInt32) : NotAcceptingTaskReason :=
  if code = 0 then .unknown
  else if code = 1 then .userInstructed
  else if code = 2 then .poorMachine
  else if code = 3 then .cgroupsPresent
  else if code = 4 then .behindNat
  else if code = 100 then .notVerified
  else .unrecognized code

/-- What the dispatcher is told about the servant behind a heartbeat. -/
def servantPersonalityOf (cfg : ServiceConfig) (request : HeartbeatRequest)
    (observedLocation reportedLocation : String) : ServantPersonality :=
  let behindNat := observedLocation != reportedLocation
  let verified := cfg.isServantVerifier.verify request.token
  { version := request.version.toInt32
    observedLocation
    reportedLocation
    environments := request.envDescs
    -- Older daemons do not report their number of processors.
    numProcessors :=
      if request.numProcessors = 0 then request.capacity.toUInt64
      else request.numProcessors.toUInt64
    currentLoad := request.currentLoad.toUInt64
    totalMemoryInBytes := request.totalMemoryInBytes
    memoryAvailableInBytes := request.memoryAvailableInBytes
    maxTasks :=
      if behindNat || !verified || milliseconds request.nextHeartbeatInMs == 0 then 0
      else request.capacity.toUInt64
    priority :=
      match request.servantPriority with
      | .unknown => .user
      | .unrecognized _ => .user
      | priority => priority
    notAcceptingTaskReason :=
      if !verified then .notVerified
      else if behindNat then .behindNat
      else notAcceptingTaskReasonOf request.notAcceptingTaskReason }

def heartbeat (cfg : ServiceConfig) (peer : RemotePeer) (request : HeartbeatRequest)
    (clock : HeartbeatClock) (service : SchedulerService) :
    Except ServiceFault (Except Status HeartbeatResponse × SchedulerService) :=
  if !cfg.isUserVerifier.verify request.token && !cfg.isServantVerifier.verify request.token then
    .ok (.error .accessDenied, service)
  -- `uint32` against `int32`: the flag is read as unsigned.
  else if request.version < cfg.minDaemonVersion.toUInt32 then
    .ok (.error .versionTooOld, service)
  else
    match cfg.endpoints.tryParse request.location with
    | none => .ok (.error .invalidArgument, service)
    | some endpoint =>
        match observedLocationOf peer (cfg.endpoints.endpointGetPort endpoint) with
        | .error fault => .error fault
        | .ok observedLocation =>
            let expiresIn := milliseconds request.nextHeartbeatInMs
            if 30000000000 < expiresIn then .ok (.error .invalidArgument, service)
            else
              let servant := servantPersonalityOf cfg request observedLocation
                (cfg.endpoints.toString endpoint)
              let service :=
                { service with
                  dispatcher := service.dispatcher.keepServantAlive servant expiresIn
                    clock.discoveredAt clock.expiresFrom }
              match service.determineActiveServingDaemonTokens cfg clock.rolloutAt
                clock.nextServingDaemonToken with
              | .error fault => .error fault
              | .ok (acceptableTokens, service) =>
                  match service.dispatcher.notifyServantRunningTasks request.location
                    request.runningTasks with
                  | .error fault => .error (.dispatcher fault)
                  | .ok (expiredTasks, dispatcher) =>
                      .ok (.ok { acceptableTokens, expiredTasks }, { service with dispatcher })

/-- The middle one of the active tokens, for a user. -/
def getConfig (cfg : ServiceConfig) (token : String) (now : Time) (fresh : String)
    (service : SchedulerService) :
    Except ServiceFault (Except Status String × SchedulerService) :=
  if !cfg.isUserVerifier.verify token then .ok (.error .accessDenied, service)
  else
    match service.determineActiveServingDaemonTokens cfg now fresh with
    | .error fault => .error fault
    | .ok (tokens, service) => .ok (.ok (tokens.getD 1 ""), service)

/-- Renew the listed grants in order; `clock` has the reading of each call. -/
def keepTasksAlive (nextKeepAlive : Time) : List UInt64 → (ℕ → Time) → TaskDispatcher →
    List Bool × TaskDispatcher
  | [], _, dispatcher => ([], dispatcher)
  | taskId :: rest, clock, dispatcher =>
      let (status, dispatcher) := dispatcher.keepTaskAlive taskId nextKeepAlive (clock 0)
      let (statuses, dispatcher) :=
        keepTasksAlive nextKeepAlive rest (fun i => clock (i + 1)) dispatcher
      (status :: statuses, dispatcher)

def keepTaskAlive (cfg : ServiceConfig) (request : KeepTaskAliveRequest) (clock : ℕ → Time)
    (service : SchedulerService) : Except Status (List Bool) × SchedulerService :=
  let nextKeepAlive := milliseconds request.nextKeepAliveInMs
  if !cfg.isUserVerifier.verify request.token then (.error .accessDenied, service)
  else if 30000000000 < nextKeepAlive then (.error .invalidArgument, service)
  else
    let (statuses, dispatcher) :=
      keepTasksAlive nextKeepAlive request.taskGrantIds clock service.dispatcher
    (.ok statuses, { service with dispatcher })

def freeTask (cfg : ServiceConfig) (request : FreeTaskRequest) (service : SchedulerService) :
    Except ServiceFault (Except Status Unit × SchedulerService) :=
  if !cfg.isUserVerifier.verify request.token then .ok (.error .accessDenied, service)
  else
    match request.taskGrantIds.foldlM (fun d taskId => d.freeTask taskId) service.dispatcher with
    | .error fault => .error (.dispatcher fault)
    | .ok dispatcher => .ok (.ok (), { service with dispatcher })

def getRunningTasks (service : SchedulerService) : List RunningTask :=
  service.dispatcher.getRunningTasks

end SchedulerService

end Yadcc.Scheduler
