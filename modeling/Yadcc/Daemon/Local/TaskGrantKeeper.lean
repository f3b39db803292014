/-
# Keeping grants for new tasks

For every compiler a fiber asks the scheduler for grants when there are none left, and
`Get` hands them out. A grant is good until ten seconds after the fiber began to ask for it.
`Get` drops what has expired and takes the first grant that is left; where none is, it waits
for the fiber, and then takes the first grant as it is. This module has the steps of the calls
and the fibers, in any order, and what each does to the grants.
-/

import Mathlib.Data.List.TakeWhile
import Yadcc.Scheduler.WaitForStartingTask

namespace Yadcc.Daemon.Local

open Yadcc.Lib
open Yadcc.Scheduler (Time WaitForStartingTaskRequest)

namespace TaskGrantKeeper

/-! ## Data -/

structure GrantDesc where
  expiresAt : Time
  grantId : UInt64
  servantLocation : String
  deriving DecidableEq

/-- Where the fiber of `GrantFetcherProc` is: waiting to be needed, in its RPC, which it began
with this reading of the clock, asleep after a failure, or gone. -/
inductive GrantFetcher
  | waiting
  | calling (beforeRpcNow : Time) (request : WaitForStartingTaskRequest)
  | sleeping (wakesAt : Time)
  | left

/-- The grants of one environment. -/
structure PerEnvGrantKeeper where
  envDesc : Scheduler.EnvironmentDesc
  waiters : ℕ
  remaining : List GrantDesc
  fetcher : GrantFetcher

/-- A call of `Get` that has found the keeper of its environment: it is before its look at the
grants, or waits for some until its deadline. -/
inductive GetPhase
  | entered (timeout : Time)
  | waiting (deadline : Time)
  deriving DecidableEq

structure PendingGet where
  digest : String
  phase : GetPhase
  deriving DecidableEq

/-- A grant that the scheduler gave for a compiler, with the reading of the clock that the
request for it began with. -/
structure Received where
  digest : String
  grant : GrantDesc
  begun : Time
  deriving DecidableEq

/-- A grant that a call returned at a reading of the clock. -/
structure Returned where
  get : ℕ
  digest : String
  grant : GrantDesc
  time : Time
  deriving DecidableEq

structure Dropped where
  digest : String
  grant : GrantDesc
  time : Time
  deriving DecidableEq

end TaskGrantKeeper

open TaskGrantKeeper in
/-- The keepers of all environments with the calls under way. `received`, `returned` and
`dropped` are no data of theirs: what became of the grants. -/
structure TaskGrantKeeper where
  now : Time
  leaving : Bool
  keepers : UnorderedMap String PerEnvGrantKeeper
  gets : UnorderedMap ℕ PendingGet
  nextGet : ℕ
  received : List Received
  returned : List Returned
  dropped : List Dropped

namespace TaskGrantKeeper

def start (now : Time) : TaskGrantKeeper where
  now := now
  leaving := false
  keepers := ∅
  gets := ∅
  nextGet := 0
  received := []
  returned := []
  dropped := []

/-! ## Steps -/

def kNanosecondsPerSecond : Time := 10 ^ 9

def kMaxWait : Time := 5 * kNanosecondsPerSecond

def kNetworkDelayTolerance : Time := 5 * kNanosecondsPerSecond

def kExpiresIn : Time := 15 * kNanosecondsPerSecond

def inMilliseconds (duration : Time) : UInt32 := UInt32.ofInt (duration / 10 ^ 6)

/-- The pause after a failure. -/
def kRetryDelay : Time := kNanosecondsPerSecond / 10

/-- What all requests have in common. -/
structure Config where
  token : String
  versionForUpgrade : UInt32

/-- A call creates the keeper of its environment, or finds it. -/
def enter (s : TaskGrantKeeper) (desc : Scheduler.EnvironmentDesc) (timeout : Time) :
    TaskGrantKeeper :=
  { s with
    keepers :=
      match s.keepers.lookup desc.compilerDigest with
      | some _ => s.keepers
      | none => s.keepers.insert desc.compilerDigest ⟨desc, 0, [], .waiting⟩
    gets := s.gets.insert s.nextGet ⟨desc.compilerDigest, .entered timeout⟩
    nextGet := s.nextGet + 1 }

def setKeeper (s : TaskGrantKeeper) (digest : String) (keeper : PerEnvGrantKeeper) :
    TaskGrantKeeper :=
  { s with keepers := s.keepers.insert digest keeper }

def handOut (s : TaskGrantKeeper) (get : ℕ) (digest : String) (grant : GrantDesc) :
    TaskGrantKeeper :=
  { s with
    gets := s.gets.erase get
    returned := ⟨get, digest, grant, s.now⟩ :: s.returned }

/-- Drop expired grants first; take one that is left, or begin to wait. The readings of the
clock in the critical section are taken as one. -/
def look (s : TaskGrantKeeper) (get : ℕ) (digest : String) (timeout : Time)
    (keeper : PerEnvGrantKeeper) : TaskGrantKeeper :=
  let expired := keeper.remaining.takeWhile fun e => decide (e.expiresAt < s.now)
  let s := { s with dropped := expired.map (Dropped.mk digest · s.now) ++ s.dropped }
  match keeper.remaining.dropWhile fun e => decide (e.expiresAt < s.now) with
  | grant :: rest => (s.setKeeper digest { keeper with remaining := rest }).handOut get digest grant
  | [] =>
      { s.setKeeper digest { keeper with remaining := [], waiters := keeper.waiters + 1 } with
        gets := s.gets.insert get ⟨digest, .waiting (s.now + timeout)⟩ }

/-- A waiting call is woken: it takes the first grant, or gives up, or goes on waiting. -/
def wake (s : TaskGrantKeeper) (get : ℕ) (digest : String) (deadline : Time)
    (keeper : PerEnvGrantKeeper) : Option TaskGrantKeeper :=
  match keeper.remaining with
  | grant :: rest =>
      some ((s.setKeeper digest
        { keeper with remaining := rest, waiters := keeper.waiters - 1 }).handOut get digest grant)
  | [] =>
      if deadline ≤ s.now then
        some { s.setKeeper digest { keeper with waiters := keeper.waiters - 1 } with
          gets := s.gets.erase get }
      else none

/-- The fiber leaves, or begins to ask when there are no grants left. -/
def fetch (cfg : Config) (s : TaskGrantKeeper) (digest : String) (keeper : PerEnvGrantKeeper) :
    Option TaskGrantKeeper :=
  match keeper.fetcher with
  | .waiting =>
      if s.leaving then some (s.setKeeper digest { keeper with fetcher := .left })
      else if keeper.remaining = [] then
        let request : WaitForStartingTaskRequest :=
          { token := cfg.token
            millisecondsToWait := inMilliseconds kMaxWait
            nextKeepAliveInMs := inMilliseconds kExpiresIn
            envDesc := keeper.envDesc
            immediateReqs := UInt32.ofNat keeper.waiters
            prefetchReqs := 1
            minVersion := cfg.versionForUpgrade }
        some (s.setKeeper digest { keeper with fetcher := .calling s.now request })
      else none
  | _ => none

/-- The grants of a reply. Using the time before the RPC, let's be conservative. -/
def grantsOf (beforeRpcNow : Time) (grants : List (UInt64 × String)) : List GrantDesc :=
  grants.map fun e => ⟨beforeRpcNow + kExpiresIn - kNetworkDelayTolerance, e.1, e.2⟩

def reply (s : TaskGrantKeeper) (digest : String) (grants : List (UInt64 × String))
    (keeper : PerEnvGrantKeeper) : Option TaskGrantKeeper :=
  match keeper.fetcher with
  | .calling beforeRpcNow request =>
      let fetched := grantsOf beforeRpcNow grants
      some { s.setKeeper digest
          { keeper with remaining := keeper.remaining ++ fetched, fetcher := .waiting } with
        received :=
          fetched.map (Received.mk request.envDesc.compilerDigest · beforeRpcNow) ++ s.received }
  | _ => none

def fail (s : TaskGrantKeeper) (digest : String) (keeper : PerEnvGrantKeeper) :
    Option TaskGrantKeeper :=
  match keeper.fetcher with
  | .calling _ _ =>
      some (s.setKeeper digest { keeper with fetcher := .sleeping (s.now + kRetryDelay) })
  | _ => none

def resume (s : TaskGrantKeeper) (digest : String) (keeper : PerEnvGrantKeeper) :
    Option TaskGrantKeeper :=
  match keeper.fetcher with
  | .sleeping wakesAt =>
      if wakesAt ≤ s.now then some (s.setKeeper digest { keeper with fetcher := .waiting })
      else none
  | _ => none

inductive Action
  | tick (nanoseconds : ℕ)
  | get (desc : Scheduler.EnvironmentDesc) (timeout : Time)
  | look (get : ℕ)
  | wake (get : ℕ)
  | fetch (digest : String)
  | reply (digest : String) (grants : List (UInt64 × String))
  | fail (digest : String)
  | resume (digest : String)
  | stop

def next (cfg : Config) (s : TaskGrantKeeper) : Action → Option TaskGrantKeeper
  | .tick nanoseconds => some { s with now := s.now + nanoseconds }
  | .get desc timeout => some (s.enter desc timeout)
  | .look get =>
      match s.gets.lookup get with
      | some ⟨digest, .entered timeout⟩ =>
          (s.keepers.lookup digest).map (s.look get digest timeout)
      | _ => none
  | .wake get =>
      match s.gets.lookup get with
      | some ⟨digest, .waiting deadline⟩ =>
          (s.keepers.lookup digest).bind (s.wake get digest deadline)
      | _ => none
  | .fetch digest => (s.keepers.lookup digest).bind (s.fetch cfg digest)
  | .reply digest grants => (s.keepers.lookup digest).bind (s.reply digest grants)
  | .fail digest => (s.keepers.lookup digest).bind (s.fail digest)
  | .resume digest => (s.keepers.lookup digest).bind (s.resume digest)
  | .stop => some { s with leaving := true }

def Step (cfg : Config) (s : TaskGrantKeeper) (a : Action) (t : TaskGrantKeeper) : Prop :=
  s.next cfg a = some t

/-! ## What becomes of the grants -/

def remaining (s : TaskGrantKeeper) (digest : String) : List GrantDesc :=
  ((s.keepers.lookup digest).map PerEnvGrantKeeper.remaining).getD []

/-- Every grant that the scheduler gave for a compiler was returned, by a call for this
compiler, or is there for such a call, or was dropped: each as often as it came. What was
dropped had expired. -/
structure Accounted (s : TaskGrantKeeper) : Prop where
  conserved : ∀ digest grant,
    (s.received.map fun r => (r.digest, r.grant)).count (digest, grant) =
      (s.returned.map fun r => (r.digest, r.grant)).count (digest, grant) +
        (s.remaining digest).count grant +
        (s.dropped.map fun r => (r.digest, r.grant)).count (digest, grant)
  dropped : ∀ r ∈ s.dropped, r.grant.expiresAt < r.time

/-- No call has returned an expired grant. -/
def Unexpired (s : TaskGrantKeeper) : Prop := ∀ r ∈ s.returned, ¬ r.grant.expiresAt < r.time

/-- What a waiting call gets if it is woken. -/
def offered (s : TaskGrantKeeper) (get : ℕ) : Option GrantDesc :=
  match s.gets.lookup get with
  | some ⟨digest, .waiting _⟩ => (s.remaining digest).head?
  | _ => none

def prompt (s : TaskGrantKeeper) : Action → Bool
  | .wake get => (s.offered get).all fun grant => s.received.any fun r =>
      decide (r.grant = grant ∧ s.now ≤ r.begun + (kExpiresIn - kNetworkDelayTolerance))
  | _ => true

/-- A waiting call takes a grant within ten seconds of the beginning of the request that
brought it. -/
def Prompt (s : TaskGrantKeeper) (a : Action) : Prop := s.prompt a = true

instance (s : TaskGrantKeeper) (a : Action) : Decidable (Prompt s a) :=
  inferInstanceAs (Decidable (_ = true))

variable {cfg : Config} {s t : TaskGrantKeeper} {a : Action}

/-! ## Cases of a step -/

/-- The environment that an RPC asks for. -/
def GrantFetcher.asks : GrantFetcher → Option Scheduler.EnvironmentDesc
  | .calling _ request => some request.envDesc
  | _ => none

/-- The fiber of a keeper moves on, or the reply to its RPC comes, or a call does something. -/
inductive Change (s : TaskGrantKeeper) : Action → TaskGrantKeeper → Prop
  | ticked (nanoseconds : ℕ) : Change s (.tick nanoseconds) { s with now := s.now + nanoseconds }
  | entered (desc : Scheduler.EnvironmentDesc) (timeout : Time) :
      Change s (.get desc timeout) (s.enter desc timeout)
  | looked {get : ℕ} {digest : String} {timeout : Time} {keeper : PerEnvGrantKeeper}
      (hget : s.gets.lookup get = some ⟨digest, .entered timeout⟩)
      (hkeeps : s.keepers.lookup digest = some keeper) :
      Change s (.look get) (s.look get digest timeout keeper)
  | woken {get : ℕ} {digest : String} {deadline : Time} {keeper : PerEnvGrantKeeper}
      {t : TaskGrantKeeper} (hget : s.gets.lookup get = some ⟨digest, .waiting deadline⟩)
      (hkeeps : s.keepers.lookup digest = some keeper)
      (hwake : s.wake get digest deadline keeper = some t) : Change s (.wake get) t
  | moved {a : Action} {digest : String} {keeper : PerEnvGrantKeeper} {fetcher : GrantFetcher}
      (hkeeps : s.keepers.lookup digest = some keeper)
      (hasks : ∀ desc, fetcher.asks = some desc → desc = keeper.envDesc)
      (hprompt : Prompt s a) : Change s a (s.setKeeper digest { keeper with fetcher })
  | replied {digest : String} {keeper : PerEnvGrantKeeper} {begun : Time}
      {request : WaitForStartingTaskRequest} (grants : List (UInt64 × String))
      (hkeeps : s.keepers.lookup digest = some keeper)
      (hcalling : keeper.fetcher = .calling begun request) :
      Change s (.reply digest grants)
        { s.setKeeper digest
            { keeper with
              remaining := keeper.remaining ++ grantsOf begun grants
              fetcher := .waiting } with
          received := (grantsOf begun grants).map
            (Received.mk request.envDesc.compilerDigest · begun) ++ s.received }
  | stopped : Change s .stop { s with leaving := true }

theorem change_of_fetch {digest : String} {keeper : PerEnvGrantKeeper}
    (hkeeps : s.keepers.lookup digest = some keeper) (h : s.fetch cfg digest keeper = some t) :
    Change s (.fetch digest) t := by
  unfold fetch at h
  split at h
  · split at h
    · cases h
      exact .moved hkeeps (fun desc hasks => nomatch hasks) rfl
    · obtain ⟨-, h⟩ := Option.ite_none_right_eq_some.mp h
      cases h
      exact .moved hkeeps (fun desc hasks => (Option.some.inj hasks).symm) rfl
  · cases h

theorem change_of_step (h : Step cfg s a t) : Change s a t := by
  unfold Step next at h
  cases a with
  | tick nanoseconds =>
      cases h
      exact .ticked nanoseconds
  | get desc timeout =>
      cases h
      exact .entered desc timeout
  | look get =>
      dsimp only at h
      split at h
      · next digest timeout hget =>
          obtain ⟨keeper, hkeeps, h⟩ := Option.map_eq_some_iff.mp h
          cases h
          exact .looked hget hkeeps
      · cases h
  | wake get =>
      dsimp only at h
      split at h
      · next digest deadline hget =>
          obtain ⟨keeper, hkeeps, h⟩ := Option.bind_eq_some_iff.mp h
          exact .woken hget hkeeps h
      · cases h
  | fetch digest =>
      obtain ⟨keeper, hkeeps, h⟩ := Option.bind_eq_some_iff.mp h
      exact change_of_fetch hkeeps h
  | reply digest grants =>
      obtain ⟨keeper, hkeeps, h⟩ := Option.bind_eq_some_iff.mp h
      unfold reply at h
      split at h
      · next begun request hcalling =>
          cases h
          exact .replied grants hkeeps hcalling
      · cases h
  | fail digest =>
      obtain ⟨keeper, hkeeps, h⟩ := Option.bind_eq_some_iff.mp h
      unfold fail at h
      split at h
      · cases h
        exact .moved hkeeps (fun desc hasks => nomatch hasks) rfl
      · cases h
  | resume digest =>
      obtain ⟨keeper, hkeeps, h⟩ := Option.bind_eq_some_iff.mp h
      unfold resume at h
      split at h
      · obtain ⟨-, h⟩ := Option.ite_none_right_eq_some.mp h
        cases h
        exact .moved hkeeps (fun desc hasks => nomatch hasks) rfl
      · cases h
  | stop =>
      cases h
      exact .stopped

/-! ## The effect of a step -/

/-- What a step does to the grants. -/
inductive Effect (s : TaskGrantKeeper) (a : Action) (t : TaskGrantKeeper) : Prop
  | quiet (received : t.received = s.received) (returned : t.returned = s.returned)
      (dropped : t.dropped = s.dropped) (remaining : t.remaining = s.remaining)
      (prompt : Prompt s a)
  | emptied (digest : String) (expired : ∀ e ∈ s.remaining digest, e.expiresAt < s.now)
      (received : t.received = s.received) (returned : t.returned = s.returned)
      (dropped : t.dropped = (s.remaining digest).map (Dropped.mk digest · s.now) ++ s.dropped)
      (remaining : t.remaining = Function.update s.remaining digest []) (prompt : Prompt s a)
  | handedOut (get : ℕ) (digest : String) (front : List GrantDesc) (grant : GrantDesc)
      (rest : List GrantDesc) (split : s.remaining digest = front ++ grant :: rest)
      (expired : ∀ e ∈ front, e.expiresAt < s.now)
      (received : t.received = s.received)
      (returned : t.returned = ⟨get, digest, grant, s.now⟩ :: s.returned)
      (dropped : t.dropped = front.map (Dropped.mk digest · s.now) ++ s.dropped)
      (remaining : t.remaining = Function.update s.remaining digest rest)
      (cause : a = .look get ∧ ¬ grant.expiresAt < s.now ∨
        a = .wake get ∧ s.offered get = some grant)
  | received (digest : String) (keeper : PerEnvGrantKeeper) (begun : Time)
      (request : WaitForStartingTaskRequest) (grants : List (UInt64 × String))
      (keeps : s.keepers.lookup digest = some keeper)
      (calling : keeper.fetcher = .calling begun request)
      (received : t.received =
        (grantsOf begun grants).map (Received.mk request.envDesc.compilerDigest · begun) ++
          s.received)
      (returned : t.returned = s.returned) (dropped : t.dropped = s.dropped)
      (remaining : t.remaining = Function.update s.remaining digest
        (s.remaining digest ++ grantsOf begun grants)) (prompt : Prompt s a)

theorem remaining_of_lookup {digest : String} {keeper : PerEnvGrantKeeper}
    (h : s.keepers.lookup digest = some keeper) : s.remaining digest = keeper.remaining := by
  unfold remaining
  rw [h]
  rfl

/-- A keeper is replaced. -/
theorem remaining_insert {digest : String} (keeper : PerEnvGrantKeeper)
    (h : t.keepers = s.keepers.insert digest keeper) :
    t.remaining = Function.update s.remaining digest keeper.remaining := by
  funext digest'
  unfold remaining
  rw [h, AList.lookup_insert_eq, Function.update_apply]
  split
  · rfl
  · rfl

theorem remaining_insert_same {digest : String} {keeper : PerEnvGrantKeeper}
    (keeper' : PerEnvGrantKeeper) (h : t.keepers = s.keepers.insert digest keeper')
    (hkeeps : s.keepers.lookup digest = some keeper)
    (hsame : keeper'.remaining = keeper.remaining) : t.remaining = s.remaining := by
  rw [remaining_insert keeper' h, hsame, ← remaining_of_lookup hkeeps, Function.update_eq_self]

theorem remaining_enter (desc : Scheduler.EnvironmentDesc) (timeout : Time) :
    (s.enter desc timeout).remaining = s.remaining := by
  cases h : s.keepers.lookup desc.compilerDigest with
  | some keeper =>
      unfold enter remaining
      rw [h]
  | none =>
      have hkeepers : (s.enter desc timeout).keepers
          = s.keepers.insert desc.compilerDigest ⟨desc, 0, [], .waiting⟩ := by
        unfold enter
        rw [h]
      have hnone : s.remaining desc.compilerDigest = [] := by
        unfold remaining
        rw [h]
        rfl
      rw [remaining_insert _ hkeepers, ← hnone, Function.update_eq_self]

theorem effect_look {get : ℕ} {digest : String} {timeout : Time} {keeper : PerEnvGrantKeeper}
    (hkeeps : s.keepers.lookup digest = some keeper) :
    Effect s (.look get) (s.look get digest timeout keeper) := by
  have hremaining := remaining_of_lookup hkeeps
  have hsplit := @List.takeWhile_append_dropWhile _
    (fun e : GrantDesc => decide (e.expiresAt < s.now)) keeper.remaining
  have hexpired : ∀ e ∈ keeper.remaining.takeWhile fun e => decide (e.expiresAt < s.now),
      e.expiresAt < s.now := by
    intro e he
    have hholds := List.mem_takeWhile_imp he
    exact of_decide_eq_true hholds
  unfold look
  dsimp only
  cases hdrop : keeper.remaining.dropWhile fun e => decide (e.expiresAt < s.now) with
  | nil =>
      rw [hdrop, List.append_nil] at hsplit
      rw [hsplit, ← hremaining] at hexpired ⊢
      dsimp only
      exact .emptied digest hexpired rfl rfl rfl
        (remaining_insert { keeper with remaining := [], waiters := keeper.waiters + 1 } rfl) rfl
  | cons grant rest =>
      have hhead := List.head_dropWhile_not (fun e : GrantDesc => decide (e.expiresAt < s.now))
        (l := keeper.remaining) (by rw [hdrop]; exact List.cons_ne_nil _ _)
      simp only [hdrop, List.head_cons, decide_eq_false_iff_not] at hhead
      rw [hdrop] at hsplit
      exact .handedOut get digest _ grant rest (hremaining.trans hsplit.symm) hexpired rfl rfl rfl
        (remaining_insert { keeper with remaining := rest } rfl) (.inl ⟨rfl, hhead⟩)

theorem effect_wake {get : ℕ} {digest : String} {deadline : Time} {keeper : PerEnvGrantKeeper}
    (hget : s.gets.lookup get = some ⟨digest, .waiting deadline⟩)
    (hkeeps : s.keepers.lookup digest = some keeper)
    (h : s.wake get digest deadline keeper = some t) : Effect s (.wake get) t := by
  have hremaining := remaining_of_lookup hkeeps
  have hoffered : s.offered get = keeper.remaining.head? := by
    unfold offered
    rw [hget]
    dsimp only
    rw [hremaining]
  unfold wake at h
  cases hkeeper : keeper.remaining with
  | nil =>
      rw [hkeeper] at h hoffered
      obtain ⟨-, h⟩ := Option.ite_none_right_eq_some.mp h
      cases h
      have hprompt : Prompt s (.wake get) := by
        unfold Prompt prompt
        dsimp only
        rw [hoffered]
        rfl
      exact .quiet rfl rfl rfl
        (remaining_insert_same { keeper with remaining := [], waiters := keeper.waiters - 1 } rfl
          hkeeps hkeeper.symm) hprompt
  | cons grant rest =>
      rw [hkeeper] at h hoffered hremaining
      cases h
      exact .handedOut get digest [] grant rest hremaining (fun _ he => nomatch he) rfl rfl rfl
        (remaining_insert { keeper with remaining := rest, waiters := keeper.waiters - 1 } rfl)
        (.inr ⟨rfl, hoffered⟩)

theorem effect_of_step (h : Step cfg s a t) : Effect s a t := by
  cases change_of_step h with
  | ticked nanoseconds => exact .quiet rfl rfl rfl rfl rfl
  | entered desc timeout => exact .quiet rfl rfl rfl (remaining_enter desc timeout) rfl
  | looked hget hkeeps => exact effect_look hkeeps
  | woken hget hkeeps hwake => exact effect_wake hget hkeeps hwake
  | @moved _ digest keeper fetcher hkeeps hasks hprompt =>
      exact .quiet rfl rfl rfl (remaining_insert_same { keeper with fetcher } rfl hkeeps rfl)
        hprompt
  | @replied digest keeper begun request grants hkeeps hcalling =>
      refine .received digest keeper begun request grants hkeeps hcalling rfl rfl rfl ?_ rfl
      rw [remaining_of_lookup hkeeps]
      exact remaining_insert
        { keeper with remaining := keeper.remaining ++ grantsOf begun grants, fetcher := .waiting }
        rfl
  | stopped => exact .quiet rfl rfl rfl rfl rfl

end TaskGrantKeeper

end Yadcc.Daemon.Local
