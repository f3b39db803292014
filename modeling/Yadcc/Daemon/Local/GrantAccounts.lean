/-
# What becomes of the grants

Every grant that the scheduler gave for a compiler is returned by one call for this compiler,
or is there, or was dropped when it had expired. A call that has waited may return an expired
grant: exactly when it takes it more than ten seconds after the request for it began. The
counter of waiting calls is right at any time.
-/

import Yadcc.Daemon.Local.TaskGrantKeeper

namespace Yadcc.Daemon.Local

open Yadcc.Lib
open Yadcc.Scheduler (Time WaitForStartingTaskRequest)

namespace TaskGrantKeeper

variable {cfg : Config} {s t : TaskGrantKeeper} {a : Action}

/-! ## The compiler of a keeper -/

/-- A keeper is for one compiler, and asks for grants for it. -/
def KeyedBy (digest : String) (keeper : PerEnvGrantKeeper) : Prop :=
  keeper.envDesc.compilerDigest = digest ∧
    ∀ desc, keeper.fetcher.asks = some desc → desc = keeper.envDesc

def Keyed (s : TaskGrantKeeper) : Prop :=
  ∀ digest keeper, s.keepers.lookup digest = some keeper → KeyedBy digest keeper

theorem Keyed.insert (h : Keyed s) {digest : String} {keeper : PerEnvGrantKeeper}
    (hkeyed : KeyedBy digest keeper) (ht : t.keepers = s.keepers.insert digest keeper) :
    Keyed t := by
  intro digest' keeper' hkeeps
  rw [ht, AList.lookup_insert_eq] at hkeeps
  split at hkeeps
  · next hdigest =>
      cases hkeeps
      rw [hdigest]
      exact hkeyed
  · exact h digest' keeper' hkeeps

theorem Keyed.look (h : Keyed s) {get : ℕ} {digest : String} {timeout : Time}
    {keeper : PerEnvGrantKeeper} (hkeeps : s.keepers.lookup digest = some keeper) :
    Keyed (s.look get digest timeout keeper) := by
  have hkeyed := h digest keeper hkeeps
  unfold TaskGrantKeeper.look
  dsimp only
  split
  · refine h.insert ?_ rfl
    exact hkeyed
  · refine h.insert ?_ rfl
    exact hkeyed

theorem Keyed.wake (h : Keyed s) {get : ℕ} {digest : String} {deadline : Time}
    {keeper : PerEnvGrantKeeper} (hkeeps : s.keepers.lookup digest = some keeper)
    (hstep : s.wake get digest deadline keeper = some t) : Keyed t := by
  have hkeyed := h digest keeper hkeeps
  unfold TaskGrantKeeper.wake at hstep
  split at hstep
  · cases hstep
    refine h.insert ?_ rfl
    exact hkeyed
  · obtain ⟨-, hstep⟩ := Option.ite_none_right_eq_some.mp hstep
    cases hstep
    refine h.insert ?_ rfl
    exact hkeyed

theorem Keyed.enter (h : Keyed s) (desc : Scheduler.EnvironmentDesc) (timeout : Time) :
    Keyed (s.enter desc timeout) := by
  cases hlookup : s.keepers.lookup desc.compilerDigest with
  | some keeper =>
      intro digest keeper' hkeeps
      unfold TaskGrantKeeper.enter at hkeeps
      rw [hlookup] at hkeeps
      exact h digest keeper' hkeeps
  | none =>
      have hkeepers : (s.enter desc timeout).keepers
          = s.keepers.insert desc.compilerDigest ⟨desc, 0, [], .waiting⟩ := by
        unfold TaskGrantKeeper.enter
        rw [hlookup]
      refine h.insert ?_ hkeepers
      exact ⟨rfl, fun desc hasks => nomatch hasks⟩

theorem Keyed.step (h : Keyed s) (hstep : Step cfg s a t) : Keyed t := by
  cases change_of_step hstep with
  | ticked nanoseconds => exact h
  | entered desc timeout => exact h.enter desc timeout
  | looked hget hkeeps => exact h.look hkeeps
  | woken hget hkeeps hwake => exact h.wake hkeeps hwake
  | @moved _ digest keeper fetcher hkeeps hasks hprompt =>
      refine h.insert ?_ rfl
      exact ⟨(h digest keeper hkeeps).1, hasks⟩
  | @replied digest keeper begun request grants hkeeps hcalling =>
      refine h.insert ?_ rfl
      exact ⟨(h digest keeper hkeeps).1, fun desc hasks => nomatch hasks⟩
  | stopped => exact h

/-! ## Every grant is accounted for -/

/-- A grant expires ten seconds after the request for it began. -/
def Timely (s : TaskGrantKeeper) : Prop :=
  ∀ r ∈ s.received, r.grant.expiresAt = r.begun + (kExpiresIn - kNetworkDelayTolerance)

theorem Timely.step (h : Timely s) (hstep : Step cfg s a t) : Timely t := by
  cases effect_of_step hstep with
  | quiet received _ _ _ _ =>
      unfold Timely
      rwa [received]
  | emptied _ _ received _ _ _ _ =>
      unfold Timely
      rwa [received]
  | handedOut _ _ _ _ _ _ _ received _ _ _ _ =>
      unfold Timely
      rwa [received]
  | received digest keeper begun request grants _ _ received _ _ _ _ =>
      intro r hr
      rw [received, List.mem_append] at hr
      rcases hr with hnew | hold
      · obtain ⟨grant, hgrant, rfl⟩ := List.mem_map.mp hnew
        obtain ⟨e, _, rfl⟩ := List.mem_map.mp hgrant
        exact add_sub_assoc ..
      · exact h r hold

/-- How often a grant for a compiler is among pairs of a list of grants for one compiler. -/
theorem count_map_mk (digest digest' : String) (grant : GrantDesc) (grants : List GrantDesc) :
    (grants.map (Prod.mk digest)).count (digest', grant)
      = if digest' = digest then grants.count grant else 0 := by
  split_ifs with h
  · rw [h]
    exact List.count_map_of_injective grants (Prod.mk digest) (Prod.mk_right_injective digest) grant
  · apply List.count_eq_zero_of_not_mem
    intro hmem
    obtain ⟨e, _, heq⟩ := List.mem_map.mp hmem
    exact h (congrArg Prod.fst heq).symm

theorem count_dropped (digest digest' : String) (grant : GrantDesc) (grants : List GrantDesc)
    (time : Time) :
    ((grants.map (Dropped.mk digest · time)).map fun r => (r.digest, r.grant)).count
        (digest', grant)
      = if digest' = digest then grants.count grant else 0 := by
  rw [List.map_map]
  exact count_map_mk digest digest' grant grants

theorem count_received (digest digest' : String) (grant : GrantDesc) (grants : List GrantDesc)
    (begun : Time) :
    ((grants.map (Received.mk digest · begun)).map fun r => (r.digest, r.grant)).count
        (digest', grant)
      = if digest' = digest then grants.count grant else 0 := by
  rw [List.map_map]
  exact count_map_mk digest digest' grant grants

/-- What was dropped had expired, and so has what is dropped now. -/
theorem Accounted.dropped_append (h : Accounted s) {digest : String} {front : List GrantDesc}
    (hexpired : ∀ e ∈ front, e.expiresAt < s.now) :
    ∀ r ∈ front.map (Dropped.mk digest · s.now) ++ s.dropped, r.grant.expiresAt < r.time := by
  intro r hr
  rcases List.mem_append.mp hr with hnew | hold
  · obtain ⟨e, he, rfl⟩ := List.mem_map.mp hnew
    exact hexpired e he
  · exact h.dropped r hold

theorem Accounted.step (h : Accounted s) (hkeyed : Keyed s) (hstep : Step cfg s a t) :
    Accounted t := by
  cases effect_of_step hstep with
  | quiet received returned dropped remaining _ =>
      refine ⟨?_, ?_⟩
      · rw [received, returned, dropped, remaining]
        exact h.conserved
      · rw [dropped]
        exact h.dropped
  | emptied digest expired received returned dropped remaining _ =>
      refine ⟨?_, dropped ▸ h.dropped_append expired⟩
      intro digest' grant
      have hbefore := h.conserved digest' grant
      rw [received, returned, dropped, remaining, List.map_append, List.count_append,
        count_dropped, hbefore, Function.update_apply]
      split_ifs with hdigest
      · rw [hdigest, List.count_nil]
        omega
      · omega
  | handedOut get digest front grant rest split expired received returned dropped remaining _ =>
      refine ⟨?_, dropped ▸ h.dropped_append expired⟩
      intro digest' grant'
      have hbefore := h.conserved digest' grant'
      rw [received, returned, dropped, remaining, List.map_append, List.count_append,
        count_dropped, hbefore, Function.update_apply, List.map_cons, List.count_cons]
      by_cases hdigest : digest' = digest
      · rw [hdigest, split, List.count_append, List.count_cons] at hbefore ⊢
        have hpair : ((digest, grant) == (digest, grant')) = (grant == grant') := by
          rw [Bool.eq_iff_iff, beq_iff_eq, beq_iff_eq, Prod.mk.injEq, eq_self_iff_true, true_and]
        rw [hpair, if_pos rfl, if_pos rfl]
        omega
      · have hpair : ((digest, grant) == (digest', grant')) = false :=
          beq_false_of_ne fun heq => hdigest (congrArg Prod.fst heq).symm
        rw [hpair, if_neg hdigest, if_neg hdigest]
        simp only [Bool.false_eq_true, if_false]
        omega
  | received digest keeper begun request grants keeps calling received returned dropped remaining
      _ =>
      refine ⟨?_, dropped ▸ h.dropped⟩
      have hasks : keeper.fetcher.asks = some request.envDesc := by
        rw [calling]
        rfl
      have hcompiler : request.envDesc.compilerDigest = digest := by
        rw [(hkeyed digest keeper keeps).2 request.envDesc hasks]
        exact (hkeyed digest keeper keeps).1
      intro digest' grant
      have hbefore := h.conserved digest' grant
      rw [received, returned, dropped, remaining, List.map_append, List.count_append,
        count_received, hbefore, Function.update_apply, hcompiler]
      split_ifs with hdigest
      · rw [hdigest, List.count_append]
        omega
      · omega

/-! ## Expired grants -/

/-- A grant that is there came from the scheduler. -/
theorem mem_received (h : Accounted s) {digest : String} {grant : GrantDesc}
    (hmem : grant ∈ s.remaining digest) : ∃ r ∈ s.received, r.grant = grant := by
  have hpos := List.count_pos_iff.mpr hmem
  have hconserved := h.conserved digest grant
  have hreceived : (digest, grant) ∈ s.received.map fun r => (r.digest, r.grant) := by
    apply List.count_pos_iff.mp
    omega
  obtain ⟨r, hr, hpair⟩ := List.mem_map.mp hreceived
  exact ⟨r, hr, congrArg Prod.snd hpair⟩

/-- The grant that a waiting call takes has not expired if and only if the call is prompt. -/
theorem prompt_wake_iff (h : Accounted s) (htimely : Timely s) {get : ℕ} {digest : String}
    {grant : GrantDesc} (hmem : grant ∈ s.remaining digest)
    (hoffered : s.offered get = some grant) :
    Prompt s (.wake get) ↔ ¬ grant.expiresAt < s.now := by
  unfold Prompt prompt
  dsimp only
  rw [hoffered, Option.all_some, List.any_eq_true, not_lt]
  simp only [decide_eq_true_eq]
  constructor
  · rintro ⟨r, hr, rfl, hwithin⟩
    rwa [htimely r hr]
  · intro hwithin
    obtain ⟨r, hr, rfl⟩ := mem_received h hmem
    rw [htimely r hr] at hwithin
    exact ⟨r, hr, rfl, hwithin⟩

/-- A step hands out no expired grant if and only if it is prompt. -/
theorem unexpired_step (h : Accounted s) (htimely : Timely s) (hstep : Step cfg s a t) :
    Unexpired t ↔ Unexpired s ∧ Prompt s a := by
  cases effect_of_step hstep with
  | quiet _ returned _ _ prompt =>
      unfold Unexpired
      rw [returned]
      exact (and_iff_left prompt).symm
  | emptied _ _ _ returned _ _ prompt =>
      unfold Unexpired
      rw [returned]
      exact (and_iff_left prompt).symm
  | received _ _ _ _ _ _ _ _ returned _ _ prompt =>
      unfold Unexpired
      rw [returned]
      exact (and_iff_left prompt).symm
  | handedOut get digest front grant rest split _ _ returned _ _ cause =>
      unfold Unexpired
      rw [returned, List.forall_mem_cons, and_comm]
      apply and_congr_right'
      rcases cause with ⟨rfl, hunexpired⟩ | ⟨rfl, hoffered⟩
      · exact iff_of_true hunexpired rfl
      · have hmem : grant ∈ s.remaining digest := by
          rw [split]
          exact List.mem_append_right front (List.mem_cons_self ..)
        exact (prompt_wake_iff h htimely hmem hoffered).symm

/-! ## Waiting calls -/

/-- The call waits for a grant for the compiler. -/
def waitsFor (digest : String) (_ : ℕ) (pending : PendingGet) : Bool :=
  match pending.phase with
  | .entered _ => false
  | .waiting _ => decide (pending.digest = digest)

/-- A keeper knows how many calls wait, and every call has found its keeper. -/
structure Counted (s : TaskGrantKeeper) : Prop where
  waiters : ∀ digest keeper, s.keepers.lookup digest = some keeper →
    keeper.waiters = s.gets.count (waitsFor digest)
  found : ∀ get pending, s.gets.lookup get = some pending →
    (s.keepers.lookup pending.digest).isSome = true
  fresh : ∀ get pending, s.gets.lookup get = some pending → get < s.nextGet

/-- A keeper is replaced, and the calls for it are counted again. -/
theorem Counted.insert (h : Counted s) {digest : String} {keeper : PerEnvGrantKeeper}
    (hkeepers : t.keepers = s.keepers.insert digest keeper)
    (hgets : ∀ get pending, t.gets.lookup get = some pending →
      pending.digest = digest ∧ get < t.nextGet ∨ s.gets.lookup get = some pending)
    (hnext : s.nextGet ≤ t.nextGet) (hwaiters : keeper.waiters = t.gets.count (waitsFor digest))
    (hothers : ∀ digest', digest' ≠ digest →
      t.gets.count (waitsFor digest') = s.gets.count (waitsFor digest')) : Counted t where
  waiters := by
    intro digest' keeper' hkeeps
    rw [hkeepers, AList.lookup_insert_eq] at hkeeps
    split at hkeeps
    · next hdigest =>
        cases hkeeps
        rw [hdigest]
        exact hwaiters
    · next hdigest =>
        rw [hothers digest' hdigest]
        exact h.waiters digest' keeper' hkeeps
  found := by
    intro get pending hget
    rw [hkeepers, AList.lookup_insert_eq]
    split
    · rfl
    · next hdigest =>
        rcases hgets get pending hget with ⟨hdigest', -⟩ | hold
        · exact absurd hdigest' hdigest
        · exact h.found get pending hold
  fresh := by
    intro get pending hget
    rcases hgets get pending hget with ⟨-, hlt⟩ | hold
    · exact hlt
    · exact (h.fresh get pending hold).trans_le hnext

/-- A keeper changes, and as many calls wait for it as before. -/
theorem Counted.replace (h : Counted s) {digest : String} {keeper keeper' : PerEnvGrantKeeper}
    (hkeeps : s.keepers.lookup digest = some keeper)
    (hkeepers : t.keepers = s.keepers.insert digest keeper')
    (hwaiters : keeper'.waiters = keeper.waiters) (hgets : t.gets = s.gets)
    (hnext : t.nextGet = s.nextGet) : Counted t := by
  refine h.insert hkeepers ?_ hnext.ge ?_ ?_
  · intro get pending hget
    rw [hgets] at hget
    exact .inr hget
  · rw [hwaiters, hgets]
    exact h.waiters digest keeper hkeeps
  · intro digest' _
    rw [hgets]

theorem count_waitsFor_erase {get : ℕ} {pending : PendingGet}
    (hget : s.gets.lookup get = some pending) (digest : String) :
    (s.gets.erase get).count (waitsFor digest) + (if waitsFor digest get pending then 1 else 0)
      = s.gets.count (waitsFor digest) :=
  AList.count_erase_add _ hget

/-- A call returns: it is no longer counted if it was. -/
theorem Counted.returns (h : Counted s) {get : ℕ} {pending : PendingGet}
    (hget : s.gets.lookup get = some pending) {keeper keeper' : PerEnvGrantKeeper}
    (hkeeps : s.keepers.lookup pending.digest = some keeper)
    (hkeepers : t.keepers = s.keepers.insert pending.digest keeper')
    (hwaiters : keeper'.waiters
      = keeper.waiters - if waitsFor pending.digest get pending then 1 else 0)
    (hgets : t.gets = s.gets.erase get) (hnext : t.nextGet = s.nextGet) : Counted t := by
  refine h.insert hkeepers ?_ hnext.ge ?_ ?_
  · intro get' pending' hget'
    rw [hgets, AList.lookup_erase_eq] at hget'
    split at hget'
    · cases hget'
    · exact .inr hget'
  · have hcount := count_waitsFor_erase hget pending.digest
    rw [hwaiters, hgets, h.waiters pending.digest keeper hkeeps]
    omega
  · intro digest' hdigest
    have hcount := count_waitsFor_erase hget digest'
    have hnot : waitsFor digest' get pending = false := by
      unfold waitsFor
      split
      · rfl
      · exact decide_eq_false fun heq => hdigest heq.symm
    rw [hnot] at hcount
    rw [hgets]
    exact hcount

theorem Counted.look (h : Counted s) {get : ℕ} {digest : String} {timeout : Time}
    {keeper : PerEnvGrantKeeper} (hget : s.gets.lookup get = some ⟨digest, .entered timeout⟩)
    (hkeeps : s.keepers.lookup digest = some keeper) :
    Counted (s.look get digest timeout keeper) := by
  unfold TaskGrantKeeper.look
  dsimp only
  split
  · exact h.returns hget hkeeps rfl rfl rfl rfl
  · -- The call is counted from now on.
    refine h.insert rfl ?_ le_rfl ?_ ?_
    · intro get' pending' hget'
      change (s.gets.insert get _).lookup get' = some pending' at hget'
      rw [AList.lookup_insert_eq] at hget'
      split at hget'
      · next heq =>
          cases hget'
          rw [heq]
          exact .inl ⟨rfl, h.fresh get _ hget⟩
      · exact .inr hget'
    · have hcount := count_waitsFor_erase hget digest
      change keeper.waiters + 1 = (s.gets.insert get _).count (waitsFor digest)
      rw [AList.count_insert, h.waiters digest keeper hkeeps, ← hcount]
      simp [waitsFor]
    · intro digest' hdigest
      have hcount := count_waitsFor_erase hget digest'
      change (s.gets.insert get _).count (waitsFor digest') = _
      rw [AList.count_insert, ← hcount]
      simp [waitsFor, hdigest.symm]

theorem Counted.wake (h : Counted s) {get : ℕ} {digest : String} {deadline : Time}
    {keeper : PerEnvGrantKeeper} (hget : s.gets.lookup get = some ⟨digest, .waiting deadline⟩)
    (hkeeps : s.keepers.lookup digest = some keeper)
    (hstep : s.wake get digest deadline keeper = some t) : Counted t := by
  have hwaits : waitsFor digest get ⟨digest, .waiting deadline⟩ = true := decide_eq_true rfl
  unfold TaskGrantKeeper.wake at hstep
  split at hstep
  · cases hstep
    exact h.returns hget hkeeps rfl (by rw [hwaits]; rfl) rfl rfl
  · obtain ⟨-, hstep⟩ := Option.ite_none_right_eq_some.mp hstep
    cases hstep
    exact h.returns hget hkeeps rfl (by rw [hwaits]; rfl) rfl rfl

/-- A new call waits for nothing yet. -/
theorem Counted.enter (h : Counted s) (desc : Scheduler.EnvironmentDesc) (timeout : Time) :
    Counted (s.enter desc timeout) := by
  have hnone : s.gets.lookup s.nextGet = none := by
    cases hlookup : s.gets.lookup s.nextGet with
    | none => rfl
    | some pending => exact absurd (h.fresh _ pending hlookup) (lt_irrefl _)
  have hcount : ∀ digest, (s.enter desc timeout).gets.count (waitsFor digest)
      = s.gets.count (waitsFor digest) := by
    intro digest
    change (s.gets.insert s.nextGet _).count (waitsFor digest) = _
    rw [AList.count_insert, AList.erase_of_lookup_none hnone]
    rfl
  have hgets : ∀ get pending, (s.enter desc timeout).gets.lookup get = some pending →
      pending.digest = desc.compilerDigest ∧ get < s.nextGet + 1 ∨
        s.gets.lookup get = some pending := by
    intro get pending hget
    change (s.gets.insert s.nextGet _).lookup get = some pending at hget
    rw [AList.lookup_insert_eq] at hget
    split at hget
    · next heq =>
        cases hget
        rw [heq]
        exact .inl ⟨rfl, Nat.lt_succ_self _⟩
    · exact .inr hget
  cases hlookup : s.keepers.lookup desc.compilerDigest with
  | none =>
      have hkeepers : (s.enter desc timeout).keepers
          = s.keepers.insert desc.compilerDigest ⟨desc, 0, [], .waiting⟩ := by
        unfold TaskGrantKeeper.enter
        rw [hlookup]
      refine h.insert hkeepers hgets (Nat.le_succ _) ?_ fun digest _ => hcount digest
      rw [hcount]
      -- A call for this compiler would have found a keeper.
      by_contra hne
      obtain ⟨e, he, hwaits⟩ := List.countP_pos_iff.mp (Nat.pos_of_ne_zero (Ne.symm hne))
      have hget := AList.lookup_eq_some_iff.mpr he
      have hdigest : e.2.digest = desc.compilerDigest := by
        unfold waitsFor at hwaits
        split at hwaits
        · cases hwaits
        · exact of_decide_eq_true hwaits
      have hfound := h.found e.1 e.2 hget
      rw [hdigest, hlookup] at hfound
      cases hfound
  | some keeper =>
      have hkeepers : (s.enter desc timeout).keepers = s.keepers := by
        unfold TaskGrantKeeper.enter
        rw [hlookup]
      refine ⟨?_, ?_, ?_⟩
      · intro digest keeper' hkeeps
        rw [hkeepers] at hkeeps
        rw [hcount]
        exact h.waiters digest keeper' hkeeps
      · intro get pending hget
        rw [hkeepers]
        rcases hgets get pending hget with ⟨hdigest, -⟩ | hold
        · rw [hdigest, hlookup]
          rfl
        · exact h.found get pending hold
      · intro get pending hget
        rcases hgets get pending hget with ⟨-, hlt⟩ | hold
        · exact hlt
        · exact (h.fresh get pending hold).trans (Nat.lt_succ_self _)

theorem Counted.step (h : Counted s) (hstep : Step cfg s a t) : Counted t := by
  cases change_of_step hstep with
  | ticked nanoseconds => exact ⟨h.waiters, h.found, h.fresh⟩
  | entered desc timeout => exact h.enter desc timeout
  | looked hget hkeeps => exact h.look hget hkeeps
  | woken hget hkeeps hwake => exact h.wake hget hkeeps hwake
  | moved hkeeps hasks hprompt => exact h.replace hkeeps rfl rfl rfl rfl
  | replied grants hkeeps hcalling => exact h.replace hkeeps rfl rfl rfl rfl
  | stopped => exact ⟨h.waiters, h.found, h.fresh⟩

/-! ## Runs -/

/-- The state after a run: every grant is accounted for, and none was returned after it had
expired if and only if the steps were prompt. -/
structure Kept (cfg : Config) (now : Time) (as : List Action) (s : TaskGrantKeeper) : Prop where
  run : Run (Step cfg) (start now) as s
  keyed : Keyed s
  counted : Counted s
  timely : Timely s
  accounted : Accounted s
  unexpired : Unexpired s ↔ Run (Guarded (Step cfg) Prompt) (start now) as s

theorem Kept.start (now : Time) : Kept cfg now [] (start now) where
  run := .nil _
  keyed := fun _ _ hkeeps => nomatch hkeeps
  counted :=
    ⟨fun _ _ hkeeps => (nomatch hkeeps), fun _ _ hget => (nomatch hget),
      fun _ _ hget => (nomatch hget)⟩
  timely := fun _ hr => nomatch hr
  accounted := ⟨fun _ _ => rfl, fun _ hr => nomatch hr⟩
  unexpired := iff_of_true (fun _ hr => nomatch hr) (.nil _)

theorem step_unique (s : TaskGrantKeeper) (a : Action) (t t' : TaskGrantKeeper)
    (h : Step cfg s a t) (h' : Step cfg s a t') : t = t' :=
  Option.some.inj (h.symm.trans h')

theorem Kept.step {now : Time} {as : List Action} (h : Kept cfg now as s)
    (hstep : Step cfg s a t) : Kept cfg now (as ++ [a]) t where
  run := h.run.append (.cons hstep (.nil t))
  keyed := h.keyed.step hstep
  counted := h.counted.step hstep
  timely := h.timely.step hstep
  accounted := h.accounted.step h.keyed hstep
  unexpired := by
    rw [unexpired_step h.accounted h.timely hstep, h.unexpired,
      Run.guarded_concat_iff step_unique h.run hstep]

theorem kept_of_run {now : Time} {as : List Action} (run : Run (Step cfg) (start now) as s) :
    Kept cfg now as s :=
  run.invariant_labels (Kept.start now) fun _ _ _ _ h hstep => h.step hstep

/-- In every run every grant is accounted for; and no call returns an expired one if and only
if every waiting call takes its grant within ten seconds of the beginning of the request that
brought it. -/
theorem accounted_unexpired_iff {now : Time} {as : List Action}
    (run : Run (Step cfg) (start now) as s) :
    (Accounted s ∧ Unexpired s) ↔ Run (Guarded (Step cfg) Prompt) (start now) as s := by
  have hkept := kept_of_run run
  rw [and_iff_right hkept.accounted]
  exact hkept.unexpired

/-! ## Sample runs -/

def sampleConfig : Config := ⟨"user", 0⟩

def gcc : Scheduler.EnvironmentDesc := ⟨"gcc"⟩

/-- A call waits a second for two grants; the next one takes the second grant at once. -/
def promptRun : List Action :=
  [.get gcc (15 * 10 ^ 9), .look 0, .fetch "gcc", .tick (10 ^ 9),
    .reply "gcc" [(7, "a:1"), (8, "b:1")], .wake 0, .get gcc 0, .look 1]

/-- The reply comes after nine seconds, and the call goes on two seconds later. -/
def lateRun : List Action :=
  [.get gcc (15 * 10 ^ 9), .look 0, .fetch "gcc", .tick (9 * 10 ^ 9), .reply "gcc" [(7, "a:1")],
    .tick (2 * 10 ^ 9), .wake 0]

theorem accounted_unexpired_promptRun :
    ∃ s, follow (guardedNext (next sampleConfig) Prompt) promptRun (start 0) = some s ∧
      s.returned.length = 2 ∧ Accounted s ∧ Unexpired s := by
  have hfinal : ((follow (guardedNext (next sampleConfig) Prompt) promptRun (start 0)).map
      fun s => s.returned.length) = some 2 := by
    decide
  obtain ⟨s, hfollow, hlength⟩ := Option.map_eq_some_iff.mp hfinal
  have run : Run (Guarded (Step sampleConfig) Prompt) (start 0) promptRun s :=
    .of_follow (guarded_of_guardedNext fun _ _ _ h => h) hfollow
  exact ⟨s, hfollow, hlength, (accounted_unexpired_iff (run.mono fun _ _ _ h => h.1)).mpr run⟩

/-- The waiting call returns its grant a second after it expired. -/
theorem expired_lateRun :
    ¬ ∀ as s, Run (Step sampleConfig) (start 0) as s → Accounted s ∧ Unexpired s := by
  intro hall
  have hfinal : ((follow (next sampleConfig) lateRun (start 0)).map
      fun s => s.returned.any fun r => decide (r.grant.expiresAt < r.time)) = some true := by
    decide
  obtain ⟨s, hfollow, hany⟩ := Option.map_eq_some_iff.mp hfinal
  obtain ⟨r, hr, hexpired⟩ := List.any_eq_true.mp hany
  have hunexpired := (hall lateRun s (.of_follow (fun _ _ _ h => h) hfollow)).2
  exact hunexpired r hr (of_decide_eq_true hexpired)

end TaskGrantKeeper

end Yadcc.Daemon.Local
