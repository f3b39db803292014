/-
# Where a task is placed

The policy is to leave the requestor's own machine for work that cannot be distributed. Of
the servants elsewhere a dedicated one under half of its load comes first, then the one with
the least utilization. The picking code sets one servant of the requestor's host aside, the
first that a comparison of addresses finds, and then picks among the others.
-/

import Yadcc.Scheduler.Capacity
import Yadcc.Scheduler.SchedulerService

namespace Yadcc.Scheduler

open Yadcc.Lib

/-! ## Comparing addresses -/

/-- How the RPC library prints the IP of a peer: in an IPv4 address there is no colon, and
no address starts with a bracket. -/
structure Printed (peer : RemotePeer) : Prop where
  ipv4 : peer.family = .inet → ':' ∉ peer.ip.toList
  bracketless : peer.ip.toList.head? ≠ some '['

instance (peer : RemotePeer) : Decidable (Printed peer) :=
  decidable_of_iff ((peer.family = .inet → ':' ∉ peer.ip.toList) ∧
    peer.ip.toList.head? ≠ some '[') ⟨fun h => ⟨h.1, h.2⟩, fun h => ⟨h.ipv4, h.bracketless⟩⟩

theorem colon_notMem_toString (n : ℕ) : ':' ∉ (toString n).toList := by
  intro h
  rw [Nat.toString_eq_repr, Nat.toList_repr] at h
  exact absurd (Nat.isDigit_of_mem_toDigits (by decide) (by decide) h) (by decide)

namespace TaskDispatcher

variable {cfg : DispatcherConfig} {s : TaskDispatcher}

/-- The text is followed by a colon at the start of the address. -/
theorem isNetworkAddressEqual_iff {ipPort ip : String} :
    isNetworkAddressEqual ipPort ip = true ↔
      ∃ rest, ipPort.toList = ip.toList ++ ':' :: rest := by
  unfold isNetworkAddressEqual
  simp only [Bool.and_eq_true, decide_eq_true_eq, beq_iff_eq, List.isPrefixOf_iff_prefix]
  constructor
  · rintro ⟨⟨hlength, hcolon⟩, rest, hrest⟩
    rw [← hrest, List.getElem?_append_right (Nat.le_refl _), Nat.sub_self] at hcolon
    cases rest with
    | nil => cases hcolon
    | cons c rest =>
        cases hcolon
        exact ⟨rest, hrest.symm⟩
  · rintro ⟨rest, hrest⟩
    rw [hrest]
    refine ⟨⟨?_, ?_⟩, List.prefix_append _ _⟩
    · rw [List.length_append, List.length_cons]
      omega
    · rw [List.getElem?_append_right (Nat.le_refl _), Nat.sub_self]
      rfl

/-- Where two texts before a colon have no colon themselves, or what follows has none, they
are the same. -/
theorem eq_of_colon {as bs cs ds : List Char} (h : as ++ ':' :: cs = bs ++ ':' :: ds)
    (has : ':' ∉ as) (hcs : ':' ∉ cs) : as = bs := by
  rcases List.append_eq_append_iff.mp h with ⟨mid, hbs, hmid⟩ | ⟨mid, has', hmid⟩
  · cases mid with
    | nil => rw [hbs, List.append_nil]
    | cons c mid =>
        cases hmid
        exact absurd (List.mem_append_right _ List.mem_cons_self) hcs
  · cases mid with
    | nil => rw [has', List.append_nil]
    | cons c mid =>
        cases hmid
        rw [has'] at has
        exact absurd (List.mem_append_right _ List.mem_cons_self) has

/-- The comparison finds the IPv4 servants of the requestor's host, and no IPv6 servant. -/
theorem isNetworkAddressEqual_observed {peer requestor : RemotePeer} {port : UInt16}
    {location : String} (hpeer : Printed peer) (hrequestor : Printed requestor)
    (h : SchedulerService.observedLocationOf peer port = .ok location) :
    isNetworkAddressEqual location requestor.ip = true ↔
      peer.family = .inet ∧ peer.ip = requestor.ip := by
  rw [isNetworkAddressEqual_iff]
  unfold SchedulerService.observedLocationOf at h
  cases hfamily : peer.family with
  | inet =>
      rw [hfamily] at h
      cases h
      rw [String.toList_append, String.toList_append]
      constructor
      · rintro ⟨rest, hrest⟩
        have hsame := eq_of_colon (by simpa using hrest) (hpeer.ipv4 hfamily)
          (colon_notMem_toString port.toNat)
        exact ⟨rfl, String.toList_inj.mp hsame⟩
      · rintro ⟨-, hsame⟩
        rw [hsame]
        exact ⟨(toString port.toNat).toList, by simp⟩
  | inet6 =>
      rw [hfamily] at h
      cases h
      refine iff_of_false ?_ (fun h => nomatch h.1)
      rintro ⟨rest, hrest⟩
      -- The address starts with a bracket, and the requestor's does not.
      cases hip : requestor.ip.toList with
      | nil =>
          rw [hip] at hrest
          simp at hrest
      | cons c ip =>
          rw [hip] at hrest
          have hbracket : '[' = c := by
            have hhead := congrArg List.head? hrest
            simpa using hhead
          exact hrequestor.bracketless (by rw [hip, hbracket]; rfl)
  | other =>
      rw [hfamily] at h
      cases h

/-! ## The scan -/

/-- The first of the least elements: all before it are greater. -/
theorem argmin_split {α : Type} {f : α → ℚ} {as : List α} {m : α} (h : as.argmin f = some m) :
    ∃ before after, as = before ++ m :: after ∧ (∀ a ∈ before, f m < f a) ∧
      ∀ a ∈ after, f m ≤ f a := by
  induction as using List.reverseRecOn generalizing m with
  | nil => cases h
  | append_singleton as a ih =>
      rw [List.argmin_concat] at h
      cases hargmin : as.argmin f with
      | none =>
          rw [hargmin] at h
          cases h
          exact ⟨as, [], rfl, fun b hb => by simp_all, nofun⟩
      | some c =>
          obtain ⟨before, after, hsplit, hbefore, hafter⟩ := ih hargmin
          rw [hargmin] at h
          dsimp only at h
          split_ifs at h with hlt
          · cases h
            refine ⟨as, [], rfl, fun b hb => ?_, nofun⟩
            have hle := List.le_of_mem_argmin hb hargmin
            exact lt_of_lt_of_le hlt hle
          · cases h
            refine ⟨before, after ++ [a], by rw [hsplit]; simp, hbefore, fun b hb => ?_⟩
            rcases List.mem_append.mp hb with hb | hb
            · exact hafter b hb
            · rw [List.mem_singleton.mp hb]
              exact not_lt.mp hlt

/-- The number of running tasks divided by the capacity. -/
def utilization (cfg : DispatcherConfig) (s : TaskDispatcher) (r : ServantPtr) : ℚ :=
  (s.heap r).runningTasks.toNat / (getCapacityAvailable cfg (s.heap r)).toNat

/-- The division of the code is exact. -/
def ExactDivision (cfg : DispatcherConfig) : Prop :=
  ∀ tasks capacity : UInt64,
    cfg.utilization tasks capacity = (tasks.toNat : ℚ) / (capacity.toNat : ℚ)

/-- The scan finds the first servant of least utilization that satisfies the predicate. -/
theorem unsafeTryPickServantFor_argmin (hexact : ExactDivision cfg)
    {pred : ServantDesc → Bool} {servants : List ServantPtr}
    (hroomy : ∀ r ∈ servants, Roomy cfg (s.heap r)) :
    unsafeTryPickServantFor cfg s pred servants none =
      .ok ((servants.filter fun r => pred (s.heap r)).argmin (utilization cfg s)) := by
  suffices hscan : ∀ best : Option ServantPtr,
      unsafeTryPickServantFor cfg s pred servants (best.map fun r => (r, utilization cfg s r)) =
        .ok ((servants.filter fun r => pred (s.heap r)).foldl
          (List.argAux fun b c => utilization cfg s b < utilization cfg s c) best) from
    hscan none
  induction servants with
  | nil =>
      intro best
      rw [unsafeTryPickServantFor, Option.map_map]
      cases best with
      | none => rfl
      | some r => rfl
  | cons r rest ih =>
      intro best
      have hr := hroomy r List.mem_cons_self
      have ih := ih fun r' hr' => hroomy r' (List.mem_cons_of_mem r hr')
      rw [unsafeTryPickServantFor]
      dsimp only
      rw [hexact, ← utilization, if_neg (UInt64.not_le.mpr hr.below), if_neg hr.maxTasks,
        if_neg hr.capacity]
      cases hpred : pred (s.heap r) with
      | false =>
          simp only [List.filter_cons, hpred, Bool.false_eq_true, if_false]
          exact ih best
      | true =>
          simp only [List.filter_cons, hpred, if_true, List.foldl_cons]
          cases best with
          | none => exact ih (some r)
          | some chosen =>
              by_cases hlt : utilization cfg s r < utilization cfg s chosen
              · have hnext := ih (some r)
                simp only [Option.map_some, List.argAux, if_pos hlt]
                exact hnext
              · have hnext := ih (some chosen)
                simp only [Option.map_some, List.argAux, if_neg hlt]
                exact hnext

/-! ## The order among servants -/

/-- A dedicated servant under half of its load. -/
def Dedicated (s : TaskDispatcher) (r : ServantPtr) : Prop :=
  (s.heap r).personality.priority = .dedicated ∧
    (s.heap r).runningTasks.toNat * 2 < (s.heap r).personality.numProcessors.toNat

instance (s : TaskDispatcher) (r : ServantPtr) : Decidable (Dedicated s r) :=
  inferInstanceAs (Decidable (_ ∧ _))

/-- `c` comes before `r`: as the only one of the two that is dedicated and under half of its
load, or by less utilization, or by its place in the list. -/
def Beats (cfg : DispatcherConfig) (s : TaskDispatcher) (servants : List ServantPtr)
    (c r : ServantPtr) : Prop :=
  (Dedicated s c ∧ ¬ Dedicated s r) ∨
    ((Dedicated s c ↔ Dedicated s r) ∧ (utilization cfg s c < utilization cfg s r ∨
      utilization cfg s c = utilization cfg s r ∧ [c, r].Sublist servants))

/-- Of two elements of a list without duplicates, one comes first. -/
theorem not_sublist_swap {α : Type} {as : List α} (hnodup : as.Nodup) {c r : α}
    (h : [c, r].Sublist as) : ¬ [r, c].Sublist as := by
  intro h'
  induction as with
  | nil => cases h
  | cons a as ih =>
      obtain ⟨hfresh, hrest⟩ := List.nodup_cons.mp hnodup
      cases h with
      | cons _ hin =>
          cases h' with
          | cons _ hin' => exact ih hrest hin hin'
          | cons_cons _ hin' =>
              exact hfresh (hin.subset (List.mem_cons_of_mem c (List.mem_singleton_self _)))
      | cons_cons _ hin =>
          cases h' with
          | cons _ hin' =>
              exact hfresh (hin'.subset (List.mem_cons_of_mem r (List.mem_singleton_self _)))
          | cons_cons _ hin' => exact hfresh (List.singleton_sublist.mp hin)

theorem Beats.asymm {servants : List ServantPtr} (hnodup : servants.Nodup) {c r : ServantPtr}
    (h : Beats cfg s servants c r) : ¬ Beats cfg s servants r c := by
  intro h'
  rcases h with ⟨hc, hr⟩ | ⟨hsame, hlt⟩
  · rcases h' with ⟨hr', -⟩ | ⟨hsame, -⟩
    · exact hr hr'
    · exact hr (hsame.mpr hc)
  · rcases h' with ⟨hr, hc⟩ | ⟨-, hlt'⟩
    · exact hc (hsame.mpr hr)
    · rcases hlt with hlt | ⟨heq, hbefore⟩
      · rcases hlt' with hlt' | ⟨heq', -⟩
        · exact lt_asymm hlt hlt'
        · exact hlt.ne heq'.symm
      · rcases hlt' with hlt' | ⟨-, hbefore'⟩
        · exact hlt'.ne heq.symm
        · exact not_sublist_swap hnodup hbefore hbefore'

/-- The first of the least utilized servants that satisfy a predicate. -/
theorem argmin_beats {servants others : List ServantPtr} (hsub : others.Sublist servants)
    {p : ServantPtr → Bool} {m r : ServantPtr}
    (h : (others.filter p).argmin (utilization cfg s) = some m) (hr : r ∈ others)
    (hpr : p r = true) (hne : r ≠ m) (hsame : Dedicated s m ↔ Dedicated s r) :
    Beats cfg s servants m r := by
  obtain ⟨before, after, hsplit, hbefore, hafter⟩ := argmin_split h
  have hmem : r ∈ before ++ m :: after := hsplit ▸ List.mem_filter.mpr ⟨hr, hpr⟩
  right
  refine ⟨hsame, ?_⟩
  rcases List.mem_append.mp hmem with hmem | hmem
  · exact .inl (hbefore r hmem)
  · rcases List.mem_cons.mp hmem with heq | hmem
    · exact absurd heq hne
    · rcases (hafter r hmem).lt_or_eq with hlt | heq
      · exact .inl hlt
      · refine .inr ⟨heq, ?_⟩
        have hpair : [m, r].Sublist (before ++ m :: after) :=
          ((List.singleton_sublist.mpr hmem).cons_cons m).trans (List.sublist_append_right _ _)
        rw [← hsplit] at hpair
        exact hpair.trans (List.filter_sublist.trans hsub)

/-- What the two scans agree on: the code's test for dedicated servants, for 32-bit numbers. -/
theorem dedicated_iff {r : ServantPtr} (hroomy : Roomy cfg (s.heap r))
    (hnarrow : (s.heap r).personality.Narrow) :
    (decide ((s.heap r).personality.priority = .dedicated) &&
      decide ((s.heap r).runningTasks * 2 < (s.heap r).personality.numProcessors)) = true ↔
      Dedicated s r := by
  have hbelow := hroomy.below
  have hmax := hnarrow.maxTasks
  rw [UInt64.lt_iff_toNat_lt] at hbelow
  have hdouble : ((s.heap r).runningTasks * 2).toNat = (s.heap r).runningTasks.toNat * 2 := by
    rw [UInt64.toNat_mul]
    exact Nat.mod_eq_of_lt (by simp only [UInt64.toNat_ofNat]; omega)
  rw [Bool.and_eq_true, decide_eq_true_eq, decide_eq_true_eq, UInt64.lt_iff_toNat_lt, hdouble]
  rfl

/-- The pick is before all servants that were not set aside, or is the one that was. -/
theorem unsafePickServantFor_beats (hexact : ExactDivision cfg) {servants : List ServantPtr}
    {requestor : String} {pick : ServantPtr} (hroomy : ∀ r ∈ servants, Roomy cfg (s.heap r))
    (hnarrow : ∀ r ∈ servants, (s.heap r).personality.Narrow)
    (h : unsafePickServantFor cfg s servants requestor = .ok pick) :
    (pick ∈ servants.eraseP (fun r => isNetworkAddressEqual (s.locationOf r) requestor) ∧
      ∀ r ∈ servants.eraseP (fun r => isNetworkAddressEqual (s.locationOf r) requestor),
        r ≠ pick → Beats cfg s servants pick r) ∨
      (servants.eraseP (fun r => isNetworkAddressEqual (s.locationOf r) requestor) = [] ∧
        servants.find? (fun r => isNetworkAddressEqual (s.locationOf r) requestor) =
          some pick) := by
  unfold unsafePickServantFor unsafeTryPickDedicatedServantFor
    unsafeTryPickAvailableServantFor at h
  dsimp only at h
  have hsub : (servants.eraseP fun r =>
      isNetworkAddressEqual (s.locationOf r) requestor).Sublist servants := List.eraseP_sublist
  generalize servants.eraseP
    (fun r => isNetworkAddressEqual (s.locationOf r) requestor) = others at *
  have hothers : ∀ r ∈ others, Roomy cfg (s.heap r) := fun r hr => hroomy r (hsub.subset hr)
  have hdedicated := fun r (hr : r ∈ others) =>
    dedicated_iff (hothers r hr) (hnarrow r (hsub.subset hr))
  rw [unsafeTryPickServantFor_argmin hexact hothers, ok_bind] at h
  cases hfirst : (others.filter fun r => decide ((s.heap r).personality.priority = .dedicated) &&
      decide ((s.heap r).runningTasks * 2 < (s.heap r).personality.numProcessors)).argmin
        (utilization cfg s) with
  | some m =>
      rw [hfirst] at h
      obtain rfl := Except.ok.inj h
      obtain ⟨hmem, hm⟩ := List.mem_filter.mp (List.argmin_mem hfirst)
      have hm' := (hdedicated m hmem).mp hm
      refine .inl ⟨hmem, fun r hr hne => ?_⟩
      by_cases hr' : Dedicated s r
      · exact argmin_beats hsub hfirst hr ((hdedicated r hr).mpr hr') hne (iff_of_true hm' hr')
      · exact .inl ⟨hm', hr'⟩
  | none =>
      rw [hfirst] at h
      dsimp only at h
      have hnone : ∀ r ∈ others, ¬ Dedicated s r := by
        intro r hr hr'
        have hfilter := List.argmin_eq_none.mp hfirst
        exact List.filter_eq_nil_iff.mp hfilter r hr ((hdedicated r hr).mpr hr')
      rw [unsafeTryPickServantFor_argmin hexact hothers, ok_bind] at h
      cases hsecond : (others.filter fun _ => true).argmin (utilization cfg s) with
      | some m =>
          rw [hsecond] at h
          obtain rfl := Except.ok.inj h
          obtain ⟨hmem, -⟩ := List.mem_filter.mp (List.argmin_mem hsecond)
          refine .inl ⟨hmem, fun r hr hne => ?_⟩
          exact argmin_beats hsub hsecond hr rfl hne (iff_of_false (hnone _ hmem) (hnone r hr))
      | none =>
          rw [hsecond] at h
          have hnil : others = [] := by
            have hfilter := List.argmin_eq_none.mp hsecond
            rwa [List.filter_true] at hfilter
          dsimp only at h
          split at h
          · cases h
          · next self hself =>
              split_ifs at h
              cases h
              exact .inr ⟨hnil, hself⟩

/-! ## The policy -/

/-- The servants of a list that are not on the requestor's host. -/
def elsewhere (host : ServantPtr → RemotePeer) (requestor : RemotePeer)
    (servants : List ServantPtr) : List ServantPtr :=
  servants.filter fun r => (host r).ip != requestor.ip

/-- Where a task is to be placed: not on the requestor's host if it can be helped, and of the
servants elsewhere on a dedicated one under half of its load if there is one, with the
least utilization. -/
structure Placed (cfg : DispatcherConfig) (s : TaskDispatcher) (host : ServantPtr → RemotePeer)
    (requestor : RemotePeer) (servants : List ServantPtr) (pick : ServantPtr) : Prop where
  mem : pick ∈ servants
  onHost : elsewhere host requestor servants = [] → (host pick).ip = requestor.ip
  away : elsewhere host requestor servants ≠ [] → pick ∈ elsewhere host requestor servants
  dedicated : (∃ c ∈ elsewhere host requestor servants, Dedicated s c) → Dedicated s pick ∧
    ∀ c ∈ elsewhere host requestor servants, Dedicated s c →
      utilization cfg s pick ≤ utilization cfg s c
  available : (¬ ∃ c ∈ elsewhere host requestor servants, Dedicated s c) →
    ∀ c ∈ elsewhere host requestor servants, utilization cfg s pick ≤ utilization cfg s c

/-- No servant is elsewhere, or each servant of the requestor's host that is not the first
one found by the comparison of addresses comes after a servant elsewhere. -/
def Outdone (cfg : DispatcherConfig) (s : TaskDispatcher) (host : ServantPtr → RemotePeer)
    (requestor : RemotePeer) (servants : List ServantPtr) : Prop :=
  elsewhere host requestor servants = [] ∨
    ∀ r ∈ servants, (host r).ip = requestor.ip →
      servants.find? (fun r => isNetworkAddressEqual (s.locationOf r) requestor.ip) ≠ some r →
        ∃ c ∈ elsewhere host requestor servants, Beats cfg s servants c r

/-- What the code relies on: exact division, distinct free servants with 32-bit numbers, known
by the address their heartbeats came from, and the RPC library's way to print it. -/
structure Offered (cfg : DispatcherConfig) (s : TaskDispatcher) (host : ServantPtr → RemotePeer)
    (port : ServantPtr → UInt16) (requestor : RemotePeer) (servants : List ServantPtr) :
    Prop where
  exactDivision : ExactDivision cfg
  nonempty : servants ≠ []
  nodup : servants.Nodup
  free : ∀ r ∈ servants, (s.heap r).runningTasks < getCapacityAvailable cfg (s.heap r)
  narrow : ∀ r ∈ servants, (s.heap r).personality.Narrow
  observed : ∀ r ∈ servants,
    SchedulerService.observedLocationOf (host r) (port r) = .ok (s.locationOf r)
  printed : ∀ r ∈ servants, Printed (host r)
  printedRequestor : Printed requestor

section Policy

variable {host : ServantPtr → RemotePeer} {port : ServantPtr → UInt16} {requestor : RemotePeer}
  {servants : List ServantPtr}

theorem Offered.roomy (h : Offered cfg s host port requestor servants) :
    ∀ r ∈ servants, Roomy cfg (s.heap r) :=
  fun r hr => ⟨(room (h.free r hr)).2.1, (room (h.free r hr)).2.2⟩

/-- Who is not on the requestor's host is not set aside. -/
theorem Offered.elsewhere_kept (h : Offered cfg s host port requestor servants) {c : ServantPtr}
    (hc : c ∈ elsewhere host requestor servants) :
    c ∈ servants.eraseP fun r => isNetworkAddressEqual (s.locationOf r) requestor.ip := by
  obtain ⟨hmem, haway⟩ := List.mem_filter.mp hc
  apply (List.mem_eraseP_of_neg ?_).mpr hmem
  intro hequal
  have hsame := ((isNetworkAddressEqual_observed (h.printed c hmem) h.printedRequestor
    (h.observed c hmem)).mp hequal).2
  rw [hsame] at haway
  simp at haway

/-- The one that was set aside is not among the others. -/
theorem mem_not_set_aside (hnodup : servants.Nodup) {r : ServantPtr} :
    (r ∈ servants.eraseP fun r => isNetworkAddressEqual (s.locationOf r) requestor.ip) ↔
      r ∈ servants ∧
        servants.find? (fun r => isNetworkAddressEqual (s.locationOf r) requestor.ip) ≠
          some r := by
  induction servants with
  | nil => simp
  | cons a rest ih =>
      obtain ⟨hfresh, hrest⟩ := List.nodup_cons.mp hnodup
      rw [List.eraseP_cons, List.find?_cons]
      cases hequal : isNetworkAddressEqual (s.locationOf a) requestor.ip with
      | true =>
          simp only [cond_true, Option.some.injEq, ne_eq, List.mem_cons]
          constructor
          · intro hr
            exact ⟨.inr hr, fun heq => hfresh (heq ▸ hr)⟩
          · rintro ⟨rfl | hr, hne⟩
            · exact absurd rfl hne
            · exact hr
      | false =>
          simp only [cond_false, List.mem_cons, ih hrest]
          constructor
          · rintro (rfl | ⟨hr, hne⟩)
            · exact ⟨.inl rfl, fun heq => hfresh (List.mem_of_find?_eq_some heq)⟩
            · exact ⟨.inr hr, hne⟩
          · rintro ⟨rfl | hr, hne⟩
            · exact .inl rfl
            · exact .inr ⟨hr, hne⟩

/-- The pick is as the policy has it when it is elsewhere or nothing else can be. -/
theorem placed_of_beats {pick : ServantPtr} (hmem : pick ∈ servants)
    (hpick : elsewhere host requestor servants = [] ∨ pick ∈ elsewhere host requestor servants)
    (hbeats : ∀ c ∈ elsewhere host requestor servants, c ≠ pick →
      Beats cfg s servants pick c) : Placed cfg s host requestor servants pick := by
  have hle : ∀ c ∈ elsewhere host requestor servants, (Dedicated s pick → Dedicated s c) →
      utilization cfg s pick ≤ utilization cfg s c := by
    intro c hc hsame
    by_cases heq : c = pick
    · rw [heq]
    · rcases hbeats c hc heq with ⟨hd, hnd⟩ | ⟨-, hlt | ⟨heq, -⟩⟩
      · exact absurd (hsame hd) hnd
      · exact hlt.le
      · exact heq.le
  refine ⟨hmem, ?_, ?_, ?_, ?_⟩
  · intro hnone
    by_contra haway
    have hin : pick ∈ elsewhere host requestor servants :=
      List.mem_filter.mpr ⟨hmem, by simpa using haway⟩
    rw [hnone] at hin
    cases hin
  · exact fun hsome => hpick.resolve_left hsome
  · rintro ⟨c, hc, hd⟩
    have hdedicated : Dedicated s pick := by
      by_cases heq : c = pick
      · exact heq ▸ hd
      · rcases hbeats c hc heq with ⟨hpd, -⟩ | ⟨hsame, -⟩
        · exact hpd
        · exact hsame.mpr hd
    exact ⟨hdedicated, fun c hc hcd => hle c hc fun _ => hcd⟩
  · intro hnone c hc
    apply hle c hc
    intro hd
    rcases hpick with hnil | hin
    · rw [hnil] at hc
      cases hc
    · exact absurd ⟨pick, hin, hd⟩ hnone

/-- The pick follows the policy exactly when every servant of the requestor's host that was
not set aside is outdone. -/
theorem placed_iff (h : Offered cfg s host port requestor servants) :
    (∃ pick, unsafePickServantFor cfg s servants requestor.ip = .ok pick ∧
      Placed cfg s host requestor servants pick) ↔
        Outdone cfg s host requestor servants := by
  obtain ⟨pick, hpick⟩ := unsafePickServantFor_ok h.nonempty h.roomy requestor.ip
  have hmem := unsafePickServantFor_mem hpick
  have hcases := unsafePickServantFor_beats h.exactDivision h.roomy h.narrow hpick
  constructor
  · rintro ⟨pick', hpick', hplaced⟩
    rw [hpick] at hpick'
    cases hpick'
    by_cases hnone : elsewhere host requestor servants = []
    · exact .inl hnone
    · right
      intro r hr hhost hleft
      have haway := hplaced.away hnone
      refine ⟨pick, haway, ?_⟩
      have hleft' := (mem_not_set_aside h.nodup).mpr ⟨hr, hleft⟩
      rcases hcases with ⟨-, hbeats⟩ | ⟨hnil, -⟩
      · apply hbeats r hleft'
        rintro rfl
        have hne := (List.mem_filter.mp haway).2
        rw [hhost] at hne
        simp at hne
      · rw [hnil] at hleft'
        cases hleft'
  · intro houtdone
    refine ⟨pick, hpick, ?_⟩
    rcases hcases with ⟨hothers, hbeats⟩ | ⟨hnil, hself⟩
    · refine placed_of_beats hmem ?_ fun c hc hne => hbeats c (h.elsewhere_kept hc) hne
      rcases houtdone with hnone | houtdone
      · exact .inl hnone
      · right
        refine List.mem_filter.mpr ⟨hmem, ?_⟩
        by_contra hhost
        have hhost : (host pick).ip = requestor.ip := by simpa using hhost
        obtain ⟨c, hc, hcbeats⟩ :=
          houtdone pick hmem hhost ((mem_not_set_aside h.nodup).mp hothers).2
        have hne : c ≠ pick := by
          rintro rfl
          have hne := (List.mem_filter.mp hc).2
          rw [hhost] at hne
          simp at hne
        exact (hbeats c (h.elsewhere_kept hc) hne).asymm h.nodup hcbeats
    · have hnone : elsewhere host requestor servants = [] := by
        apply List.eq_nil_iff_forall_not_mem.mpr
        intro c hc
        have hkept := h.elsewhere_kept hc
        rw [hnil] at hkept
        cases hkept
      refine placed_of_beats hmem (.inl hnone) fun c hc hne => ?_
      rw [hnone] at hc
      cases hc

end Policy

/-! ## Requests from hosts that serve themselves -/

/-- Utilizations as they are. -/
def exactConfig : DispatcherConfig where
  minMemoryForNewTask := 0
  utilization tasks capacity := (tasks.toNat : ℚ) / (capacity.toNat : ℚ)

/-- The first servant gets a task, and then the others register. -/
def registered (first : String) (others : List String) : TaskDispatcher :=
  let labels := (Op.keepServantAlive (sampleServant first) 100 0 0, Reply.done) ::
    (.waitForStartingNewTask sampleTask 5 false 0 0, .attempt (.allocated ⟨0, first⟩)) ::
    others.map fun location => (.keepServantAlive (sampleServant location) 100 0 0, .done)
  (follow (next exactConfig) labels empty).getD empty

/-- The first servant is on one host, and the others are on another. -/
def peerOf (family : AddressFamily) (first others : String) (r : ServantPtr) : RemotePeer :=
  if r = 0 then ⟨family, first⟩ else ⟨family, others⟩

/-- A request from 10.0.0.1, where one servant runs. -/
theorem placed_away :
    ∃ pick, unsafePickServantFor exactConfig (registered "10.0.0.2:8335" ["10.0.0.1:8335"])
        [0, 1] "10.0.0.1" = .ok pick ∧
      Placed exactConfig (registered "10.0.0.2:8335" ["10.0.0.1:8335"])
        (peerOf .inet "10.0.0.2" "10.0.0.1")
        ⟨.inet, "10.0.0.1"⟩ [0, 1] pick := by
  have hoffered : Offered exactConfig (registered "10.0.0.2:8335" ["10.0.0.1:8335"])
      (peerOf .inet "10.0.0.2" "10.0.0.1") (fun _ => 8335)
      ⟨.inet, "10.0.0.1"⟩ [0, 1] := by
    exact ⟨fun _ _ => rfl, by decide, by decide, by decide, by decide, by decide, by decide,
      by decide⟩
  refine (placed_iff hoffered).mpr (.inr ?_)
  simp only [List.forall_mem_cons, List.not_mem_nil, false_imp_iff, implies_true, and_true]
  exact ⟨fun h => absurd h (by decide), fun _ h => absurd rfl h⟩

/-- The policy, for servants and requestors of one address family. -/
def PolicyHolds (family : AddressFamily) : Prop :=
  ∀ (s : TaskDispatcher) (host : ServantPtr → RemotePeer) (port : ServantPtr → UInt16)
    (ip : String) (servants : List ServantPtr), (∀ r ∈ servants, (host r).family = family) →
    Offered exactConfig s host port ⟨family, ip⟩ servants →
    ∃ pick, unsafePickServantFor exactConfig s servants ip = .ok pick ∧
      Placed exactConfig s host ⟨family, ip⟩ servants pick

/-- A pick on the requestor's host while a servant is elsewhere. -/
theorem not_placed {host : ServantPtr → RemotePeer} {requestor : RemotePeer}
    {servants : List ServantPtr} {pick c : ServantPtr}
    (hpick : unsafePickServantFor cfg s servants requestor.ip = .ok pick)
    (hown : (host pick).ip = requestor.ip) (hc : c ∈ servants)
    (haway : (host c).ip ≠ requestor.ip) :
    ¬ ∃ pick, unsafePickServantFor cfg s servants requestor.ip = .ok pick ∧
      Placed cfg s host requestor servants pick := by
  rintro ⟨pick', hpick', hplaced⟩
  rw [hpick] at hpick'
  cases hpick'
  have hmem : c ∈ elsewhere host requestor servants :=
    List.mem_filter.mpr ⟨hc, by simpa using haway⟩
  have hin := (List.mem_filter.mp (hplaced.away (List.ne_nil_of_mem hmem))).2
  rw [hown] at hin
  simp at hin

/-- The task of a host goes to a servant of the host although a servant is free elsewhere:
to the second one of two over IPv4, and to the only one over IPv6. -/
theorem placed_on_own_host : ¬ PolicyHolds .inet ∧ ¬ PolicyHolds .inet6 := by
  constructor
  · intro h
    have hoffered : Offered exactConfig
        (registered "10.0.0.2:8335" ["10.0.0.1:8335", "10.0.0.1:8336"])
        (peerOf .inet "10.0.0.2" "10.0.0.1")
        (fun r => if r = 2 then 8336 else 8335) ⟨.inet, "10.0.0.1"⟩ [0, 1, 2] := by
      exact ⟨fun _ _ => rfl, by decide, by decide, by decide, by decide, by decide, by decide,
        by decide⟩
    have hpick : unsafePickServantFor exactConfig
        (registered "10.0.0.2:8335" ["10.0.0.1:8335", "10.0.0.1:8336"]) [0, 1, 2] "10.0.0.1" =
          .ok 2 := by decide +kernel
    have hnot := @not_placed exactConfig _ (peerOf .inet "10.0.0.2" "10.0.0.1")
      ⟨.inet, "10.0.0.1"⟩ [0, 1, 2] 2 0 hpick (by decide) (by decide) (by decide)
    exact hnot (h _ _ _ _ _ (by decide) hoffered)
  · intro h
    have hoffered : Offered exactConfig (registered "[fe80::2]:8335" ["[fe80::1]:8335"])
        (peerOf .inet6 "fe80::2" "fe80::1") (fun _ => 8335)
        ⟨.inet6, "fe80::1"⟩ [0, 1] := by
      exact ⟨fun _ _ => rfl, by decide, by decide, by decide, by decide, by decide, by decide,
        by decide⟩
    have hpick : unsafePickServantFor exactConfig
        (registered "[fe80::2]:8335" ["[fe80::1]:8335"]) [0, 1] "fe80::1" = .ok 1 := by
      decide +kernel
    have hnot := @not_placed exactConfig _ (peerOf .inet6 "fe80::2" "fe80::1")
      ⟨.inet6, "fe80::1"⟩ [0, 1] 1 0 hpick (by decide) (by decide) (by decide)
    exact hnot (h _ _ _ _ _ (by decide) hoffered)

end TaskDispatcher

end Yadcc.Scheduler
