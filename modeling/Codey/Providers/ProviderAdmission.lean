import Codey.Providers.AttemptLoop
import Mathlib.Algebra.Field.Rat

/-!
# What admission guarantees

The invariant of a coordinator and its requests: leases are counted, the line holds the tickets of
the requests in `acquire`, and every probe claim belongs to a registered request that was granted
its lease under the cooldown as it stands.
-/

namespace Codey

namespace Zen

variable {p : Platform} {w w' : System} {r r' : Request} {c c' : ZenRequestCoordinator}
  {key : ControlKey} {ticket : Nat}

/-! ### The coordinator -/

namespace ZenRequestCoordinator

/-- What a round of the wait may come to. -/
lemma poll_cases (c : ZenRequestCoordinator) (token : Nat) (key : ControlKey) (ticket : Nat)
    (deadline now : ℚ) (cancelled : Bool) :
    (∃ message, c.poll token key ticket deadline now cancelled =
      (.raised (.other message), c.dequeue ticket)) ∨
    (c.poll token key ticket deadline now cancelled = (.waiting, c)) ∨
    (c.poll token key ticket deadline now cancelled =
        (.granted (c.probesGranted token key key), c.grant token key ticket) ∧
      c.blockedUntil key ≤ now ∧ c.probeBlocked now key = false ∧ c.inflight < c.maxInflight) := by
  unfold poll
  split_ifs with hcancelled hlate hgrant
  · exact Or.inl ⟨_, rfl⟩
  · exact Or.inl ⟨_, rfl⟩
  · exact Or.inr (Or.inr ⟨rfl, hgrant.2⟩)
  · exact Or.inr (Or.inl rfl)

/-- A key that is let through has no cooldown, or one whose instant has passed and which nobody
probes. -/
lemma cooldown_of_passed {now : ℚ} {cooldown : Cooldown} (huntil : c.blockedUntil key ≤ now)
    (hprobe : c.probeBlocked now key = false) (hcooldown : c.cooldowns key = some cooldown) :
    cooldown.notBefore ≤ now ∧ c.probes key = none := by
  have hle : cooldown.notBefore ≤ now := by
    simpa only [blockedUntil, hcooldown] using huntil
  refine ⟨hle, ?_⟩
  simpa [probeBlocked, hcooldown, huntil] using hprobe

end ZenRequestCoordinator

/-! ### The invariant -/

/-- A lease is held while the service is asked, and not while the request waits or is done. -/
def Request.HoldsRight (r : Request) : Prop :=
  match r.phase with
  | .granted | .sending => r.lease.isSome = true
  | .raised _ | .observed _ | .unwinding _ => True
  | .starting | .waiting _ | .pausing _ | .leaving _ | .settled => r.lease = none

/-- What holds between a coordinator and its requests. -/
structure Inv (w : System) : Prop where
  pending : w.coordinator.pending = w.requests.rows.map (·.token)
  issued : ∀ r ∈ w.requests.rows, r.token ≤ w.coordinator.nextId
  capacity : w.coordinator.pending.length ≤ w.coordinator.maxPending
  leases : w.coordinator.inflight = w.requests.rows.countP (·.lease.isSome)
  bound : w.coordinator.inflight ≤ w.coordinator.maxInflight
  holds : ∀ r ∈ w.requests.rows, r.HoldsRight
  clock : 0 ≤ w.now
  once : w.coordinator.waiters.Nodup
  tickets : ∀ t ∈ w.coordinator.waiters, t ≤ w.coordinator.waiterSeq
  line : ∀ t, t ∈ w.coordinator.waiters ↔ ∃ r ∈ w.requests.rows, r.phase = .waiting t
  keyed : ∀ r ∈ w.requests.rows, ∀ t, r.phase = .waiting t →
    w.coordinator.waiterMeta t = some r.key
  alone : ∀ r ∈ w.requests.rows, ∀ r' ∈ w.requests.rows, ∀ t, r.phase = .waiting t →
    r'.phase = .waiting t → r.token = r'.token
  claims : ∀ key claim, w.coordinator.probes key = some claim →
    (∃ cooldown, w.coordinator.cooldowns key = some cooldown ∧
      cooldown.version = claim.version) ∧
    ∃ r ∈ w.requests.rows, r.token = claim.token ∧ r.key = key ∧ r.seen = w.published key
  receipts : ∀ r ∈ w.requests.rows, ∀ claim,
    r.receipt = some claim ∨ r.lease = some (some claim) → claim.token = r.token

/-- What a step may make of the line. -/
structure LineStep (w : System) (r : Request) (c : ZenRequestCoordinator) (r' : Request) :
    Prop where
  once : c.waiters.Nodup
  tickets : ∀ t ∈ c.waiters, t ≤ c.waiterSeq
  line : ∀ t, t ∈ c.waiters ↔
    (t ∈ w.coordinator.waiters ∧ r.phase ≠ .waiting t) ∨ r'.phase = .waiting t
  others : ∀ t ∈ w.coordinator.waiters, r.phase ≠ .waiting t →
    c.waiterMeta t = w.coordinator.waiterMeta t
  keyed : ∀ t, r'.phase = .waiting t → c.waiterMeta t = some r.key ∧
    (t ∈ w.coordinator.waiters → r.phase = .waiting t)

/-- What a step may make of the probe claims. -/
def ClaimStep (w : System) (r : Request) (c : ZenRequestCoordinator) (r' : Request)
    (published : ControlKey → Nat) : Prop :=
  ∀ key claim, c.probes key = some claim →
    (w.coordinator.probes key = some claim ∧ c.cooldowns key = w.coordinator.cooldowns key ∧
      published key = w.published key ∧ (key = r.key → r'.seen = r.seen)) ∨
    (key = r.key ∧ claim.token = r.token ∧ r'.seen = published key ∧
      ∃ cooldown, c.cooldowns key = some cooldown ∧ cooldown.version = claim.version)

/-- What a step may make of a request and of the coordinator. -/
structure Change (w : System) (r : Request) (c : ZenRequestCoordinator) (r' : Request)
    (published : ControlKey → Nat) : Prop where
  token : r'.token = r.token
  key : r'.key = r.key
  pending : c.pending = w.coordinator.pending
  nextId : c.nextId = w.coordinator.nextId
  maxPending : c.maxPending = w.coordinator.maxPending
  leases : c.inflight + (if r.lease.isSome then 1 else 0) =
    w.coordinator.inflight + (if r'.lease.isSome then 1 else 0)
  bound : c.inflight ≤ c.maxInflight
  holds : r'.HoldsRight
  line : LineStep w r c r'
  claims : ClaimStep w r c r' published
  receipts : ∀ claim, r'.receipt = some claim ∨ r'.lease = some (some claim) →
    claim.token = r.token

/-- A change of one request keeps the invariant. -/
lemma Inv.change (h : Inv w) (hr : r ∈ w.requests.rows) {published : ControlKey → Nat}
    (hc : Change w r c r' published) : Inv { w.set c r' with published } := by
  have hget : w.requests.get? r'.token = some r := by
    rw [hc.token]
    exact Table.mem_rows_iff.mp hr
  have hmem : ∀ x, x ∈ (w.requests.put r').rows ↔
      x = r' ∨ (x ∈ w.requests.rows ∧ r.token ≠ x.token) := by
    intro x
    rw [Table.mem_put_iff, hc.token]
  have hself : ∀ x ∈ w.requests.rows, r.token = x.token → x = r := by
    intro x hx htoken
    have hx := Table.mem_rows_iff.mp hx
    rw [← htoken, Table.mem_rows_iff.mp hr] at hx
    exact (Option.some.inj hx).symm
  have hkeep : ∀ x ∈ w.requests.rows, ∀ t, x.phase = .waiting t → r.token ≠ x.token →
      t ∈ w.coordinator.waiters ∧ r.phase ≠ .waiting t := fun x hx t ht hne =>
    ⟨(h.line t).mpr ⟨x, hx, ht⟩, fun hrt => hne (h.alone r hr x hx t hrt ht)⟩
  constructor
  case pending =>
    change c.pending = _
    rw [hc.pending, h.pending]
    exact (Table.map_key_put_of_some hget).symm
  case issued =>
    intro x hx
    change x.token ≤ c.nextId
    rw [hc.nextId]
    rcases (hmem x).mp hx with rfl | ⟨hx, -⟩
    · rw [hc.token]
      exact h.issued r hr
    · exact h.issued x hx
  case capacity =>
    change c.pending.length ≤ c.maxPending
    rw [hc.pending, hc.maxPending]
    exact h.capacity
  case leases =>
    change c.inflight = (w.requests.put r').rows.countP _
    have hcount := Table.countP_put_of_some hget (·.lease.isSome)
    have hleases := hc.leases
    rw [h.leases] at hleases
    omega
  case bound => exact hc.bound
  case holds =>
    intro x hx
    rcases (hmem x).mp hx with rfl | ⟨hx, -⟩
    · exact hc.holds
    · exact h.holds x hx
  case clock => exact h.clock
  case once => exact hc.line.once
  case tickets => exact hc.line.tickets
  case line =>
    intro t
    change t ∈ c.waiters ↔ ∃ x ∈ (w.requests.put r').rows, _
    rw [hc.line.line, h.line]
    constructor
    · rintro (⟨⟨x, hx, ht⟩, hne⟩ | ht)
      · exact ⟨x, (hmem x).mpr (Or.inr ⟨hx, fun heq => hne (hself x hx heq ▸ ht)⟩), ht⟩
      · exact ⟨r', (hmem r').mpr (Or.inl rfl), ht⟩
    · rintro ⟨x, hx, ht⟩
      rcases (hmem x).mp hx with rfl | ⟨hx, hne⟩
      · exact Or.inr ht
      · exact Or.inl ⟨⟨x, hx, ht⟩, (hkeep x hx t ht hne).2⟩
  case keyed =>
    intro x hx t ht
    change c.waiterMeta t = _
    rcases (hmem x).mp hx with rfl | ⟨hx, hne⟩
    · rw [hc.key]
      exact (hc.line.keyed t ht).1
    · obtain ⟨hin, hrt⟩ := hkeep x hx t ht hne
      rw [hc.line.others t hin hrt]
      exact h.keyed x hx t ht
  case alone =>
    have hcross : ∀ x ∈ w.requests.rows, r.token ≠ x.token → ∀ t, x.phase = .waiting t →
        r'.phase ≠ .waiting t := fun x hx hne t ht ht' =>
      (hkeep x hx t ht hne).2 ((hc.line.keyed t ht').2 (hkeep x hx t ht hne).1)
    intro x hx y hy t htx hty
    rcases (hmem x).mp hx with hxr | ⟨hxold, hxne⟩ <;>
      rcases (hmem y).mp hy with hyr | ⟨hyold, hyne⟩
    · rw [hxr, hyr]
    · exact absurd (hxr ▸ htx) (hcross y hyold hyne t hty)
    · exact absurd (hyr ▸ hty) (hcross x hxold hxne t htx)
    · exact h.alone x hxold y hyold t htx hty
  case claims =>
    intro key claim hclaim
    rcases hc.claims key claim hclaim with ⟨hold, hcooldown, hpub, hseen⟩ | ⟨rfl, htoken, hseen, hcd⟩
    · obtain ⟨hcd, x, hx, htoken, hkey, hseen'⟩ := h.claims key claim hold
      refine ⟨?_, ?_⟩
      · change ∃ cooldown, c.cooldowns key = _ ∧ _
        rwa [hcooldown]
      · by_cases hxr : r.token = x.token
        · obtain rfl := hself x hx hxr
          refine ⟨r', (hmem r').mpr (Or.inl rfl), hc.token.trans htoken, hc.key.trans hkey, ?_⟩
          exact (hseen hkey.symm).trans (hseen'.trans hpub.symm)
        · exact ⟨x, (hmem x).mpr (Or.inr ⟨hx, hxr⟩), htoken, hkey, hseen'.trans hpub.symm⟩
    · exact ⟨hcd, r', (hmem r').mpr (Or.inl rfl), hc.token.trans htoken.symm, hc.key, hseen⟩
  case receipts =>
    intro x hx claim hclaim
    rcases (hmem x).mp hx with rfl | ⟨hx, -⟩
    · rw [hc.token]
      exact hc.receipts claim hclaim
    · exact h.receipts x hx claim hclaim

/-! ### The line -/

/-- The line is left alone. -/
lemma Inv.line_kept (h : Inv w) (hr : r ∈ w.requests.rows)
    (hwaiters : c.waiters = w.coordinator.waiters) (hseq : c.waiterSeq = w.coordinator.waiterSeq)
    (hmeta : c.waiterMeta = w.coordinator.waiterMeta)
    (hphase : ∀ t, r'.phase = .waiting t ↔ r.phase = .waiting t) : LineStep w r c r' where
  once := hwaiters ▸ h.once
  tickets := by
    rw [hwaiters, hseq]
    exact h.tickets
  line t := by
    rw [hwaiters, hphase]
    constructor
    · intro ht
      by_cases hrt : r.phase = .waiting t
      · exact Or.inr hrt
      · exact Or.inl ⟨ht, hrt⟩
    · rintro (⟨ht, -⟩ | hrt)
      · exact ht
      · exact (h.line t).mpr ⟨r, hr, hrt⟩
  others t _ _ := by rw [hmeta]
  keyed t ht := by
    rw [hmeta]
    exact ⟨h.keyed r hr t ((hphase t).mp ht), fun _ => (hphase t).mp ht⟩

/-- A request gets in line. -/
lemma Inv.line_enqueue (h : Inv w) (hphase : ∀ t, r.phase ≠ .waiting t)
    (hphase' : r'.phase = .waiting (w.coordinator.waiterSeq + 1)) :
    LineStep w r (w.coordinator.enqueue r.key).2 r' := by
  have hnew : w.coordinator.waiterSeq + 1 ∉ w.coordinator.waiters := fun hin => by
    have := h.tickets _ hin
    omega
  have heq : ∀ t, r'.phase = .waiting t ↔ t = w.coordinator.waiterSeq + 1 := by
    intro t
    rw [hphase', Phase.waiting.injEq, eq_comm]
  constructor
  case once =>
    refine List.nodup_append.mpr ⟨h.once, List.nodup_singleton _, fun a ha b hb => ?_⟩
    obtain rfl := List.mem_singleton.mp hb
    exact fun hab => hnew (hab ▸ ha)
  case tickets =>
    intro t ht
    change t ≤ w.coordinator.waiterSeq + 1
    rcases List.mem_append.mp ht with ht | ht
    · exact (h.tickets t ht).trans (Nat.le_succ _)
    · exact (List.mem_singleton.mp ht).le
  case line =>
    intro t
    rw [heq]
    change t ∈ w.coordinator.waiters ++ [_] ↔ _
    simp [hphase]
  case others =>
    intro t ht _
    have hne : t ≠ w.coordinator.waiterSeq + 1 := fun ht' => hnew (ht' ▸ ht)
    exact Function.update_of_ne hne _ _
  case keyed =>
    intro t ht
    obtain rfl := (heq t).mp ht
    exact ⟨Function.update_self .., fun hin => absurd hin hnew⟩

/-- A request leaves the line. -/
lemma Inv.line_dequeue (h : Inv w) (hphase : r.phase = .waiting ticket)
    (hphase' : ∀ t, r'.phase ≠ .waiting t)
    (hwaiters : c.waiters = (w.coordinator.dequeue ticket).waiters)
    (hseq : c.waiterSeq = w.coordinator.waiterSeq)
    (hmeta : c.waiterMeta = (w.coordinator.dequeue ticket).waiterMeta) : LineStep w r c r' where
  once := hwaiters ▸ h.once.erase ticket
  tickets t ht := by
    rw [hwaiters] at ht
    rw [hseq]
    exact h.tickets t (List.mem_of_mem_erase ht)
  line t := by
    have hne : r.phase ≠ .waiting t ↔ t ≠ ticket := by
      rw [hphase, ne_eq, Phase.waiting.injEq, eq_comm]
    rw [hwaiters, ZenRequestCoordinator.dequeue, h.once.mem_erase_iff, hne, and_comm]
    simp [hphase']
  others t _ hne := by
    rw [hmeta]
    exact Function.update_of_ne (fun heq => hne (by rw [heq]; exact hphase)) _ _
  keyed t ht := absurd ht (hphase' t)

/-! ### The claims -/

lemma ClaimStep.kept (hprobes : c.probes = w.coordinator.probes)
    (hcooldowns : c.cooldowns = w.coordinator.cooldowns) (hseen : r'.seen = r.seen) :
    ClaimStep w r c r' w.published := by
  intro key claim hclaim
  exact Or.inl ⟨hprobes ▸ hclaim, by rw [hcooldowns], rfl, fun _ => hseen⟩

/-- A grant: the request probes the cooldown of its key, if there is one. -/
lemma Inv.claims_grant (h : Inv w) (hseen : r'.seen = w.published r.key) :
    ClaimStep w r (w.coordinator.grant r.token r.key ticket) r' w.published := by
  intro key claim hclaim
  change w.coordinator.probesGranted r.token r.key key = some claim at hclaim
  unfold ZenRequestCoordinator.probesGranted at hclaim
  cases hcooldown : w.coordinator.cooldowns r.key with
  | none =>
    simp only [hcooldown] at hclaim
    refine Or.inl ⟨hclaim, rfl, rfl, ?_⟩
    rintro rfl
    obtain ⟨⟨cooldown, hsome, -⟩, -⟩ := h.claims _ _ hclaim
    rw [hcooldown] at hsome
    cases hsome
  | some cooldown =>
    simp only [hcooldown] at hclaim
    by_cases hkey : key = r.key
    · subst hkey
      rw [Function.update_self] at hclaim
      obtain rfl := Option.some.inj hclaim
      exact Or.inr ⟨rfl, rfl, hseen, cooldown, hcooldown, rfl⟩
    · rw [Function.update_of_ne hkey] at hclaim
      exact Or.inl ⟨hclaim, rfl, rfl, fun heq => absurd heq hkey⟩

lemma ClaimStep.settle (receipt : Option ProbeClaim) (successful : Bool)
    (hseen : r'.seen = r.seen) :
    ClaimStep w r (w.coordinator.settle r.key receipt successful) r' w.published := by
  unfold ZenRequestCoordinator.settle
  by_cases hclaimed : (w.coordinator.probes r.key).isSome ∧ receipt = w.coordinator.probes r.key
  · rw [if_pos hclaimed]
    intro key claim hclaim
    have hkey : key ≠ r.key := by
      rintro rfl
      simp at hclaim
    refine Or.inl ⟨?_, ?_, rfl, fun heq => absurd heq hkey⟩
    · simpa [Function.update_of_ne hkey] using hclaim
    · cases successful <;> simp [Function.update_of_ne hkey]
  · rw [if_neg hclaimed]
    exact ClaimStep.kept rfl rfl hseen

lemma ClaimStep.publish (notBefore : ℚ) (reason : String) (n : Nat) :
    ClaimStep w r (w.coordinator.publishCooldown r.key notBefore reason) r'
      (Function.update w.published r.key n) := by
  intro key claim hclaim
  have hkey : key ≠ r.key := by
    rintro rfl
    simp [ZenRequestCoordinator.publishCooldown] at hclaim
  refine Or.inl ⟨?_, ?_, Function.update_of_ne hkey _ _, fun heq => absurd heq hkey⟩
  · simpa [ZenRequestCoordinator.publishCooldown, Function.update_of_ne hkey] using hclaim
  · simp [ZenRequestCoordinator.publishCooldown, Function.update_of_ne hkey]

/-! ### What each step changes -/

namespace ZenRequestCoordinator

/-- Two coordinators with the same queue and the same line. -/
structure SameLine (c c' : ZenRequestCoordinator) : Prop where
  pending : c'.pending = c.pending
  nextId : c'.nextId = c.nextId
  maxPending : c'.maxPending = c.maxPending
  maxInflight : c'.maxInflight = c.maxInflight
  waiters : c'.waiters = c.waiters
  waiterSeq : c'.waiterSeq = c.waiterSeq
  waiterMeta : c'.waiterMeta = c.waiterMeta

lemma SameLine.refl (c : ZenRequestCoordinator) : SameLine c c := ⟨rfl, rfl, rfl, rfl, rfl, rfl, rfl⟩

lemma sameLine_release (c : ZenRequestCoordinator) : SameLine c c.release :=
  ⟨rfl, rfl, rfl, rfl, rfl, rfl, rfl⟩

lemma sameLine_publishCooldown (c : ZenRequestCoordinator) (key : ControlKey) (notBefore : ℚ)
    (reason : String) : SameLine c (c.publishCooldown key notBefore reason) :=
  ⟨rfl, rfl, rfl, rfl, rfl, rfl, rfl⟩

lemma sameLine_settle (c : ZenRequestCoordinator) (key : ControlKey)
    (receipt : Option ProbeClaim) (successful : Bool) :
    SameLine c (c.settle key receipt successful) := by
  unfold settle
  split
  · exact ⟨rfl, rfl, rfl, rfl, rfl, rfl, rfl⟩
  · exact SameLine.refl c

@[simp] lemma settle_inflight (c : ZenRequestCoordinator) (key : ControlKey)
    (receipt : Option ProbeClaim) (successful : Bool) :
    (c.settle key receipt successful).inflight = c.inflight := by
  unfold settle
  split <;> rfl

end ZenRequestCoordinator

open ZenRequestCoordinator

/-- A request that does not move in the line. -/
lemma Inv.change_sameLine (h : Inv w) (hr : r ∈ w.requests.rows) {published : ControlKey → Nat}
    (hline : SameLine w.coordinator c) (htoken : r'.token = r.token) (hkey : r'.key = r.key)
    (hleases : c.inflight + (if r.lease.isSome then 1 else 0) =
      w.coordinator.inflight + (if r'.lease.isSome then 1 else 0))
    (hbound : c.inflight ≤ w.coordinator.inflight) (hholds : r'.HoldsRight)
    (hphase : ∀ t, r'.phase = .waiting t ↔ r.phase = .waiting t)
    (hclaims : ClaimStep w r c r' published)
    (hreceipts : ∀ claim, r'.receipt = some claim ∨ r'.lease = some (some claim) →
      r.receipt = some claim ∨ r.lease = some (some claim)) :
    Inv { w.set c r' with published } := by
  refine h.change hr
    { token := htoken, key := hkey, pending := hline.pending, nextId := hline.nextId,
      maxPending := hline.maxPending, leases := hleases,
      bound := hline.maxInflight ▸ hbound.trans h.bound, holds := hholds, line := ?_,
      claims := hclaims, receipts := fun claim hclaim => ?_ }
  · exact h.line_kept hr hline.waiters hline.waiterSeq hline.waiterMeta hphase
  · exact h.receipts r hr claim (hreceipts claim hclaim)

/-- A request that keeps its place in the line and its lease. -/
lemma Inv.move (h : Inv w) (hr : r ∈ w.requests.rows) {published : ControlKey → Nat}
    (hline : SameLine w.coordinator c) (hinflight : c.inflight = w.coordinator.inflight)
    (htoken : r'.token = r.token) (hkey : r'.key = r.key) (hlease : r'.lease = r.lease)
    (hholds : r'.HoldsRight) (hphase : ∀ t, r'.phase = .waiting t ↔ r.phase = .waiting t)
    (hclaims : ClaimStep w r c r' published)
    (hreceipts : ∀ claim, r'.receipt = some claim →
      r.receipt = some claim ∨ r.lease = some (some claim)) :
    Inv { w.set c r' with published } := by
  refine h.change_sameLine hr hline htoken hkey (by rw [hinflight, hlease]) hinflight.le hholds
    hphase hclaims ?_
  rintro claim (hclaim | hclaim)
  · exact hreceipts claim hclaim
  · exact Or.inr (hlease ▸ hclaim)

lemma Inv.put (h : Inv w) (hr : r ∈ w.requests.rows) (htoken : r'.token = r.token)
    (hkey : r'.key = r.key) (hseen : r'.seen = r.seen)
    (hlease : r'.lease = r.lease) (hholds : r'.HoldsRight)
    (hphase : ∀ t, r'.phase = .waiting t ↔ r.phase = .waiting t)
    (hreceipts : ∀ claim, r'.receipt = some claim →
      r.receipt = some claim ∨ r.lease = some (some claim)) : Inv (w.put r') :=
  h.move hr (SameLine.refl _) rfl htoken hkey hlease hholds hphase
    (.kept rfl rfl hseen) hreceipts

/-- A round of the wait. -/
lemma Inv.polled (h : Inv w) (hr : r ∈ w.requests.rows) (hphase : r.phase = .waiting ticket)
    (cancelled : Bool) : Inv (r.polled w w.coordinator ticket cancelled) := by
  have hfree : r.lease = none := by
    have := h.holds r hr
    rwa [Request.HoldsRight, hphase] at this
  unfold Request.polled
  rcases poll_cases w.coordinator r.token r.key ticket r.deadline w.now cancelled with
    ⟨message, hpoll⟩ | hpoll | ⟨hpoll, huntil, hprobe, hroom⟩
  · -- the wait is given up
    rw [hpoll]
    refine h.change hr
      { token := rfl, key := rfl, pending := rfl, nextId := rfl, maxPending := rfl, leases := rfl,
        bound := h.bound, holds := trivial, line := ?_, claims := .kept rfl rfl rfl,
        receipts := h.receipts r hr }
    exact h.line_dequeue hphase (fun t => by simp [Phase.afterRaise]) rfl rfl rfl
  · rw [hpoll]
    refine h.put hr rfl rfl rfl rfl hfree (fun t => ?_) fun _ hclaim => Or.inl hclaim
    rw [hphase]
  · rw [hpoll]
    refine h.change hr
      { token := rfl, key := rfl, pending := rfl, nextId := rfl, maxPending := rfl, leases := ?_,
        bound := hroom, holds := rfl, line := ?_, claims := h.claims_grant rfl, receipts := ?_ }
    · rw [hfree]
      rfl
    · exact h.line_dequeue hphase (by simp) rfl rfl rfl
    · rintro claim (hclaim | hclaim)
      · exact h.receipts r hr claim (Or.inl hclaim)
      · -- the receipt of the new lease
        have hgranted := Option.some.inj hclaim
        unfold probesGranted at hgranted
        cases hcooldown : w.coordinator.cooldowns r.key with
        | none =>
          simp only [hcooldown] at hgranted
          obtain ⟨⟨cooldown, hsome, -⟩, -⟩ := h.claims _ _ hgranted
          rw [hcooldown] at hsome
          cases hsome
        | some cooldown =>
          simp only [hcooldown, Function.update_self] at hgranted
          obtain rfl := Option.some.inj hgranted
          rfl

/-- The system after a request got in line, before it looks whether it is admitted. -/
def System.queued (w : System) (r : Request) : System :=
  w.set (w.coordinator.enqueue r.key).2
    { r with used := r.used + 1, phase := .waiting (w.coordinator.enqueue r.key).1 }

lemma Inv.queued (h : Inv w) (hr : r ∈ w.requests.rows) (hphase : r.phase = .starting) :
    Inv (w.queued r) := by
  have hfree : r.lease = none := by
    have := h.holds r hr
    rwa [Request.HoldsRight, hphase] at this
  exact h.change hr
    { token := rfl, key := rfl, pending := rfl, nextId := rfl, maxPending := rfl, leases := rfl,
      bound := h.bound, holds := hfree, claims := .kept rfl rfl rfl,
      line := h.line_enqueue (by simp [hphase]) rfl, receipts := h.receipts r hr }

/-- The first round of the wait is a round like the others. -/
lemma Request.polled_set (w : System) (r : Request) (c₁ c : ZenRequestCoordinator) (ph : Phase)
    (ticket : Nat) (cancelled : Bool) :
    Request.polled (w.set c₁ { r with phase := ph }) { r with phase := ph } c ticket cancelled =
      r.polled w c ticket cancelled := by
  have hset : ∀ (c' : ZenRequestCoordinator) (s : Request), s.token = r.token →
      (w.set c₁ { r with phase := ph }).set c' s = w.set c' s := by
    intro c' s hs
    have hput : (w.requests.put { r with phase := ph }).put s = w.requests.put s :=
      Table.put_put hs.symm
    simp only [System.set, hput]
  unfold Request.polled
  have hnow : (w.set c₁ { r with phase := ph }).now = w.now := rfl
  rw [hnow]
  rcases c.poll r.token r.key ticket r.deadline w.now cancelled with ⟨admission, c'⟩
  cases admission with
  | raised failure => exact hset c' _ rfl
  | granted receipt => exact hset c' _ rfl
  | waiting => exact hset c' _ rfl

/-- The start of an attempt. -/
lemma Inv.started (h : Inv w) (hr : r ∈ w.requests.rows) (hphase : r.phase = .starting)
    (cancelled : Bool) : Inv (r.started p w cancelled) := by
  have hfree : r.lease = none := by
    have := h.holds r hr
    rwa [Request.HoldsRight, hphase] at this
  unfold Request.started
  split_ifs with hbudget
  · cases r.lastError with
    | none => exact h.put hr rfl rfl rfl rfl trivial (by simp [hphase]) fun _ => Or.inl
    | some failure => exact h.put hr rfl rfl rfl rfl trivial (by simp [hphase]) fun _ => Or.inl
  · rw [← Request.polled_set w _ (w.coordinator.enqueue r.key).2 _ (.waiting _)]
    refine (h.queued hr hphase).polled ?_ rfl cancelled
    exact Table.mem_put_iff.mpr (Or.inl rfl)

lemma Inv.inflight_pos (h : Inv w) (hr : r ∈ w.requests.rows) (hlease : r.lease.isSome) :
    0 < w.coordinator.inflight := by
  rw [h.leases, List.countP_pos_iff]
  exact ⟨r, hr, hlease⟩

/-- A request that gives back the lease it holds, if any. -/
lemma Inv.returned (h : Inv w) (hr : r ∈ w.requests.rows) (htoken : r'.token = r.token)
    (hkey : r'.key = r.key) (hseen : r'.seen = r.seen) (hreceipt : r'.receipt = r.receipt)
    (hlease : r'.lease = none) (hholds : r'.HoldsRight)
    (hphase : ∀ t, r'.phase = .waiting t ↔ r.phase = .waiting t) :
    Inv (w.set (r.leaseReturned w.coordinator) r') := by
  have hreceipts : ∀ claim, r'.receipt = some claim ∨ r'.lease = some (some claim) →
      r.receipt = some claim ∨ r.lease = some (some claim) := by
    intro claim hclaim
    rw [hreceipt, hlease] at hclaim
    exact Or.inl (hclaim.resolve_right nofun)
  unfold Request.leaseReturned
  by_cases hheld : r.lease.isSome
  · rw [if_pos hheld]
    refine h.change_sameLine hr (sameLine_release _) htoken hkey ?_
      (Nat.sub_le _ _) hholds hphase (.kept rfl rfl hseen) hreceipts
    have hpos := h.inflight_pos hr hheld
    rw [hlease, if_pos hheld]
    change w.coordinator.inflight - 1 + 1 = w.coordinator.inflight + 0
    omega
  · rw [if_neg hheld]
    refine h.change_sameLine hr (SameLine.refl _) htoken hkey ?_ le_rfl
      hholds hphase (.kept rfl rfl hseen) hreceipts
    rw [hlease, if_neg hheld]
    rfl

lemma Inv.declined (h : Inv w) (hr : r ∈ w.requests.rows) (hphase : r.phase = .granted)
    (notSubmitted : Bool) (message : String) : Inv (r.declined w notSubmitted message) := by
  have hheld : r.lease.isSome := by
    have := h.holds r hr
    rwa [Request.HoldsRight, hphase] at this
  have hreturned : r.leaseReturned w.coordinator = w.coordinator.release := if_pos hheld
  unfold Request.declined
  rw [← hreturned]
  refine h.returned hr rfl rfl rfl rfl rfl ?_ fun t => ?_
  · cases notSubmitted <;> exact trivial
  · cases notSubmitted <;> simp [hphase]

lemma classifyRejection_retryable (lower : String → String) (now : ℚ)
    (error : GenerationRejectedError) :
    (classifyRejection lower now error).retryable =
      (classifyRejection lower now error).notBefore.isSome := by
  simp only [classifyRejection]
  split_ifs <;> rfl

/-- The policy keeps the line and the leases, and gives claims up at most. -/
lemma observeFailure_keeps (failure : Failure) {o : RetryDirective × ZenRequestCoordinator}
    (ho : observeFailure p w.coordinator r.key r.heldReceipt w.now r.used failure = o) :
    SameLine w.coordinator o.2 ∧ o.2.inflight = w.coordinator.inflight ∧
      ∀ r' : Request, r'.seen = r.seen → ClaimStep w r o.2 r' (r.publishedAfter p w failure) := by
  subst ho
  cases failure with
  | notSent reasonCode message =>
    simp only [observeFailure]
    split <;> exact ⟨SameLine.refl _, rfl, fun _ => .kept rfl rfl⟩
  | other message => exact ⟨SameLine.refl _, rfl, fun _ => .kept rfl rfl⟩
  | rejected error =>
    have hretryable := classifyRejection_retryable p.lower w.now error
    simp only [observeFailure, Request.publishedAfter, hretryable]
    cases (classifyRejection p.lower w.now error).notBefore with
    | none => exact ⟨sameLine_settle .., settle_inflight .., fun _ => .settle _ _⟩
    | some notBefore => exact ⟨sameLine_publishCooldown .., rfl, fun _ _ => .publish _ _ _⟩

lemma Inv.observed (h : Inv w) (hr : r ∈ w.requests.rows) {failure : Failure}
    (hphase : r.phase = .raised failure) (cancelled : Bool) :
    Inv (r.observed p w failure cancelled) := by
  unfold Request.observed
  split_ifs with hfallback
  · exact h.move hr (sameLine_settle ..) (settle_inflight ..) rfl rfl rfl
      trivial (by simp [hphase]) (.settle _ _ rfl) fun _ => Or.inl
  · obtain ⟨hline, hinflight, hclaims⟩ := observeFailure_keeps (p := p) (w := w) (r := r) failure rfl
    exact h.move hr hline hinflight rfl rfl rfl trivial (by simp [hphase]) (hclaims _ rfl)
      fun _ => Or.inl

lemma Inv.handled (h : Inv w) (hr : r ∈ w.requests.rows) {directive : RetryDirective}
    (hphase : r.phase = .observed directive) : Inv (r.handled p w directive) := by
  unfold Request.handled
  split_ifs with hretry
  · cases directive.notBefore with
    | none => exact h.returned hr rfl rfl rfl rfl rfl rfl (by simp [hphase])
    | some notBefore => exact h.returned hr rfl rfl rfl rfl rfl rfl (by simp [hphase])
  · exact h.returned hr rfl rfl rfl rfl rfl rfl (by simp [hphase])

/-- A round of the wait for the next attempt. -/
lemma Inv.resumed (h : Inv w) (hr : r ∈ w.requests.rows) {notBefore : ℚ}
    (hphase : r.phase = .pausing notBefore) (cancelled : Bool) :
    Inv (r.resumed w notBefore cancelled) := by
  have hfree : r.lease = none := by
    have := h.holds r hr
    rwa [Request.HoldsRight, hphase] at this
  unfold Request.resumed
  split_ifs
  · exact h.put hr rfl rfl rfl rfl trivial (by simp [hphase]) fun _ => Or.inl
  · exact h.put hr rfl rfl rfl rfl trivial (by simp [hphase]) fun _ => Or.inl
  · exact h.put hr rfl rfl rfl rfl hfree (by simp [hphase]) fun _ => Or.inl
  · exact h

lemma Inv.settle (h : Inv w) (hr : r ∈ w.requests.rows) {successful : Bool}
    (hphase : r.phase = .leaving successful) :
    Inv (w.set (w.coordinator.settle r.key r.receipt successful) { r with phase := .settled }) := by
  have hfree : r.lease = none := by
    have := h.holds r hr
    rwa [Request.HoldsRight, hphase] at this
  exact h.move hr (sameLine_settle ..) (settle_inflight ..) rfl rfl rfl
    hfree (by simp [hphase]) (.settle _ _ rfl) fun _ => Or.inl

/-- A request that is done leaves the table. -/
lemma Inv.close (h : Inv w) (hr : r ∈ w.requests.rows) (hphase : r.phase = .settled) :
    Inv { w with
      coordinator := w.coordinator.remove r.token
      requests := w.requests.filter (·.token ≠ r.token) } := by
  have hfree : r.lease = none := by
    have := h.holds r hr
    rwa [Request.HoldsRight, hphase] at this
  have hself : ∀ x ∈ w.requests.rows, x.token = r.token → x = r := by
    intro x hx htoken
    have hx := Table.mem_rows_iff.mp hx
    rw [htoken, Table.mem_rows_iff.mp hr] at hx
    exact (Option.some.inj hx).symm
  have hmem : ∀ x, x ∈ (w.requests.filter (·.token ≠ r.token)).rows ↔
      x ∈ w.requests.rows ∧ x.token ≠ r.token := by
    intro x
    simp
  constructor
  case pending =>
    change w.coordinator.pending.filter _ = ((w.requests.rows.filter _).map _)
    rw [h.pending, List.filter_map]
    rfl
  case issued => exact fun x hx => h.issued x ((hmem x).mp hx).1
  case capacity => exact (List.length_filter_le _ _).trans h.capacity
  case leases =>
    change w.coordinator.inflight = (w.requests.rows.filter _).countP _
    rw [h.leases, List.countP_filter]
    refine List.countP_congr fun x hx => ?_
    constructor
    · intro hlease
      have hne : x.token ≠ r.token := by
        intro htoken
        rw [hself x hx htoken, hfree] at hlease
        cases hlease
      simpa [hne] using hlease
    · intro hlease
      exact (Bool.and_eq_true_iff.mp hlease).1
  case bound => exact h.bound
  case holds => exact fun x hx => h.holds x ((hmem x).mp hx).1
  case clock => exact h.clock
  case once => exact h.once
  case tickets => exact h.tickets
  case line =>
    intro t
    refine (h.line t).trans ⟨?_, ?_⟩
    · rintro ⟨x, hx, ht⟩
      refine ⟨x, (hmem x).mpr ⟨hx, fun htoken => ?_⟩, ht⟩
      rw [hself x hx htoken, hphase] at ht
      cases ht
    · rintro ⟨x, hx, ht⟩
      exact ⟨x, ((hmem x).mp hx).1, ht⟩
  case keyed => exact fun x hx => h.keyed x ((hmem x).mp hx).1
  case alone => exact fun x hx y hy => h.alone x ((hmem x).mp hx).1 y ((hmem y).mp hy).1
  case claims =>
    intro key claim hclaim
    obtain ⟨hclaim, hother⟩ := Option.filter_eq_some_iff.mp hclaim
    obtain ⟨hcooldown, x, hx, htoken, hrest⟩ := h.claims key claim hclaim
    have hne : x.token ≠ r.token := by simpa [htoken] using hother
    exact ⟨hcooldown, x, (hmem x).mpr ⟨hx, hne⟩, htoken, hrest⟩
  case receipts => exact fun x hx => h.receipts x ((hmem x).mp hx).1

/-- A new request. -/
lemma Inv.register (h : Inv w) {token : Nat} (key : ControlKey) (deadline : ℚ)
    (route : Option Bool) (hregister : w.coordinator.register = some (token, c)) :
    Inv { w with
      coordinator := c
      requests := w.requests.put { token, key, deadline, route } } := by
  obtain ⟨hroom, rfl, rfl⟩ : w.coordinator.pending.length < w.coordinator.maxPending ∧
      token = w.coordinator.nextId + 1 ∧ c = { w.coordinator with
        nextId := w.coordinator.nextId + 1
        pending := w.coordinator.pending ++ [w.coordinator.nextId + 1] } := by
    unfold ZenRequestCoordinator.register at hregister
    split_ifs at hregister with hfull
    obtain ⟨rfl, rfl⟩ := Prod.mk.inj (Option.some.inj hregister)
    exact ⟨not_le.mp hfull, rfl, rfl⟩
  have hnew : w.requests.get? (w.coordinator.nextId + 1) = none := by
    rw [Table.get?_eq_none_iff]
    intro x hx heq
    have := h.issued x hx
    omega
  obtain ⟨added, hadded⟩ : ∃ added : Request,
      added = { token := w.coordinator.nextId + 1, key, deadline, route } := ⟨_, rfl⟩
  rw [← hadded]
  have htoken : added.token = w.coordinator.nextId + 1 := by rw [hadded]
  have hphase : added.phase = .starting := by rw [hadded]
  have hfree : added.lease = none := by rw [hadded]
  have hblank : added.receipt = none := by rw [hadded]
  have hrows : (w.requests.put added).rows = w.requests.rows ++ [added] :=
    Table.rows_put_of_none (htoken ▸ hnew)
  have hwaiting : ∀ t, added.phase ≠ .waiting t := by simp [hphase]
  have hmem : ∀ x, x ∈ (w.requests.put added).rows ↔ x ∈ w.requests.rows ∨ x = added := by
    intro x
    rw [hrows, List.mem_append, List.mem_singleton]
  constructor
  case pending =>
    change w.coordinator.pending ++ [_] = (w.requests.put added).rows.map _
    rw [hrows, h.pending, List.map_append, List.map_singleton, htoken]
  case issued =>
    intro x hx
    rcases (hmem x).mp hx with hx | rfl
    · exact (h.issued x hx).trans (Nat.le_succ _)
    · exact htoken.le
  case capacity =>
    change (w.coordinator.pending ++ [_]).length ≤ w.coordinator.maxPending
    rw [List.length_append]
    exact hroom
  case leases =>
    change w.coordinator.inflight = (w.requests.put added).rows.countP _
    rw [hrows, List.countP_append, h.leases]
    simp [hfree]
  case bound => exact h.bound
  case holds =>
    intro x hx
    rcases (hmem x).mp hx with hx | rfl
    · exact h.holds x hx
    · rw [Request.HoldsRight, hphase]
      exact hfree
  case clock => exact h.clock
  case once => exact h.once
  case tickets => exact h.tickets
  case line =>
    intro t
    refine (h.line t).trans ⟨?_, ?_⟩
    · rintro ⟨x, hx, ht⟩
      exact ⟨x, (hmem x).mpr (Or.inl hx), ht⟩
    · rintro ⟨x, hx, ht⟩
      rcases (hmem x).mp hx with hx | rfl
      · exact ⟨x, hx, ht⟩
      · exact absurd ht (hwaiting t)
  case keyed =>
    intro x hx t ht
    rcases (hmem x).mp hx with hx | rfl
    · exact h.keyed x hx t ht
    · exact absurd ht (hwaiting t)
  case alone =>
    intro x hx y hy t htx hty
    rcases (hmem x).mp hx with hx | rfl
    · rcases (hmem y).mp hy with hy | rfl
      · exact h.alone x hx y hy t htx hty
      · exact absurd hty (hwaiting t)
    · exact absurd htx (hwaiting t)
  case claims =>
    intro key claim hclaim
    obtain ⟨hcooldown, x, hx, hrest⟩ := h.claims key claim hclaim
    exact ⟨hcooldown, x, (hmem x).mpr (Or.inl hx), hrest⟩
  case receipts =>
    intro x hx claim hclaim
    rcases (hmem x).mp hx with hx | rfl
    · exact h.receipts x hx claim hclaim
    · simp [hblank, hfree] at hclaim

/-! ### Steps and runs -/

/-- The steps of a request. -/
inductive Request.Moves (p : Platform) (w : System) (r : Request) : Event → System → Prop
  | start {token cancelled} : r.phase = .starting →
      Moves p w r (.start token cancelled) (r.started p w cancelled)
  | poll {token cancelled ticket} : r.phase = .waiting ticket →
      Moves p w r (.poll token cancelled) (r.polled w w.coordinator ticket cancelled)
  | accept {token} : r.phase = .granted →
      Moves p w r (.accept token) (w.put { r with receipt := r.heldReceipt, phase := .sending })
  | decline {token notSubmitted message} : r.phase = .granted →
      Moves p w r (.decline token notSubmitted message) (r.declined w notSubmitted message)
  | reply {token successful} : r.phase = .sending →
      Moves p w r (.reply token successful) (w.put { r with phase := .unwinding successful })
  | fail {token failure reserved} : r.phase = .sending →
      Moves p w r (.fail token failure reserved) (w.put { r with
        used := max r.used (min (r.used + reserved) (Request.maxTotal p))
        phase := .afterRaise failure })
  | observe {token cancelled failure} : r.phase = .raised failure →
      Moves p w r (.observe token cancelled) (r.observed p w failure cancelled)
  | handle {token directive} : r.phase = .observed directive →
      Moves p w r (.release token) (r.handled p w directive)
  | unwind {token successful} : r.phase = .unwinding successful →
      Moves p w r (.release token) (w.set (r.leaseReturned w.coordinator)
        { r with lease := none, phase := .leaving successful })
  | resume {token cancelled notBefore} : r.phase = .pausing notBefore →
      Moves p w r (.resume token cancelled) (r.resumed w notBefore cancelled)
  | settle {token successful} : r.phase = .leaving successful →
      Moves p w r (.settle token)
        (w.set (w.coordinator.settle r.key r.receipt successful) { r with phase := .settled })
  | close {token} : r.phase = .settled →
      Moves p w r (.close token) { w with
        coordinator := w.coordinator.remove r.token
        requests := w.requests.filter (·.token ≠ r.token) }

variable {e : Event}

lemma Request.moves_of_step (hs : r.step p w e = some w') : r.Moves p w e w' := by
  cases e <;> simp only [Request.step] at hs
  case elapse | register => cases hs
  case release =>
    cases hphase : r.phase <;> simp only [hphase] at hs <;> cases hs
    case observed => exact .handle hphase
    case unwinding => exact .unwind hphase
  case start =>
    split at hs <;> cases hs
    exact .start ‹_›
  case poll =>
    split at hs <;> cases hs
    exact .poll ‹_›
  case accept =>
    split at hs <;> cases hs
    exact .accept ‹_›
  case decline =>
    split at hs <;> cases hs
    exact .decline (And.left ‹_›)
  case reply =>
    split at hs <;> cases hs
    exact .reply ‹_›
  case fail =>
    split at hs <;> cases hs
    exact .fail ‹_›
  case observe =>
    split at hs <;> cases hs
    exact .observe ‹_›
  case resume =>
    split at hs <;> cases hs
    exact .resume ‹_›
  case settle =>
    split at hs <;> cases hs
    exact .settle ‹_›
  case close =>
    split at hs <;> cases hs
    exact .close ‹_›

/-- The steps of the system. -/
inductive System.Steps (p : Platform) (w : System) : Event → System → Prop
  | elapse {duration} : 0 ≤ duration →
      Steps p w (.elapse duration) { w with now := w.now + duration }
  | full {key deadline route} : Steps p w (.register key deadline route) w
  | register {key deadline route token c} : w.coordinator.register = some (token, c) →
      Steps p w (.register key deadline route) { w with
        coordinator := c
        requests := w.requests.put { token, key, deadline, route } }
  | request {e : Event} {r : Request} {w' : System} : r ∈ w.requests.rows →
      e.token? = some r.token → r.Moves p w e w' → Steps p w e w'

lemma System.steps_of_step (hs : w.step p e = some w') : System.Steps p w e w' := by
  have hrequest : (e.token?.bind fun token => (w.requests.get? token).bind fun r => r.step p w e) =
      some w' → System.Steps p w e w' := by
    intro hs
    obtain ⟨token, htoken, hget⟩ := Option.bind_eq_some_iff.mp hs
    obtain ⟨r, hr, hmove⟩ := Option.bind_eq_some_iff.mp hget
    refine .request (Table.mem_of_get? hr) ?_ (Request.moves_of_step hmove)
    rw [htoken, Table.key_of_get? hr]
  cases e with
  | elapse duration =>
    simp only [System.step] at hs
    split at hs <;> cases hs
    exact .elapse ‹_›
  | register key deadline route =>
    simp only [System.step] at hs
    split at hs <;> cases hs
    · exact .full
    · exact .register ‹_›
  | _ => exact hrequest hs

lemma Inv.moves (h : Inv w) (hr : r ∈ w.requests.rows) (hm : r.Moves p w e w') : Inv w' := by
  have hholds := h.holds r hr
  unfold Request.HoldsRight at hholds
  cases hm with
  | start hphase => exact h.started hr hphase _
  | poll hphase => exact h.polled hr hphase _
  | accept hphase =>
    rw [hphase] at hholds
    refine h.put hr rfl rfl rfl rfl hholds (by simp [hphase]) fun claim hclaim => Or.inr ?_
    obtain ⟨receipt, hlease⟩ := Option.isSome_iff_exists.mp hholds
    rw [hlease]
    simpa [Request.heldReceipt, hlease] using hclaim
  | decline hphase => exact h.declined hr hphase _ _
  | reply hphase => exact h.put hr rfl rfl rfl rfl trivial (by simp [hphase]) fun _ => Or.inl
  | @fail _ failure _ hphase =>
    refine h.put hr rfl rfl rfl rfl ?_ (fun t => ?_) fun _ => Or.inl
    · cases failure <;> exact trivial
    · cases failure <;> simp [hphase, Phase.afterRaise]
  | observe hphase => exact h.observed hr hphase _
  | handle hphase => exact h.handled hr hphase
  | unwind hphase => exact h.returned hr rfl rfl rfl rfl rfl rfl (by simp [hphase])
  | resume hphase => exact h.resumed hr hphase _
  | settle hphase => exact h.settle hr hphase
  | close hphase => exact h.close hr hphase

lemma Inv.step (h : Inv w) (hs : w.step p e = some w') : Inv w' := by
  cases System.steps_of_step hs with
  | elapse hduration => exact { h with clock := add_nonneg h.clock hduration }
  | full => exact h
  | register hregister => exact h.register _ _ _ hregister
  | request hr _ hm => exact h.moves hr hm

/-- A fresh coordinator without requests. -/
def System.initial (maxInflight maxPending : Nat) (t₀ : ℚ≥0) : System where
  coordinator := { maxInflight, maxPending }
  now := t₀

lemma inv_initial (maxInflight maxPending : Nat) (t₀ : ℚ≥0) :
    Inv (.initial maxInflight maxPending t₀) := by
  constructor <;> simp [System.initial]

/-! ### Grants and the end of a cooldown -/

lemma System.eq_of_token (hr : r ∈ w.requests.rows) (hr' : r' ∈ w.requests.rows)
    (htoken : r'.token = r.token) : r' = r := by
  have hget := Table.mem_rows_iff.mp hr'
  rw [htoken, Table.mem_rows_iff.mp hr] at hget
  exact (Option.some.inj hget).symm

/-- The coordinator lets a request through. -/
def System.Passes (w : System) (key : ControlKey) : Prop :=
  w.coordinator.blockedUntil key ≤ w.now ∧ w.coordinator.probeBlocked w.now key = false

lemma Request.polled_lease (r : Request) (c : ZenRequestCoordinator) (ticket : Nat)
    (cancelled : Bool) (hfree : r.lease = none) :
    ∃ r', (r.polled w c ticket cancelled).requests = w.requests.put r' ∧ r'.token = r.token ∧
      (r'.lease.isSome → c.blockedUntil r.key ≤ w.now ∧ c.probeBlocked w.now r.key = false) := by
  unfold Request.polled
  rcases poll_cases c r.token r.key ticket r.deadline w.now cancelled with
    ⟨message, hpoll⟩ | hpoll | ⟨hpoll, huntil, hprobe, -⟩
  · rw [hpoll]
    exact ⟨_, rfl, rfl, by simp [hfree]⟩
  · rw [hpoll]
    exact ⟨_, rfl, rfl, by simp [hfree]⟩
  · rw [hpoll]
    exact ⟨_, rfl, rfl, fun _ => ⟨huntil, hprobe⟩⟩

/-- A step of a request gives a lease only where the coordinator lets it through. -/
lemma Inv.moves_lease (h : Inv w) (hr : r ∈ w.requests.rows) (hm : r.Moves p w e w') :
    (∃ r', w'.requests = w.requests.put r' ∧ r'.token = r.token ∧
      (r'.lease.isSome → r.lease.isSome ∨ w.Passes r.key)) ∨
    ∀ x ∈ w'.requests.rows, x ∈ w.requests.rows := by
  have hholds := h.holds r hr
  unfold Request.HoldsRight at hholds
  cases hm with
  | start hphase =>
    rw [hphase] at hholds
    unfold Request.started
    split_ifs with hbudget
    · cases r.lastError with
      | none => exact Or.inl ⟨_, rfl, rfl, Or.inl⟩
      | some failure => exact Or.inl ⟨_, rfl, rfl, Or.inl⟩
    · obtain ⟨r', hrequests, htoken, hlease⟩ := Request.polled_lease (w := w)
        { r with used := r.used + 1 } (w.coordinator.enqueue r.key).2 _ _ hholds
      exact Or.inl ⟨r', hrequests, htoken, fun hheld => Or.inr (hlease hheld)⟩
  | poll hphase =>
    rw [hphase] at hholds
    obtain ⟨r', hrequests, htoken, hlease⟩ := r.polled_lease _ _ _ hholds
    exact Or.inl ⟨r', hrequests, htoken, fun hheld => Or.inr (hlease hheld)⟩
  | accept | reply | fail => exact Or.inl ⟨_, rfl, rfl, Or.inl⟩
  | settle => exact Or.inl ⟨_, rfl, rfl, Or.inl⟩
  | decline | unwind => exact Or.inl ⟨_, rfl, rfl, nofun⟩
  | observe hphase =>
    unfold Request.observed
    split_ifs
    · exact Or.inl ⟨_, rfl, rfl, Or.inl⟩
    · exact Or.inl ⟨_, rfl, rfl, Or.inl⟩
  | handle hphase =>
    unfold Request.handled
    split_ifs
    · split
      · exact Or.inl ⟨_, rfl, rfl, nofun⟩
      · exact Or.inl ⟨_, rfl, rfl, nofun⟩
    · exact Or.inl ⟨_, rfl, rfl, nofun⟩
  | resume hphase =>
    unfold Request.resumed
    split_ifs
    · exact Or.inl ⟨_, rfl, rfl, Or.inl⟩
    · exact Or.inl ⟨_, rfl, rfl, Or.inl⟩
    · exact Or.inl ⟨_, rfl, rfl, Or.inl⟩
    · exact Or.inr fun x hx => hx
  | close hphase => exact Or.inr fun x hx => List.mem_of_mem_filter hx

/-- A lease is granted only where the coordinator lets the request through. -/
lemma Inv.grant_passes (h : Inv w) (hs : w.step p e = some w') (hr : r ∈ w.requests.rows)
    (hr' : r' ∈ w'.requests.rows) (htoken : r'.token = r.token) (hfree : r.lease = none)
    (hheld : r'.lease.isSome) : w.Passes r.key := by
  have hold : r' ∉ w.requests.rows := by
    intro hmem
    obtain rfl := System.eq_of_token hr hmem htoken
    rw [hfree] at hheld
    cases hheld
  cases System.steps_of_step hs with
  | elapse => exact absurd hr' hold
  | full => exact absurd hr' hold
  | register hregister =>
    rcases Table.mem_put_iff.mp hr' with rfl | ⟨hmem, -⟩
    · cases hheld
    · exact absurd hmem hold
  | @request _ x _ hx _ hm =>
    rcases h.moves_lease hx hm with ⟨x', hrequests, htoken', hlease⟩ | hsub
    · rw [hrequests] at hr'
      rcases Table.mem_put_iff.mp hr' with rfl | ⟨hmem, -⟩
      · obtain rfl := System.eq_of_token hr hx (htoken'.symm.trans htoken)
        refine (hlease hheld).resolve_left fun hheld => ?_
        rw [hfree] at hheld
        cases hheld
      · exact absurd hmem hold
    · exact absurd (hsub _ hr') hold

/-- A settlement ends a cooldown only for the claim it names, and only on success. -/
lemma ZenRequestCoordinator.settle_ends {k : ControlKey} {receipt : Option ProbeClaim}
    {successful : Bool} (hcooldown : (c.cooldowns key).isSome)
    (hends : (c.settle k receipt successful).cooldowns key = none) :
    key = k ∧ successful = true ∧ ∃ claim, c.probes k = some claim ∧ receipt = some claim := by
  unfold settle at hends
  by_cases hclaimed : (c.probes k).isSome ∧ receipt = c.probes k
  · rw [if_pos hclaimed] at hends
    obtain ⟨claim, hclaim⟩ := Option.isSome_iff_exists.mp hclaimed.1
    cases successful with
    | false => simp [show c.cooldowns key = none from hends] at hcooldown
    | true =>
      have hkey : key = k := by
        by_contra hne
        simp only [if_true] at hends
        rw [Function.update_of_ne hne] at hends
        simp [hends] at hcooldown
      exact ⟨hkey, rfl, claim, hclaim, hclaimed.2.trans hclaim⟩
  · rw [if_neg hclaimed] at hends
    simp [hends] at hcooldown

lemma Request.polled_cooldowns (c : ZenRequestCoordinator) (cancelled : Bool) :
    (r.polled w c ticket cancelled).coordinator.cooldowns = c.cooldowns := by
  unfold Request.polled
  rcases poll_cases c r.token r.key ticket r.deadline w.now cancelled with
    ⟨message, hpoll⟩ | hpoll | ⟨hpoll, -⟩ <;> rw [hpoll] <;> rfl

lemma Request.leaseReturned_cooldowns (c : ZenRequestCoordinator) :
    (r.leaseReturned c).cooldowns = c.cooldowns := by
  unfold Request.leaseReturned
  split <;> rfl

lemma observeFailure_cooldowns (receipt : Option ProbeClaim) (now : ℚ) (used : Nat)
    (failure : Failure) {k : ControlKey} (hcooldown : (c.cooldowns key).isSome) :
    (observeFailure p c k receipt now used failure).2.cooldowns key ≠ none := by
  intro hends
  have hkept : c.cooldowns key ≠ none := fun hnone => by simp [hnone] at hcooldown
  cases failure with
  | notSent reasonCode message =>
    simp only [observeFailure] at hends
    split at hends <;> exact hkept hends
  | other message => exact hkept hends
  | rejected error =>
    simp only [observeFailure] at hends
    split at hends
    · split at hends
      · by_cases hkey : key = k
        · simp [publishCooldown, hkey] at hends
        · simp [publishCooldown, Function.update_of_ne hkey, hkept] at hends
      · exact hkept hends
    · cases (settle_ends hcooldown hends).2.1

/-- Only the settlement of a request that succeeded ends a cooldown. -/
lemma Request.moves_ends (hm : r.Moves p w e w') (hcooldown : (w.coordinator.cooldowns key).isSome)
    (hends : w'.coordinator.cooldowns key = none) :
    (∃ token, e = .settle token) ∧ key = r.key ∧ r.phase = .leaving true ∧
      ∃ claim, w.coordinator.probes r.key = some claim ∧ r.receipt = some claim := by
  have hkept : w'.coordinator.cooldowns ≠ w.coordinator.cooldowns := fun heq => by
    rw [heq] at hends
    simp [hends] at hcooldown
  cases hm with
  | start =>
    refine absurd ?_ hkept
    unfold Request.started
    split
    · cases r.lastError <;> rfl
    · exact Request.polled_cooldowns _ _
  | poll => exact absurd (Request.polled_cooldowns _ _) hkept
  | accept | reply | fail => exact absurd rfl hkept
  | decline => exact absurd rfl hkept
  | close => exact absurd rfl hkept
  | unwind => exact absurd (Request.leaseReturned_cooldowns _) hkept
  | handle => exact absurd (Request.leaseReturned_cooldowns _) hkept
  | resume =>
    refine absurd ?_ hkept
    unfold Request.resumed
    split_ifs <;> rfl
  | observe =>
    unfold Request.observed at hends
    split at hends
    · cases (settle_ends hcooldown hends).2.1
    · exact absurd hends (observeFailure_cooldowns _ _ _ _ hcooldown)
  | settle hphase =>
    obtain ⟨hkey, rfl, hclaim⟩ := settle_ends hcooldown hends
    exact ⟨⟨_, rfl⟩, hkey, hphase, hclaim⟩

/-- A success ends a cooldown only when the lease was granted after its last publication. -/
lemma Inv.cooldown_ends (h : Inv w) (hs : w.step p e = some w')
    (hcooldown : (w.coordinator.cooldowns key).isSome)
    (hends : w'.coordinator.cooldowns key = none) :
    ∃ r ∈ w.requests.rows, e = .settle r.token ∧ r.phase = .leaving true ∧ r.key = key ∧
      r.seen = w.published key := by
  have hkept : w'.coordinator.cooldowns ≠ w.coordinator.cooldowns := fun heq => by
    rw [heq] at hends
    simp [hends] at hcooldown
  cases System.steps_of_step hs with
  | elapse => exact absurd rfl hkept
  | full => exact absurd rfl hkept
  | register hregister =>
    refine absurd ?_ hkept
    unfold ZenRequestCoordinator.register at hregister
    split at hregister <;> cases hregister
    rfl
  | @request _ r _ hr htoken hm =>
    obtain ⟨⟨token, rfl⟩, rfl, hphase, claim, hclaim, hreceipt⟩ :=
      Request.moves_ends hm hcooldown hends
    obtain ⟨-, x, hx, hxtoken, -, hseen⟩ := h.claims _ _ hclaim
    have hown : claim.token = r.token := h.receipts r hr claim (Or.inl hreceipt)
    obtain rfl := System.eq_of_token hr hx (hxtoken.trans hown)
    obtain rfl := Option.some.inj htoken
    exact ⟨x, hx, rfl, hphase, rfl, hseen⟩

end Zen

end Codey