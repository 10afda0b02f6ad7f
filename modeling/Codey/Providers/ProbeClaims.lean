import Codey.Providers.ProviderAdmission

/-!
# Who holds a probe claim

A request gives its probe claim back before it lines up again, except when it retries an attempt
that the network never carried. In the runs without such a retry no waiter waits for itself.
-/

namespace Codey

namespace Zen

open Steps ZenRequestCoordinator

variable {p : Platform} {w w' : System} {r r' : Request} {c c' : ZenRequestCoordinator}
  {key : ControlKey} {ticket : Nat} {e : Event}

/-! ### The retry that keeps its claim -/

/-- The failure is answered with another attempt while the request holds the claim of its key. -/
def Request.keepsClaim (p : Platform) (w : System) (r : Request) (failure : Failure)
    (cancelled : Bool) : Bool :=
  (match failure with
    | .notSent reasonCode _ => decide (reasonCode = "pre_submission_network_error")
    | _ => false) &&
  !r.fallsBack p w failure cancelled && decide (r.attempt + 1 < Request.maxTotal p) &&
  (w.coordinator.probes r.key).any (·.token = r.token)

/-- The event is not such a retry. -/
def givesClaimBack (p : Platform) (w : System) : Event → Bool
  | .observe token cancelled =>
    match w.requests.get? token with
    | some r =>
      match r.phase with
      | .raised failure => !r.keepsClaim p w failure cancelled
      | _ => true
    | none => true
  | _ => true

/-- Where a request may stand while it holds a probe claim. -/
def Request.MayProbe (p : Platform) (r : Request) : Prop :=
  match r.phase with
  | .starting | .waiting _ | .pausing _ => False
  | .raised failure =>
    r.lease.isSome = true ∨ ∃ message, failure = .notSent "not_submitted" message
  | .observed directive => r.retries p directive = false
  | .granted | .sending | .unwinding _ | .leaving _ | .settled => True

def Owns (c : ZenRequestCoordinator) (r : Request) (claim : ProbeClaim) : Prop :=
  c.probes r.key = some claim ∧ claim.token = r.token

/-- Claims are held on the way from a grant to the settlement, and named by the lease. -/
structure Prompt (p : Platform) (w : System) : Prop where
  probing : ∀ r ∈ w.requests.rows, ∀ claim, Owns w.coordinator r claim → r.MayProbe p
  matching : ∀ r ∈ w.requests.rows, ∀ claim, Owns w.coordinator r claim →
    ∀ receipt, r.lease = some receipt → receipt = some claim

/-- The claims of `c'` are among those of `c`. -/
def Fewer (c c' : ZenRequestCoordinator) : Prop :=
  ∀ key claim, c'.probes key = some claim → c.probes key = some claim

lemma Fewer.owns (h : Fewer c c') {claim : ProbeClaim} (ho : Owns c' r claim) : Owns c r claim :=
  ⟨h _ _ ho.1, ho.2⟩

lemma Fewer.of_eq (h : c'.probes = c.probes) : Fewer c c' := fun _ _ hclaim => h ▸ hclaim

lemma fewer_settle (c : ZenRequestCoordinator) (key : ControlKey) (receipt : Option ProbeClaim)
    (successful : Bool) : Fewer c (c.settle key receipt successful) := by
  intro k claim hclaim
  unfold settle at hclaim
  split at hclaim
  · by_cases hk : k = key
    · simp [hk] at hclaim
    · simpa [Function.update_of_ne hk] using hclaim
  · exact hclaim

lemma fewer_publishCooldown (c : ZenRequestCoordinator) (key : ControlKey) (notBefore : ℚ)
    (reason : String) : Fewer c (c.publishCooldown key notBefore reason) := by
  intro k claim hclaim
  by_cases hk : k = key
  · simp [publishCooldown, hk] at hclaim
  · simpa [publishCooldown, Function.update_of_ne hk] using hclaim

lemma fewer_leaseReturned (c : ZenRequestCoordinator) : Fewer c (r.leaseReturned c) := by
  unfold Request.leaseReturned
  split <;> exact .of_eq rfl

/-- A step of one request: the others own no more than they did. -/
lemma Prompt.change (h : Prompt p w)
    (hrequests : w'.requests = w.requests.put r') (htoken : r'.token = r.token)
    (hprobes : ∀ key claim, w'.coordinator.probes key = some claim →
      w.coordinator.probes key = some claim ∨ claim.token = r.token)
    (hown : ∀ claim, Owns w'.coordinator r' claim →
      r'.MayProbe p ∧ ∀ receipt, r'.lease = some receipt → receipt = some claim) :
    Prompt p w' := by
  have hother : ∀ x ∈ w'.requests.rows, x = r' ∨ (x ∈ w.requests.rows ∧
      ∀ claim, Owns w'.coordinator x claim → Owns w.coordinator x claim) := by
    intro x hx
    rw [hrequests] at hx
    rcases Table.mem_put_iff.mp hx with rfl | ⟨hx, hne⟩
    · exact Or.inl rfl
    · refine Or.inr ⟨hx, fun claim ho => ⟨?_, ho.2⟩⟩
      refine (hprobes _ _ ho.1).resolve_right fun hclaim => hne ?_
      rw [htoken, ← hclaim, ho.2]
  constructor
  · intro x hx claim ho
    rcases hother x hx with rfl | ⟨hx, hold⟩
    · exact (hown claim ho).1
    · exact h.probing x hx claim (hold claim ho)
  · intro x hx claim ho
    rcases hother x hx with rfl | ⟨hx, hold⟩
    · exact (hown claim ho).2
    · exact h.matching x hx claim (hold claim ho)

/-- A step that makes no new claims. -/
lemma Prompt.set (h : Prompt p w) (hr : r ∈ w.requests.rows)
    (hrequests : w'.requests = w.requests.put r') (htoken : r'.token = r.token)
    (hkey : r'.key = r.key) (hfewer : Fewer w.coordinator w'.coordinator)
    (hlease : r'.lease = r.lease ∨ r'.lease = none)
    (hmay : ∀ claim, Owns w'.coordinator r claim → r.MayProbe p → r'.MayProbe p) :
    Prompt p w' := by
  refine h.change hrequests htoken (fun key claim hclaim => Or.inl (hfewer key claim hclaim))
    fun claim ho => ?_
  have ho : Owns w'.coordinator r claim := by
    rwa [Owns, hkey, htoken] at ho
  refine ⟨hmay claim ho (h.probing r hr claim (hfewer.owns ho)), fun receipt hreceipt => ?_⟩
  rcases hlease with hlease | hlease
  · exact h.matching r hr claim (hfewer.owns ho) receipt (hlease ▸ hreceipt)
  · rw [hlease] at hreceipt
    cases hreceipt

/-! ### The steps -/

/-- A round of the wait: a request that owns no claim takes one only with a lease. -/
lemma Prompt.polled (h : Prompt p w) (hr : r ∈ w.requests.rows) (r' : Request)
    (c : ZenRequestCoordinator) (hprobes : c.probes = w.coordinator.probes)
    (htoken : r'.token = r.token) (hkey : r'.key = r.key) (hfree : r'.lease = none)
    (hnone : ∀ claim, ¬ Owns w.coordinator r claim) (cancelled : Bool) :
    Prompt p (r'.polled w c ticket cancelled) := by
  have hkept : ∀ c' : ZenRequestCoordinator, c'.probes = c.probes → ∀ ph,
      Prompt p (w.set c' { r' with phase := ph }) := by
    intro c' hc' ph
    refine h.set hr rfl htoken hkey (.of_eq (hc'.trans hprobes)) (Or.inr hfree) ?_
    intro claim ho
    exact absurd ⟨(hc'.trans hprobes) ▸ ho.1, ho.2⟩ (hnone claim)
  unfold Request.polled
  rcases poll_cases c r'.token r'.key ticket r'.deadline w.now cancelled with
    ⟨message, hpoll⟩ | hpoll | ⟨hpoll, -⟩
  · rw [hpoll]
    exact hkept (c.dequeue ticket) rfl _
  · rw [hpoll]
    exact hkept c rfl _
  · rw [hpoll]
    refine h.change rfl htoken (fun k claim hclaim => ?_) fun claim ho =>
      ⟨trivial, fun receipt hreceipt => (Option.some.inj hreceipt).symm.trans ho.1⟩
    change c.probesGranted r'.token r'.key k = some claim at hclaim
    unfold probesGranted at hclaim
    cases hcooldown : c.cooldowns r'.key with
    | none =>
      simp only [hcooldown] at hclaim
      exact Or.inl (hprobes ▸ hclaim)
    | some cooldown =>
      simp only [hcooldown] at hclaim
      by_cases hk : k = r'.key
      · rw [hk, Function.update_self] at hclaim
        obtain rfl := Option.some.inj hclaim
        exact Or.inr htoken
      · rw [Function.update_of_ne hk] at hclaim
        exact Or.inl (hprobes ▸ hclaim)

/-- A route that falls back gives the claim of its lease back. -/
lemma Prompt.not_owns_of_fallsBack (h : Prompt p w) (hr : r ∈ w.requests.rows) {failure : Failure}
    (hphase : r.phase = .raised failure) {cancelled : Bool}
    (hfallback : r.fallsBack p w failure cancelled = true) (claim : ProbeClaim) :
    ¬ Owns (w.coordinator.settle r.key r.heldReceipt false) r claim := by
  intro ho
  have hold := (fewer_settle _ _ _ _).owns ho
  have hmay := h.probing r hr claim hold
  rw [Request.MayProbe, hphase] at hmay
  rcases hmay with hheld | ⟨message, rfl⟩
  · obtain ⟨receipt, hlease⟩ := Option.isSome_iff_exists.mp hheld
    have hreceipt := h.matching r hr claim hold receipt hlease
    have hprobes := ho.1
    simp [settle, Request.heldReceipt, hlease, hreceipt, hold.1] at hprobes
  · cases hroute : r.route with
    | none => simp [Request.fallsBack, hroute] at hfallback
    | some direct => simp [Request.fallsBack, hroute, fallsBack] at hfallback

/-- A failure is observed: what is retried owns no claim. -/
lemma Prompt.observed (h : Prompt p w) (hr : r ∈ w.requests.rows) {failure : Failure}
    (hphase : r.phase = .raised failure) {cancelled : Bool}
    (hgives : r.keepsClaim p w failure cancelled = false) :
    Prompt p (r.observed p w failure cancelled) := by
  unfold Request.observed
  by_cases hfallback : r.fallsBack p w failure cancelled = true
  · rw [if_pos hfallback]
    refine h.set hr rfl rfl rfl (fewer_settle _ _ _ _) (Or.inl rfl) fun claim ho => ?_
    exact absurd ho (h.not_owns_of_fallsBack hr hphase hfallback claim)
  · rw [if_neg hfallback]
    cases failure with
    | other message =>
      exact h.set hr rfl rfl rfl (.of_eq rfl) (Or.inl rfl) fun _ _ _ => rfl
    | notSent reasonCode message =>
      simp only [observeFailure]
      split_ifs with hcode
      · subst hcode
        refine h.set hr rfl rfl rfl (.of_eq rfl) (Or.inl rfl) fun claim ho _ => ?_
        simpa [Request.keepsClaim, hfallback, show w.coordinator.probes r.key = some claim
          from ho.1, ho.2, Request.MayProbe, Request.retries] using hgives
      · exact h.set hr rfl rfl rfl (.of_eq rfl) (Or.inl rfl) fun _ _ _ => rfl
    | rejected error =>
      have hretryable := classifyRejection_retryable p.lower w.now error
      simp only [observeFailure, hretryable]
      cases (classifyRejection p.lower w.now error).notBefore with
      | none => exact h.set hr rfl rfl rfl (fewer_settle _ _ _ _) (Or.inl rfl) fun _ _ _ => rfl
      | some notBefore =>
        refine h.set hr rfl rfl rfl (fewer_publishCooldown _ _ _ _) (Or.inl rfl) fun claim ho => ?_
        have hprobes := ho.1
        simp [System.set, publishCooldown] at hprobes

lemma Prompt.moves (h : Prompt p w) (hinv : Inv w) (hr : r ∈ w.requests.rows)
    (htoken : e.token? = some r.token) (hm : r.Moves p w e w')
    (hgives : givesClaimBack p w e = true) : Prompt p w' := by
  have hholds := hinv.holds r hr
  have hmay := h.probing r hr
  unfold Request.HoldsRight at hholds
  unfold Request.MayProbe at hmay
  cases hm with
  | start hphase =>
    rw [hphase] at hmay hholds
    unfold Request.started
    split_ifs with hbudget
    · cases r.lastError with
      | none => exact h.set hr rfl rfl rfl (.of_eq rfl) (Or.inl rfl) fun _ _ _ => trivial
      | some failure =>
        exact h.set hr rfl rfl rfl (.of_eq rfl) (Or.inl rfl) fun claim ho => (hmay claim ho).elim
    · exact h.polled hr { r with used := r.used + 1 } (w.coordinator.enqueue r.key).2 rfl rfl rfl
        hholds hmay _
  | poll hphase =>
    rw [hphase] at hmay hholds
    exact h.polled hr r w.coordinator rfl rfl rfl hholds hmay _
  | accept | reply =>
    exact h.set hr rfl rfl rfl (.of_eq rfl) (Or.inl rfl) fun _ _ _ => trivial
  | settle => exact h.set hr rfl rfl rfl (fewer_settle _ _ _ _) (Or.inl rfl) fun _ _ _ => trivial
  | unwind =>
    exact h.set hr rfl rfl rfl (fewer_leaseReturned _) (Or.inr rfl) fun _ _ _ => trivial
  | @decline _ notSubmitted message hphase =>
    refine h.set hr rfl rfl rfl (.of_eq rfl) (Or.inr rfl) fun _ _ _ => ?_
    cases notSubmitted with
    | false => exact trivial
    | true => exact Or.inr ⟨message, rfl⟩
  | @fail _ failure _ hphase =>
    rw [hphase] at hholds
    refine h.set hr rfl rfl rfl (.of_eq rfl) (Or.inl rfl) fun _ _ _ => ?_
    cases failure with
    | other message => exact trivial
    | rejected error => exact Or.inl hholds
    | notSent reasonCode message => exact Or.inl hholds
  | observe hphase =>
    refine h.observed hr hphase ?_
    obtain rfl := Option.some.inj htoken
    simpa [givesClaimBack, Table.mem_rows_iff.mp hr, hphase] using hgives
  | handle hphase =>
    rw [hphase] at hmay
    unfold Request.handled
    split_ifs with hretry
    · split
      all_goals
        refine h.set hr rfl rfl rfl (fewer_leaseReturned _) (Or.inr rfl) fun claim ho => ?_
        have hstays := hmay claim ((fewer_leaseReturned _).owns ho)
        rw [hstays] at hretry
        cases hretry
    · exact h.set hr rfl rfl rfl (fewer_leaseReturned _) (Or.inr rfl) fun _ _ _ => trivial
  | resume hphase =>
    rw [hphase] at hmay
    unfold Request.resumed
    split_ifs
    · exact h.set hr rfl rfl rfl (.of_eq rfl) (Or.inl rfl) fun _ _ _ => trivial
    · exact h.set hr rfl rfl rfl (.of_eq rfl) (Or.inl rfl) fun _ _ _ => trivial
    · exact h.set hr rfl rfl rfl (.of_eq rfl) (Or.inl rfl) fun claim ho => (hmay claim ho).elim
    · exact h
  | close hphase =>
    have hfewer : Fewer w.coordinator (w.coordinator.remove r.token) := fun key claim hclaim =>
      (Option.filter_eq_some_iff.mp hclaim).1
    exact
      { probing := fun x hx claim ho =>
          h.probing x (List.mem_of_mem_filter hx) claim (hfewer.owns ho)
        matching := fun x hx claim ho =>
          h.matching x (List.mem_of_mem_filter hx) claim (hfewer.owns ho) }

/-- A step that retries nothing while it holds a claim keeps the claims prompt. -/
lemma Prompt.step (h : Prompt p w) (hinv : Inv w) (hgives : givesClaimBack p w e = true)
    (hs : w.step p e = some w') : Prompt p w' := by
  cases System.steps_of_step hs with
  | elapse => exact ⟨h.probing, h.matching⟩
  | full => exact h
  | @register key deadline route token c hregister =>
    have hold : ∀ x ∈ (w.requests.put ⟨token, key, deadline, route, 0, 0, none, none, none,
        .starting, 0⟩).rows, ∀ claim, Owns c x claim →
        x ∈ w.requests.rows ∧ Owns w.coordinator x claim := by
      unfold ZenRequestCoordinator.register at hregister
      split at hregister <;> cases hregister
      intro x hx claim ho
      rcases Table.mem_put_iff.mp hx with rfl | ⟨hx, -⟩
      · -- the token of the new request is on no claim
        obtain ⟨-, y, hy, htoken, -⟩ := hinv.claims _ _ ho.1
        have := hinv.issued y hy
        rw [htoken, ho.2] at this
        exact absurd this (Nat.not_succ_le_self _)
      · exact ⟨hx, ho⟩
    exact
      { probing := fun x hx claim ho =>
          h.probing x (hold x hx claim ho).1 claim (hold x hx claim ho).2
        matching := fun x hx claim ho =>
          h.matching x (hold x hx claim ho).1 claim (hold x hx claim ho).2 }
  | request hr htoken hm => exact h.moves hinv hr htoken hm hgives

lemma prompt_initial (maxInflight maxPending : Nat) (t₀ : ℚ≥0) :
    Prompt p (.initial maxInflight maxPending t₀) := by
  constructor <;> simp [System.initial, Table.empty]

/-! ### Limits and eligibility -/

lemma Request.moves_limits (hm : r.Moves p w e w') :
    w'.coordinator.maxInflight = w.coordinator.maxInflight ∧
      w'.coordinator.maxPending = w.coordinator.maxPending := by
  have hpolled : ∀ (x : Request) (c : ZenRequestCoordinator) ticket cancelled,
      (x.polled w c ticket cancelled).coordinator.maxInflight = c.maxInflight ∧
        (x.polled w c ticket cancelled).coordinator.maxPending = c.maxPending := by
    intro x c ticket cancelled
    unfold Request.polled
    rcases poll_cases c x.token x.key ticket x.deadline w.now cancelled with
      ⟨message, hpoll⟩ | hpoll | ⟨hpoll, -⟩ <;> rw [hpoll] <;> exact ⟨rfl, rfl⟩
  have hreturned : (r.leaseReturned w.coordinator).maxInflight = w.coordinator.maxInflight ∧
      (r.leaseReturned w.coordinator).maxPending = w.coordinator.maxPending := by
    unfold Request.leaseReturned
    split <;> exact ⟨rfl, rfl⟩
  cases hm with
  | start =>
    unfold Request.started
    split
    · cases r.lastError <;> exact ⟨rfl, rfl⟩
    · exact hpolled _ _ _ _
  | poll => exact hpolled _ _ _ _
  | accept | reply | fail => exact ⟨rfl, rfl⟩
  | decline => exact ⟨rfl, rfl⟩
  | close => exact ⟨rfl, rfl⟩
  | unwind => exact hreturned
  | handle => exact hreturned
  | resume =>
    unfold Request.resumed
    split_ifs <;> exact ⟨rfl, rfl⟩
  | observe =>
    unfold Request.observed
    split
    · exact ⟨(sameLine_settle ..).maxInflight, (sameLine_settle ..).maxPending⟩
    · obtain ⟨hline, -⟩ := observeFailure_keeps (p := p) (w := w) (r := r) _ rfl
      exact ⟨hline.maxInflight, hline.maxPending⟩
  | settle => exact ⟨(sameLine_settle ..).maxInflight, (sameLine_settle ..).maxPending⟩

lemma System.step_limits (hs : w.step p e = some w') :
    w'.coordinator.maxInflight = w.coordinator.maxInflight ∧
      w'.coordinator.maxPending = w.coordinator.maxPending := by
  cases System.steps_of_step hs with
  | elapse => exact ⟨rfl, rfl⟩
  | full => exact ⟨rfl, rfl⟩
  | register hregister =>
    unfold ZenRequestCoordinator.register at hregister
    split at hregister <;> cases hregister
    exact ⟨rfl, rfl⟩
  | request _ _ hm => exact Request.moves_limits hm

/-- A request that is not between a grant and its close. -/
def Request.Resting (r : Request) : Prop :=
  match r.phase with
  | .starting | .waiting _ | .pausing _ => True
  | _ => False

instance (r : Request) : Decidable r.Resting := by
  unfold Request.Resting
  split <;> infer_instance

/-- Nobody is served, and the cooldown of the first waiter has passed: it is the next one. -/
lemma Prompt.eligible_head (h : Prompt p w) (hinv : Inv w) (hroom : 0 < w.coordinator.maxInflight)
    (hrest : ∀ r ∈ w.requests.rows, r.Resting) (hhead : w.coordinator.waiters.head? = some ticket)
    (hmeta : w.coordinator.waiterMeta ticket = some key)
    (hpassed : w.coordinator.blockedUntil key ≤ w.now) :
    w.coordinator.eligible w.now = some ticket := by
  have hidle : w.coordinator.inflight = 0 := by
    rw [hinv.leases, List.countP_eq_zero]
    intro r hr hheld
    have hholds := hinv.holds r hr
    have hresting := hrest r hr
    unfold Request.HoldsRight at hholds
    unfold Request.Resting at hresting
    split at hresting <;> simp_all
  have hprobe : w.coordinator.probes key = none := by
    cases hclaim : w.coordinator.probes key with
    | none => rfl
    | some claim =>
      obtain ⟨-, r, hr, htoken, rfl, -⟩ := hinv.claims _ _ hclaim
      have hmay := h.probing r hr claim ⟨hclaim, htoken.symm⟩
      have hresting := hrest r hr
      unfold Request.MayProbe at hmay
      unfold Request.Resting at hresting
      split at hresting <;> simp_all
  obtain ⟨rest, hwaiters⟩ : ∃ rest, w.coordinator.waiters = ticket :: rest := by
    cases hline : w.coordinator.waiters with
    | nil => simp [hline] at hhead
    | cons t rest =>
      obtain rfl : t = ticket := by simpa [hline] using hhead
      exact ⟨rest, rfl⟩
  have hopen : w.coordinator.inflight < w.coordinator.maxInflight := hidle ▸ hroom
  rw [eligible, if_pos hopen, hwaiters, List.find?_cons]
  simp [hmeta, hpassed, probeBlocked, hprobe]

/-! ### Every run -/

/-- In every run leases are counted and bounded, a lease on a key that cools down is granted only
after its instant and to one probe at a time, and a success ends only a cooldown that is older than
its lease. In a run without a retry that keeps its claim, no waiter waits for its own claim, and
the first waiter is eligible as soon as nobody else is served and its cooldown has passed. -/
theorem provider_admission {maxInflight maxPending : Nat} {t₀ : ℚ≥0}
    (hreach : Reach (System.step p) (fun _ _ => True) (.initial maxInflight maxPending t₀) w) :
    w.coordinator.inflight = w.requests.rows.countP (·.lease.isSome) ∧
    w.coordinator.inflight ≤ maxInflight ∧
    w.coordinator.pending = w.requests.rows.map (·.token) ∧
    w.coordinator.pending.length ≤ maxPending ∧
    (∀ e w', w.step p e = some w' → ∀ r ∈ w.requests.rows, ∀ r' ∈ w'.requests.rows,
      r'.token = r.token → r.lease = none → r'.lease.isSome →
      ∀ cooldown, w.coordinator.cooldowns r.key = some cooldown →
        cooldown.notBefore ≤ w.now ∧ w.coordinator.probes r.key = none) ∧
    (∀ e w', w.step p e = some w' → ∀ key, (w.coordinator.cooldowns key).isSome →
      w'.coordinator.cooldowns key = none → ∃ r ∈ w.requests.rows, e = .settle r.token ∧
        r.phase = .leaving true ∧ r.key = key ∧ r.seen = w.published key) ∧
    (Reach (System.step p) (fun w e => givesClaimBack p w e = true)
        (.initial maxInflight maxPending t₀) w →
      (∀ r ∈ w.requests.rows, ∀ ticket, r.phase = .waiting ticket →
        ∀ claim, w.coordinator.probes r.key = some claim → claim.token ≠ r.token) ∧
      (0 < maxInflight → (∀ r ∈ w.requests.rows, r.Resting) → ∀ ticket key,
        w.coordinator.waiters.head? = some ticket →
        w.coordinator.waiterMeta ticket = some key → w.coordinator.blockedUntil key ≤ w.now →
        w.coordinator.eligible w.now = some ticket)) := by
  have hinv : Inv w := hreach.invariant (inv_initial ..) fun _ _ _ h _ hs => h.step hs
  have hlimits : w.coordinator.maxInflight = maxInflight ∧
      w.coordinator.maxPending = maxPending := by
    refine hreach.invariant (I := fun w => w.coordinator.maxInflight = maxInflight ∧
      w.coordinator.maxPending = maxPending) ⟨rfl, rfl⟩ fun _ _ _ h _ hs => ?_
    obtain ⟨hinflight, hpending⟩ := System.step_limits hs
    exact ⟨hinflight.trans h.1, hpending.trans h.2⟩
  refine ⟨hinv.leases, hlimits.1 ▸ hinv.bound, hinv.pending, hlimits.2 ▸ hinv.capacity, ?_,
    fun _ _ hs _ hcooldown hends => hinv.cooldown_ends hs hcooldown hends, fun hgiven => ?_⟩
  · intro e w' hs r hr r' hr' htoken hfree hheld cooldown hcooldown
    have hpasses := hinv.grant_passes hs hr hr' htoken hfree hheld
    exact cooldown_of_passed hpasses.1 hpasses.2 hcooldown
  · have hprompt : Prompt p w := by
      refine (hgiven.invariant (I := fun w => Inv w ∧ Prompt p w)
        ⟨inv_initial .., prompt_initial ..⟩ fun _ _ _ h hgives hs => ?_).2
      exact ⟨h.1.step hs, h.2.step h.1 hgives hs⟩
    constructor
    · intro r hr ticket hphase claim hclaim htoken
      have hmay := hprompt.probing r hr claim ⟨hclaim, htoken⟩
      rwa [Request.MayProbe, hphase] at hmay
    · intro hroom hrest ticket key hhead hmeta hpassed
      exact hprompt.eligible_head hinv (hlimits.1 ▸ hroom) hrest hhead hmeta hpassed

/-! ### Runs of two requests -/

/-- A process that changes no routes. -/
def plain : Platform where
  lower := id
  isWindows := false

def someKey : ControlKey := (⟨"https://zen", "key", "1"⟩, "model")

/-- Token 1 is rejected, waits for the cooldown it published, and is let through as its probe. -/
def probing : List Event :=
  [.register someKey 100 none, .register someKey 100 none, .start 1 false, .accept 1,
   .fail 1 (.rejected ⟨429, "slow down", none, "rate_limit", "", ""⟩) 0, .observe 1 false,
   .release 1, .elapse 1, .resume 1 false, .start 1 false, .accept 1]

/-- The probe has answered and given its lease back, but has not settled: the second request, first
in the line, is not eligible although no lease is held and the instant of the cooldown has passed.
And a probe that the network did not carry comes to wait for itself. -/
theorem first_waiter_not_eligible :
    (∃ w, Reach (System.step plain) (fun _ _ => True) (.initial 3 8 0) w ∧
      (∀ r ∈ w.requests.rows, r.lease = none) ∧ w.coordinator.waiters.head? = some 3 ∧
      w.coordinator.waiterMeta 3 = some someKey ∧ w.coordinator.blockedUntil someKey ≤ w.now ∧
      w.coordinator.eligible w.now ≠ some 3) ∧
    (∃ w, Reach (System.step plain) (fun _ _ => True) (.initial 3 8 0) w ∧
      ∃ r ∈ w.requests.rows, r.phase = .waiting 3 ∧
        w.coordinator.probes r.key = some ⟨r.token, 1⟩) := by
  constructor
  · refine Reach.exists_of_run (probing ++ [.start 2 false, .reply 1 true, .release 1]) ?_
    decide +kernel
  · refine Reach.exists_of_run (probing ++
      [.fail 1 (.notSent "pre_submission_network_error" "no route") 0, .observe 1 false,
       .release 1, .elapse 10, .resume 1 false, .start 1 false]) ?_
    decide +kernel

/-- The first request is rejected and waits out its cooldown, in line before the second. -/
theorem provider_admission_two_requests :
    ∃ w : System, w.coordinator.cooldowns someKey ≠ none ∧ w.coordinator.eligible w.now = some 2 := by
  obtain ⟨w, hgiven, hrest, hhead, hmeta, hpassed, hcooldown⟩ :
      ∃ w, Reach (System.step plain) (fun w e => givesClaimBack plain w e = true)
          (.initial 3 8 0) w ∧
        (∀ r ∈ w.requests.rows, r.Resting) ∧ w.coordinator.waiters.head? = some 2 ∧
        w.coordinator.waiterMeta 2 = some someKey ∧
        w.coordinator.blockedUntil someKey ≤ w.now ∧
        (w.coordinator.cooldowns someKey).isSome := by
    refine Reach.exists_of_run (probing.take 7 ++ [.start 2 false, .elapse 1]) ?_
    decide +kernel
  have hreach : Reach (System.step plain) (fun _ _ => True) (.initial 3 8 0) w :=
    hgiven.mono fun _ _ _ => trivial
  obtain ⟨-, -, -, -, -, -, hprompt⟩ := provider_admission hreach
  refine ⟨w, fun hnone => ?_,
    (hprompt hgiven).2 (by decide) hrest 2 someKey hhead hmeta hpassed⟩
  rw [hnone] at hcooldown
  cases hcooldown

end Zen

end Codey
