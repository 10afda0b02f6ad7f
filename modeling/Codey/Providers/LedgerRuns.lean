import Codey.Lib.Lists
import Codey.Providers.ContextLedger

/-!
# Runs of a context journal

Any number of ledgers commit to one journal, and each commit may be interrupted at the lock, at
the segment or at the head. The history of a run lists the commits whose head was written.
-/

namespace Codey

namespace ContextLedger

variable {digest : Digest} {h : List Draft} {d : Disk} {l : Ledger} {e : Draft}

/-! ### Members of rows and heads -/

@[simp] lemma holds_str {row : Json} {key s : String} :
    holds row key (.str s) = true ↔ member row key = some (.str s) := by
  unfold holds
  cases member row key with
  | none => simp
  | some value => cases value <;> simp [Json.pyEq, Json.number?]

lemma holds_of_member {row : Json} {key : String} {value : Json}
    (hrow : member row key = some value) : holds row key value = true := by
  simp [holds, hrow]

lemma holds_int_iff {row : Json} {key : String} {m n : Int}
    (hrow : member row key = some (.int m)) : holds row key (.int n) = true ↔ m = n := by
  simp only [holds, hrow, Option.any_some, Json.pyEq, Json.number?, beq_iff_eq, Option.some.injEq,
    Rat.intCast_inj]
  exact eq_comm

def Draft.session (e : Draft) : String := e.ref.elim (sessionOf e.identity) (·.sessionId)

section Head

variable (digest) (n : Nat) (chain : String) (e)

@[simp] lemma isObject_headJson : isObject (some (headJson digest n chain e)) = true := rfl

@[simp] lemma member_headJson_version :
    member (headJson digest n chain e) "schema_version" = some (.int 1) := by
  simp [member, headJson]

@[simp] lemma member_headJson_identity :
    member (headJson digest n chain e) "identity" = some (.str e.identity) := by
  simp [member, headJson]

@[simp] lemma member_headJson_session :
    member (headJson digest n chain e) "session_id" = some (.str e.session) := by
  simp [member, headJson, Draft.session]

@[simp] lemma member_headJson_sequence :
    member (headJson digest n chain e) "sequence" = some (.int n) := by
  simp [member, headJson]

@[simp] lemma member_headJson_chain :
    member (headJson digest n chain e) "chain" = some (.str chain) := by
  simp [member, headJson]

@[simp] lemma member_headJson_view :
    member (headJson digest n chain e) "view" = some (.arr e.view) := by
  simp [member, headJson]

@[simp] lemma member_headJson_viewDigest :
    member (headJson digest n chain e) "view_digest" = some (.str (digest (.arr e.view))) := by
  simp [member, headJson]

@[simp] lemma member_headJson_window :
    member (headJson digest n chain e) "window_ref" = e.ref.map (·.toPayload) := by
  cases href : e.ref <;> simp [member, headJson, href]

end Head

/-! ### Histories -/

def chainOf (digest : Digest) (h : List Draft) : String := h.getLast?.elim "" (digest ·.row)

/-- The ledger that a history stands for. -/
def ledgerOf (digest : Digest) (identity : String) (given : Option ProtocolWindowRef)
    (h : List Draft) : Ledger where
  identity
  windowRef := h.getLast?.elim given (·.ref)
  sequence := h.length
  chain := chainOf digest h
  view := h.getLast?.elim (.arr []) (.arr ·.view)
  records := h.map (·.row)

@[simp] lemma chainOf_nil : chainOf digest [] = "" := rfl

@[simp] lemma chainOf_concat (h : List Draft) (e : Draft) :
    chainOf digest (h ++ [e]) = digest e.row := by simp [chainOf]

/-- The row of a commit, as the next one after a history. -/
structure Continues (digest : Digest) (h : List Draft) (e : Draft) : Prop where
  object : isObject (some e.row) = true
  version : member e.row "schema_version" = some (.int 1)
  previous : member e.row "previous" = some (.str (chainOf digest h))
  sequence : member e.row "sequence" = some (.int (h.length + 1 : ℕ))
  window : member e.row "window_ref" = e.ref.map (·.toPayload)

lemma continues_rowJson (a : CommitArgs) (ref : Option ProtocolWindowRef) (identity : String)
    (view : List Json) :
    Continues digest h ⟨identity, rowJson (h.length + 1) (chainOf digest h) a ref, view, ref⟩ := by
  constructor
  · rfl
  all_goals
    cases hdelivery : a.deliveryCommit <;> cases ref <;> by_cases hreason : a.windowOpenReason = "" <;>
      simp [member, rowJson, hdelivery, hreason]

/-- The rows of a history continue each other, and the files hold them. -/
structure Holds (digest : Digest) (h : List Draft) (d : Disk) : Prop where
  continues : ∀ done e todo, h = done ++ e :: todo → Continues digest done e
  segment : ∀ done e todo, h = done ++ e :: todo → d.segments (done.length + 1) = some e.row
  head : d.head = h.getLast?.map (headJson digest h.length (chainOf digest h))

lemma Holds.nil (hhead : d.head = none) : Holds digest [] d where
  continues _ _ _ heq := by simp at heq
  segment _ _ _ heq := by simp at heq
  head := hhead

lemma Holds.of_segments {d' : Disk} (hd : Holds digest h d) (hhead : d'.head = d.head)
    (hsegments : ∀ i ≤ h.length, d'.segments i = d.segments i) : Holds digest h d' where
  continues := hd.continues
  segment done e todo heq := by
    rw [hsegments _ (by simp [heq])]
    exact hd.segment done e todo heq
  head := hhead.trans hd.head

/-- The writes of a commit that continues a history. -/
lemma Holds.concat (hd : Holds digest h d) (he : Continues digest h e) :
    Holds digest (h ++ [e]) { writeSegment d (h.length + 1) e.row with
      head := some (headJson digest (h.length + 1) (digest e.row) e) } where
  continues done x todo heq := by
    obtain ⟨rfl, rfl, rfl⟩ | ⟨todo', rfl, rfl⟩ := eq_append_cons_of_concat heq
    · exact he
    · exact hd.continues done x todo' rfl
  segment done x todo heq := by
    obtain ⟨rfl, rfl, rfl⟩ | ⟨todo', rfl, rfl⟩ := eq_append_cons_of_concat heq
    · simp [writeSegment]
    · rw [← hd.segment done x todo' rfl]
      simp [writeSegment]
  head := by simp

/-! ### Loading -/

/-- The rows of a history are read back, from any of them on. -/
lemma readRows_eq (hd : Holds digest h d) (done todo : List Draft) (heq : h = done ++ todo) :
    readRows digest d.segments todo.length (done.length + 1) (chainOf digest done) =
      .ok (chainOf digest h, todo.map (·.row)) := by
  induction todo generalizing done with
  | nil =>
    obtain rfl := heq.trans (List.append_nil done)
    rfl
  | cons e todo ih =>
    have hrow := hd.continues done e todo heq
    have hrest := ih (done ++ [e]) (by simp [heq])
    rw [chainOf_concat, List.length_append, List.length_singleton] at hrest
    simp only [List.length_cons, readRows, hd.segment done e todo heq, hrow.object,
      holds_of_member hrow.version, holds_of_member hrow.previous, holds_of_member hrow.sequence,
      hrest, Bool.and_self, if_true]
    rfl

lemma storedRef_headJson (n : Nat) (chain : String) (e : Draft) (given : Option ProtocolWindowRef) :
    storedRef (headJson digest n chain e) given = .ok (e.ref.or given) := by
  rw [storedRef, member_headJson_window]
  cases href : e.ref with
  | none => rfl
  | some ref =>
    have hread := ProtocolWindowRef.fromPayload_toPayload ref
    simp only [ProtocolWindowRef.toPayload] at hread
    simp only [Option.map_some, ProtocolWindowRef.toPayload, hread, Option.some_or]
    rfl

lemma checkWindow_eq_ok (given : Option ProtocolWindowRef)
    (he : member e.row "window_ref" = e.ref.map (·.toPayload)) (rows : List Json) :
    checkWindow (e.ref.or given) (rows ++ [e.row]) = .ok () ↔ given = none ∨ e.ref ≠ none := by
  cases href : e.ref with
  | none => cases given <;> simp [checkWindow, he, href, isObject]
  | some ref =>
    have hread := ProtocolWindowRef.fromPayload_toPayload ref
    have hlast : (rows ++ [e.row]).getLast?.bind (member · "window_ref") =
        some ref.toPayload := by simp [he, href]
    simp only [checkWindow, Option.some_or, hlast, hread]
    simp [isObject, ProtocolWindowRef.toPayload, bind, Except.bind]

/-- What the constructor asks of the last commit. -/
structure Opens (name : String) (given : Option ProtocolWindowRef) (e : Draft) : Prop where
  identity : e.identity = name
  session : expectedSession name = "" ∨ e.session = expectedSession name
  window : given = none ∨ e.ref ≠ none

/-- A journal loads exactly when its last commit admits it, and then as its history stands. -/
theorem load_eq_ok (hd : Holds digest h d) (identity : String) (given : Option ProtocolWindowRef) :
    load digest identity given d.head d.segments = .ok l ↔
      (∀ e ∈ h.getLast?, Opens identity given e) ∧ ledgerOf digest identity given h = l := by
  obtain rfl | ⟨init, e, rfl⟩ := h.eq_nil_or_concat
  · simp [hd.head, load, ledgerOf]
  rw [List.concat_eq_append] at hd ⊢
  have hrow := hd.continues init e [] rfl
  have hrows := readRows_eq hd [] (init ++ [e]) rfl
  have hwindow := checkWindow_eq_ok given hrow.window (init.map (·.row))
  have hhead : d.head = some (headJson digest (init ++ [e]).length (digest e.row) e) := by
    simp [hd.head]
  have hsession : (expectedSession identity = "" || holds
      (headJson digest (init ++ [e]).length (digest e.row) e) "session_id"
      (.str (expectedSession identity))) = true ↔
      expectedSession identity = "" ∨ e.session = expectedSession identity := by simp
  simp only [hhead, load, isObject_headJson, holds_of_member (member_headJson_version ..),
    member_headJson_sequence, storedRef_headJson]
  simp only [except_seq_eq_ok, require_eq_ok, hsession]
  simp only [except_bind_eq_ok, Except.ok.injEq, exists_eq_left', Int.toNat_natCast,
    show readRows digest d.segments (init ++ [e]).length 1 "" = _ from hrows, List.map_append,
    List.map_singleton, hwindow, require_eq_ok, chainOf_concat]
  have hledger (hw : given = none ∨ e.ref ≠ none) :
      (⟨identity, e.ref.or given, (init ++ [e]).length, digest e.row, .arr e.view,
        init.map (·.row) ++ [e.row]⟩ : Ledger) = ledgerOf digest identity given (init ++ [e]) := by
    cases href : e.ref <;> simp_all [ledgerOf]
  constructor
  · rintro ⟨hidentity, hs, -, -, -, -, -, hw, rfl⟩
    refine ⟨?_, (hledger hw).symm⟩
    intro e' he'
    obtain rfl : e = e' := by simpa using he'
    exact ⟨by simpa using hidentity, hs, hw⟩
  · rintro ⟨hopens, rfl⟩
    obtain ⟨hidentity, hs, hw⟩ := hopens e (by simp)
    exact ⟨by simp [hidentity], hs, (), decide_eq_true (Int.natCast_nonneg _), (), by simp, (), hw,
      hledger hw⟩

/-! ### Committing -/

def Operation.window (l : Ledger) : Operation → Option ProtocolWindowRef
  | commit a => a.windowRef.or l.windowRef
  | commitExchange expectedRef _ _ _ => some expectedRef
  | openWindow windowRef _ _ _ _ => some windowRef

/-- What a call drafts: the next row of the ledger, in the window of the call. -/
lemma exists_draft_eq {op : Operation} (hdraft : op.draft l = .ok e) :
    ∃ a : CommitArgs, e = ⟨l.identity, rowJson (l.sequence + 1) l.chain a (op.window l), a.view,
      op.window l⟩ := by
  obtain ⟨a, ha, hprepare⟩ := except_bind_eq_ok.mp hdraft
  have hwindow : a.windowRef.or l.windowRef = op.window l := by
    cases op with
    | commit =>
      obtain rfl := Except.ok.inj ha
      rfl
    | commitExchange =>
      simp only [Operation.args, ContextLedger.commitExchange, except_seq_eq_ok] at ha
      obtain rfl := Except.ok.inj ha.2.2
      rfl
    | openWindow =>
      simp only [Operation.args, ContextLedger.openWindow, except_seq_eq_ok] at ha
      obtain rfl := Except.ok.inj ha.2.2.2
      rfl
  simp only [prepare, except_seq_eq_ok, hwindow] at hprepare
  exact ⟨a, (Except.ok.inj hprepare.2.2).symm⟩

/-- A ledger that stands for the beginning of a history, or all of it. -/
def Knows (digest : Digest) (h : List Draft) (l : Ledger) : Prop :=
  ∃ known rest, h = known ++ rest ∧ l = ledgerOf digest l.identity l.windowRef known

lemma Knows.append (hl : Knows digest h l) (later : List Draft) : Knows digest (h ++ later) l := by
  obtain ⟨known, rest, rfl, hknown⟩ := hl
  exact ⟨known, rest ++ later, List.append_assoc .., hknown⟩

lemma knows_ledgerOf (identity : String) (given : Option ProtocolWindowRef) :
    Knows digest h (ledgerOf digest identity given h) := by
  refine ⟨h, [], (List.append_nil h).symm, ?_⟩
  cases hlast : h.getLast? <;> simp [ledgerOf, hlast]

/-- The head is the one that a ledger knows exactly when the ledger is up to date. -/
lemma checkHead_eq_ok (hd : Holds digest h d) (hl : Knows digest h l) :
    checkHead d l = .ok () ↔ l.sequence = h.length := by
  obtain ⟨known, rest, rfl, hknown⟩ := hl
  have hsequence : l.sequence = known.length := congrArg Ledger.sequence hknown
  have hchain : l.chain = chainOf digest known := congrArg Ledger.chain hknown
  rw [checkHead, hd.head]
  cases hlast : (known ++ rest).getLast? with
  | none =>
    obtain ⟨rfl, rfl⟩ : rest = [] ∧ known = [] := by simpa using hlast
    simp
  | some e =>
    simp only [Option.map_some, isObject_headJson, Bool.true_and, require_eq_ok, Bool.and_eq_true,
      holds_int_iff (member_headJson_sequence ..), holds_str, member_headJson_chain]
    constructor
    · rintro ⟨hn, -⟩
      exact_mod_cast hn.symm
    · intro hn
      obtain rfl : rest = [] := by simpa [hsequence] using hn
      exact ⟨by exact_mod_cast hn.symm, by rw [List.append_nil, hchain]⟩

/-- A commit either leaves the ledger and the head alone, and writes at most the segment after the
last one, or it writes the head of its draft. -/
lemma perform_cases (digest : Digest) (d : Disk) (l : Ledger) (op : Operation)
    (fault : Option Fault) :
    (∃ e segments, perform digest d l op fault = ⟨⟨d.head, segments⟩, l, none, some e⟩ ∧
      ∀ i, segments i = d.segments i ∨ i = l.sequence + 1 ∧ checkHead d l = .ok ()) ∨
    ∃ draft ledger error, op.draft l = .ok draft ∧ checkHead d l = .ok () ∧
      perform digest d l op fault =
        ⟨{ writeSegment d (l.sequence + 1) draft.row with
            head := some (headJson digest (l.sequence + 1) (digest draft.row) draft) },
          ledger, some draft, error⟩ ∧
      (error ≠ none ∧ ledger = l ∨ error = none ∧ ledger = l.accept digest draft) := by
  unfold perform commit
  cases op.draft l with
  | error e => exact .inl ⟨e, d.segments, rfl, fun i => .inl rfl⟩
  | ok draft =>
    cases hhead : checkHead d l with
    | error e => exact .inl ⟨e, d.segments, rfl, fun i => .inl rfl⟩
    | ok =>
      -- the segment of an interrupted commit may have been written
      have hsegments (i : Nat) : (writeSegment d (l.sequence + 1) draft.row).segments i =
          d.segments i ∨ i = l.sequence + 1 ∧ checkHead d l = .ok () := by
        by_cases hi : i = l.sequence + 1
        · exact .inr ⟨hi, hhead⟩
        · exact .inl (if_neg hi)
      cases fault with
      | none => exact .inr ⟨draft, _, _, rfl, rfl, rfl, .inr ⟨rfl, rfl⟩⟩
      | some fault =>
        cases fault with
        | lock | segmentLost => exact .inl ⟨_, d.segments, rfl, fun i => .inl rfl⟩
        | segmentKept | headLost => exact .inl ⟨_, _, rfl, hhead ▸ hsegments⟩
        | headKept => exact .inr ⟨draft, _, _, rfl, rfl, rfl, .inl ⟨by simp, rfl⟩⟩

/-! ### Runs -/

/-- The commits whose head was written, the files, and the ledgers that are open. -/
structure State where
  history : List Draft
  disk : Disk
  live : List Ledger

/-- An empty root. -/
def State.init : State := ⟨[], ⟨none, fun _ => none⟩, []⟩

inductive Event where
  | load (identity : String) (windowRef : Option ProtocolWindowRef)
  | perform (index : Nat) (op : Operation) (fault : Option Fault)
  | crash (index : Nat)

def step (digest : Digest) (s : State) : Event → Option State
  | .load identity windowRef =>
    match load digest identity windowRef s.disk.head s.disk.segments with
    | .error _ => some s
    | .ok l => some { s with live := s.live ++ [l] }
  | .perform index op fault =>
    s.live[index]?.map fun l =>
      let outcome := perform digest s.disk l op fault
      { history := s.history ++ outcome.published.toList
        disk := outcome.disk
        live := s.live.set index outcome.ledger }
  | .crash index => if index < s.live.length
    then some { s with live := s.live.eraseIdx index } else none

/-- The files hold the history, and every open ledger stands for the beginning of it. -/
structure Sound (digest : Digest) (s : State) : Prop where
  holds : Holds digest s.history s.disk
  knows : ∀ l ∈ s.live, Knows digest s.history l

lemma Sound.init : Sound digest .init where
  holds := .nil rfl
  knows _ hl := by cases hl

/-- What a call publishes continues the history. -/
lemma Sound.continues {s : State} (hs : Sound digest s) {op : Operation} (hl : l ∈ s.live)
    (hhead : checkHead s.disk l = .ok ()) (hdraft : op.draft l = .ok e) :
    l.sequence = s.history.length ∧ l.records = s.history.map (·.row) ∧ e.identity = l.identity ∧
      Continues digest s.history e := by
  have hlength := (checkHead_eq_ok hs.holds (hs.knows l hl)).mp hhead
  obtain ⟨known, rest, heq, hknown⟩ := hs.knows l hl
  have hsequence : l.sequence = known.length := congrArg Ledger.sequence hknown
  obtain rfl : rest = [] := by simpa [heq, hsequence] using hlength
  rw [List.append_nil] at heq
  obtain ⟨a, rfl⟩ := exists_draft_eq hdraft
  have hchain : l.chain = chainOf digest s.history := heq ▸ congrArg Ledger.chain hknown
  refine ⟨hlength, heq ▸ congrArg Ledger.records hknown, rfl, ?_⟩
  rw [hlength, hchain]
  exact continues_rowJson a _ _ _

lemma Sound.step {s s' : State} {event : Event} (hs : Sound digest s)
    (hstep : step digest s event = some s') : Sound digest s' := by
  cases event with
  | load identity windowRef =>
    cases hload : load digest identity windowRef s.disk.head s.disk.segments with
    | error e =>
      simp only [ContextLedger.step, hload, Option.some.injEq] at hstep
      exact hstep ▸ hs
    | ok l =>
      simp only [ContextLedger.step, hload, Option.some.injEq] at hstep
      subst hstep
      obtain ⟨-, rfl⟩ := (load_eq_ok hs.holds identity windowRef).mp hload
      refine ⟨hs.holds, fun l hl => ?_⟩
      obtain hl | hl := List.mem_append.mp hl
      · exact hs.knows l hl
      · obtain rfl := List.mem_singleton.mp hl
        exact knows_ledgerOf identity windowRef
  | crash index =>
    obtain ⟨-, hstep⟩ := Option.ite_none_right_eq_some.mp hstep
    obtain rfl := Option.some.inj hstep
    exact ⟨hs.holds, fun l hl => hs.knows l (List.mem_of_mem_eraseIdx hl)⟩
  | perform index op fault =>
    obtain ⟨l, hindex, rfl⟩ := Option.map_eq_some_iff.mp hstep
    have hl := List.mem_of_getElem? hindex
    obtain ⟨e, segments, houtcome, hsegments⟩ |
      ⟨e, ledger, error, hdraft, hhead, houtcome, hledger⟩ :=
      perform_cases digest s.disk l op fault
    · simp only [houtcome, Option.toList_none, List.append_nil]
      refine ⟨hs.holds.of_segments rfl fun i hi => ?_, fun l' hl' => ?_⟩
      · obtain heq | ⟨rfl, hhead⟩ := hsegments i
        · exact heq
        · have := (checkHead_eq_ok hs.holds (hs.knows l hl)).mp hhead
          omega
      · obtain hl' | rfl := List.mem_or_eq_of_mem_set hl'
        · exact hs.knows l' hl'
        · exact hs.knows _ hl
    · obtain ⟨hlength, hrecords, hidentity, hcontinues⟩ := hs.continues hl hhead hdraft
      simp only [houtcome, Option.toList_some]
      refine ⟨hlength ▸ hs.holds.concat hcontinues, fun l' hl' => ?_⟩
      obtain hl' | rfl := List.mem_or_eq_of_mem_set hl'
      · exact (hs.knows l' hl').append [e]
      · obtain ⟨-, rfl⟩ | ⟨-, rfl⟩ := hledger
        · exact (hs.knows _ hl).append [e]
        · refine ⟨s.history ++ [e], [], (List.append_nil _).symm, ?_⟩
          simp [ledgerOf, Ledger.accept, hlength, hrecords]

lemma Sound.of_reach {ok : State → Event → Prop} {s : State}
    (hs : Steps.Reach (ContextLedger.step digest) ok .init s) : Sound digest s :=
  hs.invariant .init fun _ _ _ hs _ hstep => hs.step hstep

/-! ### Crash atomicity -/

/-- The four promises of a journal. -/
structure CrashAtomic (digest : Digest) (s : State) : Prop where
  /-- A fresh load under the identity of the journal, for no window or for a journal that has one,
  returns the commits whose head was written. -/
  fresh : ∀ identity given,
    (∀ e ∈ s.history.getLast?, e.identity = identity ∧ (given = none ∨ e.ref ≠ none)) →
    load digest identity given s.disk.head s.disk.segments =
      .ok (ledgerOf digest identity given s.history)
  failed : ∀ l ∈ s.live, ∀ op fault, (perform digest s.disk l op fault).error ≠ none →
    (perform digest s.disk l op fault).ledger = l
  /-- The segments that interrupted commits have left are not in the way. -/
  unblocked : ∀ l ∈ s.live, l.sequence = s.history.length → ∀ op e, op.draft l = .ok e →
    (perform digest s.disk l op none).error = none ∧
      (perform digest s.disk l op none).published = some e
  numbers : ∀ i e, s.history[i]? = some e → member e.row "sequence" = some (.int (i + 1 : ℕ))

def Draft.Named (e : Draft) : Prop :=
  expectedSession e.identity = "" ∨ e.session = expectedSession e.identity

/-- The call is for a window of the session that its ledger is the journal of. -/
def NamesSession (s : State) : Event → Prop
  | .perform index op _ => ∀ l ∈ s.live[index]?,
    expectedSession l.identity = "" ∨ ∀ ref ∈ op.window l, ref.sessionId = expectedSession l.identity
  | .load _ _ | .crash _ => True

instance (s : State) (event : Event) : Decidable (NamesSession s event) := by
  cases event <;> unfold NamesSession <;> infer_instance

lemma expectedSession_eq (identity : String) :
    expectedSession identity = "" ∨ expectedSession identity = sessionOf identity := by
  unfold expectedSession
  split_ifs
  · exact .inr rfl
  · exact .inl rfl

lemma named_of_window {op : Operation} (hdraft : op.draft l = .ok e)
    (hwindow : expectedSession l.identity = "" ∨
      ∀ ref ∈ op.window l, ref.sessionId = expectedSession l.identity) : e.Named := by
  obtain ⟨a, rfl⟩ := exists_draft_eq hdraft
  obtain hnone | hsessionOf := expectedSession_eq l.identity
  · exact .inl hnone
  · refine hwindow.imp_right fun hsession => ?_
    cases href : op.window l with
    | none => simp [Draft.session, hsessionOf]
    | some ref => exact hsession ref href

lemma named_step {s s' : State} {event : Event} (hnamed : ∀ e ∈ s.history.getLast?, e.Named)
    (hevent : NamesSession s event) (hstep : step digest s event = some s') :
    ∀ e ∈ s'.history.getLast?, e.Named := by
  cases event with
  | load identity windowRef =>
    cases hload : load digest identity windowRef s.disk.head s.disk.segments <;>
      simp only [step, hload, Option.some.injEq] at hstep <;> exact hstep ▸ hnamed
  | crash index =>
    obtain ⟨-, hstep⟩ := Option.ite_none_right_eq_some.mp hstep
    exact Option.some.inj hstep ▸ hnamed
  | perform index op fault =>
    obtain ⟨l, hindex, rfl⟩ := Option.map_eq_some_iff.mp hstep
    obtain ⟨_, _, houtcome, -⟩ | ⟨e, _, _, hdraft, -, houtcome, -⟩ :=
      perform_cases digest s.disk l op fault
    · simpa [houtcome] using hnamed
    · simpa [houtcome] using named_of_window hdraft (hevent l hindex)

/-- A journal keeps its promises exactly as long as its last commit names the session of the
journal. -/
theorem Sound.crashAtomic_iff {s : State} (hs : Sound digest s) :
    CrashAtomic digest s ↔ ∀ e ∈ s.history.getLast?, e.Named := by
  constructor
  · intro hatomic e he
    have hfresh := hatomic.fresh e.identity none fun e' he' => by
      obtain rfl : e = e' := Option.mem_unique he he'
      exact ⟨rfl, .inl rfl⟩
    exact (((load_eq_ok hs.holds _ _).mp hfresh).1 e he).session
  · intro hnamed
    refine ⟨fun identity given hgiven => ?_, fun l hl op fault herror => ?_,
      fun l hl hlength op e hdraft => ?_, fun i e hi => ?_⟩
    · refine (load_eq_ok hs.holds identity given).mpr ⟨fun e he => ?_, rfl⟩
      obtain ⟨rfl, hwindow⟩ := hgiven e he
      exact ⟨rfl, hnamed e he, hwindow⟩
    · obtain ⟨_, _, houtcome, -⟩ | ⟨_, _, _, -, -, houtcome, hledger⟩ :=
        perform_cases digest s.disk l op fault
      · rw [houtcome]
      · rw [houtcome] at herror ⊢
        exact (hledger.resolve_right fun h => herror h.1).2
    · have hhead := (checkHead_eq_ok hs.holds (hs.knows l hl)).mpr hlength
      simp [perform, commit, hdraft, hhead, publish]
    · obtain ⟨hlt, rfl⟩ := List.getElem?_eq_some_iff.mp hi
      have hcontinues := hs.holds.continues (s.history.take i) s.history[i] (s.history.drop (i + 1))
        (by simp)
      have hsequence := hcontinues.sequence
      rwa [List.length_take_of_le hlt.le] at hsequence

/-- As long as every call is for a window of the session of its journal, the journal keeps its
promises in every state of every run, whatever is interrupted. -/
theorem crashAtomic_of_namesSession {s : State}
    (hs : Steps.Reach (ContextLedger.step digest) NamesSession .init s) : CrashAtomic digest s := by
  refine (Sound.of_reach hs).crashAtomic_iff.mpr ?_
  exact hs.invariant (I := fun s => ∀ e ∈ s.history.getLast?, e.Named) (by simp [State.init])
    fun _ _ _ hnamed hevent hstep => named_step hnamed hevent hstep

/-- A commit that is interrupted between its segment and the head, the crash of its writer, and the
commit of a second writer over the segment that was left. -/
theorem crashAtomic_of_namesSession_leftover : ∃ s : State,
    CrashAtomic (fun _ => "0") s ∧ s.history.map (·.view) = [[.str "kept"]] := by
  have hrun : ∃ s, Steps.Reach (step fun _ => "0") NamesSession .init s ∧
      s.history.map (·.view) = [[.str "kept"]] :=
    Steps.Reach.exists_of_run
      [.load "protocol:a" none, .load "protocol:a" none,
        .perform 0 (.commit { view := [.str "lost"] }) (some .headLost), .crash 0,
        .perform 0 (.commit { view := [.str "kept"] }) none] rfl
  obtain ⟨s, hs, hview⟩ := hrun
  exact ⟨s, crashAtomic_of_namesSession hs, hview⟩

/-- A window of the session `b`. -/
def foreignWindow : ProtocolWindowRef :=
  ⟨"b", ⟨"c", "1", "m", "responses", "h", by decide⟩, "w", by decide⟩

/-- The journal of a session accepts a window of another session, and does not load afterwards. -/
theorem not_crashAtomic_foreignWindow : ¬ ∃ digest : Digest, ∀ s : State,
    Steps.Reach (step digest) (fun _ _ => True) .init s → CrashAtomic digest s := by
  rintro ⟨digest, hall⟩
  have hrun : ∃ s, Steps.Reach (step digest) (fun _ _ => True) .init s ∧
      (∀ e ∈ s.history.getLast?, e.identity = "protocol:a") ∧
      load digest "protocol:a" none s.disk.head s.disk.segments =
        .error "context ledger session mismatch" :=
    Steps.Reach.exists_of_run
      [.load "protocol:a" none,
        .perform 0 (.commit { view := [], windowRef := some foreignWindow }) none] rfl
  obtain ⟨s, hs, hidentity, hload⟩ := hrun
  have hfresh := (hall s hs).fresh "protocol:a" none fun e he => ⟨hidentity e he, .inl rfl⟩
  rw [hload] at hfresh
  cases hfresh

end ContextLedger

end Codey
