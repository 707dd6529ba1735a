import Defragmenter.Tracking

/-! Which numbers the client's receipt callback gets. A number for a long
message is always one the client was given. Whether any other receipt is one of
a fragment is decided by finding its record, and what is not found outside the
client's range is passed on; so a fragment's receipt stays hidden from the
client as long as its record is still there to be found. -/
namespace Defragmenter.ClientView
open Database Split Receipts Sender Moves Provenance Tracking Runs SparseSearch

/-- The client's receipt callback got only numbers the client was given. -/
structure OnlyOwnReceipts (w : World) (s : State) : Prop where
  passed : ∀ friendNumber n, .passed friendNumber n ∈ s.events →
    ∃ i call, s.base[i]? = some call ∧ call.part = none ∧ w.answer i = n
  completed : ∀ a friendNumber n, .completed a friendNumber n ∈ s.events →
    ∃ id message, .returned a friendNumber id message n ∈ s.events
  fragments : ∀ i call, s.base[i]? = some call → call.part ≠ none → w.answer i ≠ 0 →
    ∀ friendNumber a, .passed friendNumber (w.answer i) ∉ s.events ∧
      .completed a friendNumber (w.answer i) ∉ s.events

/-- The receipt is for a call that was made to this friend, and if it is one
for a fragment its record is still in the table, where the search does not
lose it. -/
def Recognised (w : World) (s : State) : Op → Prop
  | .receipt friendNumber messageId => messageId ≠ 0 ∧ ∃ p ∈ s.base.zipIdx,
      p.1.friendNumber = friendNumber ∧ w.answer p.2 = messageId ∧
      (p.1.part ≠ none → ∃ j, s.receipts.key j = messageId ∧
        ¬ Hidden s.receipts.key s.receipts.lo s.receipts.hi j)
  | _ => True

/-- The range `generateReceiptNo` draws from is one it does not leave. -/
def ProperRange (params : Params) : Prop :=
  params.receiptRangeLo ≤ params.receiptRangeHi ∧ params.receiptRangeHi < 2 ^ 32 - 1

variable {w : World} {v v' : View} {label : Label} {s s' : State} {params : Params}

theorem nextReceiptNo_inRange {last : Nat} (range : ProperRange params) (inRange : InRange params last) :
    InRange params (nextReceiptNo params last) := by
  unfold ProperRange InRange at *
  unfold nextReceiptNo
  split <;> omega

theorem avoidPending_inRange {pending : List Nat} {fuel last r : Nat} (range : ProperRange params)
    (inRange : InRange params last) (found : avoidPending params pending fuel last = .ok r) :
    InRange params r := by
  induction fuel generalizing last with
  | zero => cases found
  | succ fuel ih =>
    rw [avoidPending] at found
    split at found
    · exact ih (nextReceiptNo_inRange range inRange) found
    · cases found
      exact inRange

/-- What the events say of the messages. -/
structure Logged (w : World) (v : View) : Prop where
  last : InRange w.params v.s.lastReceipt
  /-- A message that is not under construction has the number returned for it. -/
  messages : ∀ a m, v.s.heap a = some m → (∃ bytes, v.forming = some (a, bytes)) ∨
    ∃ bytes, .returned a m.friendNumber m.id bytes m.receipt ∈ v.s.events
  returned : ∀ a friendNumber id bytes n, .returned a friendNumber id bytes n ∈ v.s.events →
    InRange w.params n
  completed : ∀ a friendNumber n, .completed a friendNumber n ∈ v.s.events →
    ∃ id bytes, .returned a friendNumber id bytes n ∈ v.s.events

theorem Logged.initial (range : ProperRange w.params) : Logged w ⟨initialState w, none, none⟩ where
  last := ⟨Nat.le_refl _, range.1⟩
  messages _ _ found := by cases found
  returned _ _ _ _ _ member := by cases member
  completed _ _ _ member := by cases member

/-- Events that return no number, and complete only what was given one. -/
def Follows (s : State) (new : List Event) : Prop :=
  (∀ a friendNumber id bytes n, .returned a friendNumber id bytes n ∉ new) ∧
    ∀ a friendNumber n, .completed a friendNumber n ∈ new →
      ∃ id bytes, .returned a friendNumber id bytes n ∈ s.events

theorem follows_nil : Follows s [] := ⟨by simp, by simp⟩

theorem Logged.frame {taken taken' : Option Nat} {forming : Option (Nat × List UInt8)}
    {new : List Event} (logged : Logged w ⟨s, taken, forming⟩) (follows : Follows s new)
    (last : s'.lastReceipt = s.lastReceipt) (events : s'.events = new ++ s.events)
    (heap : ∀ a m', s'.heap a = some m' → ∃ m, s.heap a = some m ∧
      m'.friendNumber = m.friendNumber ∧ m'.id = m.id ∧ m'.receipt = m.receipt) :
    Logged w ⟨s', taken', forming⟩ where
  last := last ▸ logged.last
  messages a m' here := by
    obtain ⟨m, found, friend, id, receipt⟩ := heap a m' here
    change _ ∨ ∃ bytes, _ ∈ s'.events
    rw [events, friend, id, receipt]
    refine (logged.messages a m found).imp_right fun ⟨bytes, member⟩ => ⟨bytes, ?_⟩
    exact List.mem_append_right _ member
  returned a f id b n member := by
    change _ ∈ s'.events at member
    rw [events] at member
    exact logged.returned a f id b n ((List.mem_append.mp member).resolve_left (follows.1 a f id b n))
  completed a f n member := by
    change _ ∈ s'.events at member
    change ∃ id bytes, _ ∈ s'.events
    rw [events] at member ⊢
    have earlier : ∃ id bytes, .returned a f id bytes n ∈ s.events := by
      rcases List.mem_append.mp member with now | before
      · exact follows.2 a f n now
      · exact logged.completed a f n before
    obtain ⟨id, bytes, earlier⟩ := earlier
    exact ⟨id, bytes, List.mem_append_right _ earlier⟩

/-- A message changes in place and keeps its number. -/
theorem Logged.update {taken taken' : Option Nat} {forming : Option (Nat × List UInt8)}
    {new : List Event} {msg : Nat} {m m' : MsgOutbound} (logged : Logged w ⟨s, taken, forming⟩)
    (follows : Follows s new) (last : s'.lastReceipt = s.lastReceipt)
    (events : s'.events = new ++ s.events) (found : s.heap msg = some m) (shape : SameShape m m')
    (receipt : m'.receipt = m.receipt) (heap : s'.heap = Function.update s.heap msg (some m')) :
    Logged w ⟨s', taken', forming⟩ := by
  refine logged.frame follows last events fun a m₁ here => ?_
  rw [heap] at here
  obtain ⟨mine, same⟩ | ⟨_, here⟩ := heap_update_iff.mp here
  · cases same
    exact ⟨m, mine ▸ found, shape.friendNumber, shape.id, receipt⟩
  · exact ⟨m₁, here, rfl, rfl, rfl⟩

theorem Logged.move (logged : Logged w v) (range : ProperRange w.params)
    (move : Move w label v v') : Logged w v' := by
  cases move with
  | idle | short | firstRefused | nextRefused | failedRefused | cleared =>
    exact logged.frame follows_nil rfl rfl fun a m here => ⟨m, here, rfl, rfl, rfl⟩
  | @passed s friendNumber receipt =>
    have follows : Follows s [.passed friendNumber receipt] := ⟨by simp, by simp⟩
    exact logged.frame follows rfl rfl fun a m here => ⟨m, here, rfl, rfl, rfl⟩
  | @begun s friendNumber message m _ split =>
    refine ⟨logged.last, fun a m' here => ?_, logged.returned, logged.completed⟩
    obtain ⟨mine, _⟩ | ⟨_, here⟩ := heap_update_iff.mp here
    · exact .inl ⟨message, by rw [mine]⟩
    · exact .inr ((logged.messages a m' here).resolve_left (by simp))
  | @opened s msg receipt type bytes m db found _ _ free =>
    have inRange : InRange w.params receipt :=
      avoidPending_inRange range (nextReceiptNo_inRange range logged.last) free
    refine ⟨inRange, fun a m' here => .inr ?_, fun a f id b n member => ?_, fun a f n member => ?_⟩
    · obtain ⟨mine, same⟩ | ⟨other, here⟩ := heap_update_iff.mp here
      · cases same
        subst mine
        exact ⟨bytes, List.mem_cons_self⟩
      · rcases logged.messages a m' here with ⟨_, same⟩ | ⟨b, earlier⟩
        · cases same
          exact absurd rfl other
        · exact ⟨b, List.mem_cons_of_mem _ earlier⟩
    · rcases List.mem_cons.mp member with same | earlier
      · cases same
        exact inRange
      · exact logged.returned a f id b n earlier
    · obtain ⟨id, b, earlier⟩ := logged.completed a f n
        ((List.mem_cons.mp member).resolve_left nofun)
      exact ⟨id, b, List.mem_cons_of_mem _ earlier⟩
  | @dropped s msg bytes m found =>
    refine ⟨logged.last, fun a m' here => .inr ?_, logged.returned, logged.completed⟩
    obtain ⟨_, none⟩ | ⟨other, here⟩ := heap_update_iff.mp here
    · cases none
    · rcases logged.messages a m' here with ⟨_, same⟩ | earlier
      · cases same
        exact absurd rfl other
      · exact earlier
  | firstSent found | nextSent found =>
    exact logged.update follows_nil rfl rfl found sameShape_sentLast rfl rfl
  | failedSent found =>
    exact logged.update follows_nil rfl rfl found sameShape_partSent rfl rfl
  | @lost s now j m _ _ found =>
    exact logged.update follows_nil rfl rfl found sameShape_partLost rfl rfl
  | @resent s now j m _ _ found =>
    have first : Logged w ⟨lostState s j (s.receipts.receipts j).msg m, none, none⟩ :=
      logged.update follows_nil rfl rfl found sameShape_partLost rfl rfl
    exact first.update follows_nil rfl rfl (Function.update_self ..) sameShape_partSent
      rfl rfl
  | @confirmed s _ _ j m db _ _ _ found =>
    have follows : Follows s [.confirmed (s.receipts.receipts j).msg (s.receipts.receipts j).partNo
        (s.receipts.key j)] := ⟨by simp, by simp⟩
    exact logged.update follows rfl rfl found sameShape_partConfirmed rfl rfl
  | @completed s _ _ j m found =>
    have given := (logged.messages _ m found).resolve_left (by simp)
    have follows : Follows s [.completed (s.receipts.receipts j).msg m.friendNumber m.receipt] := by
      refine ⟨by simp, fun a f n member => ?_⟩
      cases List.mem_singleton.mp member
      obtain ⟨bytes, earlier⟩ := given
      exact ⟨m.id, bytes, earlier⟩
    refine logged.frame follows rfl rfl fun a m' here => ?_
    obtain ⟨_, none⟩ | ⟨_, here⟩ := heap_update_iff.mp here
    · cases none
    · exact ⟨m', here, rfl, rfl, rfl⟩

/-! ## Runs -/

/-- Every number passed on was returned for a short message. -/
def PassedShort (w : World) (s : State) : Prop :=
  ∀ friendNumber n, .passed friendNumber n ∈ s.events →
    ∃ i call, s.base[i]? = some call ∧ call.part = none ∧ w.answer i = n

/-- A call that passes nothing on keeps that. -/
theorem PassedShort.keep (short : PassedShort w s) {op : Op} (proper : Proper op)
    (ran : step w op s = .ok s')
    (events : ∀ friendNumber n, .passed friendNumber n ∈ s'.events →
      .passed friendNumber n ∈ s.events) : PassedShort w s' := by
  intro friendNumber n member
  obtain ⟨i, call, found, part, answered⟩ := short friendNumber n (events friendNumber n member)
  exact ⟨i, call, base_grows (step_chain proper ran) found, part, answered⟩

theorem recognised_proper {op : Op} (recognised : Recognised w s op) : Proper op := by
  cases op with
  | receipt => exact recognised.1
  | _ => trivial

theorem passedShort_step {op : Op} (orderly : Orderly w ⟨s, none, none⟩) (short : PassedShort w s)
    (recognised : Recognised w s op) (ran : step w op s = .ok s') : PassedShort w s' := by
  have proper := recognised_proper recognised
  cases op with
  | send friendNumber type message beyond =>
    refine short.keep proper ran fun f n => ?_
    refine (send_chain ran).invariant
      (I := fun v => .passed f n ∈ v.s.events → .passed f n ∈ s.events) ?_ id
    intro label v v' sending move before member
    rcases sending with rfl | rfl | rfl <;> cases move <;>
      first | exact before member | exact before ((List.mem_cons.mp member).resolve_left nofun)
  | receipt friendNumber messageId =>
    rcases receipt_cases ran with ⟨_, _, rfl⟩ | ⟨missing, outside, rfl⟩ | processed
    · exact short
    · intro f n member
      rcases List.mem_cons.mp member with now | earlier
      · cases now
        obtain ⟨_, ⟨call, i⟩, logged, _, answered, recorded⟩ := recognised
        have found := List.mem_zipIdx_iff_getElem?.mp logged
        refine ⟨i, call, found, ?_, answered⟩
        by_contra fragment
        obtain ⟨j, held, visible⟩ := recorded fragment
        subst held
        have lookup := (ReceiptTable.findReceipt_iff orderly.tabled.ordered proper).mpr visible
        exact missing j lookup rfl
      · exact short f n earlier
    · refine short.keep proper ran fun f n member => ?_
      obtain ⟨j, m, _, _, _, done, events, only⟩ := processed.events
      rw [events, List.append_assoc] at member
      rcases List.mem_append.mp member with complete | rest
      · cases only _ complete
      · exact (List.mem_cons.mp rest).resolve_left nofun
  | periodic =>
    refine short.keep proper ran fun f n member => ?_
    obtain ⟨s₁, expires, served⟩ := periodic_cases ran
    rw [served.events, expires.frame.2.2] at member
    exact member

/-- In every run in which receipts of fragments find their records, the client
sees only its own receipts. -/
theorem only_own_receipts_of_recognised {ops : List Op} (increasing : Increasing w)
    (outside : ∀ i, w.answer i ≠ 0 → ¬ InRange w.params (w.answer i)) (range : ProperRange w.params)
    (run : Run (step w) (Recognised w) (Started w) ops s) : OnlyOwnReceipts w s := by
  obtain ⟨logged, short⟩ : Logged w ⟨s, none, none⟩ ∧ PassedShort w s := by
    have kept : Orderly w ⟨s, none, none⟩ ∧ Logged w ⟨s, none, none⟩ ∧ PassedShort w s := by
      refine run.invariant
        (I := fun s => Orderly w ⟨s, none, none⟩ ∧ Logged w ⟨s, none, none⟩ ∧ PassedShort w s) ?_ ?_
      · intro s started
        rw [started_iff.mp started]
        refine ⟨.initial, .initial range, fun _ _ member => ?_⟩
        cases member
      · intro s op s' before recognised ran
        obtain ⟨orderly, logged, short⟩ := before
        have chain := step_chain (recognised_proper recognised) ran
        exact ⟨orderly.chain increasing chain,
          chain.invariant (fun _ move before => before.move range move) logged,
          passedShort_step orderly short recognised ran⟩
    exact kept.2
  refine ⟨short, logged.completed, fun i call found fragment some f a => ⟨fun member => ?_, fun member => ?_⟩⟩
  · obtain ⟨i', call', found', part, answered⟩ := short f _ member
    have same : i = i' := increasing.inj some answered.symm
    subst same
    rw [found] at found'
    cases found'
    exact fragment part
  · obtain ⟨id, bytes, returned⟩ := logged.completed a f _ member
    exact outside i some (logged.returned a f id bytes _ returned)

/-- Receipts come for calls to their friend, and of a fragment only while its
record is the first of the table: the search never loses that one. -/
def InTurn (w : World) (s : State) : Op → Prop
  | .receipt friendNumber messageId => messageId ≠ 0 ∧ ∃ p ∈ s.base.zipIdx,
      p.1.friendNumber = friendNumber ∧ w.answer p.2 = messageId ∧
      (p.1.part ≠ none → s.receipts.lo < s.receipts.hi ∧ s.receipts.key s.receipts.lo = messageId)
  | _ => True

instance : DecidablePred (InTurn w s) := fun op =>
  match op with
  | .receipt .. => inferInstanceAs (Decidable (_ ≠ 0 ∧ ∃ p ∈ s.base.zipIdx, _ ∧ _ ∧ (_ → _ ∧ _)))
  | .send .. => .isTrue trivial
  | .periodic => .isTrue trivial

theorem recognised_of_inTurn {op : Op} (inTurn : InTurn w s op) : Recognised w s op := by
  cases op with
  | receipt friendNumber messageId =>
    obtain ⟨proper, p, logged, friend, answered, first⟩ := inTurn
    refine ⟨proper, p, logged, friend, answered, fun fragment => ?_⟩
    obtain ⟨inside, held⟩ := first fragment
    exact ⟨s.receipts.lo, held, not_hidden_first inside⟩
  | _ => trivial

/-- Receipts come for calls to their friend. -/
def Delivered (w : World) (s : State) : Op → Prop
  | .receipt friendNumber messageId => messageId ≠ 0 ∧ ∃ p ∈ s.base.zipIdx,
      p.1.friendNumber = friendNumber ∧ w.answer p.2 = messageId
  | _ => True

instance : DecidablePred (Delivered w s) := fun op =>
  match op with
  | .receipt .. => inferInstanceAs (Decidable (_ ≠ 0 ∧ ∃ p ∈ s.base.zipIdx, _ ∧ _))
  | .send .. => .isTrue trivial
  | .periodic => .isTrue trivial

/-- A long message of two parts and a short one, to the same friend. -/
def longAndShort : World := scripted { maxMessageLength := 64 } [5, 6, 7] []

theorem outside_longAndShort (i : Nat) (some : longAndShort.answer i ≠ 0) :
    ¬ InRange longAndShort.params (longAndShort.answer i) := by
  have given : longAndShort.answer i ∈ [5, 6, 7] := by
    simp only [longAndShort, scripted, List.getD_eq_getElem?_getD] at some ⊢
    cases at_i : [5, 6, 7][i]? with
    | none => simp [at_i] at some
    | some n => exact List.mem_of_getElem? at_i
  have small : longAndShort.answer i ≤ 7 := by
    simp only [List.mem_cons, List.not_mem_nil, or_false] at given
    omega
  rintro ⟨lower, _⟩
  have bound : 0x70000000 ≤ longAndShort.answer i := lower
  omega

/-- The receipts of both come in, each once. -/
theorem only_own_receipts_of_each_once : ∃ s,
    Run (step longAndShort) (Recognised longAndShort) (Started longAndShort)
      [.receipt 1 5, .receipt 1 7, .send 1 0 [1] fun _ => 0,
        .send 1 0 (List.replicate 65 1) fun _ => 0] s ∧
    .passed 1 7 ∈ s.events ∧ OnlyOwnReceipts longAndShort s := by
  obtain ⟨s, run, checked⟩ := exists_run (step longAndShort) (InTurn longAndShort)
    [.send 1 0 (List.replicate 65 1) fun _ => 0, .send 1 0 [1] fun _ => 0, .receipt 1 7,
      .receipt 1 5] (fun s => .passed 1 7 ∈ s.events)
    (started_initialState longAndShort) (by decide +kernel)
  have run : Run (step longAndShort) (Recognised longAndShort) (Started longAndShort) _ s :=
    run.weaken fun s op => recognised_of_inTurn
  exact ⟨s, run, of_decide_eq_true checked, only_own_receipts_of_recognised
    (increasing_scripted (by decide)) outside_longAndShort ⟨by decide, by decide⟩ run⟩

/-- The second time the first part's receipt comes in, the client gets it. -/
theorem duplicate_receipt_passed_on : ∃ s, Increasing longAndShort ∧
    (∀ i, longAndShort.answer i ≠ 0 → ¬ InRange longAndShort.params (longAndShort.answer i)) ∧
    Run (step longAndShort) (Delivered longAndShort) (Started longAndShort)
      [.receipt 1 5, .receipt 1 5, .send 1 0 (List.replicate 65 1) fun _ => 0] s ∧
    ¬ OnlyOwnReceipts longAndShort s := by
  obtain ⟨s, run, checked⟩ := exists_run (step longAndShort) (Delivered longAndShort)
    [.send 1 0 (List.replicate 65 1) fun _ => 0, .receipt 1 5, .receipt 1 5]
    (fun s => s.base[0]?.map (·.part) = some (some (0, 1)) ∧ .passed 1 5 ∈ s.events)
    (started_initialState longAndShort) (by decide +kernel)
  obtain ⟨fragment, passed⟩ := of_decide_eq_true checked
  obtain ⟨call, found, part⟩ := Option.map_eq_some_iff.mp fragment
  refine ⟨s, increasing_scripted (by decide), outside_longAndShort, run, fun own => ?_⟩
  have hidden := own.fragments 0 call found (by rw [part]; simp) (by decide) 1 0
  exact hidden.1 passed

end Defragmenter.ClientView
