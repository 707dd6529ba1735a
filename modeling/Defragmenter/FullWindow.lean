import Defragmenter.Completion

/-! The window is full. When the base library takes everything and the friends
are connected, whatever comes in or expires, a message has as many parts under
way as its window holds or as are left. The loops of the window go on to parts
that were never sent, so the only part that goes out again is one whose record
has just expired. -/
namespace Defragmenter.FullWindow
open Database Split Receipts Sender Moves Provenance Tracking Accounting Messages Window
open Bookkeeping Anchoring PendingQuery Stranding ClientView Completion Runs

/-- Every message that the client has a number for and that is not completed
has all parts under way that it can have. -/
def WindowsFull (w : World) (s : State) : Prop :=
  ∀ a friendNumber id bytes n, .returned a friendNumber id bytes n ∈ s.events →
    (∀ f r, .completed a f r ∉ s.events) → ∃ m, s.heap a = some m ∧
      m.numTransit = min w.params.fragmentsAtATime (m.numParts - m.numConfirmed)

/-- The call with this number was for part `p` of message `a`. -/
def CallFor (s : State) (n a p : Nat) : Prop := ∃ call, s.base[n]? = some call ∧ call.part = some (a, p)

/-- The record of call `i` as a pass that begins here comes to it: it is in the
table, or it is made in the pass, which reads the clock once for each call. -/
def RecordOf (w : World) (s : State) (i : Nat) (r : ReceiptRecord) : Prop :=
  r.receipt = w.answer i ∧ if i < s.base.length then ∃ k, s.receipts.receipts k = r
    else r.timestamp = w.clock (s.ticks + 1 + (i - s.base.length))

/-- The last call for the part before call `n`, and its record, which has expired
by the time a pass that begins in `s` reads. -/
def AfterExpiry (w : World) (s s' : State) (n a p : Nat) : Prop :=
  ∃ i < n, CallFor s' i a p ∧ (∀ k, i < k → k < n → ¬ CallFor s' k a p) ∧
    ∃ r, RecordOf w s i r ∧ r.msg = a ∧ r.partNo = p ∧ expired w (w.clock s.ticks) r = true

/-- Of the calls that a step makes for fragments, those for a part that was sent
before are made by a periodic pass, after the record of the last one expired. -/
def ResendsExpired (w : World) (s : State) (op : Op) (s' : State) : Prop :=
  ∀ n a p, s.base.length ≤ n → CallFor s' n a p → (∃ i < n, CallFor s' i a p) →
    op = .periodic ∧ AfterExpiry w s s' n a p

variable {w : World} {v v' : View} {label : Label} {s s' : State} {taken taken' : Option Nat}
  {forming forming' : Option (Nat × List UInt8)} {msg i a p k n : Nat} {m m' : MsgOutbound}

/-! ## The count -/

/-- With all parts out, each that is not confirmed has its record. -/
theorem rest_le_waiting (steady : Steady w s) (found : s.heap a = some m)
    (all : m.numParts ≤ m.lastSent + 1) :
    (Finset.range m.numParts \ confirmedParts m).card ≤ (waiting ⟨s, none, none⟩ a).card := by
  have going := steady.paced.going a m found
  have covers : Finset.range m.numParts \ confirmedParts m ⊆
      (waiting ⟨s, none, none⟩ a).image fun k => (s.receipts.receipts k).partNo - 1 := by
    intro i member
    obtain ⟨inside, open_⟩ := Finset.mem_sdiff.mp member
    have before := Finset.mem_range.mp inside
    have unconfirmed : (part m i).confirmed = false :=
      Bool.eq_false_iff.mpr fun confirmed => open_ (Finset.mem_filter.mpr ⟨inside, confirmed⟩)
    have sent : (part m i).receipt ≠ 0 := fun none => going.out i (by omega) ⟨none, unconfirmed⟩
    obtain ⟨k, live, mine, number⟩ := steady.covered a m i nofun found sent unconfirmed
    have number : (s.receipts.receipts k).partNo = i + 1 := number
    refine Finset.mem_image.mpr ⟨k, (mem_waiting steady.orderly.tabled).mpr ⟨live, mine⟩, ?_⟩
    rw [number, Nat.add_sub_cancel]
  exact Nat.le_trans (Finset.card_le_card covers) Finset.card_image_le

/-- A message that goes on has as many records as its window or its rest allows. -/
theorem full_of_steady (steady : Steady w s) (found : s.heap a = some m) :
    m.numTransit = min w.params.fragmentsAtATime (m.numParts - m.numConfirmed) := by
  obtain ⟨transit, bound⟩ := steady.windowed a m found
  have within := (accounted_of_owned steady.orderly steady.owned).within a m found
  rw [liveSlots_waiting steady.orderly.tabled, ← transit] at within
  have inside : confirmedParts m ⊆ Finset.range m.numParts := Finset.filter_subset _ _
  have rest := Finset.card_sdiff_add_card_eq_card inside
  have counted : m.numConfirmed = (confirmedParts m).card := steady.owned.counted a m found
  rw [Finset.card_range, ← counted] at rest
  rcases (steady.paced.going a m found).sated with full | all
  · omega
  · have covered := rest_le_waiting steady found all
    omega

/-! ## Calls and records -/

theorem CallFor.before (calls : CallFor s n a p) : n < s.base.length := by
  obtain ⟨call, found, _⟩ := calls
  exact (List.getElem?_eq_some_iff.mp found).1

theorem callFor_frame (base : s'.base = s.base) : CallFor s' n a p ↔ CallFor s n a p := by
  rw [CallFor, CallFor, base]

/-- One more call. -/
theorem callFor_snoc {call : BaseCall} (base : s'.base = s.base ++ [call]) :
    CallFor s' n a p ↔ CallFor s n a p ∨ n = s.base.length ∧ call.part = some (a, p) := by
  rw [CallFor, CallFor, base]
  constructor
  · rintro ⟨found, at_n, part⟩
    rcases getElem?_snoc at_n with earlier | ⟨last, rfl⟩
    · exact .inl ⟨found, earlier, part⟩
    · exact .inr ⟨last, part⟩
  · rintro (⟨found, earlier, part⟩ | ⟨rfl, part⟩)
    · exact ⟨found, getElem?_snoc_of earlier, part⟩
    · exact ⟨call, List.getElem?_concat_length, part⟩

theorem callFor_sent : CallFor (sentState w s msg m i m') n a p ↔
    CallFor s n a p ∨ n = s.base.length ∧ a = msg ∧ p = i + 1 := by
  have base : (sentState w s msg m i m').base = s.base ++ [partCall msg m i] := rfl
  rw [callFor_snoc base]
  simp only [partCall, Option.some.injEq, Prod.mk.injEq, eq_comm]

/-- A live record has its call. -/
theorem callFor_record (issued : Issued w s) (held : s.receipts.key k ≠ 0) :
    ∃ i, CallFor s i (s.receipts.receipts k).msg (s.receipts.receipts k).partNo ∧
      w.answer i = s.receipts.key k := by
  obtain ⟨i, call, at_i, part, answered⟩ := issued.recorded k held
  exact ⟨i, ⟨call, at_i, part⟩, answered⟩

/-- The parts that there were calls for are out, and within the cursor. -/
def CallsOut (v : View) : Prop :=
  ∀ i a p m, CallFor v.s i a p → v.s.heap a = some m → ¬ Blank m (p - 1) ∧ p ≤ m.lastSent + 1

/-- A live record is that of the last call for its part. -/
def LastCalls (w : World) (v : View) : Prop :=
  ∀ k, Live v k → ∀ i, CallFor v.s i (v.s.receipts.receipts k).msg (v.s.receipts.receipts k).partNo →
    w.answer i ≤ v.s.receipts.key k

/-- Messages may vanish, and what is out stays out. -/
theorem CallsOut.update (callsOut : CallsOut ⟨s, taken, forming⟩)
    (calls : ∀ i a p, CallFor s' i a p → CallFor s i a p)
    (heap : ∀ a m', s'.heap a = some m' → ∃ m, s.heap a = some m ∧ m.lastSent = m'.lastSent ∧
      ∀ k, Blank m' k → Blank m k) : CallsOut ⟨s', taken', forming'⟩ := by
  intro i a p m' called here
  obtain ⟨m, found, cursor, blank⟩ := heap a m' here
  obtain ⟨out, within⟩ := callsOut i a p m (calls i a p called) found
  exact ⟨fun none => out (blank _ none), cursor ▸ within⟩

/-- One message changes where it stands. -/
theorem CallsOut.touch (callsOut : CallsOut ⟨s, taken, forming⟩) (base : s'.base = s.base)
    (found : s.heap msg = some m) (heap : s'.heap = Function.update s.heap msg (some m'))
    (cursor : m.lastSent = m'.lastSent) (blank : ∀ k, Blank m' k → Blank m k) :
    CallsOut ⟨s', taken', forming'⟩ := by
  refine callsOut.update (fun i a p called => (callFor_frame base).mp called) fun a m₁ here => ?_
  rw [heap] at here
  obtain ⟨mine, same⟩ | ⟨_, here⟩ := heap_update_iff.mp here
  · cases same
    exact ⟨m, mine ▸ found, cursor, blank⟩
  · exact ⟨m₁, here, rfl, fun _ blank => blank⟩

theorem CallsOut.frame (callsOut : CallsOut ⟨s, taken, forming⟩)
    (calls : ∀ i a p, CallFor s' i a p → CallFor s i a p) (heap : s'.heap = s.heap) :
    CallsOut ⟨s', taken', forming'⟩ :=
  callsOut.update calls fun _ m' here => ⟨m', heap ▸ here, rfl, fun _ blank => blank⟩

/-- A part goes out, and the cursor is not behind it. -/
theorem CallsOut.sent (callsOut : CallsOut ⟨s, taken, forming⟩) (found : s.heap msg = some m)
    (accepted : w.answer s.base.length ≠ 0) (sent : PartSent m m' i (w.answer s.base.length))
    (cursors : m.lastSent ≤ m'.lastSent) (within : i ≤ m'.lastSent) :
    CallsOut ⟨sentState w s msg m i m', taken', forming'⟩ := by
  have own : ¬ Blank m' i := by
    rw [Blank, sent.part_eq, if_pos rfl]
    exact fun blank => accepted blank.1
  intro n a p m₁ called here
  rcases callFor_sent.mp called with earlier | ⟨_, rfl, rfl⟩
  · obtain ⟨mine, same⟩ | ⟨_, here⟩ := heap_update_iff.mp here
    · cases same
      obtain ⟨out, before⟩ := callsOut n a p m earlier (mine ▸ found)
      refine ⟨?_, by omega⟩
      by_cases again : p - 1 = i
      · rw [again]
        exact own
      · rw [Blank, sent.part_eq, if_neg again]
        exact out
    · exact callsOut n a p m₁ earlier here
  · obtain ⟨_, same⟩ | ⟨other, _⟩ := heap_update_iff.mp here
    · cases same
      rw [Nat.add_sub_cancel]
      exact ⟨own, by omega⟩
    · exact absurd rfl other

theorem CallsOut.move (callsOut : CallsOut v) (obliging : Obliging w) (orderly : Orderly w v)
    (other : ∀ msg, label ≠ .failed msg) (move : Move w label v v') : CallsOut v' := by
  cases move with
  | idle | passed | cleared => exact callsOut.frame (fun i a p called => called) rfl
  | @short v call none =>
    refine callsOut.frame (fun i a p called => ?_) rfl
    refine ((callFor_snoc rfl).mp called).resolve_right ?_
    rintro ⟨_, mine⟩
    rw [none] at mine
    cases mine
  | @begun s friendNumber message m _ split =>
    intro i a p m' called here
    obtain ⟨own, _⟩ | ⟨_, here⟩ := heap_update_iff.mp here
    · obtain ⟨call, found, mine⟩ := called
      have below := (orderly.issued.called found mine).1
      exact absurd own (Nat.ne_of_lt below)
    · exact callsOut i a p m' called here
  | opened found => exact callsOut.touch rfl found rfl rfl fun _ blank => blank
  | dropped | completed =>
    refine callsOut.update (fun i a p called => called) fun a m' here => ?_
    obtain ⟨_, none⟩ | ⟨_, here⟩ := heap_update_iff.mp here
    · cases none
    · exact ⟨m', here, rfl, fun _ blank => blank⟩
  | firstRefused _ _ _ _ refused | nextRefused _ _ _ _ refused | lost _ _ _ refused =>
    exact absurd refused (obliging.taken _)
  | failedRefused => exact absurd rfl (other _)
  | @firstSent s msg i message m found inside _ _ behind accepted =>
    have inside : i < m.fragments.length := (orderly.issued.shaped found).1 ▸ inside
    exact callsOut.sent found accepted (partSent_sentLast inside) behind (Nat.le_refl i)
  | @nextSent s taken msg i m found inside _ behind accepted =>
    have inside : i < m.fragments.length := (orderly.issued.shaped found).1 ▸ inside
    exact callsOut.sent found accepted (partSent_sentLast inside) (Nat.le_of_lt behind) (Nat.le_refl i)
  | failedSent => exact absurd rfl (other _)
  | @resent s now j m held late found accepted =>
    have issued : Issued w s := orderly.issued
    have inside : (s.receipts.receipts j).partNo - 1 < m.fragments.length :=
      issued.place held found
    obtain ⟨i, called, _⟩ := callFor_record issued held
    have within := (callsOut i _ _ m called found).2
    have lost : CallsOut ⟨lostState s j (s.receipts.receipts j).msg m, none, none⟩ :=
      callsOut.touch rfl found rfl rfl fun _ blank => blank
    refine lost.sent (Function.update_self ..) accepted (partSent_partSent inside) (Nat.le_refl _) ?_
    change (s.receipts.receipts j).partNo - 1 ≤ m.lastSent
    omega
  | @confirmed s _ _ j m db nonzero _ held found =>
    have heldJ : s.receipts.key j ≠ 0 := held ▸ nonzero
    have inside : (s.receipts.receipts j).partNo - 1 < m.fragments.length :=
      orderly.issued.place heldJ found
    refine callsOut.touch rfl found rfl rfl fun k blank => ?_
    rw [Blank, part_partConfirmed inside] at blank
    split at blank
    · cases blank.2
    · exact blank

/-- While the messages march on, each call is for a part that there was none for. -/
theorem CallsOut.new (callsOut : CallsOut v) (obliging : Obliging w) (marching : Marching label)
    (move : Move w label v v') (called : CallFor v'.s n a p) :
    CallFor v.s n a p ∨ n = v.s.base.length ∧ ∀ i, ¬ CallFor v.s i a p := by
  cases move with
  | idle | passed | begun | opened | dropped | confirmed | completed | cleared => exact .inl called
  | @short v call none =>
    refine ((callFor_snoc rfl).mp called).imp_right ?_
    rintro ⟨_, mine⟩
    rw [none] at mine
    cases mine
  | firstRefused _ _ _ _ refused | nextRefused _ _ _ _ refused => exact absurd refused (obliging.taken _)
  | failedRefused | failedSent => exact absurd rfl (marching.2 _)
  | lost | resent => exact absurd rfl (marching.1 _)
  | @firstSent s msg i message m found _ _ blank =>
    refine (callFor_sent.mp called).imp_right ?_
    rintro ⟨last, rfl, rfl⟩
    exact ⟨last, fun k earlier => (callsOut k _ _ m earlier found).1 blank⟩
  | @nextSent s taken msg i m found _ _ behind =>
    refine (callFor_sent.mp called).imp_right ?_
    rintro ⟨last, rfl, rfl⟩
    refine ⟨last, fun k earlier => ?_⟩
    have := (callsOut k _ _ m earlier found).2
    omega

theorem LastCalls.release (last : LastCalls w ⟨s, taken, forming⟩)
    (calls : ∀ i a p, CallFor s' i a p → CallFor s i a p)
    (kept : ∀ k, Live ⟨s', taken', forming'⟩ k → Live ⟨s, taken, forming⟩ k ∧
      s'.receipts.receipts k = s.receipts.receipts k) : LastCalls w ⟨s', taken', forming'⟩ := by
  intro k live i called
  obtain ⟨before, same⟩ := kept k live
  have key : s'.receipts.key k = s.receipts.key k := congrArg ReceiptRecord.receipt same
  change CallFor s' i (s'.receipts.receipts k).msg (s'.receipts.receipts k).partNo at called
  change w.answer i ≤ s'.receipts.key k
  rw [same] at called
  rw [key]
  exact last k before i (calls _ _ _ called)

/-- A part goes out that no live record is for. -/
theorem LastCalls.sent (last : LastCalls w ⟨s, taken, forming⟩) (obliging : Obliging w)
    (above : ∀ j, s.receipts.key j < w.answer s.base.length)
    (free : ∀ k, Live ⟨s, taken, forming⟩ k → (s.receipts.receipts k).msg = msg →
      (s.receipts.receipts k).partNo ≠ i + 1) :
    LastCalls w ⟨sentState w s msg m i m', taken, forming⟩ := by
  intro k live n called
  obtain ⟨held, untaken⟩ := live
  change CallFor (sentState w s msg m i m') n ((sentState w s msg m i m').receipts.receipts k).msg
    ((sentState w s msg m i m').receipts.receipts k).partNo at called
  change w.answer n ≤ (sentState w s msg m i m').receipts.key k
  have held : (sentState w s msg m i m').receipts.key k ≠ 0 := held
  rw [sentState_key above] at held ⊢
  rw [sentState_receipts above] at called
  by_cases new : k = s.receipts.hi
  · rw [if_pos new]
    have before : n < (s.base ++ [partCall msg m i]).length := called.before
    rw [List.length_append, List.length_singleton] at before
    rcases Nat.lt_succ_iff_lt_or_eq.mp before with earlier | same
    · exact Nat.le_of_lt (obliging.larger n s.base.length earlier)
    · rw [same]
  · rw [if_neg new] at held called ⊢
    have live : Live ⟨s, taken, forming⟩ k := ⟨held, untaken⟩
    rcases callFor_sent.mp called with earlier | ⟨_, mine, number⟩
    · exact last k live n earlier
    · exact absurd number (free k live mine)

/-- While the messages march on, no record is replaced. -/
theorem LastCalls.march (last : LastCalls w v) (obliging : Obliging w) (orderly : Orderly w v)
    (callsOut : CallsOut v) (marching : Marching label) (move : Move w label v v') : LastCalls w v' := by
  have kept : ∀ {s s' : State} {taken taken' : Option Nat} {forming forming' : Option (Nat × List UInt8)},
      LastCalls w ⟨s, taken, forming⟩ → (∀ i a p, CallFor s' i a p → CallFor s i a p) →
      s'.receipts = s.receipts → (∀ k, taken' ≠ some k → taken ≠ some k) →
      LastCalls w ⟨s', taken', forming'⟩ := by
    intro s s' taken taken' forming forming' last calls receipts less
    refine last.release calls fun k live => ⟨⟨?_, less k live.2⟩, by rw [receipts]⟩
    rw [← receipts]
    exact live.1
  cases move with
  | idle | passed | begun | opened | dropped | completed =>
    exact kept last (fun _ _ _ called => called) rfl fun _ free => free
  | @short v call none =>
    refine kept last (fun i a p called => ?_) rfl fun _ free => free
    refine ((callFor_snoc rfl).mp called).resolve_right ?_
    rintro ⟨_, mine⟩
    rw [none] at mine
    cases mine
  | confirmed => exact kept last (fun _ _ _ called => called) rfl fun _ _ => nofun
  | firstRefused _ _ _ _ refused | nextRefused _ _ _ _ refused => exact absurd refused (obliging.taken _)
  | failedRefused | failedSent => exact absurd rfl (marching.2 _)
  | lost | resent => exact absurd rfl (marching.1 _)
  | @firstSent s msg i message m found inside _ blank _ accepted =>
    refine last.sent obliging (orderly.above obliging.increasing accepted) fun k live mine number => ?_
    obtain ⟨n, called, _⟩ := callFor_record orderly.issued live.1
    exact (callsOut n _ _ m called (mine ▸ found)).1 (by rw [number]; exact blank)
  | @nextSent s taken msg i m found inside _ behind accepted =>
    refine last.sent obliging (orderly.above obliging.increasing accepted) fun k live mine number => ?_
    obtain ⟨n, called, _⟩ := callFor_record orderly.issued live.1
    have within : (s.receipts.receipts k).partNo ≤ m.lastSent + 1 := (callsOut n _ _ m called (mine ▸ found)).2
    omega
  | @cleared s _ _ j =>
    refine last.release (fun _ _ _ called => called) fun k live => ?_
    obtain ⟨held, different⟩ := live_cleared.mp live
    refine ⟨⟨held, fun same => different (Option.some.inj same).symm⟩, ?_⟩
    change ((s.receipts.clear j).trim j).receipts k = _
    rw [ReceiptTable.receipts_trim, ReceiptTable.receipts_clear_ne different]

/-! ## Expiry passes -/

theorem LastCalls.expiry {now : Nat} (last : LastCalls w v) (obliging : Obliging w) (orderly : Orderly w v)
    (owned : Owned v) (move : Move w (.expiry now) v v') : LastCalls w v' := by
  cases move with
  | lost _ _ _ refused => exact absurd refused (obliging.taken _)
  | @resent s now j m held _ found accepted =>
    have issued : Issued w s := orderly.issued
    have number := issued.part held found
    have lost : LastCalls w ⟨lostState s j (s.receipts.receipts j).msg m, none, none⟩ :=
      last.release (fun _ _ _ called => called) fun k live => by
        obtain ⟨before, _, same⟩ := live_lost live
        exact ⟨before, same⟩
    refine lost.sent obliging (above_of_increasing obliging.increasing (issued.lost j found) accepted) ?_
    intro k live mine same
    obtain ⟨before, different, kept⟩ := live_lost live
    rw [kept] at mine same
    have samePart : (s.receipts.receipts j).partNo = (s.receipts.receipts k).partNo := by omega
    exact different (owned.once orderly.tabled ⟨held, nofun⟩ before found mine.symm samePart).symm

/-- A pass that began in this state: it has read the clock for itself and for
each call, and each call was made after an expiry. -/
structure Traced (w : World) (s : State) (v : View) : Prop where
  calls : s.base.length ≤ v.s.base.length
  ticks : v.s.ticks = s.ticks + 1 + (v.s.base.length - s.base.length)
  records : ∀ k, Live v k → ∃ i,
    CallFor v.s i (v.s.receipts.receipts k).msg (v.s.receipts.receipts k).partNo ∧
      RecordOf w s i (v.s.receipts.receipts k)
  resends : ∀ n a p, s.base.length ≤ n → CallFor v.s n a p → AfterExpiry w s v.s n a p

theorem traced_begin (issued : Issued w s) : Traced w s ⟨{ s with ticks := s.ticks + 1 }, none, none⟩ := by
  refine ⟨Nat.le_refl _, ?_, fun k live => ?_, fun n a p new called => ?_⟩
  · rw [Nat.sub_self, Nat.add_zero]
  · obtain ⟨i, called, answered⟩ := callFor_record issued live.1
    have before := called.before
    refine ⟨i, called, answered.symm, ?_⟩
    rw [if_pos before]
    exact ⟨k, rfl⟩
  · have before : n < s.base.length := called.before
    omega

/-- Later calls for other parts do not come between. -/
theorem AfterExpiry.snoc {t t' : State} {call : BaseCall} (base : t'.base = t.base ++ [call])
    (after : AfterExpiry w s t n a p) (before : n ≤ t.base.length) : AfterExpiry w s t' n a p := by
  obtain ⟨i, earlier, called, between, record⟩ := after
  refine ⟨i, earlier, (callFor_snoc base).mpr (.inl called), fun k above below again => ?_, record⟩
  rcases (callFor_snoc base).mp again with old | ⟨last, _⟩
  · exact between k above below old
  · omega

theorem Traced.expiry (traced : Traced w s v) (obliging : Obliging w) (orderly : Orderly w v)
    (last : LastCalls w v) (move : Move w (.expiry (w.clock s.ticks)) v v') : Traced w s v' := by
  cases move with
  | lost _ _ _ refused => exact absurd refused (obliging.taken _)
  | @resent t _ j m held late found accepted =>
    have issued : Issued w t := orderly.issued
    have expiring : Live ⟨t, none, none⟩ j := ⟨held, by simp⟩
    have number := issued.part held found
    have partNo : (t.receipts.receipts j).partNo - 1 + 1 = (t.receipts.receipts j).partNo := by omega
    have above := above_of_increasing obliging.increasing (issued.lost j found) accepted
    have calls : s.base.length ≤ t.base.length := traced.calls
    have ticks : t.ticks = s.ticks + 1 + (t.base.length - s.base.length) := traced.ticks
    let u := sentState w (lostState t j (t.receipts.receipts j).msg m) (t.receipts.receipts j).msg
      (partLost m) ((t.receipts.receipts j).partNo - 1)
      (partSent (partLost m) ((t.receipts.receipts j).partNo - 1) (w.answer t.base.length))
    have base : u.base = t.base ++ [partCall (t.receipts.receipts j).msg (partLost m)
      ((t.receipts.receipts j).partNo - 1)] := rfl
    have longer : u.base.length = t.base.length + 1 := by
      rw [base, List.length_append, List.length_singleton]
    have calledFor : ∀ {n a p}, CallFor u n a p ↔ CallFor t n a p ∨ n = t.base.length ∧
        a = (t.receipts.receipts j).msg ∧ p = (t.receipts.receipts j).partNo := by
      intro n a p
      rw [callFor_sent, partNo]
      exact Iff.rfl
    refine ⟨?_, ?_, fun k live => ?_, fun n a p new called => ?_⟩
    · change s.base.length ≤ u.base.length
      omega
    · change t.ticks + 1 = s.ticks + 1 + (u.base.length - s.base.length)
      omega
    · have slots : ∀ k, u.receipts.receipts k = if k = t.receipts.hi then
          ⟨w.answer t.base.length, (t.receipts.receipts j).msg, (t.receipts.receipts j).partNo - 1 + 1,
            w.clock t.ticks⟩
          else (t.receipts.clear j).receipts k := fun k => sentState_receipts above
      change ∃ i, CallFor u i (u.receipts.receipts k).msg (u.receipts.receipts k).partNo ∧
        RecordOf w s i (u.receipts.receipts k)
      by_cases own : k = t.receipts.hi
      · rw [slots, if_pos own, partNo]
        refine ⟨t.base.length, calledFor.mpr (.inr ⟨rfl, rfl, rfl⟩), rfl, ?_⟩
        rw [if_neg (by omega), ticks]
      · have held : u.receipts.key k ≠ 0 := live.1
        rw [ReceiptTable.key, slots, if_neg own] at held
        have before : Live ⟨lostState t j (t.receipts.receipts j).msg m, none, none⟩ k := ⟨held, by simp⟩
        obtain ⟨live, _, same⟩ := live_lost before
        have same : (t.receipts.clear j).receipts k = t.receipts.receipts k := same
        obtain ⟨i, called, record⟩ := traced.records k live
        rw [slots, if_neg own, same]
        exact ⟨i, calledFor.mpr (.inl called), record⟩
    · change AfterExpiry w s u n a p
      rcases calledFor.mp called with old | ⟨rfl, rfl, rfl⟩
      · exact (traced.resends n a p new old).snoc base (Nat.le_of_lt old.before)
      · obtain ⟨i, called, record⟩ := traced.records j expiring
        have before : i < t.base.length := called.before
        refine ⟨i, before, calledFor.mpr (.inl called), fun k above below again => ?_,
          t.receipts.receipts j, record, rfl, rfl, late⟩
        rcases calledFor.mp again with old | ⟨same, _⟩
        · have le : w.answer k ≤ t.receipts.key j := last j expiring k old
          have key : t.receipts.key j = w.answer i := record.1
          have := obliging.larger i k above
          omega
        · omega

/-! ## Every call -/

/-- What the calls have to do with the messages and the table. -/
structure Recent (w : World) (v : View) : Prop where
  out : CallsOut v
  last : LastCalls w v

theorem Recent.initial : Recent w ⟨initialState w, none, none⟩ where
  out _ _ _ _ _ found := by cases found
  last _ live := absurd rfl live.1

/-- Readings of the clock and of the connections do not matter. -/
theorem Recent.idle {ticks polls : Nat} (recent : Recent w ⟨s, taken, forming⟩) :
    Recent w ⟨{ s with ticks, polls }, taken, forming⟩ :=
  ⟨recent.out.frame (fun _ _ _ called => called) rfl,
    recent.last.release (fun _ _ _ called => called) fun _ live => ⟨live, rfl⟩⟩

/-- Where messages march on, nothing goes out twice. -/
theorem Recent.march (recent : Recent w ⟨s, none, none⟩) (obliging : Obliging w)
    (orderly : Orderly w ⟨s, none, none⟩) (chain : Chain w Marching ⟨s, none, none⟩ ⟨s', none, none⟩) :
    Recent w ⟨s', none, none⟩ ∧
      ∀ n a p, s.base.length ≤ n → CallFor s' n a p → ∀ i < n, ¬ CallFor s' i a p := by
  refine (chain.invariant (I := fun v => Orderly w v ∧ Recent w v ∧
    ∀ n a p, s.base.length ≤ n → CallFor v.s n a p → ∀ i < n, ¬ CallFor v.s i a p) ?_
    ⟨orderly, recent, fun n a p new called => absurd called.before (Nat.not_lt.mpr new)⟩).2
  rintro label v v' marching move ⟨orderly, recent, once⟩
  refine ⟨orderly.move obliging.increasing move, ⟨recent.out.move obliging orderly marching.2 move,
    recent.last.march obliging orderly recent.out marching move⟩, fun n a p new called i earlier again => ?_⟩
  have back := fun {i : Nat} => recent.out.new (n := i) (a := a) (p := p) obliging marching move
  rcases back again with before | ⟨now, _⟩
  · rcases back called with old | ⟨_, first⟩
    · exact once n a p new old i earlier before
    · exact first i before
  · rcases back called with old | ⟨last, _⟩
    · have := old.before
      omega
    · omega

/-- In an expiry pass every call follows the expiry of its record. -/
theorem Recent.expires (recent : Recent w ⟨s, none, none⟩) (obliging : Obliging w)
    (orderly : Orderly w ⟨s, none, none⟩) (owned : Owned ⟨s, none, none⟩) (expires : Expires w s s') :
    Recent w ⟨s', none, none⟩ ∧
      ∀ n a p, s.base.length ≤ n → CallFor s' n a p → AfterExpiry w s s' n a p := by
  rcases expires with rfl | chain
  · exact ⟨recent, fun n a p new called => absurd called.before (Nat.not_lt.mpr new)⟩
  · have tick : Move w .outside ⟨s, none, none⟩ ⟨{ s with ticks := s.ticks + 1 }, none, none⟩ :=
      .idle (Nat.le_succ s.ticks)
    have begun : Recent w ⟨{ s with ticks := s.ticks + 1 }, none, none⟩ := recent.idle
    have owned₁ : Owned ⟨{ s with ticks := s.ticks + 1 }, none, none⟩ :=
      owned.move orderly obliging.increasing (fun _ => Label.noConfusion) tick
    have kept : Orderly w ⟨s', none, none⟩ ∧ Owned ⟨s', none, none⟩ ∧ Recent w ⟨s', none, none⟩ ∧
        Traced w s ⟨s', none, none⟩ := by
      refine chain.invariant (I := fun v => Orderly w v ∧ Owned v ∧ Recent w v ∧ Traced w s v) ?_
        ⟨orderly.move obliging.increasing tick, owned₁, begun, traced_begin orderly.issued⟩
      rintro label v v' rfl move ⟨orderly, owned, recent, traced⟩
      have out := recent.out.move obliging orderly (fun _ => Label.noConfusion) move
      have last := recent.last.expiry obliging orderly owned move
      exact ⟨orderly.move obliging.increasing move,
        owned.move orderly obliging.increasing (fun _ => Label.noConfusion) move, ⟨out, last⟩,
        traced.expiry obliging orderly recent.last move⟩
    exact ⟨kept.2.2.1, kept.2.2.2.resends⟩

theorem Recent.step {op : Op} (recent : Recent w ⟨s, none, none⟩) (obliging : Obliging w)
    (steady : Steady w s) (proper : Proper op) (ran : step w op s = .ok s') :
    Recent w ⟨s', none, none⟩ ∧ ResendsExpired w s op s' := by
  by_cases pass : op = .periodic
  · subst pass
    obtain ⟨s₁, polls, expires, _, rfl⟩ := periodic_expires obliging steady.orderly steady.owned
      steady.windowed steady.paced ran
    obtain ⟨recent', resends⟩ := recent.expires obliging steady.orderly steady.owned expires
    exact ⟨recent'.idle, fun n a p new called _ => ⟨rfl, resends n a p new called⟩⟩
  · have chain := (steady.paced_step obliging proper ran).2 pass
    obtain ⟨recent', once⟩ := recent.march obliging steady.orderly chain
    refine ⟨recent', fun n a p new called before => ?_⟩
    obtain ⟨i, earlier, again⟩ := before
    exact absurd again (once n a p new called i earlier)

/-! ## Runs -/

/-- After every operation the windows are full, and whatever comes next sends a
part again only once its record has expired. -/
theorem window_stays_full {ops : List Op} (obliging : Obliging w)
    (run : Run (step w) (fun _ op => Proper op) (Started w) ops s) :
    WindowsFull w s ∧ ∀ op s', Proper op → step w op s = .ok s' → ResendsExpired w s op s' := by
  have kept : Steady w s ∧ Recent w ⟨s, none, none⟩ := by
    refine run.invariant (I := fun s => Steady w s ∧ Recent w ⟨s, none, none⟩) ?_ ?_
    · intro s started
      rw [started_iff.mp started]
      exact ⟨steady_initial, .initial⟩
    · rintro s op s' ⟨steady, recent⟩ proper ran
      exact ⟨steady.step obliging proper ran, (recent.step obliging steady proper ran).1⟩
  obtain ⟨steady, recent⟩ := kept
  refine ⟨fun a f id bytes n returned open_ => ?_, fun op s' proper ran =>
    (recent.step obliging steady proper ran).2⟩
  obtain ⟨_, _, status⟩ := (told_of_run run).returned a f id bytes n returned
  rcases status with ⟨m, found, _⟩ | ⟨f', r, done⟩
  · exact ⟨m, found, full_of_steady steady found⟩
  · exact absurd done (open_ f' r)

/-- Two parts may be under way, and a record has expired by the next pass. -/
def windowOfTwo : World :=
  { behindRange with
    params := { behindRange.params with fragmentsAtATime := 2, receiptExpirationTimeMs := 0 }
    clock := fun n => 1000 + n }

/-- Of four parts, one is confirmed, and the pass sends the two again that are
under way. -/
theorem window_stays_full_of_two : ∃ s,
    Run (step windowOfTwo) (fun _ op => Proper op) (Started windowOfTwo)
      [.periodic, .receipt 1 0x80000000, .send 1 0 (List.replicate 100 1) fun _ => 0] s ∧
    s.base.length = 5 ∧ (s.heap 0).map (fun m => (m.numTransit, m.numParts, m.numConfirmed)) = some (2, 4, 1) ∧
    WindowsFull windowOfTwo s ∧
    ∀ op s', Proper op → step windowOfTwo op s = .ok s' → ResendsExpired windowOfTwo s op s' := by
  obtain ⟨s, run, checked⟩ := exists_run (step windowOfTwo) (fun _ op => Proper op)
    [.send 1 0 (List.replicate 100 1) fun _ => 0, .receipt 1 0x80000000, .periodic]
    (fun s => s.base.length = 5 ∧
      (s.heap 0).map (fun m => (m.numTransit, m.numParts, m.numConfirmed)) = some (2, 4, 1))
    (started_initialState windowOfTwo) (by decide +kernel)
  obtain ⟨calls, counts⟩ := of_decide_eq_true checked
  obtain ⟨taken, larger, online, _⟩ := obliging_behindRange
  exact ⟨s, run, calls, counts, window_stays_full ⟨taken, larger, online, by decide⟩ run⟩

end Defragmenter.FullWindow
