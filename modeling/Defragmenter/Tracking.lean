import Defragmenter.Provenance

/-! The two structures the sender keeps its messages and receipts in. The
circular list names each message once and only messages that exist. As long as
the base library counts its ids up, new records go to the end of the receipt
table and the table stays in order. -/
namespace Defragmenter.Tracking
open Database Split Receipts Sender Moves Provenance Runs

variable {w : World} {v v' : View} {label : Label} {l : List Nat} {msg : Nat}

theorem mem_link {a : Nat} : a ∈ msgsOutboundLink l msg ↔ a = msg ∨ a ∈ l := by
  cases l with
  | nil => simp [msgsOutboundLink]
  | cons first rest =>
    simp only [msgsOutboundLink, List.mem_cons]
    exact or_left_comm

theorem nodup_link (nodup : l.Nodup) (new : msg ∉ l) : (msgsOutboundLink l msg).Nodup := by
  cases l with
  | nil => exact List.nodup_singleton msg
  | cons first rest =>
    have permuted : (first :: msg :: rest).Perm (msg :: first :: rest) := .swap msg first rest
    exact permuted.nodup_iff.mpr (List.nodup_cons.mpr ⟨new, nodup⟩)

/-- What unlinking leaves was in the list, is another message, and is named once. -/
theorem unlink_sublist (nodup : l.Nodup) : (msgsOutboundUnlink l msg).Nodup ∧
    ∀ a ∈ msgsOutboundUnlink l msg, a ∈ l ∧ a ≠ msg := by
  cases l with
  | nil => exact ⟨List.nodup_nil, by simp [msgsOutboundUnlink]⟩
  | cons first rest =>
    obtain ⟨new, restNodup⟩ := List.nodup_cons.mp nodup
    by_cases head : msg = first
    · subst head
      cases last : rest.getLast? with
      | none => simp [msgsOutboundUnlink, last]
      | some z =>
        obtain ⟨front, rfl⟩ := List.getLast?_eq_some_iff.mp last
        have permuted : (z :: front).Perm (front ++ [z]) := (List.perm_append_singleton z front).symm
        simp only [msgsOutboundUnlink, last, ↓reduceIte]
        split
        · exact ⟨List.nodup_nil, by simp⟩
        · rw [List.dropLast_concat]
          refine ⟨permuted.nodup_iff.mpr restNodup, fun a member => ?_⟩
          have inside : a ∈ front ++ [z] := permuted.mem_iff.mp member
          exact ⟨List.mem_cons_of_mem _ inside, fun same => new (same ▸ inside)⟩
    · have erased : (rest.erase msg).Nodup := restNodup.erase msg
      simp only [msgsOutboundUnlink, head, ↓reduceIte]
      refine ⟨List.nodup_cons.mpr ⟨fun back => new (List.mem_of_mem_erase back), erased⟩, ?_⟩
      intro a member
      rcases List.mem_cons.mp member with rfl | later
      · exact ⟨List.mem_cons_self, Ne.symm head⟩
      · have := (restNodup.mem_erase_iff).mp later
        exact ⟨List.mem_cons_of_mem _ this.2, this.1⟩

/-! ## The list -/

structure Linked (v : View) : Prop where
  nodup : v.s.msgsOutbound.Nodup
  held : ∀ a ∈ v.s.msgsOutbound, ∃ m, v.s.heap a = some m
  /-- The message under construction exists and is not in the list yet. -/
  apart : ∀ f, v.forming = some f → f.1 ∉ v.s.msgsOutbound ∧ ∃ m, v.s.heap f.1 = some m

theorem held_update {heap : Nat → Option MsgOutbound} {a : Nat} {m : MsgOutbound}
    (held : ∃ m, heap a = some m) : ∃ m', Function.update heap msg (some m) a = some m' := by
  by_cases same : a = msg
  · subst same
    exact ⟨m, Function.update_self ..⟩
  · rwa [Function.update_of_ne same]

/-- Messages change in place. -/
theorem Linked.update {s : State} {taken : Option Nat} {forming : Option (Nat × List UInt8)}
    {m : MsgOutbound} (linked : Linked ⟨s, taken, forming⟩) {s' : State} (taken' : Option Nat)
    (list : s'.msgsOutbound = s.msgsOutbound)
    (heap : s'.heap = Function.update s.heap msg (some m)) : Linked ⟨s', taken', forming⟩ where
  nodup := by
    change s'.msgsOutbound.Nodup
    rw [list]
    exact linked.nodup
  held a member := by
    change ∃ m, s'.heap a = some m
    rw [heap]
    exact held_update (linked.held a (list ▸ member))
  apart f here := by
    obtain ⟨absent, found⟩ := linked.apart f here
    refine ⟨by rw [list]; exact absent, ?_⟩
    change ∃ m, s'.heap f.1 = some m
    rw [heap]
    exact held_update found

theorem Linked.frame {s : State} {taken : Option Nat} {forming : Option (Nat × List UInt8)}
    (linked : Linked ⟨s, taken, forming⟩) {s' : State} (taken' : Option Nat)
    (list : s'.msgsOutbound = s.msgsOutbound) (heap : s'.heap = s.heap) :
    Linked ⟨s', taken', forming⟩ := by
  obtain ⟨nodup, held, apart⟩ := linked
  constructor <;> simp only [list, heap] <;> assumption

/-- The address of the message under construction is given out. -/
theorem Linked.formed (linked : Linked v) (issued : Issued w v.s) :
    ∀ f, v.forming = some f → f.1 < v.s.fresh := by
  intro f forming
  obtain ⟨m, found⟩ := (linked.apart f forming).2
  exact issued.below found

theorem Linked.move (linked : Linked v) (issued : Issued w v.s) (move : Move w label v v') :
    Linked v' := by
  cases move with
  | idle | short | firstRefused | nextRefused | failedRefused | cleared =>
    exact linked.frame _ rfl rfl
  | passed => exact linked.frame _ rfl rfl
  | @begun s friendNumber message m _ split =>
    have issued : Issued w s := issued
    have absent : s.fresh ∉ s.msgsOutbound := by
      intro member
      obtain ⟨m', found⟩ := linked.held _ member
      exact absurd (issued.below found) (Nat.lt_irrefl _)
    refine ⟨linked.nodup, fun a member => held_update (linked.held a member), fun f here => ?_⟩
    cases here
    exact ⟨absent, _, Function.update_self ..⟩
  | @opened s msg receipt type message m db found =>
    have absent := (linked.apart _ rfl).1
    refine ⟨nodup_link linked.nodup absent, fun a member => ?_, by simp⟩
    rcases mem_link.mp member with rfl | earlier
    · exact ⟨_, Function.update_self ..⟩
    · exact held_update (linked.held a earlier)
  | @dropped s msg message m found =>
    have absent := (linked.apart _ rfl).1
    refine ⟨linked.nodup, fun a member => ?_, by simp⟩
    have different : a ≠ msg := fun same => absent (same ▸ member)
    obtain ⟨m', found'⟩ := linked.held a member
    exact ⟨m', (Function.update_of_ne different _ _).trans found'⟩
  | firstSent | nextSent | failedSent | confirmed => exact linked.update _ rfl rfl
  | @lost s now j m =>
    have first : Linked ⟨lostState s j (s.receipts.receipts j).msg m, none, none⟩ :=
      linked.update none rfl rfl
    exact first.frame none rfl rfl
  | @resent s now j m =>
    have first : Linked ⟨lostState s j (s.receipts.receipts j).msg m, none, none⟩ :=
      linked.update none rfl rfl
    exact first.update none rfl rfl
  | @completed s _ _ j m =>
    obtain ⟨nodup, kept⟩ := @unlink_sublist s.msgsOutbound (s.receipts.receipts j).msg linked.nodup
    refine ⟨nodup, fun a member => ?_, by simp⟩
    obtain ⟨earlier, different⟩ := kept a member
    obtain ⟨m', found⟩ := linked.held a earlier
    exact ⟨m', (Function.update_of_ne different _ _).trans found⟩

/-! ## The table -/

/-- The base library counts its ids up. -/
def Increasing (w : World) : Prop :=
  ∀ i j, i < j → w.answer i ≠ 0 → w.answer j ≠ 0 → w.answer i < w.answer j

/-- No id is given twice. -/
theorem Increasing.inj {i j : Nat} (increasing : Increasing w) (some : w.answer i ≠ 0)
    (same : w.answer i = w.answer j) : i = j := by
  rcases Nat.lt_trichotomy i j with before | equal | after
  · have := increasing i j before some (same ▸ some)
    omega
  · exact equal
  · have := increasing j i after (same ▸ some) some
    omega

/-- A script counts its ids up if those it gives are in order. -/
theorem increasing_scripted {params : Params} {answers times : List Nat}
    (sorted : ∀ i < answers.length, ∀ j < answers.length, i < j ∧ answers.getD i 0 ≠ 0 ∧
      answers.getD j 0 ≠ 0 → answers.getD i 0 < answers.getD j 0) :
    Increasing (scripted params answers times) := by
  have given : ∀ i, answers.getD i 0 ≠ 0 → i < answers.length := by
    intro i some
    refine Nat.lt_of_not_le fun beyond => some ?_
    rw [List.getD_eq_getElem?_getD, List.getElem?_eq_none beyond]
    rfl
  intro i j before someI someJ
  exact sorted i (given i someI) j (given j someJ) ⟨before, someI, someJ⟩

structure Tabled (v : View) : Prop where
  ordered : v.s.receipts.Ordered
  /-- The slot whose receipt is being processed is still held. -/
  taken : ∀ j, v.taken = some j → v.s.receipts.key j ≠ 0

/-- The next id is above every number in the table. -/
theorem above_of_increasing {s : State} (increasing : Increasing w) (issued : Issued w s)
    (accepted : w.answer s.base.length ≠ 0) (j : Nat) :
    s.receipts.key j < w.answer s.base.length := by
  by_cases held : s.receipts.key j = 0
  · omega
  · obtain ⟨i, call, at_i, _, answered⟩ := issued.recorded j held
    rw [← answered] at held ⊢
    exact increasing i _ (List.getElem?_eq_some_iff.mp at_i).1 held accepted

theorem Tabled.frame {s s' : State} {taken : Option Nat} {forming : Option (Nat × List UInt8)}
    (tabled : Tabled ⟨s, taken, forming⟩) (forming' : Option (Nat × List UInt8))
    (receipts : s'.receipts = s.receipts) : Tabled ⟨s', taken, forming'⟩ := by
  obtain ⟨ordered, taken⟩ := tabled
  constructor <;> simp only [receipts] <;> assumption

theorem Tabled.sent {s : State} {taken : Option Nat} {forming : Option (Nat × List UInt8)}
    {i : Nat} {m m' : MsgOutbound} (tabled : Tabled ⟨s, taken, forming⟩)
    (above : ∀ j, s.receipts.key j < w.answer s.base.length) :
    Tabled ⟨sentState w s msg m i m', taken, forming⟩ where
  ordered := ReceiptTable.ordered_addReceipt tabled.ordered above
  taken j here := by
    have held := tabled.taken j here
    have inside := tabled.ordered.inside j held
    have different : j ≠ s.receipts.hi := Nat.ne_of_lt inside.2
    change (s.receipts.addReceipt _).key j ≠ 0
    rw [ReceiptTable.key_addReceipt above, if_neg different]
    exact held

theorem Tabled.lost {s : State} (tabled : Tabled ⟨s, none, none⟩) (j msg : Nat) (m : MsgOutbound) :
    Tabled ⟨lostState s j msg m, none, none⟩ where
  ordered :=
    have cleared := ReceiptTable.ordered_clear (j := j) tabled.ordered
    ⟨cleared.inside, cleared.increasing, cleared.ends⟩
  taken := by simp

theorem Tabled.move (increasing : Increasing w) (tabled : Tabled v) (issued : Issued w v.s)
    (move : Move w label v v') : Tabled v' := by
  cases move with
  | idle | short | passed | begun | opened | dropped | firstRefused | nextRefused | failedRefused
  | completed => exact tabled.frame _ rfl
  | firstSent _ _ _ _ _ accepted | nextSent _ _ _ _ accepted | failedSent _ _ _ _ accepted =>
    exact tabled.sent (above_of_increasing increasing issued accepted)
  | @lost s now j m => exact (tabled.lost j (s.receipts.receipts j).msg m).frame none rfl
  | @resent s now j m held _ found accepted =>
    have issued : Issued w s := issued
    exact (tabled.lost j (s.receipts.receipts j).msg m).sent (above_of_increasing increasing (issued.lost j found) accepted)
  | @confirmed s _ _ j m db nonzero _ held =>
    refine ⟨tabled.ordered, fun k here => ?_⟩
    cases here
    change s.receipts.key j ≠ 0
    rw [held]
    exact nonzero
  | @cleared s _ _ j =>
    have inside := tabled.ordered.inside j (tabled.taken j rfl)
    have empty : (s.receipts.clear j).key j = 0 := by simp
    exact ⟨ReceiptTable.ordered_trim (ReceiptTable.ordered_clear tabled.ordered) empty inside.1
      inside.2, by simp⟩

/-- A record that waits for its receipt: it is held, and not the one being processed. -/
def Live (v : View) (k : Nat) : Prop := v.s.receipts.key k ≠ 0 ∧ v.taken ≠ some k

instance {v : View} {k : Nat} : Decidable (Live v k) := inferInstanceAs (Decidable (_ ∧ _))

section Sent
variable {s : State} {i k : Nat} {m m' : MsgOutbound}
  (above : ∀ j, s.receipts.key j < w.answer s.base.length)
include above

theorem sentState_receipts : (sentState w s msg m i m').receipts.receipts k =
    if k = s.receipts.hi then ⟨w.answer s.base.length, msg, i + 1, w.clock s.ticks⟩
    else s.receipts.receipts k :=
  ReceiptTable.receipts_append above

theorem sentState_key : (sentState w s msg m i m').receipts.key k =
    if k = s.receipts.hi then w.answer s.base.length else s.receipts.key k :=
  ReceiptTable.key_addReceipt above

end Sent

/-- Beyond the end of an orderly table there is no record. -/
theorem Tabled.not_live {s : State} {taken : Option Nat} {forming : Option (Nat × List UInt8)}
    (tabled : Tabled ⟨s, taken, forming⟩) : ¬ Live ⟨s, taken, forming⟩ s.receipts.hi :=
  fun live => absurd (tabled.ordered.inside _ live.1).2 (Nat.lt_irrefl _)

/-- The message once its fragment `i` went out under this number. -/
structure PartSent (m m' : MsgOutbound) (i receipt : Nat) : Prop where
  shape : SameShape m m'
  numConfirmed : m'.numConfirmed = m.numConfirmed
  part_eq : ∀ k, part m' k = if k = i then
    { part m i with receipt := receipt, timesSent := (part m i).timesSent + 1 } else part m k

variable {m : MsgOutbound} {i receipt : Nat}

theorem partSent_partSent (inside : i < m.fragments.length) :
    PartSent m (partSent m i receipt) i receipt :=
  ⟨sameShape_partSent, rfl, fun _ => part_partSent inside⟩

theorem partSent_sentLast (inside : i < m.fragments.length) :
    PartSent m { partSent m i receipt with lastSent := i } i receipt :=
  ⟨sameShape_sentLast, rfl, fun _ => part_partSent inside⟩

/-! ## Together -/

/-- What holds of every run whose ids count up, whatever else happens. -/
structure Orderly (w : World) (v : View) : Prop where
  issued : Issued w v.s
  linked : Linked v
  tabled : Tabled v

namespace Orderly

theorem initial : Orderly w ⟨initialState w, none, none⟩ where
  issued := .initial
  linked := ⟨List.nodup_nil, by simp [initialState], by simp⟩
  tabled := ⟨ReceiptTable.ordered_initialize, by simp⟩

theorem move (orderly : Orderly w v) (increasing : Increasing w) (move : Move w label v v') :
    Orderly w v' where
  issued := orderly.issued.move move
  linked := orderly.linked.move orderly.issued move
  tabled := orderly.tabled.move increasing orderly.issued move

theorem chain {admitted : Label → Prop} (orderly : Orderly w v) (increasing : Increasing w)
    (chain : Chain w admitted v v') : Orderly w v' :=
  chain.invariant (fun _ move before => before.move increasing move) orderly

/-- The next record goes to the end of the table, behind all that are held. -/
theorem above {s : State} {taken : Option Nat} {forming : Option (Nat × List UInt8)}
    (orderly : Orderly w ⟨s, taken, forming⟩) (increasing : Increasing w)
    (accepted : w.answer s.base.length ≠ 0) (j : Nat) :
    s.receipts.key j < w.answer s.base.length :=
  above_of_increasing increasing orderly.issued accepted j

end Orderly

end Defragmenter.Tracking
