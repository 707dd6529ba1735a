import Defragmenter.Confirmations
import Defragmenter.Reassembly

/-! A sender and a receiver. The base library takes the sender's fragments, or
refuses them; those it took reach the receiver late, in any order, more than
once or never, and a receipt follows a fragment that has reached it. A message
that the sender's client hears of was reassembled at the receiver, unless a
fragment came twice and was not known again. -/
namespace Defragmenter.TwoPeers
open Decimal Marker Database InboundStore InboundHistory Split Receipts Sender Moves Provenance Tracking
open Accounting FragmentBytes ClientView Confirmations Receiver Reassembly Runs

/-- What the peers know of each other. -/
structure Link where
  world : World
  /-- The receiver, among the sender's friends. -/
  receiver : Nat
  /-- The sender, among the receiver's friends. -/
  sender : Nat
  /-- The limit of the receiver's store. -/
  limit : BlobLimit

/-- What a call brought to the receiver, and what the receiver's client was handed with it. -/
structure Landing where
  call : Nat
  part : Option (Nat × Nat)
  handed : Option Handed

/-- The sender's process, the receiver's store and what has reached it, last first. -/
structure Peers where
  state : State
  db : Db
  landings : List Landing := []

inductive Act where
  | send (friendNumber : Nat) (type : Int) (message : List UInt8) (beyond : Memory)
  | periodic
  /-- The receipt of a call of the base library. -/
  | receipt (call : Nat)
  /-- What was sent in a call reaches the receiver, where this lies behind it in memory. -/
  | deliver (call : Nat) (beyond : Memory) (tm : Nat)

variable {n : Link} {c c' : Peers} {originals : Nat → Option MsgOutbound} {p q : Posting} {l l' : Letter}
  {landings : List Landing} {a k i : Nat}

def senderStep (n : Link) (op : Op) (c : Peers) : Except Fault Peers := do
  let state ← step n.world op c.state
  pure { c with state }

def incoming (n : Link) (call : BaseCall) (message : List UInt8) (beyond : Memory) : Incoming :=
  ⟨n.sender, call.type, message, beyond⟩

def land (n : Link) (i : Nat) (call : BaseCall) (m : Incoming) (tm : Nat) (c : Peers) :
    Except Fault Peers := do
  let (db, handed) ← friendMessageCb n.limit c.db m tm
  pure { c with db, landings := ⟨i, call.part, handed⟩ :: c.landings }

/-- Of a call that was not made, or that passed no bytes, nothing comes. -/
def act (n : Link) : Act → Peers → Except Fault Peers
  | .send friendNumber type message beyond, c => senderStep n (.send friendNumber type message beyond) c
  | .periodic, c => senderStep n .periodic c
  | .receipt i, c =>
    match c.state.base[i]? with
    | none => .ok c
    | some call => senderStep n (.receipt call.friendNumber (n.world.answer i)) c
  | .deliver i beyond tm, c =>
    match c.state.base[i]? with
    | none => .ok c
    | some call =>
      match call.data with
      | none => .ok c
      | some message => land n i call (incoming n call message beyond) tm c

/-- The sender starts over an empty store, and the receiver's store has nothing from it. -/
def Begun (n : Link) (c : Peers) : Prop :=
  Started n.world c.state ∧ (∀ id, rows c.db ⟨false, n.sender, id⟩ = {}) ∧ c.landings = []

/-- Only what was taken is delivered, and to its friend, and a receipt from the
receiver comes after what it is for. -/
def Possible (n : Link) (c : Peers) : Act → Prop
  | .receipt i => n.world.answer i ≠ 0 ∧ ∃ call ∈ c.state.base[i]?,
      call.friendNumber = n.receiver → ∃ d ∈ c.landings, d.call = i
  | .deliver i _ _ => n.world.answer i ≠ 0 ∧ ∃ call ∈ c.state.base[i]?, call.friendNumber = n.receiver
  | _ => True

instance : DecidablePred (Possible n c) := fun a =>
  match a with
  | .send .. => .isTrue trivial
  | .periodic => .isTrue trivial
  | .receipt _ => inferInstanceAs (Decidable (_ ∧ ∃ call ∈ c.state.base[_]?, _ → ∃ d ∈ c.landings, _))
  | .deliver .. => inferInstanceAs (Decidable (_ ∧ ∃ call ∈ c.state.base[_]?, _))

/-- If the store still waits for the message, the byte at the fragment's place is not zero. -/
def KnownAgain (db : Db) (m : Incoming) : Prop :=
  ∀ fields ∈ markerParse m.memory m.message.length,
    ∀ d ∈ (rows db ⟨false, m.friendNumber, fields.id⟩).dataRow, d.message[fields.off]? ≠ some 0

instance {db : Db} {m : Incoming} : Decidable (KnownAgain db m) :=
  inferInstanceAs (Decidable (∀ fields ∈ markerParse _ _, ∀ d ∈ (rows _ _).dataRow, _))

/-- What is no fragment is not taken for one, and a fragment that comes again is known again. -/
def ToldApart (c : Peers) (call : BaseCall) (m : Incoming) : Prop :=
  (call.part = none → isFragment m = false) ∧
    (call.part ≠ none → (∃ d ∈ c.landings, d.part = call.part) → KnownAgain c.db m)

instance {call : BaseCall} {m : Incoming} : Decidable (ToldApart c call m) :=
  inferInstanceAs (Decidable ((_ → _) ∧ (_ → (∃ d ∈ c.landings, _) → KnownAgain _ _)))

/-- Long messages can be sent, cursors lead where they are used, and what comes
in is told apart. -/
def Safeguarded (n : Link) (c : Peers) : Act → Prop
  | .send friendNumber type message beyond =>
      Sendable n.world c.state (.send friendNumber type message beyond)
  | .periodic => Leading n.world c.state .periodic
  | .receipt i => ∀ call ∈ c.state.base[i]?,
      Leading n.world c.state (.receipt call.friendNumber (n.world.answer i))
  | .deliver i beyond _ => ∀ call ∈ c.state.base[i]?, ∀ message ∈ call.data,
      ToldApart c call (incoming n call message beyond)

instance : DecidablePred (Safeguarded n c) := fun a =>
  match a with
  | .send friendNumber type message beyond =>
    inferInstanceAs (Decidable (Sendable n.world c.state (.send friendNumber type message beyond)))
  | .periodic => inferInstanceAs (Decidable (Leading n.world c.state .periodic))
  | .receipt i => inferInstanceAs (Decidable (∀ call ∈ c.state.base[i]?,
      Leading n.world c.state (.receipt call.friendNumber (n.world.answer i))))
  | .deliver i beyond _ => inferInstanceAs (Decidable (∀ call ∈ c.state.base[i]?, ∀ message ∈ call.data,
      ToldApart c call (incoming n call message beyond)))

/-- What the receiver's client was handed when fragments of the message came in. -/
def handedOver (landings : List Landing) (msg : Nat) : List (List UInt8) :=
  landings.filterMap fun d => if d.part.map Prod.fst = some msg then d.handed.map (·.message) else none

/-- The sender's client hears of a message once at most, and then the receiver's
client has been handed it, once and as it was. -/
structure ReceiptsSound (n : Link) (c : Peers) : Prop where
  once : ∀ a friendNumber id bytes r, .returned a friendNumber id bytes r ∈ c.state.events →
    (callbacks c.state).count r ≤ 1
  handed : ∀ a id bytes r, .returned a n.receiver id bytes r ∈ c.state.events →
    r ∈ callbacks c.state → handedOver c.landings a = [bytes]

/-! ## Parts that have landed -/

/-- The fragments of a message that have reached the receiver. -/
def landed (landings : List Landing) (msg : Nat) : Finset Nat :=
  (landings.filterMap fun d => d.part.bind fun place =>
    if place.1 = msg then some (place.2 - 1) else none).toFinset

theorem mem_landed : k ∈ landed landings a ↔
    ∃ d ∈ landings, ∃ partNo, d.part = some (a, partNo) ∧ partNo - 1 = k := by
  simp only [landed, List.mem_toFinset, List.mem_filterMap, Option.bind_eq_some_iff,
    Option.ite_none_right_eq_some, Option.some.injEq]
  constructor
  · rintro ⟨d, member, ⟨b, partNo⟩, mine, rfl, rfl⟩
    exact ⟨d, member, partNo, mine, rfl⟩
  · rintro ⟨d, member, partNo, mine, rfl⟩
    exact ⟨d, member, (a, partNo), mine, rfl, rfl⟩

variable {d : Landing}

theorem landed_own {partNo : Nat} (own : d.part = some (a, partNo)) :
    landed (d :: landings) a = insert (partNo - 1) (landed landings a) := by
  simp [landed, own]

theorem landed_other (other : ∀ partNo, d.part ≠ some (a, partNo)) :
    landed (d :: landings) a = landed landings a := by
  ext k
  simp only [mem_landed, List.mem_cons, exists_eq_or_imp]
  refine or_iff_right ?_
  rintro ⟨partNo, mine, _⟩
  exact other partNo mine

theorem handedOver_own {partNo : Nat} (own : d.part = some (a, partNo)) :
    handedOver (d :: landings) a = (d.handed.map (·.message)).toList ++ handedOver landings a := by
  have mine : (some (a, partNo)).map Prod.fst = some a := rfl
  simp only [handedOver, List.filterMap_cons, own, mine, ↓reduceIte]
  cases d.handed <;> rfl

theorem handedOver_other (other : ∀ partNo, d.part ≠ some (a, partNo)) :
    handedOver (d :: landings) a = handedOver landings a := by
  have apart : d.part.map Prod.fst ≠ some a := by
    intro mine
    obtain ⟨⟨b, partNo⟩, here, rfl⟩ := Option.map_eq_some_iff.mp mine
    exact other partNo here
  simp only [handedOver, List.filterMap_cons, apart, ↓reduceIte]

/-- No part of the message has landed, and so nothing was handed over. -/
theorem nothing_landed (none : ∀ d ∈ landings, ∀ partNo, d.part ≠ some (a, partNo)) :
    landed landings a = ∅ ∧ handedOver landings a = [] := by
  induction landings with
  | nil => exact ⟨rfl, rfl⟩
  | cons d rest ih =>
    have here := none d List.mem_cons_self
    obtain ⟨empty, nothing⟩ := ih fun e member => none e (List.mem_cons_of_mem _ member)
    rw [landed_other here, handedOver_other here]
    exact ⟨empty, nothing⟩

/-! ## The message as the receiver sees it -/

/-- The letter is the message that was taken, in the receiver's terms. -/
structure Describes (n : Link) (p : Posting) (l : Letter) : Prop where
  friendNumber : l.friendNumber = n.sender
  id : l.id = p.id
  maxLength : l.maxLength = n.world.params.maxMessageLength
  bytes : l.bytes = p.message

theorem exists_letter {s : State} (maxLength : n.world.params.maxMessageLength < 2 ^ 32)
    (known : Known n.world originals s p) : ∃ l, Describes n p l := by
  have limit : n.world.limit.val < 2 ^ 31 := n.world.limit.property
  have fits := known.fits
  exact ⟨⟨n.sender, p.id, n.world.params.maxMessageLength, p.message, known.lower, known.upper, known.room,
    maxLength, known.long, by omega⟩, rfl, rfl, rfl, rfl⟩

theorem Describes.unique (describes : Describes n p l) (describes' : Describes n p l') : l' = l := by
  have friendNumber := describes'.friendNumber.trans describes.friendNumber.symm
  have id := describes'.id.trans describes.id.symm
  have maxLength := describes'.maxLength.trans describes.maxLength.symm
  have bytes := describes'.bytes.trans describes.bytes.symm
  cases l
  cases l'
  cases friendNumber
  cases id
  cases maxLength
  cases bytes
  rfl

theorem Describes.key (describes : Describes n p l) : l.key = ⟨false, n.sender, p.id⟩ := by
  rw [Letter.key, describes.friendNumber, describes.id]

/-- The message is split into the pieces of the letter. -/
theorem Describes.split (describes : Describes n p l) :
    p.split n.world = .ok (splitInto l.id l.size l.bytes) := by
  rw [Posting.split, markerMaxSizeEver_eq, ← describes.bytes, ← describes.maxLength, ← describes.id]
  exact l.split_eq

/-- A call that passes what was built as a part carries a fragment of the letter. -/
theorem carries_of_part {call : BaseCall} {message : List UInt8} {beyond : Memory}
    (describes : Describes n p l) (data : call.data = some message)
    (built : call.data = (part (splitInto l.id l.size l.bytes) k).data) :
    Carries l k (incoming n call message beyond) := by
  refine ⟨describes.friendNumber.symm, splitInto l.id l.size l.bytes, ?_⟩
  have whole := data.symm.trans built
  rw [part, List.getD_eq_getElem?_getD] at whole
  cases at_k : (splitInto l.id l.size l.bytes).fragments[k]? with
  | none =>
    rw [at_k] at whole
    cases whole
  | some f =>
    rw [at_k] at whole
    refine ⟨f, ?_, rfl, whole.symm⟩
    rw [markerMaxSizeEver_eq]
    exact l.split_eq

/-- A fragment that has come in before changes nothing, if it is known again. -/
theorem receive_again {limit : BlobLimit} {got : Finset Nat} {r : Rows} (type : Int) (tm : Nat)
    (inside : k < l.parts) (member : k ∈ got) (holds : Holds l got r)
    (known : ∀ d, r.dataRow = some d → d.message[k * l.size]? ≠ some 0) :
    receive limit (l.inbound k type tm) r = .ok (r, none) := by
  rw [Holds, if_neg (Finset.ne_empty_of_mem member)] at holds
  obtain ⟨m, here, _, _, rest⟩ := holds
  obtain ⟨metaRow, dataRow⟩ := r
  cases here
  cases dataRow with
  | none => rfl
  | some d =>
    split at rest
    · cases rest
    · obtain ⟨_, same, blob⟩ := rest
      cases same
      have offset := l.offset_lt inside
      have head := l.stored_head got inside
      rw [if_pos member, ← blob, List.getElem?_eq_getElem offset] at head
      have byte : d.message[(l.inbound k type tm).off]? = some l.bytes[k * l.size] := head
      have nonzero : l.bytes[k * l.size] ≠ 0 := by
        intro blank
        apply known d rfl
        rw [head, blank]
      simp only [receive, deposit, byte, ne_eq, nonzero, not_false_eq_true, ↓reduceIte]

/-- The receiver holds what has landed of the message, and handed it over when that was all. -/
structure Arrived (n : Link) (db : Db) (landings : List Landing) (p : Posting) (l : Letter) : Prop where
  within : landed landings p.msg ⊆ Finset.range l.parts
  fits : landed landings p.msg ≠ ∅ → l.bytes.length ≤ n.limit.val
  holds : Holds l (landed landings p.msg) (rows db l.key)
  handed : handedOver landings p.msg = if (landed landings p.msg).card = l.parts then [l.bytes] else []

/-- A letter that the store takes a first fragment of fits it. -/
theorem fits_of_receive {limit : BlobLimit} {type : Int} {tm : Nat} {r' : Rows} {ready : Option MsgReady}
    (step : receive limit (l.inbound k type tm) {} = .ok (r', ready)) : l.bytes.length ≤ limit.val := by
  rcases receive_cases step with ⟨known, _⟩ | ⟨m, d, same | ⟨_, fits, _⟩, _⟩
  · cases known
  · cases same
  · exact fits

section Landing
variable {db db' : Db} {m : Incoming} {tm partNo : Nat} {handed : Option Handed} {ready : Option MsgReady}

/-- What comes again is where the check for it looks. -/
theorem known_of_carried (carried : Carries l k m) (known : KnownAgain db m) :
    ∀ d, (rows db l.key).dataRow = some d → d.message[k * l.size]? ≠ some 0 := by
  obtain ⟨fields, parsed, arguments⟩ := inFragment_carried carried
  have friend : m.friendNumber = l.friendNumber := congrArg InboundFragment.friendNumber (arguments 0)
  have id : fields.id = l.id := congrArg InboundFragment.id (arguments 0)
  have off : fields.off = k * l.size := congrArg InboundFragment.off (arguments 0)
  intro d held
  have known := known fields parsed
  rw [friend, id, off] at known
  exact known d held

/-- A part that has landed before comes again, and is known. -/
theorem Arrived.again (arrived : Arrived n db landings p l) (member : partNo - 1 ∈ landed landings p.msg)
    (rows_eq : rows db' l.key = rows db l.key) :
    Arrived n db' (⟨i, some (p.msg, partNo), none⟩ :: landings) p l := by
  obtain ⟨within, fits, holds, before⟩ := arrived
  have same : landed (⟨i, some (p.msg, partNo), none⟩ :: landings) p.msg = landed landings p.msg :=
    (landed_own rfl).trans (Finset.insert_eq_of_mem member)
  have nothing : handedOver (⟨i, some (p.msg, partNo), none⟩ :: landings) p.msg = handedOver landings p.msg :=
    handedOver_own rfl
  exact ⟨by rw [same]; exact within, by rw [same]; exact fits, by rw [same, rows_eq]; exact holds,
    by rw [same, nothing]; exact before⟩

/-- A part lands for the first time. -/
theorem Arrived.first {type : Int} (arrived : Arrived n db landings p l) (inside : k < l.parts)
    (number : partNo - 1 = k) (missing : k ∉ landed landings p.msg)
    (step : receive n.limit (l.inbound k type tm) (rows db l.key) = .ok (rows db' l.key, ready)) :
    Arrived n db' (⟨i, some (p.msg, partNo), ready.map messageReady⟩ :: landings) p l := by
  obtain ⟨within, fits, holds, before⟩ := arrived
  have small : l.bytes.length ≤ n.limit.val := by
    by_cases empty : landed landings p.msg = ∅
    · rw [Holds, if_pos empty] at holds
      rw [holds] at step
      exact fits_of_receive step
    · exact fits empty
  obtain ⟨r', ready', step', holds', called⟩ := receive_missing type tm small inside within missing holds
  cases step.symm.trans step'
  have grown : landed (⟨i, some (p.msg, partNo), ready.map messageReady⟩ :: landings) p.msg =
      insert k (landed landings p.msg) := number ▸ landed_own rfl
  have within' : insert k (landed landings p.msg) ⊆ Finset.range l.parts :=
    Finset.insert_subset (Finset.mem_range.mpr inside) within
  have incomplete : (landed landings p.msg).card ≠ l.parts := by
    have bound := Finset.card_le_card within'
    rw [Finset.card_insert_of_notMem missing, Finset.card_range] at bound
    omega
  have own : handedOver (⟨i, some (p.msg, partNo), ready.map messageReady⟩ :: landings) p.msg =
      ((ready.map messageReady).map (·.message)).toList := by
    rw [handedOver_own rfl, before, if_neg incomplete, List.append_nil]
  refine ⟨by rw [grown]; exact within', fun _ => small, by rw [grown]; exact holds', ?_⟩
  rw [grown, own, called]
  by_cases complete : (insert k (landed landings p.msg)).card = l.parts
  · have all : insert k (landed landings p.msg) = Finset.range l.parts :=
      Finset.eq_of_subset_of_card_le within' (by rw [Finset.card_range, complete])
    rw [if_pos complete, if_pos complete, all, l.stored_all]
    rfl
  · rw [if_neg complete, if_neg complete]
    rfl

/-- What is no part of the message lands. -/
theorem Arrived.other (arrived : Arrived n db landings p l) (other : ∀ partNo, d.part ≠ some (p.msg, partNo))
    (rows_eq : rows db' l.key = rows db l.key) : Arrived n db' (d :: landings) p l := by
  obtain ⟨within, fits, holds, before⟩ := arrived
  rw [← landed_other other] at within fits holds before
  rw [← handedOver_other other] at before
  exact ⟨within, fits, by rw [rows_eq]; exact holds, before⟩

/-- A fragment of the letter comes in, and is known again if it was there. -/
theorem Arrived.land (arrived : Arrived n db landings p l) (carried : Carries l k m)
    (ran : friendMessageCb n.limit db m tm = .ok (db', handed)) (number : partNo - 1 = k)
    (again : k ∈ landed landings p.msg → KnownAgain db m) :
    Arrived n db' (⟨i, some (p.msg, partNo), handed⟩ :: landings) p l ∧ AgreeOff l.key db db' := by
  have inside := (carries_iff.mp carried).2.1
  rw [friendMessageCb_carried carried] at ran
  obtain ⟨⟨db₁, ready⟩, inserted, same⟩ := bind_ok.mp ran
  cases same
  obtain ⟨step, agree⟩ := receive_of_insert inserted
  have step : receive n.limit (l.inbound k m.type tm) (rows db l.key) = .ok (rows db' l.key, ready) := step
  refine ⟨?_, agree⟩
  by_cases member : k ∈ landed landings p.msg
  · have known := known_of_carried carried (again member)
    have unchanged := @receive_again _ _ n.limit _ _ m.type tm inside member arrived.holds known
    obtain ⟨same, none⟩ := Prod.mk.inj (Except.ok.inj (step.symm.trans unchanged))
    subst none
    exact arrived.again (number ▸ member) same
  · exact arrived.first inside number member step

end Landing

/-! ## Both peers -/

/-- How far the messages to the receiver have come. -/
structure Progress (n : Link) (originals : Nat → Option MsgOutbound) (c : Peers) : Prop where
  traced : Traced n.world originals c.state
  /-- What has landed was called for. -/
  called : ∀ d ∈ c.landings, ∃ call, c.state.base[d.call]? = some call ∧ call.part = d.part
  /-- A confirmed part has landed. -/
  heard : ∀ a partNo r, .confirmed a partNo r ∈ c.state.events → ∀ p : Posting, p.event ∈ c.state.events →
    p.friendNumber = n.receiver → p.msg = a → ∃ d ∈ c.landings, d.part = some (a, partNo)
  /-- The receiver has rows of messages that were taken only. -/
  stored : ∀ id, rows c.db ⟨false, n.sender, id⟩ ≠ {} →
    ∃ p : Posting, p.event ∈ c.state.events ∧ p.friendNumber = n.receiver ∧ p.id = id
  arrived : ∀ p l, p.event ∈ c.state.events → p.friendNumber = n.receiver → Describes n p l →
    Arrived n c.db c.landings p l

theorem progress_begun (range : ProperRange n.world.params) (begun : Begun n c) :
    Progress n (fun _ => none) c := by
  obtain ⟨state, db, landings⟩ := c
  obtain ⟨started, absent, rfl⟩ := begun
  have same : state = initialState n.world := started_iff.mp started
  subst same
  refine ⟨traced_initial range, fun d member => ?_, fun a partNo r member => ?_,
    fun id held => absurd (absent id) held, fun p l member => ?_⟩
  · cases member
  · cases member
  · cases member

/-- No fragment of a message that is taken now has landed. -/
theorem Progress.unlanded (progress : Progress n originals c) (new : a = c.state.fresh) :
    ∀ d ∈ c.landings, ∀ partNo, d.part ≠ some (a, partNo) := by
  intro d member partNo mine
  obtain ⟨call, at_i, part⟩ := progress.called d member
  have below : a < c.state.fresh := (progress.traced.settled.orderly.issued.called at_i (part.trans mine)).1
  omega

/-- A message that is taken now has nothing at the receiver. -/
theorem Progress.fresh (progress : Progress n originals c) (new : p.msg = c.state.fresh)
    (newer : c.state.lastMsgId < p.id) (describes : Describes n p l) :
    Arrived n c.db c.landings p l := by
  obtain ⟨empty, nothing⟩ := nothing_landed (progress.unlanded new)
  have absent : rows c.db l.key = {} := by
    by_contra held
    rw [describes.key] at held
    obtain ⟨q, member, _, same⟩ := progress.stored p.id held
    have known := (progress.traced.posted.known q member).id_le
    omega
  have unfinished : (∅ : Finset Nat).card ≠ l.parts := by
    rw [Finset.card_empty]
    exact Nat.ne_of_lt l.parts_pos
  refine ⟨?_, fun some => absurd empty some, ?_, ?_⟩
  · rw [empty]
    exact Finset.empty_subset _
  · rw [empty, absent, Holds, if_pos rfl]
  · rw [empty, nothing, if_neg unfinished]

/-- The sender makes a call whose confirmations are of parts that have landed. -/
theorem Progress.sender (op : Op) (increasing : Increasing n.world) (range : ProperRange n.world.params)
    (small : n.world.params.fragmentsAtATime < 2 ^ 32) (progress : Progress n originals c)
    (leading : Leading n.world c.state op) (sendable : Sendable n.world c.state op)
    (heard : ∀ s', step n.world op c.state = .ok s' → ∀ a partNo r, .confirmed a partNo r ∈ s'.events →
      .confirmed a partNo r ∈ c.state.events ∨ a < c.state.fresh ∧ ∀ p : Posting, p.event ∈ c.state.events →
        p.friendNumber = n.receiver → p.msg = a → ∃ d ∈ c.landings, d.part = some (a, partNo))
    (ran : senderStep n op c = .ok c') : ∃ originals', Progress n originals' c' := by
  obtain ⟨s', stepped, same⟩ := bind_ok.mp ran
  cases same
  have traced := progress.traced
  have proper : Proper op := proper_of_guarded (guarded_of_leading increasing traced.settled leading)
  have chain := step_chain proper stepped
  obtain ⟨after, added⟩ := traced.step increasing range small leading sendable stepped
  refine ⟨_, after, fun d member => ?_, fun a partNo r member p given friend mine => ?_,
    fun id held => ?_, fun p l given friend describes => ?_⟩
  · obtain ⟨call, at_i, part⟩ := progress.called d member
    exact ⟨call, Provenance.base_grows chain at_i, part⟩
  · have old : a < c.state.fresh → p.event ∈ c.state.events := by
      intro below
      refine (added.new p given).resolve_right fun new => ?_
      have := new.1
      omega
    rcases heard s' stepped a partNo r member with earlier | ⟨below, landed⟩
    · obtain ⟨_, _, _, at_i, part, _⟩ := traced.backed.sent a partNo r earlier
      have below := (traced.settled.orderly.issued.called at_i part).1
      exact progress.heard a partNo r earlier p (old below) friend mine
    · exact landed p (old below) friend mine
  · obtain ⟨p, given, rest⟩ := progress.stored id held
    exact ⟨p, added.old p given, rest⟩
  · rcases added.new p given with old | ⟨new, newer⟩
    · exact progress.arrived p l old friend describes
    · exact progress.fresh new newer describes

/-- A receipt from the receiver confirms a part that has landed. -/
theorem Progress.confirms {call : BaseCall} {s' : State} {partNo r : Nat} (increasing : Increasing n.world)
    (progress : Progress n originals c) (taken : n.world.answer i ≠ 0)
    (at_i : c.state.base[i]? = some call)
    (possible : call.friendNumber = n.receiver → ∃ d ∈ c.landings, d.call = i)
    (ran : step n.world (.receipt call.friendNumber (n.world.answer i)) c.state = .ok s')
    (member : .confirmed a partNo r ∈ s'.events) :
    .confirmed a partNo r ∈ c.state.events ∨ a < c.state.fresh ∧ ∀ p : Posting, p.event ∈ c.state.events →
      p.friendNumber = n.receiver → p.msg = a → ∃ d ∈ c.landings, d.part = some (a, partNo) := by
  have issued : Issued n.world c.state := progress.traced.settled.orderly.issued
  rcases receipt_cases ran with ⟨_, _, rfl⟩ | ⟨_, _, rfl⟩ | processed
  · exact .inl member
  · exact .inl ((List.mem_cons.mp member).resolve_left nofun)
  · obtain ⟨j, m, _, held, _, done, events, only⟩ := processed.events
    rw [events, List.append_assoc] at member
    rcases List.mem_append.mp member with complete | rest
    · cases only _ complete
    · rcases List.mem_cons.mp rest with now | earlier
      · cases now
        obtain ⟨i', call', at_i', part, given⟩ := issued.recorded j (held ▸ taken)
        have same : i' = i := (increasing.inj taken (held.symm.trans given.symm)).symm
        subst same
        cases at_i.symm.trans at_i'
        refine .inr ⟨(issued.called at_i part).1, fun p old friend mine => ?_⟩
        obtain ⟨q, known, own, addressee⟩ := progress.traced.posted.addressed.base i' call at_i taken _ _ part
        have same := progress.traced.posted.distinct p q old known (.inl (mine.trans own.symm))
        subst same
        obtain ⟨d, landed, here⟩ := possible (addressee.symm.trans friend)
        obtain ⟨call', at_i', part'⟩ := progress.called d landed
        rw [here] at at_i'
        cases at_i.symm.trans at_i'
        exact ⟨d, landed, part'.symm.trans part⟩
      · exact .inl earlier

/-- Something that is no fragment reaches the receiver. -/
theorem Progress.short {call : BaseCall} {m : Incoming} {tm : Nat} (progress : Progress n originals c)
    (at_i : c.state.base[i]? = some call) (short : call.part = none) (plain : isFragment m = false)
    (ran : land n i call m tm c = .ok c') : Progress n originals c' := by
  obtain ⟨⟨db, handed⟩, received, same⟩ := bind_ok.mp ran
  cases same
  have plain : markerParse m.memory m.message.length = none := by
    rw [isFragment, markerExists_eq, Option.isSome_eq_false_iff, Option.isNone_iff_eq_none] at plain
    exact plain
  cases (friendMessageCb_other plain).symm.trans received
  refine ⟨progress.traced, fun d member => ?_, fun a partNo r member p given friend mine => ?_,
    progress.stored, fun p l given friend describes => ?_⟩
  · rcases List.mem_cons.mp member with rfl | earlier
    · exact ⟨call, at_i, rfl⟩
    · exact progress.called d earlier
  · obtain ⟨d, landed, part⟩ := progress.heard a partNo r member p given friend mine
    exact ⟨d, List.mem_cons_of_mem _ landed, part⟩
  · apply (progress.arrived p l given friend describes).other
    · intro partNo
      simp [short]
    · rfl

/-- The call for a fragment is one for a part of a message that was taken. -/
theorem Progress.fragment {call : BaseCall} {message : List UInt8} {beyond : Memory} {partNo : Nat}
    (maxLength : n.world.params.maxMessageLength < 2 ^ 32) (progress : Progress n originals c)
    (taken : n.world.answer i ≠ 0) (at_i : c.state.base[i]? = some call) (data : call.data = some message)
    (part : call.part = some (a, partNo)) :
    ∃ p l, p.event ∈ c.state.events ∧ p.friendNumber = call.friendNumber ∧ p.msg = a ∧ Describes n p l ∧
      Carries l (partNo - 1) (incoming n call message beyond) := by
  obtain ⟨p, given, mine, friend⟩ := progress.traced.posted.addressed.base i call at_i taken a partNo part
  have known := progress.traced.posted.known p given
  obtain ⟨l, describes⟩ := exists_letter maxLength known
  obtain ⟨built, split, here⟩ := known.split
  cases split.symm.trans describes.split
  obtain ⟨built', here', _, _, same, _⟩ :=
    progress.traced.faithful.unspoiled call (List.mem_of_getElem? at_i) a partNo part
  rw [← mine] at here'
  cases here.symm.trans here'
  exact ⟨p, l, given, friend, mine, describes, carries_of_part describes data same⟩

/-- A fragment reaches the receiver, and is known again if it did before. -/
theorem Progress.part {call : BaseCall} {message : List UInt8} {beyond : Memory} {tm partNo : Nat}
    (maxLength : n.world.params.maxMessageLength < 2 ^ 32) (progress : Progress n originals c)
    (taken : n.world.answer i ≠ 0) (at_i : c.state.base[i]? = some call) (data : call.data = some message)
    (part : call.part = some (a, partNo)) (friend : call.friendNumber = n.receiver)
    (again : (∃ d ∈ c.landings, d.part = call.part) → KnownAgain c.db (incoming n call message beyond))
    (ran : land n i call (incoming n call message beyond) tm c = .ok c') : Progress n originals c' := by
  have issued : Issued n.world c.state := progress.traced.settled.orderly.issued
  obtain ⟨⟨db, handed⟩, received, same⟩ := bind_ok.mp ran
  cases same
  obtain ⟨p, l, given, addressee, rfl, describes, carried⟩ := progress.fragment maxLength taken at_i data part
  have friend : p.friendNumber = n.receiver := addressee.trans friend
  have positive := (issued.called at_i part).2
  -- the part was there exactly if it has landed before
  have repeated : partNo - 1 ∈ landed c.landings p.msg → ∃ d ∈ c.landings, d.part = call.part := by
    intro member
    obtain ⟨d, landed, partNo', mine, same⟩ := mem_landed.mp member
    obtain ⟨call', at_d, part'⟩ := progress.called d landed
    have positive' := (issued.called at_d (part'.trans mine)).2
    have number : partNo' = partNo := by omega
    exact ⟨d, landed, by rw [mine, part, number]⟩
  have arrived := progress.arrived p l given friend describes
  obtain ⟨after, agree⟩ := @Arrived.land n p l c.landings _ i _ _ _ _ _ _ arrived carried received rfl
    fun member => again (repeated member)
  have others : ∀ q : Posting, q.event ∈ c.state.events → q ≠ p → q.msg ≠ p.msg ∧ q.id ≠ p.id := by
    intro q known different
    have distinct := progress.traced.posted.distinct q p known given
    exact ⟨fun same => different (distinct (.inl same)), fun same => different (distinct (.inr (.inl same)))⟩
  refine ⟨progress.traced, fun d member => ?_, fun a partNo r member q known friend mine => ?_,
    fun id held => ?_, fun q l' known addressee describes' => ?_⟩
  · rcases List.mem_cons.mp member with rfl | earlier
    · exact ⟨call, at_i, rfl⟩
    · exact progress.called d earlier
  · obtain ⟨d, landed, part⟩ := progress.heard a partNo r member q known friend mine
    exact ⟨d, List.mem_cons_of_mem _ landed, part⟩
  · by_cases own : id = p.id
    · exact ⟨p, given, friend, own.symm⟩
    · refine progress.stored id fun absent => held ?_
      rw [agree _ (by rw [describes.key]; exact fun same => own (congrArg Key.fragsId same))]
      exact absent
  · by_cases own : q = p
    · subst own
      cases describes.unique describes'
      rw [part]
      exact after
    · obtain ⟨msg, id⟩ := others q known own
      apply (progress.arrived q l' known addressee describes').other
      · intro partNo' same
        have mine : p.msg = q.msg := congrArg Prod.fst (Option.some.inj (part.symm.trans same))
        exact msg mine.symm
      · apply agree
        rw [describes.key, describes'.key]
        exact fun same => id (congrArg Key.fragsId same)

/-! ## Runs -/

theorem Progress.step {a : Act} (increasing : Increasing n.world) (range : ProperRange n.world.params)
    (small : n.world.params.fragmentsAtATime < 2 ^ 32) (maxLength : n.world.params.maxMessageLength < 2 ^ 32)
    (progress : Progress n originals c) (possible : Possible n c a) (safeguarded : Safeguarded n c a)
    (ran : act n a c = .ok c') : ∃ originals', Progress n originals' c' := by
  -- sending and periodic passes confirm nothing
  have quiet : ∀ {s' : State}, Chain n.world NoReceipt ⟨c.state, none, none⟩ ⟨s', none, none⟩ →
      ∀ a partNo r, .confirmed a partNo r ∈ s'.events → .confirmed a partNo r ∈ c.state.events := by
    intro s' chain a partNo r member
    exact ((events_of_noReceipt chain).2 _ member).resolve_right fun new => new.1 a partNo r rfl
  cases a with
  | send friendNumber type message beyond =>
    refine progress.sender (.send friendNumber type message beyond) increasing range small trivial safeguarded
      (fun s' stepped a partNo r member => ?_) ran
    exact .inl (quiet (send_chain_noReceipt stepped) a partNo r member)
  | periodic =>
    refine progress.sender .periodic increasing range small safeguarded trivial
      (fun s' stepped a partNo r member => ?_) ran
    exact .inl (quiet (periodic_chain_noReceipt stepped) a partNo r member)
  | receipt i =>
    obtain ⟨taken, call, at_i, possible⟩ := possible
    have at_i : c.state.base[i]? = some call := at_i
    simp only [act, at_i] at ran
    refine progress.sender (.receipt call.friendNumber (n.world.answer i)) increasing range small
      (safeguarded call at_i) trivial (fun s' stepped a partNo r member => ?_) ran
    exact progress.confirms increasing taken at_i possible stepped member
  | deliver i beyond tm =>
    obtain ⟨taken, call, at_i, friend⟩ := possible
    have at_i : c.state.base[i]? = some call := at_i
    simp only [act, at_i] at ran
    cases data : call.data with
    | none =>
      rw [data] at ran
      cases ran
      exact ⟨originals, progress⟩
    | some message =>
      rw [data] at ran
      obtain ⟨plain, again⟩ := safeguarded call at_i message data
      cases part : call.part with
      | none => exact ⟨originals, progress.short at_i part (plain part) ran⟩
      | some place =>
        have fragment : call.part ≠ none := by
          rw [part]
          exact Option.some_ne_none _
        exact ⟨originals, progress.part maxLength taken at_i data part friend (again fragment) ran⟩

theorem Progress.sound (maxLength : n.world.params.maxMessageLength < 2 ^ 32)
    (progress : Progress n originals c) : ReceiptsSound n c where
  once a friendNumber id bytes r given := progress.traced.once (p := ⟨a, friendNumber, id, bytes, r⟩) given
  handed a id bytes r given called := by
    obtain ⟨e, member, number⟩ := List.mem_filterMap.mp called
    have traced := progress.traced
    let p : Posting := ⟨a, n.receiver, id, bytes, r⟩
    have given : p.event ∈ c.state.events := given
    have known := traced.posted.known p given
    obtain ⟨friendNumber, rfl⟩ := traced.callback given member number
    obtain ⟨l, describes⟩ := exists_letter maxLength known
    obtain ⟨within, _, _, handed⟩ := progress.arrived p l given rfl describes
    obtain ⟨built, here, all⟩ := traced.backed.closed _ _ _ member
    obtain ⟨built', split, here'⟩ := known.split
    cases here.symm.trans here'
    cases split.symm.trans describes.split
    have whole : Finset.range l.parts ⊆ landed c.landings a := by
      intro k inside
      obtain ⟨r', confirmed⟩ := all k (Finset.mem_range.mp inside)
      obtain ⟨d, landed, part⟩ := progress.heard a (k + 1) r' confirmed p given rfl rfl
      exact mem_landed.mpr ⟨d, landed, k + 1, part, rfl⟩
    have complete : (landed c.landings a).card = l.parts := by
      rw [Finset.Subset.antisymm within whole, Finset.card_range]
    rw [if_pos complete, describes.bytes] at handed
    exact handed

/-- What the sender's client hears is true in every safeguarded run. -/
theorem receipts_sound_of_safeguarded {acts : List Act} (increasing : Increasing n.world)
    (range : ProperRange n.world.params) (small : n.world.params.fragmentsAtATime < 2 ^ 32)
    (maxLength : n.world.params.maxMessageLength < 2 ^ 32)
    (run : Run (act n) (fun c a => Possible n c a ∧ Safeguarded n c a) (Begun n) acts c) :
    ReceiptsSound n c := by
  have progress : ∃ originals, Progress n originals c := by
    apply run.invariant
    · intro c begun
      exact ⟨_, progress_begun range begun⟩
    · rintro c a c' ⟨originals, progress⟩ ⟨possible, safeguarded⟩ ran
      exact progress.step increasing range small maxLength possible safeguarded ran
  obtain ⟨originals, progress⟩ := progress
  exact progress.sound maxLength

/-- `act` where it was said before what the markers read. -/
def actRead (n : Link) (markers : Nat → Fields) : Act → Peers → Except Fault Peers
  | .deliver i beyond tm, c =>
    match c.state.base[i]? with
    | none => .ok c
    | some call =>
      match call.data with
      | none => .ok c
      | some message => do
        let m := incoming n call message beyond
        if markerParse m.memory m.message.length ≠ some (markers i) then throw .abort
        let (db, ready) ← dbInsertInboundFragment n.limit c.db (inFragment m tm (markers i))
        pure { c with db, landings := ⟨i, call.part, ready.map messageReady⟩ :: c.landings }
  | a, c => act n a c

theorem act_of_read {markers : Nat → Fields} {a : Act} (ran : actRead n markers a c = .ok c') :
    act n a c = .ok c' := by
  cases a with
  | send | periodic | receipt => exact ran
  | deliver i beyond tm =>
    simp only [actRead] at ran
    simp only [act]
    cases at_i : c.state.base[i]? with
    | none =>
      rw [at_i] at ran
      exact ran
    | some call =>
      rw [at_i] at ran
      cases data : call.data with
      | none =>
        simp only [data] at ran ⊢
        exact ran
      | some message =>
        simp only [data] at ran ⊢
        split at ran
        · cases ran
        · rename_i parsed
          obtain ⟨⟨db, ready⟩, inserted, same⟩ := bind_ok.mp ran
          rw [land, friendMessageCb_fragment (not_not.mp parsed), inserted]
          exact same

/-- Messages of 65 bytes are sent in two parts. -/
def twoParts : Link := ⟨scripted { maxMessageLength := 64 } [5, 6] [], 1, 7, defaultLimit⟩

/-- The markers of the first message, in the order of its calls. -/
def bothMarkers : Nat → Fields
  | 0 => ⟨1234567890123, 1, 2, 0, 65, 28⟩
  | _ => ⟨1234567890123, 2, 2, 33, 65, 29⟩

theorem begun_twoParts : Begun twoParts ⟨initialState twoParts.world, {}, []⟩ :=
  ⟨started_initialState twoParts.world, fun _ => rfl, rfl⟩

/-- The second part comes first and the first part twice, and both receipts follow. -/
theorem both_parts_receipts_sound : ∃ c,
    Run (act twoParts) (fun c a => Possible twoParts c a ∧ Safeguarded twoParts c a) (Begun twoParts)
      [.receipt 1, .receipt 0, .deliver 0 (fun _ => 0) 5, .deliver 0 (fun _ => 0) 4,
        .deliver 1 (fun _ => 0) 3, .send 1 0 (List.replicate 65 1) fun _ => 0] c ∧
    callbacks c.state = [0x70000001] ∧ ReceiptsSound twoParts c := by
  obtain ⟨c, run, checked⟩ := exists_run (actRead twoParts bothMarkers)
    (fun c a => Possible twoParts c a ∧ Safeguarded twoParts c a)
    [.send 1 0 (List.replicate 65 1) fun _ => 0, .deliver 1 (fun _ => 0) 3,
      .deliver 0 (fun _ => 0) 4, .deliver 0 (fun _ => 0) 5, .receipt 0, .receipt 1]
    (fun c => callbacks c.state = [0x70000001]) begun_twoParts (by decide +kernel)
  have run := run.steps fun _ _ _ => act_of_read
  exact ⟨c, run, of_decide_eq_true checked, receipts_sound_of_safeguarded (increasing_scripted (by decide))
    ⟨by decide, by decide⟩ (by decide) (by decide) run⟩

/-- The first part starts with a zero and comes twice, which counts as both
parts: the client is handed half of the message, and the sender's client hears
that it was read. -/
theorem damaged_message_confirmed : ∃ c, Increasing twoParts.world ∧ ProperRange twoParts.world.params ∧
    Run (act twoParts) (Possible twoParts) (Begun twoParts)
      [.receipt 1, .receipt 0, .deliver 1 (fun _ => 0) 5, .deliver 0 (fun _ => 0) 4,
        .deliver 0 (fun _ => 0) 3, .send 1 0 (0 :: List.replicate 64 1) fun _ => 0] c ∧
    ¬ ReceiptsSound twoParts c := by
  obtain ⟨c, run, checked⟩ := exists_run (actRead twoParts bothMarkers) (Possible twoParts)
    [.send 1 0 (0 :: List.replicate 64 1) fun _ => 0, .deliver 0 (fun _ => 0) 3,
      .deliver 0 (fun _ => 0) 4, .deliver 1 (fun _ => 0) 5, .receipt 0, .receipt 1]
    (fun c => .returned 0 1 1234567890123 (0 :: List.replicate 64 1) 0x70000001 ∈ c.state.events ∧
      0x70000001 ∈ callbacks c.state ∧ handedOver c.landings 0 ≠ [0 :: List.replicate 64 1])
    begun_twoParts (by decide +kernel)
  obtain ⟨returned, called, damaged⟩ := of_decide_eq_true checked
  refine ⟨c, increasing_scripted (by decide), ⟨by decide, by decide⟩,
    run.steps fun _ _ _ => act_of_read, fun sound => ?_⟩
  exact damaged (sound.handed _ _ _ _ returned called)

end Defragmenter.TwoPeers
