import Defragmenter.Lives
import Defragmenter.Patchwork
import Defragmenter.TwoPeers

/-! What comes of the messages of one process at another, over all their lives.
Whatever limits the processes were started with, and wherever their fragments
were when they ended: the client is handed a message once at most, as long as it
was, with its own bytes or zeros. If the processes that sent it cut it alike and
no part begins with a zero, it is handed the message. -/
namespace Defragmenter.Continuity
open Decimal Marker MarkerGrammar Database InboundStore OutboundStore InboundHistory Split Tiling Sender Moves Provenance
open Receiver Isolation Conversations Reassembly Patchwork Halves Duplex Lives Runs
open Restart (field_inj bar_notMem_decimal)

/-! ## Slices -/

/-- A fragment of the message under this id: the marker tells where its payload stands. -/
def Slice (id : Nat) (message d : List UInt8) : Prop :=
  ∃ partNo numParts off len, off + len ≤ message.length ∧
    d = markerPrint id partNo numParts off message.length ++ (message.drop off).take len

/-- A slice, if the message's length fits the marker. -/
def Sliced (id : Nat) (message d : List UInt8) : Prop := message.length < 2 ^ 32 → Slice id message d

variable {id : Nat} {message d : List UInt8}

theorem splitLoop_slice {size numParts fuel partNo off len : Nat} {f : Fragment}
    (whole : off + len = message.length)
    (member : f ∈ splitLoop size id numParts message.length fuel partNo off len (message.drop off)) :
    ∀ d, f.data = some d → Slice id message d := by
  induction fuel generalizing partNo off len with
  | zero => simp [splitLoop] at member
  | succ fuel ih =>
    rw [splitLoop] at member
    split at member
    · simp at member
    · have step : (if size ≤ len then size else len) ≤ len := by
        split <;> omega
      rcases List.mem_cons.mp member with rfl | later
      · intro d same
        cases same
        exact ⟨_, _, off, _, by omega, rfl⟩
      · rw [List.drop_drop] at later
        exact ih (by omega) later

/-- Every process slices what it splits. -/
theorem splits_sliced (w : World) : Splits Sliced w := by
  intro big _ message id m split i d held small
  have own := (unsent_of_split split).id_eq
  rw [own]
  unfold splitMessage at split
  dsimp only at split
  split at split
  · cases split
  · split at split
    · cases split
    · cases split
      rw [Moves.part, List.getD_eq_getElem?_getD] at held
      cases at_i : (List.takeD _ _ _)[i]? with
      | none =>
        rw [at_i] at held
        cases held
      | some f =>
        rw [at_i] at held
        rcases mem_takeD (List.mem_of_getElem? at_i) with built | rfl
        · rw [toUnsigned_of_lt small] at built
          have whole : 0 + message.length = message.length := Nat.zero_add _
          exact splitLoop_slice whole built d held
        · cases held

theorem notMem_digits {digits : List UInt8} {stop : UInt8} (isDigit : ∀ b ∈ digits, isdigit b = true)
    (ends : isdigit stop = false) : stop ∉ digits := by
  intro member
  rw [isDigit stop member] at ends
  cases ends

/-- Bytes that begin with a printed marker show no other one. -/
theorem printed_unique {t : MarkerText} {partNo numParts off sz : Nat} {rest payload : List UInt8}
    (same : t.bytes ++ rest = markerPrint id partNo numParts off sz ++ payload) :
    t.id = decimal id ∧ t.off.digits = decimal off ∧ t.sz.digits = decimal sz ∧
      t.bytes = markerPrint id partNo numParts off sz ∧ rest = payload := by
  have stop : isdigit bar = false := by decide
  have close : isdigit 0xe2 = false := by decide
  simp only [MarkerText.bytes, MarkerText.fields, fieldsText, markerPrint, List.append_assoc, List.cons_append,
    List.append_cancel_left_eq] at same ⊢
  obtain ⟨ids, same⟩ := field_inj (notMem_digits t.idDigits stop) (bar_notMem_decimal id) same
  obtain ⟨partNos, same⟩ := field_inj (notMem_digits t.partNo.isdigit stop) (bar_notMem_decimal partNo) same
  obtain ⟨counts, same⟩ := field_inj (notMem_digits t.numParts.isdigit stop) (bar_notMem_decimal numParts) same
  obtain ⟨offs, same⟩ := field_inj (notMem_digits t.off.isdigit stop) (bar_notMem_decimal off) same
  obtain ⟨sizes, same⟩ := field_inj (notMem_digits t.sz.isdigit close) (notMem_digits (decimal_digits sz) close) same
  refine ⟨ids, offs, sizes, ?_, List.append_cancel_left same⟩
  rw [ids, partNos, counts, offs, sizes]

/-- A slice is read as what it is. -/
theorem slice_parsed {beyond : Memory} {fields : Fields} (small : message.length < 2 ^ 32) (slice : Slice id message d)
    (parsed : markerParse (memoryOf d beyond) d.length = some fields) :
    fields.id = id ∧ fields.sz = message.length ∧ ∃ len, fields.off + len ≤ message.length ∧
      d.drop fields.markerSize = (message.drop fields.off).take len ∧ d.length = fields.markerSize + len := by
  obtain ⟨partNo, numParts, off, len, fits, rfl⟩ := slice
  obtain ⟨t, shown, rfl⟩ := markerParse_iff.mp parsed
  obtain ⟨_, ⟨rest, same⟩ | same⟩ := showsMarker_iff.mp shown
  · obtain ⟨ids, offs, sizes, marker, rfl⟩ := printed_unique same.symm
    have off_eq : t.parsed.off = off := by
      have value : t.off.value = off := by rw [Field.value, offs, digitsValue_decimal]
      change t.off.value % 2 ^ 32 = off
      rw [value]
      exact Nat.mod_eq_of_lt (by omega)
    have sz_eq : t.parsed.sz = message.length := by
      have value : t.sz.value = message.length := by rw [Field.value, sizes, digitsValue_decimal]
      change t.sz.value % 2 ^ 32 = message.length
      rw [value]
      exact Nat.mod_eq_of_lt small
    have markerSize : t.parsed.markerSize = (markerPrint id partNo numParts off message.length).length :=
      congrArg List.length marker
    refine ⟨(congrArg (digitsValue 0) ids).trans (digitsValue_decimal id), sz_eq, len, by omega, ?_, ?_⟩
    · rw [markerSize, off_eq, List.drop_left]
    · rw [markerSize, List.length_append, List.length_take, List.length_drop]
      omega
  · -- the marker would end behind the fragment
    rw [List.append_assoc] at same
    have whole : t.bytes ++ [] = _ := (List.append_nil _).trans same
    obtain ⟨_, _, _, _, none⟩ := printed_unique whole
    cases List.append_eq_nil_iff.mp none.symm |>.2

/-! ## A message at the receiver -/

/-- As long as the message, and every byte the message's or zero. -/
def Patches (message blob : List UInt8) : Prop :=
  blob.length = message.length ∧ ∀ i : Nat, blob[i]? = message[i]? ∨ blob[i]? = some 0

/-- The store is called with a slice of the message. -/
def Brings (message : List UInt8) (f : InboundFragment) : Prop :=
  f.sz = message.length ∧ f.off + f.length ≤ message.length ∧ f.data = (message.drop f.off).take f.length

/-- Of the message nothing or some has come, or it was handed over. -/
def Received (message : List UInt8) (sender : Nat) (r : Rows) (handed : List Handed) : Prop :=
  handed = [] ∧ (∀ d, r.dataRow = some d → Patches message d.message) ∨
    Finished r ∧ ∃ h, handed = [h] ∧ h.friendNumber = sender ∧ Patches message h.message

variable {f : InboundFragment} {r r' : Rows} {ready : Option MsgReady} {limit : BlobLimit} {sender receiver : Nat}
  {handed : List Handed} {c : Call}

theorem patches_blank : Patches message (List.replicate message.length 0) := by
  refine ⟨List.length_replicate, fun i => ?_⟩
  rw [List.getElem?_replicate]
  by_cases inside : i < message.length
  · exact .inr (if_pos inside)
  · exact .inl (by rw [if_neg inside, List.getElem?_eq_none (Nat.le_of_not_lt inside)])

/-- A slice that is written puts the message's own bytes in their places. -/
theorem Patches.written {d : DataRow} (patches : Patches message d.message) (small : message.length < 2 ^ 32)
    (brings : Brings message f) : Patches message (written f d) := by
  obtain ⟨length, bytes⟩ := patches
  obtain ⟨-, fits, data⟩ := brings
  have whole : f.length % 2 ^ 32 = f.length := Nat.mod_eq_of_lt (by omega)
  have taken : f.data.take (f.length % 2 ^ 32) = (message.drop f.off).take f.length := by
    rw [whole, data, List.take_take, Nat.min_self]
  have size : ((message.drop f.off).take f.length).length = f.length := by
    rw [List.length_take, List.length_drop]
    omega
  rw [InboundHistory.written, taken]
  refine ⟨(overwrite_length (by rw [size, length]; exact fits)).trans length, fun i => ?_⟩
  rw [overwrite_getElem? (by rw [size, length]; exact fits), size]
  split
  · rename_i inside
    left
    rw [List.getElem?_take, if_pos (by omega), List.getElem?_drop]
    congr 1
    omega
  · exact bytes i

theorem Received.receive (received : Received message sender r handed) (small : message.length < 2 ^ 32)
    (brings : Brings message f) (friend : f.friendNumber = sender) (step : receive limit f r = .ok (r', ready)) :
    Received message sender r' ((ready.map messageReady).toList ++ handed) := by
  rcases received with ⟨rfl, patches⟩ | ⟨finished, given⟩
  · rcases receive_cases step with ⟨_, _, rfl, rfl⟩ | ⟨m, d, before, deposited⟩
    · exact .inl ⟨rfl, patches⟩
    · have blob : Patches message d.message := by
        rcases before with rfl | ⟨_, _, _, rfl⟩
        · exact patches d rfl
        · rw [brings.1]
          exact patches_blank
      have after := blob.written small brings
      rcases deposit_cases deposited with ⟨_, _, _, rfl, rfl⟩ | ⟨_, _, ⟨_, rfl, rfl⟩ | ⟨_, rfl, rfl⟩⟩
      · refine .inl ⟨rfl, fun d' held => ?_⟩
        cases held
        exact blob
      · exact .inr ⟨⟨rfl, rfl⟩, _, rfl, friend, after⟩
      · refine .inl ⟨rfl, fun d' held => ?_⟩
        cases held
        exact after
  · obtain ⟨rfl, rfl⟩ := finished.receive step
    exact .inr ⟨finished, given⟩

/-- What is taken for a fragment of a message brings a slice of it. -/
theorem brings_of_slice {fields : Fields} (small : message.length < 2 ^ 32)
    (slice : Slice id message c.incoming.message)
    (parsed : markerParse c.incoming.memory c.incoming.message.length = some fields) :
    fields.id = id ∧ Brings message (inFragment c.incoming c.tm fields) := by
  obtain ⟨ids, sizes, len, fits, data, length⟩ := slice_parsed small slice parsed
  have payload : (inFragment c.incoming c.tm fields).length = len := by
    change toSize ((c.incoming.message.length : Int) - fields.markerSize) = len
    rw [length]
    unfold toSize
    omega
  refine ⟨ids, sizes, ?_, ?_⟩
  · rw [payload]
    exact fits
  · rw [payload]
    exact data

/-! ## A life of the receiver -/

variable {a : Act} {l l' p q : Life} {key : Key}

/-- What a process does leaves the rows of a key alone, or is a call with one of its fragments. -/
theorem act_incoming (inbound : key.outbound = false) (ran : act a l = .ok l') :
    rows l'.state.db key = rows l.state.db key ∧ (l'.log = l.log ∨
      ∃ c handed, l'.log = (c, handed) :: l.log ∧ conversation c ≠ some key) ∨
    ∃ c fields ready, l'.log = (c, ready.map messageReady) :: l.log ∧
      markerParse c.incoming.memory c.incoming.message.length = some fields ∧ keyOf c.incoming fields = key ∧
      receive l.world.limit (inFragment c.incoming c.tm fields) (rows l.state.db key) =
        .ok (rows l'.state.db key, ready) := by
  cases a with
  | own op =>
    obtain ⟨s', stepped, same⟩ := bind_ok.mp ran
    cases same
    exact .inl ⟨(step_outgoing op (.refl _) stepped).1 key inbound, .inl rfl⟩
  | restart world =>
    obtain ⟨s', started, same⟩ := bind_ok.mp ran
    cases same
    refine .inl ⟨(Restart.adopted_of_started started).kept key fun p _ _ mine => ?_, .inl rfl⟩
    rw [← mine] at inbound
    cases inbound
  | incoming c answers =>
    obtain ⟨⟨s', handed⟩, answering, same⟩ := bind_ok.mp ran
    cases same
    obtain ⟨db₁, received, t, answered, _, same⟩ := answered_after answering
    have kept := (answers_outgoing (.refl _) answered).1
    have after : rows s'.db key = rows db₁ key := (same key inbound).trans (kept key inbound)
    by_cases own : conversation c = some key
    · obtain ⟨fields, parsed, mine⟩ := Option.map_eq_some_iff.mp own
      rw [receiveCall, friendMessageCb_fragment parsed] at received
      obtain ⟨⟨db₂, ready⟩, inserted, result⟩ := bind_ok.mp received
      cases result
      have step := (receive_of_insert inserted).1
      have here : (inFragment c.incoming c.tm fields).key = key := mine
      rw [here, ← after] at step
      exact .inr ⟨c, fields, ready, rfl, parsed, mine, step⟩
    · have untouched : rows db₁ key = rows l.state.db key :=
        (confined l.world.limit).others (some key) received (Ne.symm own)
      exact .inl ⟨after.trans untouched, .inr ⟨c, handed, rfl, own⟩⟩

/-- What the process takes for fragments from this friend, the other one has
sent to it, the one knowing the other by these numbers. -/
def Hears (receiver sender : Nat) (p q : Life) : Prop :=
  ∀ c handed, (c, handed) ∈ q.log → c.incoming.friendNumber = sender → isFragment c.incoming = true →
    (receiver, c.incoming.message) ∈ p.sent

theorem isFragment_of_parsed {fields : Fields}
    (parsed : markerParse c.incoming.memory c.incoming.message.length = some fields) : isFragment c.incoming = true := by
  rw [isFragment, markerExists_eq, parsed]
  rfl

/-- A fragment that was heard is one of a message with its name. -/
theorem cut_of_heard {Cut : Nat → List UInt8 → List UInt8 → Prop} {handed : Option Handed} {fields : Fields}
    (sound : Lives.Sound Cut p) (hears : Hears receiver sender p q) (member : (c, handed) ∈ q.log)
    (parsed : markerParse c.incoming.memory c.incoming.message.length = some fields)
    (friend : c.incoming.friendNumber = sender) :
    ∃ post ∈ p.posts, post.friendNumber = receiver ∧ Cut post.id post.message c.incoming.message :=
  sound.sent (hears c handed member friend (isFragment_of_parsed parsed))

theorem log_grows (ran : act a l = .ok l') : l.log <:+ l'.log := by
  cases a with
  | own op =>
    obtain ⟨s', _, same⟩ := bind_ok.mp ran
    cases same
    exact List.suffix_rfl
  | incoming c answers =>
    obtain ⟨⟨s', handed⟩, _, same⟩ := bind_ok.mp ran
    cases same
    exact List.suffix_cons _ _
  | restart world =>
    obtain ⟨s', _, same⟩ := bind_ok.mp ran
    cases same
    exact List.suffix_rfl

theorem founded_empty (founded : Founded l) (key : Key) : rows l.state.db key = {} ∧ l.log = [] := by
  obtain ⟨world, state, _, started, rfl⟩ := founded
  obtain rfl := started_iff.mp started
  exact ⟨rfl, rfl⟩

variable {acts acts' : List Act} {post : Post}

/-- What comes under the name of a message is one of its fragments. -/
theorem cut_of_conversation {Cut : Nat → List UInt8 → List UInt8 → Prop} {handed : Option Handed} {fields : Fields}
    (sound : Lives.Sound Cut p) (sliced : ∀ {id message d}, Cut id message d → Sliced id message d)
    (hears : Hears receiver sender p q) (taken : post ∈ p.posts) (friend : post.friendNumber = receiver)
    (member : (c, handed) ∈ q.log)
    (parsed : markerParse c.incoming.memory c.incoming.message.length = some fields)
    (mine : keyOf c.incoming fields = ⟨false, sender, post.id⟩) :
    Cut post.id post.message c.incoming.message := by
  obtain ⟨other, taken', friend', cut⟩ := cut_of_heard sound hears member parsed (congrArg Key.friendId mine)
  have small : other.message.length < 2 ^ 32 := Nat.lt_trans (sound.posted.bounded other taken') (by decide)
  obtain ⟨ids, _⟩ := brings_of_slice (c := c) small (sliced cut small) parsed
  have id : other.id = post.id := ids.symm.trans (congrArg Key.fragsId mine)
  have same := List.inj_on_of_nodup_map sound.posted.named taken' taken (Prod.ext (friend'.trans friend.symm) id)
  exact same ▸ cut

/-- A conversation over a life: what holds of no rows and is kept by each of its
fragments holds of its rows, whatever else the process and its successors do. -/
theorem conversation_of_run {J : List (Call × Option Handed) → Rows → Prop} (inbound : key.outbound = false)
    (run : Run act (fun _ _ => True) Founded acts q) (init : J [] {})
    (others : ∀ {log c handed r}, conversation c ≠ some key → J log r → J ((c, handed) :: log) r)
    (own : ∀ {log c fields ready limit r r'}, (c, ready.map messageReady) ∈ q.log →
      markerParse c.incoming.memory c.incoming.message.length = some fields → keyOf c.incoming fields = key →
      receive limit (inFragment c.incoming c.tm fields) r = .ok (r', ready) → J log r →
      J ((c, ready.map messageReady) :: log) r') : J q.log (rows q.state.db key) := by
  refine run.invariant (I := fun l => l.log <:+ q.log → J l.log (rows l.state.db key)) ?_ ?_ List.suffix_rfl
  · intro l founded _
    obtain ⟨empty, none⟩ := founded_empty founded key
    rw [empty, none]
    exact init
  · intro l a l' before _ ran inside
    have before := before ((log_grows ran).trans inside)
    rcases act_incoming inbound ran with
      ⟨same, unheard | ⟨c, handed, grown, other⟩⟩ | ⟨c, fields, ready, grown, parsed, mine, step⟩
    · rw [same, unheard]
      exact before
    · rw [same, grown]
      exact others other before
    · have here : (c, ready.map messageReady) ∈ l'.log := by
        rw [grown]
        exact List.mem_cons_self
      rw [grown]
      exact own (inside.mem here) parsed mine step before

/-- What has come of a message at a process that hears the one that sent it. -/
theorem received_of_run (sound : Lives.Sound Sliced p) (run : Run act (fun _ _ => True) Founded acts q)
    (hears : Hears receiver sender p q) (taken : post ∈ p.posts) (friend : post.friendNumber = receiver) :
    Received post.message sender (rows q.state.db ⟨false, sender, post.id⟩)
      (handedFor ⟨false, sender, post.id⟩ q.log) := by
  have small : post.message.length < 2 ^ 32 :=
    Nat.lt_trans (sound.posted.bounded post taken) (by decide)
  let key : Key := ⟨false, sender, post.id⟩
  refine conversation_of_run (J := fun log r => Received post.message sender r (handedFor key log)) rfl run ?_ ?_ ?_
  · exact .inl ⟨rfl, fun d => nofun⟩
  · intro log c handed r other before
    rw [handedFor_other other]
    exact before
  · intro log c fields ready limit r r' member parsed mine step before
    have slice := cut_of_conversation sound id hears taken friend member parsed mine
    obtain ⟨_, brings⟩ := brings_of_slice (c := c) small (slice small) parsed
    have conversed : conversation c = some key := by
      rw [conversation, parsed, Option.map_some, mine]
    rw [handedFor_own conversed]
    exact before.receive small brings (congrArg Key.friendId mine) step

/-- Whatever the lives of two processes were, with any limits, any receipts and
any answers, with restarts wherever fragments were on their way, lost, doubled or
out of order: no two messages to a friend had one id, and of each the friend's
client was handed at most one, as long as it and made of its bytes and zeros. -/
theorem handed_once_patched (sent : Run act (fun _ a => Sized a) Founded acts p)
    (heard : Run act (fun _ a => Sized a) Founded acts' q) (hears : Hears receiver sender p q) :
    (p.posts.map Post.name).Nodup ∧ ∀ id, (handedFor ⟨false, sender, id⟩ q.log).length ≤ 1 ∧
      ∀ h ∈ handedFor ⟨false, sender, id⟩ q.log, h.friendNumber = sender ∧
        ∃ message, ⟨receiver, id, message⟩ ∈ p.posts ∧ Patches message h.message := by
  have sound : Lives.Sound Sliced p := sent.invariant (I := Lives.Sound Sliced)
    (fun l => sound_founded (splits_sliced l.world))
    fun _ _ _ before sized ran => before.act sized (fun world _ => splits_sliced world) ran
  refine ⟨sound.posted.named, fun id => ?_⟩
  have found : ∀ h ∈ handedFor ⟨false, sender, id⟩ q.log,
      ∃ post ∈ p.posts, post.friendNumber = receiver ∧ post.id = id := by
    intro h member
    obtain ⟨c, entry, own⟩ := mem_handedFor.mp member
    obtain ⟨fields, parsed, mine⟩ := Option.map_eq_some_iff.mp own
    obtain ⟨post, taken, friend, slice⟩ := cut_of_heard sound hears entry parsed (congrArg Key.friendId mine)
    have small := Nat.lt_trans (sound.posted.bounded post taken) (by decide : 2 ^ 31 < 2 ^ 32)
    obtain ⟨ids, _⟩ := brings_of_slice (c := c) small (slice small) parsed
    exact ⟨post, taken, friend, ids.symm.trans (congrArg Key.fragsId mine)⟩
  cases given : handedFor ⟨false, sender, id⟩ q.log with
  | nil => exact ⟨Nat.zero_le 1, fun h => nofun⟩
  | cons h rest =>
    obtain ⟨post, taken, friend, rfl⟩ := found h (by rw [given]; exact List.mem_cons_self)
    have all := received_of_run sound (heard.weaken fun _ _ _ => trivial) hears taken friend
    rw [given] at all
    obtain ⟨none, _⟩ | ⟨_, h', same, number, patches⟩ := all
    · cases none
    · obtain ⟨rfl, rfl⟩ := List.cons.inj same
      refine ⟨Nat.le_refl 1, fun h member => ?_⟩
      obtain rfl := List.mem_singleton.mp member
      exact ⟨number, post.message, friend ▸ taken, patches⟩

theorem hears_of_messages (taken : ∀ d ∈ q.log.map fun entry => entry.1.incoming.message, (receiver, d) ∈ p.sent) :
    Hears receiver sender p q :=
  fun _ _ member _ _ => taken _ (List.mem_map_of_mem member)

/-- Messages have so many bytes. -/
def limited (maxLength : Nat) : World := scripted { maxMessageLength := maxLength } [5, 6] []

theorem founded_limited (maxLength : Nat) :
    Founded { world := limited maxLength, state := initialState (limited maxLength) } :=
  ⟨limited maxLength, _, by simp [limited, scripted], started_initialState _, rfl⟩

/-- A message that comes in from the friend with the number 7. -/
def fromSeven (message : List UInt8) : Call := ⟨⟨7, 0, message, fun _ => 0⟩, 9⟩

/-- Two parts are sent, and after a restart they are sent again. -/
def sentTwice (maxLength : Nat) (message : List UInt8) : List Act :=
  [.own .periodic, .restart (limited maxLength), .own (.send 1 0 message fun _ => 0)]

/-- One part comes in, and the other after a restart. -/
def heardApart (maxLength : Nat) (first second : List UInt8) : List Act :=
  [.incoming (fromSeven second) [], .restart (limited maxLength), .incoming (fromSeven first) []]

/-- Sixty-five bytes in pieces of this size. -/
def piece (size k : Nat) : List UInt8 := fragmentBytes 1234567890123 size (List.replicate 65 1) k

/-- The process cuts the message into 33 and 32 bytes, and after a restart into 35
and 30. The first part of the one and the second of the other make a message with
two zeros in it. -/
theorem handed_once_patched_of_restart : ∃ p q,
    Run act (fun _ a => Sized a) Founded (sentTwice 64 (List.replicate 65 1)) p ∧
    Run act (fun _ a => Sized a) Founded (heardApart 64 (piece 33 0) (piece 35 1)) q ∧ Hears 1 7 p q ∧
    ∃ h, handedFor ⟨false, 7, 1234567890123⟩ q.log = [h] ∧
      h.message = List.replicate 33 1 ++ [0, 0] ++ List.replicate 30 1 ∧
      ∃ message, ⟨1, 1234567890123, message⟩ ∈ p.posts ∧ Patches message h.message := by
  obtain ⟨p, sent, cut⟩ := exists_run act (fun _ a => Sized a) (sentTwice 64 (List.replicate 65 1)).reverse
    (fun p => (1, piece 33 0) ∈ p.sent ∧ (1, piece 35 1) ∈ p.sent) (founded_limited 64) (by decide +kernel)
  obtain ⟨q, heard, come⟩ := exists_run act (fun _ a => Sized a) (heardApart 64 (piece 33 0) (piece 35 1)).reverse
    (fun q => (q.log.map fun entry => entry.1.incoming.message) = [piece 35 1, piece 33 0] ∧
      (handedFor ⟨false, 7, 1234567890123⟩ q.log).map (·.message) =
        [List.replicate 33 1 ++ [0, 0] ++ List.replicate 30 1]) (founded_limited 64) (by decide +kernel)
  obtain ⟨first, second⟩ := of_decide_eq_true cut
  obtain ⟨messages, handed⟩ := of_decide_eq_true come
  have hears : Hears 1 7 p q := by
    refine hears_of_messages fun d member => ?_
    rw [messages] at member
    rcases List.mem_cons.mp member with rfl | member
    · exact second
    · exact List.mem_singleton.mp member ▸ first
  obtain ⟨h, given, bytes⟩ := List.map_eq_singleton_iff.mp handed
  obtain ⟨_, once⟩ := handed_once_patched sent heard hears
  obtain ⟨_, patched⟩ := (once 1234567890123).2 h (given ▸ List.mem_singleton_self h)
  exact ⟨p, q, sent, heard, hears, h, given, bytes, patched⟩

/-! ## The same cuts -/

/-- A fragment of this letter is one of its parts. -/
def CutAs (l : Letter) (id : Nat) (message d : List UInt8) : Prop :=
  Sliced id message d ∧ (id = l.id → message = l.bytes → ∃ k < l.parts, d = fragmentBytes l.id l.size l.bytes k)

/-- A process that starts cuts the letter as one that has started. -/
def CutsAlike (l : Letter) : Prop := chunkSize 0 l.maxLength l.bytes.length = chunkSize 63 l.maxLength l.bytes.length

instance {l : Letter} : Decidable (CutsAlike l) := inferInstanceAs (Decidable (_ = _))

/-- Every process starts under this limit. -/
def Limited (maxLength : Nat) : Act → Prop
  | .restart world => world.params.maxMessageLength = maxLength
  | _ => True

instance {maxLength : Nat} : DecidablePred (Limited maxLength) := fun a =>
  match a with
  | .own _ => .isTrue trivial
  | .incoming .. => .isTrue trivial
  | .restart world => inferInstanceAs (Decidable (world.params.maxMessageLength = maxLength))

/-- The store can tell whether a part has come: no part begins with a zero. -/
def Telling (l : Letter) : Prop := ∀ k < l.parts, l.bytes[k * l.size]? ≠ some 0

instance {l : Letter} : Decidable (Telling l) := inferInstanceAs (Decidable (∀ k < l.parts, _))

variable {t : Letter} {got : Finset Nat} {k : Nat} {calls : List Call}

theorem splits_alike {w : World} (limit : w.params.maxMessageLength = t.maxLength) (alike : CutsAlike t) :
    Splits (CutAs t) w := by
  rintro big reserved message id m split i d held
  refine ⟨splits_sliced w big reserved message id m split i d held, ?_⟩
  rintro named rfl
  have own := (unsent_of_split split).id_eq
  have small : big ≤ 63 := by omega
  have same : chunkSize big t.maxLength t.bytes.length = t.size := by
    rcases reserved with rfl | rfl
    · exact alike
    · rfl
  rw [limit, splitMessage_eq small t.room t.maxLengthSmall t.small, same] at split
  cases split
  have named : id = t.id := named
  subst named
  rw [Moves.part, List.getD_eq_getElem?_getD] at held
  cases at_i : (splitInto t.id t.size t.bytes).fragments[i]? with
  | none =>
    rw [at_i] at held
    cases held
  | some f =>
    rw [at_i] at held
    simp only [splitInto, List.getElem?_map, Option.map_eq_some_iff, List.getElem?_eq_some_iff, List.length_range,
      List.getElem_range] at at_i
    obtain ⟨_, ⟨inside, rfl⟩, rfl⟩ := at_i
    exact ⟨i, inside, (Option.some.inj held).symm⟩

theorem came_cons : came t (c :: calls) = came t (calls ++ [c]) := by
  ext k
  simp only [mem_came, List.mem_cons, List.mem_append, List.not_mem_nil, or_false]
  exact exists_congr fun c' => and_congr_left' or_comm

/-- Once rows are there the limit is not looked at. -/
theorem receive_limit {limit' : BlobLimit} (known : r.metaRow.isSome) : receive limit f r = receive limit' f r := by
  obtain ⟨metaRow, dataRow⟩ := r
  cases metaRow with
  | none => cases known
  | some m => cases dataRow <;> rfl

/-- The receiver holds the parts that have come, and handed the letter over when that were all. -/
def Landed (t : Letter) (got : Finset Nat) (r : Rows) (handed : List Handed) : Prop :=
  Holds t got r ∧ handed.map (·.message) = if got = Finset.range t.parts then [t.bytes] else []

theorem Landed.receive {type : Int} {tm : Nat} (landed : Landed t got r handed) (within : got ⊆ Finset.range t.parts)
    (short : t.bytes.length < 2 ^ 31) (telling : Telling t) (inside : k < t.parts)
    (step : InboundStore.receive limit (t.inbound k type tm) r = .ok (r', ready)) :
    Landed t (insert k got) r' ((ready.map messageReady).toList ++ handed) := by
  obtain ⟨holds, before⟩ := landed
  by_cases member : k ∈ got
  · -- a part that is there is known again
    have known : ∀ d, r.dataRow = some d → d.message[k * t.size]? ≠ some 0 := by
      intro d held
      have stored := holds
      rw [Holds, if_neg (Finset.ne_empty_of_mem member)] at stored
      obtain ⟨m, _, _, _, rest⟩ := stored
      split at rest
      · rw [held] at rest
        cases rest
      · obtain ⟨d', held', blob⟩ := rest
        cases held.symm.trans held'
        rw [blob, t.stored_head got inside, if_pos member]
        exact telling k inside
    have again := @TwoPeers.receive_again t k limit got r type tm inside member holds known
    cases again.symm.trans step
    rw [Finset.insert_eq_of_mem member]
    exact ⟨holds, before⟩
  · have fits : ∃ limit' : BlobLimit, t.bytes.length ≤ limit'.val ∧
        InboundStore.receive limit' (t.inbound k type tm) r = .ok (r', ready) := by
      by_cases empty : got = ∅
      · subst empty
        obtain rfl : r = {} := holds
        exact ⟨limit, TwoPeers.fits_of_receive step, step⟩
      · rw [Holds, if_neg empty] at holds
        obtain ⟨m, known, _⟩ := holds
        exact ⟨⟨t.bytes.length, short⟩, Nat.le_refl _, (receive_limit (by rw [known]; rfl)).symm.trans step⟩
    obtain ⟨limit', fits, step⟩ := fits
    obtain ⟨r₁, ready₁, went, holds₁, called⟩ := receive_missing type tm fits inside within member holds
    cases went.symm.trans step
    have missing : got ≠ Finset.range t.parts := by
      rintro rfl
      exact member (Finset.mem_range.mpr inside)
    have extended : insert k got ⊆ Finset.range t.parts :=
      Finset.insert_subset (Finset.mem_range.mpr inside) within
    rw [if_neg missing, List.map_eq_nil_iff] at before
    subst before
    refine ⟨holds₁, ?_⟩
    rw [called, List.append_nil]
    by_cases all : insert k got = Finset.range t.parts
    · rw [all, Finset.card_range, if_pos rfl, if_pos rfl, t.stored_all]
      rfl
    · have fewer : (insert k got).card ≠ t.parts := fun card =>
        all (Finset.eq_of_subset_of_card_le extended (by rw [Finset.card_range, card]))
      rw [if_neg fewer, if_neg all]
      rfl

/-- What has come of the letter in all the receiver's lives. -/
theorem landed_of_run (sound : Lives.Sound (CutAs t) p) (run : Run act (fun _ _ => True) Founded acts q)
    (hears : Hears receiver t.friendNumber p q) (taken : ⟨receiver, t.id, t.bytes⟩ ∈ p.posts) (telling : Telling t) :
    Landed t (came t (q.log.map Prod.fst)) (rows q.state.db t.key) (handedFor t.key q.log) := by
  have short : t.bytes.length < 2 ^ 31 := sound.posted.bounded _ taken
  refine conversation_of_run (J := fun log r => Landed t (came t (log.map Prod.fst)) r (handedFor t.key log)) rfl run
    ?_ ?_ ?_
  · have nothing : came t [] = ∅ := Finset.filter_eq_empty_iff.mpr fun k _ => by simp
    have parts : ∅ ≠ Finset.range t.parts :=
      Ne.symm (Finset.nonempty_range_iff.mpr (Nat.ne_of_gt t.parts_pos)).ne_empty
    rw [List.map_nil, nothing]
    refine ⟨?_, ?_⟩
    · rw [Holds, if_pos rfl]
    · rw [if_neg parts]
      rfl
  · intro log c handed r other before
    rw [handedFor_other other, List.map_cons, came_cons, came_other other]
    exact before
  · intro log c fields ready limit r r' member parsed mine step before
    obtain ⟨_, cut⟩ := cut_of_conversation sound And.left hears taken rfl member parsed mine
    obtain ⟨k, inside, bytes⟩ := cut rfl rfl
    have carried : Carries t k c.incoming := carries_iff.mpr ⟨congrArg Key.friendId mine, inside, bytes⟩
    obtain ⟨fields', parsed', arguments⟩ := inFragment_carried carried
    cases parsed.symm.trans parsed'
    rw [arguments] at step
    have within : came t (log.map Prod.fst) ⊆ Finset.range t.parts := Finset.filter_subset _ _
    rw [handedFor_own (conversation_carried carried), List.map_cons, came_cons, came_own carried]
    exact before.receive within short telling inside step

/-- However often both processes were started anew: as long as every process that
sends starts under one limit, under which it cuts the message as one that has
started, and no part begins with a zero, the friend's client was handed the
message if every part has come in one of the receiver's lives. It was handed it
once then, as it was, and nothing before. -/
theorem handed_iff_came (sent : Run act (fun _ a => Sized a ∧ Limited t.maxLength a)
      (fun l => Founded l ∧ l.world.params.maxMessageLength = t.maxLength) acts p)
    (heard : Run act (fun _ a => Sized a) Founded acts' q) (hears : Hears receiver t.friendNumber p q)
    (taken : ⟨receiver, t.id, t.bytes⟩ ∈ p.posts) (alike : CutsAlike t) (telling : Telling t) :
    (handedFor t.key q.log).map (·.message) =
      if came t (q.log.map Prod.fst) = Finset.range t.parts then [t.bytes] else [] := by
  have sound : Lives.Sound (CutAs t) p := by
    refine sent.invariant (I := Lives.Sound (CutAs t)) ?_ ?_
    · rintro l ⟨founded, limit⟩
      exact sound_founded (splits_alike limit alike) founded
    · rintro l a l' before ⟨sized, limited⟩ ran
      refine before.act sized (fun world restarted => ?_) ran
      subst restarted
      exact splits_alike limited alike
  exact (landed_of_run sound (heard.weaken fun _ _ _ => trivial) hears taken telling).2

/-- A hundred and eleven bytes, of which every process cuts off the same. -/
def longer : Letter :=
  { uniformLetter 65 with
    maxLength := 110
    bytes := List.replicate 111 65
    room := by decide
    maxLengthSmall := by decide
    long := by decide
    small := by decide }

def longerPart (k : Nat) : List UInt8 := fragmentBytes longer.id longer.size longer.bytes k

/-- Each part comes from one life of the sender into one of the receiver. -/
theorem handed_iff_came_of_restart : ∃ p q,
    Run act (fun _ a => Sized a ∧ Limited 110 a) (fun l => Founded l ∧ l.world.params.maxMessageLength = 110)
      (sentTwice 110 longer.bytes) p ∧
    Run act (fun _ a => Sized a) Founded (heardApart 64 (longerPart 0) (longerPart 1)) q ∧ Hears 1 7 p q ∧
    (handedFor longer.key q.log).map (·.message) = [longer.bytes] := by
  obtain ⟨p, sent, cut⟩ := @exists_run _ _ _ (fun l => Founded l ∧ l.world.params.maxMessageLength = 110) act
    (fun _ a => Sized a ∧ Limited 110 a) _ (sentTwice 110 longer.bytes).reverse
    (fun p => (1, longerPart 0) ∈ p.sent ∧ (1, longerPart 1) ∈ p.sent ∧
      Post.mk 1 longer.id longer.bytes ∈ p.posts)
    _ ⟨founded_limited 110, rfl⟩ (by decide +kernel)
  obtain ⟨q, heard, come⟩ := exists_run act (fun _ a => Sized a)
    (heardApart 64 (longerPart 0) (longerPart 1)).reverse
    (fun q => (q.log.map fun entry => entry.1.incoming.message) = [longerPart 1, longerPart 0] ∧
      came longer (q.log.map Prod.fst) = Finset.range longer.parts) (founded_limited 64) (by decide +kernel)
  obtain ⟨first, second, taken⟩ := of_decide_eq_true cut
  obtain ⟨messages, all⟩ := of_decide_eq_true come
  have hears : Hears 1 7 p q := by
    refine hears_of_messages fun d member => ?_
    rw [messages] at member
    rcases List.mem_cons.mp member with rfl | member
    · exact second
    · exact List.mem_singleton.mp member ▸ first
  have handed := handed_iff_came (t := longer) sent heard hears taken (by decide +kernel) (by decide +kernel)
  rw [if_pos all] at handed
  exact ⟨p, q, sent, heard, hears, handed⟩

end Defragmenter.Continuity
