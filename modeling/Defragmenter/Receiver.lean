import Defragmenter.Database
import Defragmenter.MarkerGrammar
import Defragmenter.Split

/-! The receiving half of `tox-defragmenter.c`, and what it makes of a fragment
that `splitMessage` built: the marker is read back field by field, and the
payload behind it is one piece of the original message. -/
namespace Defragmenter.Receiver
open Decimal Marker MarkerGrammar Database Split Tiling

/-- A call of the message callback by the base library. `message` are the bytes
it passes; `beyond` is what lies behind them in memory, since the marker parser
can look past the end. -/
structure Incoming where
  friendNumber : Nat
  type : Int
  message : List UInt8
  beyond : Memory

def Incoming.memory (m : Incoming) : Memory := memoryOf m.message m.beyond

/-- A call of the client's message callback. -/
structure Handed where
  friendNumber : Nat
  type : Int
  message : List UInt8
  deriving DecidableEq, Repr

def isFragment (m : Incoming) : Bool := markerExists m.memory m.message.length

def messageReady (r : MsgReady) : Handed := ⟨r.friendNumber, r.type, r.message⟩

/-- The arguments `processInFragment` passes on, the marker once parsed. -/
def inFragment (m : Incoming) (tm : Nat) (fields : Fields) : InboundFragment where
  friendNumber := m.friendNumber
  type := m.type
  id := fields.id
  partNo := fields.partNo
  numParts := fields.numParts
  off := fields.off
  sz := fields.sz
  data := m.message.drop fields.markerSize
  length := toSize (m.message.length - fields.markerSize)
  tm := tm

def processInFragment (limit : BlobLimit) (db : Db) (m : Incoming) (tm : Nat) :
    Except Fault (Db × Option Handed) :=
  match markerParse m.memory m.message.length with
  | none => .error .abort -- not reached: `isFragment` ran the same parse
  | some fields => do
    let (db, ready) ← dbInsertInboundFragment limit db (inFragment m tm fields)
    pure (db, ready.map messageReady)

def friendMessageCb (limit : BlobLimit) (db : Db) (m : Incoming) (tm : Nat) :
    Except Fault (Db × Option Handed) :=
  if isFragment m then processInFragment limit db m tm
  else pure (db, some ⟨m.friendNumber, m.type, m.message⟩)

private theorem parseFields_length {message : Memory} {length n p : Nat} {fields : List (Nat × Nat)}
    (parsed : parseFields message length n p = some fields) : fields.length = n := by
  induction n generalizing p fields with
  | zero =>
    cases parsed
    rfl
  | succ n ih =>
    simp only [parseFields, Option.ite_none_left_eq_some, Option.map_eq_some_iff] at parsed
    obtain ⟨_, rest, parsedRest, rfl⟩ := parsed
    rw [List.length_cons, ih parsedRest]

/-- The check for a marker and the parse of it agree. -/
theorem markerExists_eq (message : Memory) (length : Nat) :
    markerExists message length = (markerParse message length).isSome := by
  unfold markerExists markerParse
  cases parsed : markerParseFields message length with
  | none => rfl
  | some fields =>
    have count : fields.length = nInts := by
      simp only [markerParseFields, Option.ite_none_left_eq_some] at parsed
      exact parseFields_length parsed.2.2.2
    rcases fields with _ | ⟨_, _ | ⟨_, _ | ⟨_, _ | ⟨_, _ | ⟨_, _⟩⟩⟩⟩⟩ <;>
      first | rfl | simp [nInts] at count

theorem friendMessageCb_fragment {limit : BlobLimit} {db : Db} {m : Incoming} {tm : Nat}
    {fields : Fields} (parsed : markerParse m.memory m.message.length = some fields) :
    friendMessageCb limit db m tm = (do
      let (db, ready) ← dbInsertInboundFragment limit db (inFragment m tm fields)
      pure (db, ready.map messageReady)) := by
  rw [friendMessageCb, if_pos (by rw [isFragment, markerExists_eq, parsed]; rfl), processInFragment,
    parsed]

theorem friendMessageCb_other {limit : BlobLimit} {db : Db} {m : Incoming} {tm : Nat}
    (parsed : markerParse m.memory m.message.length = none) :
    friendMessageCb limit db m tm = .ok (db, some ⟨m.friendNumber, m.type, m.message⟩) := by
  rw [friendMessageCb, if_neg (by rw [isFragment, markerExists_eq, parsed]; decide)]
  rfl

/-! ## Fragments of a split message -/

/-- A long message of one conversation, under the bounds its sender keeps. -/
structure Letter where
  /-- The friend's number as the receiver knows it. -/
  friendNumber : Nat
  id : Nat
  maxLength : Nat
  bytes : List UInt8
  idLower : 10 ^ 12 ≤ id
  idUpper : id < 10 ^ 13
  room : 63 < maxLength
  maxLengthSmall : maxLength < 2 ^ 32
  long : maxLength < bytes.length
  small : bytes.length < 2 ^ 32

namespace Letter
variable (l : Letter)

def key : Key := ⟨false, l.friendNumber, l.id⟩

def size : Nat := chunkSize 63 l.maxLength l.bytes.length

def parts : Nat := pieceCount l.size l.bytes.length

/-- Fragment `k` of the letter, counted from zero, as it reaches the store. -/
def inbound (k : Nat) (type : Int) (tm : Nat) : InboundFragment where
  friendNumber := l.friendNumber
  type := type
  id := l.id
  partNo := k + 1
  numParts := l.parts
  off := k * l.size
  sz := l.bytes.length
  data := piece l.size l.bytes k
  length := (piece l.size l.bytes k).length
  tm := tm

@[simp] theorem inbound_key {k : Nat} {type : Int} {tm : Nat} : (l.inbound k type tm).key = l.key := rfl

theorem size_pos : 0 < l.size := chunkSize_pos (Nat.le_refl 63) l.room l.small

theorem parts_pos : 0 < l.parts := by
  rw [parts, lt_pieceCount_iff l.size_pos]
  have := l.room
  have := l.long
  omega

theorem parts_le : l.parts ≤ l.bytes.length := pieceCount_le l.bytes.length l.size_pos

variable {k : Nat}

theorem offset_lt (inside : k < l.parts) : k * l.size < l.bytes.length :=
  (lt_pieceCount_iff l.size_pos).mp inside

/-- What the store holds of the letter once the pieces in `got` are in. -/
def stored (got : Finset Nat) : List UInt8 := mosaic 0 l.size l.bytes got

theorem stored_head (got : Finset Nat) (inside : k < l.parts) :
    (l.stored got)[k * l.size]? = if k ∈ got then l.bytes[k * l.size]? else some 0 := by
  rw [stored, mosaic_head l.size_pos (l.offset_lt inside),
    List.getElem?_eq_getElem (l.offset_lt inside)]
  split <;> rfl

theorem stored_all : l.stored (Finset.range l.parts) = l.bytes :=
  mosaic_full l.size_pos fun _ bound => Finset.mem_range.mpr bound

/-- The write of fragment `k` puts exactly its piece in place. -/
theorem stored_write (got : Finset Nat) (inside : k < l.parts) (type : Int) (tm : Nat) :
    overwrite (l.stored got) (l.inbound k type tm).off
      ((l.inbound k type tm).data.take ((l.inbound k type tm).length % 2 ^ 32)) =
      l.stored (insert k got) := by
  have fits := piece_fits (l.offset_lt inside)
  have small := l.small
  have whole : (piece l.size l.bytes k).length % 2 ^ 32 = (piece l.size l.bytes k).length :=
    Nat.mod_eq_of_lt (by omega)
  simp only [inbound, whole, List.take_length]
  exact overwrite_mosaic l.size_pos (l.offset_lt inside)

theorem stored_fits (got : Finset Nat) (inside : k < l.parts) (type : Int) (tm : Nat) :
    (l.inbound k type tm).off + (l.inbound k type tm).length % 2 ^ 32 ≤ (l.stored got).length := by
  have fits := piece_fits (l.offset_lt inside)
  have le := Nat.mod_le (piece l.size l.bytes k).length (2 ^ 32)
  rw [stored, mosaic_length]
  change k * l.size + (piece l.size l.bytes k).length % 2 ^ 32 ≤ _
  omega

theorem split_eq : splitMessage 63 l.bytes l.maxLength l.id = .ok (splitInto l.id l.size l.bytes) :=
  splitMessage_eq (Nat.le_refl 63) l.room l.maxLengthSmall l.small

end Letter

/-- The incoming message is fragment `k` of those `splitMessage` makes of the letter. -/
def Carries (l : Letter) (k : Nat) (m : Incoming) : Prop :=
  m.friendNumber = l.friendNumber ∧ ∃ msg fragment,
    splitMessage (markerMaxSizeBytes (2 ^ 31 - 1) (2 ^ 31 - 1)) l.bytes l.maxLength l.id = .ok msg ∧
    msg.fragments[k]? = some fragment ∧ fragment.data = some m.message

theorem carries_iff {l : Letter} {k : Nat} {m : Incoming} :
    Carries l k m ↔ m.friendNumber = l.friendNumber ∧ k < l.parts ∧
      m.message = fragmentBytes l.id l.size l.bytes k := by
  unfold Carries
  rw [markerMaxSizeEver_eq, l.split_eq]
  constructor
  · rintro ⟨friend, msg, fragment, split, at_k, data⟩
    cases split
    simp only [splitInto, List.getElem?_map, Option.map_eq_some_iff,
      List.getElem?_eq_some_iff, List.length_range, List.getElem_range] at at_k
    obtain ⟨_, ⟨inside, rfl⟩, rfl⟩ := at_k
    exact ⟨friend, inside, (Option.some.inj data).symm⟩
  · rintro ⟨friend, inside, message⟩
    refine ⟨friend, _, fragmentAt l.id l.size l.bytes k, rfl, ?_, by rw [message]; rfl⟩
    have range : (List.range l.parts)[k]? = some k := List.getElem?_range inside
    change ((List.range l.parts).map (fragmentAt l.id l.size l.bytes))[k]? = _
    rw [List.getElem?_map, range]
    rfl

/-- Fragment `k` of the letter as the base library hands it over. -/
def packet (l : Letter) (k : Nat) (type : Int) : Incoming where
  friendNumber := l.friendNumber
  type := type
  message := fragmentBytes l.id l.size l.bytes k
  beyond := fun _ => 0

theorem carries_packet {l : Letter} {k : Nat} (inside : k < l.parts) (type : Int) :
    Carries l k (packet l k type) :=
  carries_iff.mpr ⟨rfl, inside, rfl⟩

/-- A two-part letter of one byte over and over. -/
def uniformLetter (b : UInt8) : Letter where
  friendNumber := 7
  id := 1234567890123
  maxLength := 64
  bytes := List.replicate 65 b
  idLower := by decide
  idUpper := by decide
  room := by decide
  maxLengthSmall := by decide
  long := by simp
  small := by simp

/-- The receiver reads a carried fragment as what the splitter put in. -/
theorem inFragment_carried {l : Letter} {k : Nat} {m : Incoming} (carried : Carries l k m) :
    ∃ fields, markerParse m.memory m.message.length = some fields ∧
      ∀ tm, inFragment m tm fields = l.inbound k m.type tm := by
  obtain ⟨friend, inside, message⟩ := carries_iff.mp carried
  have parts := l.parts_le
  have small := l.small
  have offset : k * l.size < l.bytes.length := (lt_pieceCount_iff l.size_pos).mp inside
  have shown : Shows m.memory 0 m.message := shows_memoryOf m.message m.beyond
  rw [message, fragmentBytes] at shown
  have count : pieceCount l.size l.bytes.length < 2 ^ 32 := Nat.lt_of_le_of_lt parts small
  have parsed := markerParse_markerPrint l.idLower l.idUpper (by omega : k + 1 < 2 ^ 32) count
    (by omega) small (piece_ne_nil l.size_pos inside) shown (congrArg List.length message)
  refine ⟨_, parsed, fun tm => ?_⟩
  have rest : m.message.drop (markerPrint l.id (k + 1) (pieceCount l.size l.bytes.length) (k * l.size)
      l.bytes.length).length = piece l.size l.bytes k := by
    rw [message, fragmentBytes, List.drop_left]
  have length : m.message.length = (markerPrint l.id (k + 1) (pieceCount l.size l.bytes.length)
      (k * l.size) l.bytes.length).length + (piece l.size l.bytes k).length := by
    rw [message, fragmentBytes, List.length_append]
  have payload : (piece l.size l.bytes k).length < 2 ^ 64 := by
    have := piece_fits offset
    omega
  have remaining : toSize ((m.message.length : Int) - (markerPrint l.id (k + 1)
      (pieceCount l.size l.bytes.length) (k * l.size) l.bytes.length).length) =
      (piece l.size l.bytes k).length := by
    rw [length]
    unfold toSize
    omega
  simp only [inFragment, Letter.inbound, rest, remaining, friend]
  rfl

theorem friendMessageCb_carried {limit : BlobLimit} {db : Db} {l : Letter} {k : Nat} {m : Incoming}
    {tm : Nat} (carried : Carries l k m) :
    friendMessageCb limit db m tm = (do
      let (db, ready) ← dbInsertInboundFragment limit db (l.inbound k m.type tm)
      pure (db, ready.map messageReady)) := by
  obtain ⟨fields, parsed, arguments⟩ := inFragment_carried carried
  rw [friendMessageCb_fragment parsed, arguments]

end Defragmenter.Receiver
