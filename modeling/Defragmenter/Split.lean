import Defragmenter.Marker
import Defragmenter.Tiling

/-! `splitMessage` and the records it fills in. The bottom half is the C
arithmetic with its conversions; the top half says what the fragments are for
every admitted limit and length. -/
namespace Defragmenter.Split
open Marker Tiling

/-- `struct fragment`; `data` is `none` once it is freed and set to `NULL`. -/
structure Fragment where
  length : Nat := 0
  data : Option (List UInt8) := none
  /-- The base library's receipt the fragment is waiting for. -/
  receipt : Nat := 0
  timesSent : Nat := 0
  confirmed : Bool := false
  deriving DecidableEq, Repr, Inhabited

/-- `struct msg_outbound`, its two links apart: the circular list they make is
kept as a list of addresses. -/
structure MsgOutbound where
  friendNumber : Nat := 0
  id : Nat := 0
  type : Int := 0
  numParts : Nat := 0
  fragments : List Fragment := []
  /-- The receipt number sent to the client. -/
  receipt : Nat := 0
  lastSent : Nat := 0
  numTransit : Nat := 0
  numConfirmed : Nat := 0
  numLoss : Nat := 0
  fromDb : Bool := false
  deriving DecidableEq, Repr

/-- The loop of `splitMessage`: `m` is what the read pointer still has ahead
of it, `len` the counter that ends the loop. `fuel` bounds the rounds. -/
def splitLoop (maxLength id numParts length : Nat) :
    Nat → Nat → Nat → Nat → List UInt8 → List Fragment
  | 0, _, _, _, _ => []
  | fuel + 1, partNo, off, len, m =>
    if len = 0 then []
    else
      let step := if maxLength ≤ len then maxLength else len
      let marker := markerPrint id partNo numParts off length
      { length := marker.length + step, data := some (marker ++ m.take step) } ::
        splitLoop maxLength id numParts length fuel (partNo + 1) (off + step) (len - step) (m.drop step)

/-- `splitMessage`. The division happens in `size_t`, so both subtractions
wrap around when the limit is too small. The array of fragments has `numParts`
places, all zero until the loop fills them. -/
def splitMessage (markerMaxSizeEver : Nat) (message : List UInt8) (maxLength id : Nat) :
    Except Fault MsgOutbound :=
  let length := message.length
  let room := toSize (maxLength - markerMaxSizeEver)
  if room = 0 then .error .divideByZero
  else
    -- conservative estimate
    let estimate := toSize (length + maxLength - markerMaxSizeEver - 1) / room
    let maxMarker := markerMaxSizeBytes (toUnsigned estimate) (toUnsigned length)
    let maxLength := toSize (maxLength - maxMarker)
    if maxLength = 0 then .error .divideByZero
    else
      let numParts := toUnsigned (toSize (length + maxLength - 1) / maxLength : Nat)
      let len := toUnsigned length
      .ok {
        id := id
        numParts := numParts
        fragments := (splitLoop maxLength id numParts len len 1 0 len message).takeD numParts {} }

/-- The bytes of payload a full fragment carries. -/
def chunkSize (markerMaxSizeEver maxLength length : Nat) : Nat :=
  maxLength - markerMaxSizeBytes (pieceCount (maxLength - markerMaxSizeEver) length) length

/-- The bytes of fragment `k`, counted from zero. -/
def fragmentBytes (id size : Nat) (message : List UInt8) (k : Nat) : List UInt8 :=
  markerPrint id (k + 1) (pieceCount size message.length) (k * size) message.length ++
    piece size message k

/-- Fragment `k` as `splitMessage` leaves it. -/
def fragmentAt (id size : Nat) (message : List UInt8) (k : Nat) : Fragment where
  length := (fragmentBytes id size message k).length
  data := some (fragmentBytes id size message k)

/-- The message `splitMessage` builds from pieces of this size. -/
def splitInto (id size : Nat) (message : List UInt8) : MsgOutbound where
  id := id
  numParts := pieceCount size message.length
  fragments := (List.range (pieceCount size message.length)).map (fragmentAt id size message)

private theorem splitLoop_done {size id numParts length fuel partNo off : Nat} {m : List UInt8} :
    splitLoop size id numParts length fuel partNo off 0 m = [] := by
  cases fuel <;> simp [splitLoop]

/-- From piece `k` on, the loop yields exactly the remaining fragments. -/
theorem splitLoop_eq {id size : Nat} {message : List UInt8} (positive : 0 < size) (rounds : Nat) :
    ∀ {fuel k : Nat}, message.length - k * size ≤ fuel →
      k + rounds = pieceCount size message.length →
      splitLoop size id (pieceCount size message.length) message.length fuel (k + 1) (k * size)
        (message.length - k * size) (message.drop (k * size)) =
      (List.range' k rounds).map (fragmentAt id size message) := by
  induction rounds with
  | zero =>
    intro fuel k _ done
    have covered := le_pieceCount_mul message.length positive
    have nothingLeft : message.length - k * size = 0 := by
      rw [show k = pieceCount size message.length by omega]
      omega
    rw [nothingLeft, splitLoop_done]
    rfl
  | succ rounds ih =>
    intro fuel k enough count
    have inside : k * size < message.length := (lt_pieceCount_iff positive).mp (by omega)
    obtain ⟨fuel, rfl⟩ := Nat.exists_eq_succ_of_ne_zero (show fuel ≠ 0 by omega)
    have advance : k * size + size = (k + 1) * size := (Nat.succ_mul k size).symm
    rw [splitLoop, if_neg (by omega), List.range'_succ, List.map_cons]
    by_cases full : size ≤ message.length - k * size
    · have rest := @ih fuel (k + 1) (by rw [← advance]; omega) (by omega)
      have pieceSize : (piece size message k).length = size := by rw [piece_length]; omega
      rw [if_pos full]
      dsimp only
      rw [List.drop_drop, Nat.sub_sub, advance, rest]
      simp only [fragmentAt, fragmentBytes, List.length_append, pieceSize]
      rfl
    · -- the last piece is shorter, and the counter reaches zero behind it
      have last : rounds = 0 := by
        refine Nat.eq_zero_of_not_pos fun more => ?_
        have next : (k + 1) * size < message.length := (lt_pieceCount_iff positive).mp (by omega)
        omega
      have pieceSize : (piece size message k).length = message.length - k * size := by
        rw [piece_length]
        omega
      have taken : (message.drop (k * size)).take (message.length - k * size) =
          piece size message k := by
        rw [piece, List.take_of_length_le (by simp), List.take_of_length_le (by simp; omega)]
      rw [if_neg full]
      dsimp only
      rw [Nat.sub_self, splitLoop_done, last, taken]
      simp [fragmentAt, fragmentBytes, pieceSize]

private theorem splitLoop_fresh {size id numParts length fuel partNo off len : Nat}
    {m : List UInt8} {f : Fragment}
    (member : f ∈ splitLoop size id numParts length fuel partNo off len m) :
    f.receipt = 0 ∧ f.confirmed = false := by
  induction fuel generalizing partNo off len m with
  | zero => simp [splitLoop] at member
  | succ fuel ih =>
    rw [splitLoop] at member
    split at member
    · simp at member
    · rcases List.mem_cons.mp member with rfl | later
      · exact ⟨rfl, rfl⟩
      · exact ih later

theorem mem_takeD {α : Type} {a x : α} {n : Nat} {l : List α} (member : x ∈ l.takeD n a) :
    x ∈ l ∨ x = a := by
  induction n generalizing l with
  | zero => simp at member
  | succ n ih =>
    cases l with
    | nil =>
      rw [List.takeD_nil] at member
      exact .inr (List.eq_of_mem_replicate member)
    | cons b l =>
      rw [List.takeD_succ] at member
      rcases List.mem_cons.mp member with rfl | later
      · exact .inl List.mem_cons_self
      · exact (ih later).imp_left (List.mem_cons_of_mem b)

/-- A message as `splitMessage` leaves it, whatever the sizes. -/
structure Unsent (id : Nat) (m : MsgOutbound) : Prop where
  id_eq : m.id = id
  shaped : m.fragments.length = m.numParts
  small : m.numParts < 2 ^ 32
  blank : ∀ f ∈ m.fragments, f.receipt = 0 ∧ f.confirmed = false
  lastSent : m.lastSent = 0
  numTransit : m.numTransit = 0
  numConfirmed : m.numConfirmed = 0

theorem unsent_of_split {markerMaxSizeEver maxLength id : Nat} {message : List UInt8}
    {m : MsgOutbound} (split : splitMessage markerMaxSizeEver message maxLength id = .ok m) :
    Unsent id m := by
  unfold splitMessage at split
  dsimp only at split
  split at split
  · cases split
  · split at split
    · cases split
    · cases split
      refine ⟨rfl, List.takeD_length .., ?_, fun f member => ?_, rfl, rfl, rfl⟩
      · simp only [toUnsigned]
        omega
      · rcases mem_takeD member with built | rfl
        · exact splitLoop_fresh built
        · exact ⟨rfl, rfl⟩

section Admitted
variable {markerMaxSizeEver maxLength length id : Nat} {message : List UInt8}

theorem chunkSize_pos (reserved : markerMaxSizeEver ≤ 63) (limit : 63 < maxLength)
    (size : length < 2 ^ 32) : 0 < chunkSize markerMaxSizeEver maxLength length := by
  have count := pieceCount_le length (show 0 < maxLength - markerMaxSizeEver by omega)
  have marker := markerMaxSizeBytes_le (show pieceCount (maxLength - markerMaxSizeEver)
    length < 2 ^ 32 by omega) size
  unfold chunkSize
  omega

/-- No conversion loses anything for an admitted limit and length: the
fragments are the pieces of the message at the chunk size. -/
theorem splitMessage_eq (reserved : markerMaxSizeEver ≤ 63) (limit : 63 < maxLength)
    (limitSmall : maxLength < 2 ^ 32) (size : message.length < 2 ^ 32) :
    splitMessage markerMaxSizeEver message maxLength id =
      .ok (splitInto id (chunkSize markerMaxSizeEver maxLength message.length) message) := by
  have positive := chunkSize_pos reserved limit size
  have count := pieceCount_le message.length (show 0 < maxLength - markerMaxSizeEver by omega)
  have parts := pieceCount_le message.length positive
  have room : toSize ((maxLength : Int) - markerMaxSizeEver) = maxLength - markerMaxSizeEver :=
    toSize_sub (by omega) (by omega)
  have estimate : toSize ((message.length : Int) + maxLength - markerMaxSizeEver - 1) =
      message.length + (maxLength - markerMaxSizeEver) - 1 := by
    unfold toSize
    omega
  have chunk : toSize ((maxLength : Int) - markerMaxSizeBytes
      (pieceCount (maxLength - markerMaxSizeEver) message.length) message.length) =
      chunkSize markerMaxSizeEver maxLength message.length := by
    unfold chunkSize at positive ⊢
    exact toSize_sub (by omega) (by omega)
  have total : toSize ((message.length : Int) +
      (chunkSize markerMaxSizeEver maxLength message.length : Nat) - 1) =
      message.length + chunkSize markerMaxSizeEver maxLength message.length - 1 := by
    have bound : chunkSize markerMaxSizeEver maxLength message.length ≤ maxLength := Nat.sub_le _ _
    unfold toSize
    omega
  have loop := @splitLoop_eq id _ message positive
    (pieceCount (chunkSize markerMaxSizeEver maxLength message.length) message.length)
    message.length 0 (by omega) (by omega)
  have estimated : (message.length + (maxLength - markerMaxSizeEver) - 1) /
      (maxLength - markerMaxSizeEver) = pieceCount (maxLength - markerMaxSizeEver) message.length := rfl
  have counted : (message.length + chunkSize markerMaxSizeEver maxLength message.length - 1) /
      chunkSize markerMaxSizeEver maxLength message.length =
      pieceCount (chunkSize markerMaxSizeEver maxLength message.length) message.length := rfl
  have someRoom : maxLength - markerMaxSizeEver ≠ 0 := by omega
  simp only [splitMessage, room, estimate, estimated, toUnsigned_of_lt size,
    toUnsigned_of_lt (Nat.lt_of_le_of_lt count size), chunk, total, counted,
    toUnsigned_of_lt (Nat.lt_of_le_of_lt parts size), someRoom, Nat.ne_of_gt positive, ↓reduceIte]
  simp only [Nat.zero_mul, Nat.sub_zero, List.drop_zero, Nat.zero_add] at loop
  rw [loop, splitInto, List.range_eq_range', List.takeD_eq_take _ (by simp),
    List.take_of_length_le (by simp)]

end Admitted

end Defragmenter.Split
