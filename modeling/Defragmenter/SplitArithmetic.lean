import Defragmenter.Sender

/-! The arithmetic of `splitMessage`, value by value, and the parameters that
`set_parameters` lets it run with. A limit that leaves no room for a marker is
warned about and stored all the same. -/
namespace Defragmenter.SplitArithmetic
open Marker Tiling Split Sender

/-! ## The parameters -/

/-- What `set_parameters` writes to `stderr`. -/
inductive Warning where
  | initialized
  | invalidMaxMessageLength (maxMessageLength min : Nat)
  deriving DecidableEq, Repr

def Warning.text : Warning → String
  | .initialized => "parameters should be set in uninitialized state\n"
  | .invalidMaxMessageLength maxMessageLength min => "invalid maxMessageLength=" ++
      toString maxMessageLength ++ " in parameters, min value is " ++ toString min ++ "\n"

/-- `tox_defragmenter_set_parameters`: the parameters it stores, and its warnings. -/
def setParameters (initializedApi initializedDb : Bool) (given : Params) : Params × List Warning :=
  let least := markerMaxSizeBytes (2 ^ 31 - 1) (2 ^ 31 - 1)
  (given,
    (if initializedApi || initializedDb then [.initialized] else []) ++
    (if given.maxMessageLength ≤ least then [.invalidMaxMessageLength given.maxMessageLength least] else []))

/-! ## The values -/

/-- A value before it is put into an unsigned type of so many bits. -/
structure Conversion where
  exact : Int
  bits : Nat

/-- The type has the value. -/
def Conversion.Keeps (c : Conversion) : Prop := 0 ≤ c.exact ∧ c.exact < 2 ^ c.bits

instance (c : Conversion) : Decidable c.Keeps := inferInstanceAs (Decidable (_ ∧ _))

/-- One round of the loop: the marker's size, the marker's copy of the length,
the fragment's length, and the two counters of bytes. `partNo++` converts and
subtracts nothing. -/
def roundConversions (maxLength id numParts length partNo off len : Nat) : List Conversion :=
  let step := if maxLength ≤ len then maxLength else len
  let markerSize := (markerPrint id partNo numParts off length).length
  [⟨markerSize, 8⟩, ⟨length, 32⟩, ⟨markerSize + step, 64⟩, ⟨(len : Int) - step, 32⟩, ⟨off + step, 32⟩]

/-- The rounds of the loop, with the counters as the code has them. -/
def loopConversions (maxLength id numParts length : Nat) : Nat → Nat → Nat → Nat → List (List Conversion)
  | 0, _, _, _ => []
  | fuel + 1, partNo, off, len =>
    if len = 0 then []
    else
      let step := if maxLength ≤ len then maxLength else len
      roundConversions maxLength id numParts length partNo off len ::
        loopConversions maxLength id numParts length fuel (toUnsigned (partNo + 1)) (toUnsigned (off + step))
          (toUnsigned ((len : Int) - step))

/-- What `splitMessage` computes for a message of this length. -/
structure Arithmetic where
  divisors : List Nat
  conversions : List Conversion
  numParts : Nat
  rounds : List (List Conversion)

/-- Each `size_t` result is taken on as it wraps, so that a later step sees what the code does. -/
def arithmetic (markerMaxSizeEver length maxLength id : Nat) : Arithmetic :=
  let total := toSize (length + maxLength)
  let less := toSize ((total : Int) - markerMaxSizeEver)
  let dividend := toSize ((less : Int) - 1)
  let room := toSize ((maxLength : Int) - markerMaxSizeEver)
  let estimate := dividend / room
  let marker := markerMaxSizeBytes (toUnsigned estimate) (toUnsigned length)
  let maxMarker : Nat := marker % 2 ^ 8
  let size := toSize ((maxLength : Int) - maxMarker)
  let total' := toSize (length + size)
  let dividend' := toSize ((total' : Int) - 1)
  let numParts := toUnsigned (dividend' / size : Nat)
  let len := toUnsigned length
  { divisors := [room, size]
    conversions := [⟨length + maxLength, 64⟩, ⟨(total : Int) - markerMaxSizeEver, 64⟩, ⟨(less : Int) - 1, 64⟩,
      ⟨(maxLength : Int) - markerMaxSizeEver, 64⟩, ⟨estimate, 32⟩, ⟨length, 32⟩, ⟨marker, 8⟩,
      ⟨(maxLength : Int) - maxMarker, 64⟩, ⟨length + size, 64⟩, ⟨(total' : Int) - 1, 64⟩,
      ⟨(dividend' / size : Nat), 32⟩]
    numParts
    rounds := loopConversions size id numParts length len 1 0 len }

/-- No division by zero, no value lost, and one round for each place of the array. -/
structure Sound (a : Arithmetic) : Prop where
  divides : ∀ d ∈ a.divisors, d ≠ 0
  keeps : ∀ c ∈ a.conversions, c.Keeps
  keepsInLoop : ∀ round ∈ a.rounds, ∀ c ∈ round, c.Keeps
  filled : a.rounds.length = a.numParts

variable {markerMaxSizeEver maxLength length id size numParts k : Nat} {message : List UInt8}

theorem keeps_nat {n bits : Nat} : (⟨(n : Int), bits⟩ : Conversion).Keeps ↔ n < 2 ^ bits := by
  unfold Conversion.Keeps
  dsimp only
  constructor
  · rintro ⟨-, less⟩
    exact_mod_cast less
  · intro less
    exact ⟨Int.natCast_nonneg n, by exact_mod_cast less⟩

theorem keeps_sub {a b bits : Nat} (small : a < 2 ^ bits) :
    (⟨(a : Int) - b, bits⟩ : Conversion).Keeps ↔ b ≤ a := by
  have bound : (a : Int) < 2 ^ bits := by exact_mod_cast small
  unfold Conversion.Keeps
  dsimp only
  omega

/-! ## The loop -/

theorem loopConversions_done {fuel partNo off : Nat} :
    loopConversions size id numParts length fuel partNo off 0 = [] := by
  cases fuel <;> rfl

/-- From piece `k` on, one round for each remaining piece. -/
theorem loopConversions_eq (positive : 0 < size) (small : length < 2 ^ 32) (rounds : Nat) :
    ∀ {fuel k : Nat}, length - k * size ≤ fuel → k + rounds = pieceCount size length →
      loopConversions size id numParts length fuel (k + 1) (k * size) (length - k * size) =
        (List.range' k rounds).map fun j =>
          roundConversions size id numParts length (j + 1) (j * size) (length - j * size) := by
  induction rounds with
  | zero =>
    intro fuel k _ done
    have covered := le_pieceCount_mul length positive
    have nothingLeft : length - k * size = 0 := by
      rw [show k = pieceCount size length by omega]
      omega
    rw [nothingLeft, loopConversions_done]
    rfl
  | succ rounds ih =>
    intro fuel k enough count
    have inside : k * size < length := (lt_pieceCount_iff positive).mp (by omega)
    obtain ⟨fuel, rfl⟩ := Nat.exists_eq_succ_of_ne_zero (show fuel ≠ 0 by omega)
    have advance : k * size + size = (k + 1) * size := (Nat.succ_mul k size).symm
    rw [loopConversions, if_neg (by omega), List.range'_succ, List.map_cons]
    dsimp only
    congr 1
    rcases Nat.eq_zero_or_pos rounds with rfl | more
    · -- the counter of bytes reaches zero, whatever `partNo` has become
      have covered := le_pieceCount_mul length positive
      rw [← count] at covered
      have spent : toUnsigned (((length - k * size : Nat) : Int) -
          ((if size ≤ length - k * size then size else length - k * size : Nat) : Int)) = 0 := by
        rw [show k + (0 + 1) = k + 1 from rfl] at covered
        unfold toUnsigned
        split <;> omega
      rw [spent, loopConversions_done]
      rfl
    · have next : (k + 1) * size < length := (lt_pieceCount_iff positive).mp (by omega)
      have parts := pieceCount_le length positive
      have full : size ≤ length - k * size := by omega
      have number : toUnsigned ((k + 1 : Nat) + 1) = k + 1 + 1 :=
        @toUnsigned_of_lt (k + 1 + 1) (by omega)
      have offset : toUnsigned ((k * size : Nat) + (size : Nat)) = (k + 1) * size := by
        rw [← advance]
        exact @toUnsigned_of_lt (k * size + size) (by omega)
      have left : toUnsigned (((length - k * size : Nat) : Int) - (size : Nat)) = length - (k + 1) * size := by
        unfold toUnsigned
        omega
      rw [if_pos full, number, offset, left]
      exact ih (by omega) (by omega)

/-- No round loses a value. -/
theorem roundConversions_keep (positive : 0 < size) (small : length < 2 ^ 32) (idSmall : id < 2 ^ 64)
    (sizeSmall : size < 2 ^ 32) (parts : numParts < 2 ^ 32) (inside : k < pieceCount size length) :
    ∀ c ∈ roundConversions size id numParts length (k + 1) (k * size) (length - k * size), c.Keeps := by
  have offset := (lt_pieceCount_iff positive).mp inside
  have count := pieceCount_le length positive
  have idDigits : numDigits id ≤ 20 := (numDigits_le_iff id (by omega)).mpr (by omega)
  have partDigits := numDigits_le_ten (show k + 1 < 2 ^ 32 by omega)
  have numDigits := numDigits_le_ten parts
  have offDigits := numDigits_le_ten (show k * size < 2 ^ 32 by omega)
  have sizeDigits := numDigits_le_ten small
  have marker := markerPrint_length id (k + 1) numParts (k * size) length
  intro c member
  simp only [roundConversions, List.mem_cons, List.not_mem_nil, or_false] at member
  rcases member with rfl | rfl | rfl | rfl | rfl
  · exact keeps_nat.mpr (by omega)
  · exact keeps_nat.mpr small
  · refine (keeps_nat (n := _ + _)).mpr ?_
    split <;> omega
  · refine (keeps_sub (by omega)).mpr ?_
    split <;> omega
  · refine (keeps_nat (n := _ + _)).mpr ?_
    split <;> omega

/-! ## Which limits are sound -/

/-- The values of an admitted limit. -/
theorem arithmetic_admitted (limit : 63 < maxLength) (limitSmall : maxLength < 2 ^ 32)
    (small : length < 2 ^ 32) (idSmall : id < 2 ^ 64) : Sound (arithmetic 63 length maxLength id) := by
  have total : toSize ((length : Int) + maxLength) = length + maxLength :=
    @toSize_of_lt (length + maxLength) (by omega)
  have less : toSize (((length + maxLength : Nat) : Int) - (63 : Nat)) = length + maxLength - 63 :=
    toSize_sub (by omega) (by omega)
  have dividend : toSize (((length + maxLength - 63 : Nat) : Int) - 1) = length + (maxLength - 63) - 1 := by
    unfold toSize
    omega
  have room : toSize ((maxLength : Int) - (63 : Nat)) = maxLength - 63 := toSize_sub (by omega) (by omega)
  have estimated : (length + (maxLength - 63) - 1) / (maxLength - 63) = pieceCount (maxLength - 63) length := rfl
  have count := pieceCount_le length (show 0 < maxLength - 63 by omega)
  have marker := markerMaxSizeBytes_le (show pieceCount (maxLength - 63) length < 2 ^ 32 by omega) small
  generalize chosen : markerMaxSizeBytes (pieceCount (maxLength - 63) length) length = maxMarker at marker
  have byte : maxMarker % 2 ^ 8 = maxMarker := Nat.mod_eq_of_lt (by omega)
  have sized : toSize ((maxLength : Int) - maxMarker) = maxLength - maxMarker := toSize_sub (by omega) (by omega)
  generalize split : maxLength - maxMarker = size at sized
  have positive : 0 < size := by omega
  have total' : toSize ((length : Int) + size) = length + size := @toSize_of_lt (length + size) (by omega)
  have dividend' : toSize (((length + size : Nat) : Int) - 1) = length + size - 1 := by
    unfold toSize
    omega
  have counted : (length + size - 1) / size = pieceCount size length := rfl
  have parts := pieceCount_le length positive
  have numParts := toUnsigned_of_lt (Nat.lt_of_le_of_lt parts small)
  have loop := @loopConversions_eq length id size (pieceCount size length) positive small
    (pieceCount size length) length 0 (by omega) (by omega)
  simp only [Nat.zero_mul, Nat.sub_zero, Nat.zero_add] at loop
  simp only [arithmetic, total, less, dividend, room, estimated,
    toUnsigned_of_lt (Nat.lt_of_le_of_lt count small), toUnsigned_of_lt small, chosen, byte, sized, total',
    dividend', counted, numParts, loop]
  refine ⟨?_, ?_, ?_, by simp⟩
  · intro d member
    simp only [List.mem_cons, List.not_mem_nil, or_false] at member
    omega
  · intro c member
    simp only [List.mem_cons, List.not_mem_nil, or_false] at member
    rcases member with rfl | rfl | rfl | rfl | rfl | rfl | rfl | rfl | rfl | rfl | rfl
    · exact (keeps_nat (n := _ + _)).mpr (by omega)
    · exact (keeps_sub (by omega)).mpr (by omega)
    · exact (keeps_sub (b := 1) (by omega)).mpr (by omega)
    · exact (keeps_sub (by omega)).mpr (by omega)
    · exact keeps_nat.mpr (by omega)
    · exact keeps_nat.mpr small
    · exact keeps_nat.mpr (by omega)
    · exact (keeps_sub (by omega)).mpr (by omega)
    · exact (keeps_nat (n := _ + _)).mpr (by omega)
    · exact (keeps_sub (b := 1) (by omega)).mpr (by omega)
    · exact keeps_nat.mpr (by omega)
  · intro round member
    obtain ⟨j, inside, rfl⟩ := List.mem_map.mp member
    rw [List.mem_range'_1] at inside
    exact roundConversions_keep positive small idSmall (by omega) (by omega) (by omega)

/-- The first subtraction of the limit wraps, or its result divides by zero. -/
theorem sound_iff (limitSmall : maxLength < 2 ^ 32) (small : length < 2 ^ 32) (idSmall : id < 2 ^ 64) :
    Sound (arithmetic 63 length maxLength id) ↔ 63 < maxLength := by
  constructor
  · intro sound
    have kept : (⟨(maxLength : Int) - (63 : Nat), 64⟩ : Conversion).Keeps :=
      sound.keeps _ (by simp [arithmetic])
    have room : toSize ((maxLength : Int) - (63 : Nat)) ≠ 0 := sound.divides _ (by simp [arithmetic])
    have enough : 63 ≤ maxLength := (keeps_sub (by omega)).mp kept
    refine Nat.lt_of_le_of_ne enough fun same => room ?_
    subst same
    rfl
  · intro limit
    exact arithmetic_admitted limit limitSmall small idSmall

/-! ## The values are those of the code -/

theorem loopConversions_length {length' fuel partNo off partNo' off' : Nat} :
    ∀ {len : Nat} {m : List UInt8}, len < 2 ^ 32 →
      (splitLoop size id numParts length' fuel partNo off len m).length =
        (loopConversions size id numParts length fuel partNo' off' len).length := by
  induction fuel generalizing partNo off partNo' off' with
  | zero =>
    intro len m _
    rfl
  | succ fuel ih =>
    intro len m small
    rw [splitLoop, loopConversions]
    by_cases done : len = 0
    · rw [if_pos done, if_pos done]
      rfl
    · rw [if_neg done, if_neg done]
      dsimp only
      have left : toUnsigned ((len : Int) - ((if size ≤ len then size else len : Nat) : Int)) =
          len - if size ≤ len then size else len := by
        unfold toUnsigned
        split <;> omega
      rw [List.length_cons, List.length_cons, left]
      congr 1
      exact ih (by omega)

/-- `splitMessage` fails where a divisor is zero, and else it has this number of
parts and its loop goes round this often. -/
theorem splitMessage_arithmetic (reserved : markerMaxSizeEver < 2 ^ 32) (limitSmall : maxLength < 2 ^ 32)
    (small : message.length < 2 ^ 32) :
    let a := arithmetic markerMaxSizeEver message.length maxLength id
    if 0 ∈ a.divisors then splitMessage markerMaxSizeEver message maxLength id = .error .divideByZero
    else ∃ filled : List Fragment, filled.length = a.rounds.length ∧
      splitMessage markerMaxSizeEver message maxLength id =
        .ok { id, numParts := a.numParts, fragments := filled.takeD a.numParts {} } := by
  have dividend : toSize ((toSize ((toSize ((message.length : Int) + maxLength) : Int) - markerMaxSizeEver) : Int) - 1) =
      toSize ((message.length : Int) + maxLength - markerMaxSizeEver - 1) := by
    unfold toSize
    omega
  generalize estimated : toSize ((message.length : Int) + maxLength - markerMaxSizeEver - 1) /
      toSize ((maxLength : Int) - markerMaxSizeEver) = estimate
  have marker := markerMaxSizeBytes_le (toUnsigned_lt estimate) (toUnsigned_lt message.length)
  have byte : markerMaxSizeBytes (toUnsigned estimate) (toUnsigned message.length) % 2 ^ 8 =
      markerMaxSizeBytes (toUnsigned estimate) (toUnsigned message.length) := Nat.mod_eq_of_lt (by omega)
  generalize sized : toSize ((maxLength : Int) -
    markerMaxSizeBytes (toUnsigned estimate) (toUnsigned message.length)) = size
  have dividend' : toSize ((toSize ((message.length : Int) + size) : Int) - 1) =
      toSize ((message.length : Int) + size - 1) := by
    unfold toSize
    omega
  simp only [arithmetic, splitMessage, dividend, estimated, byte, sized, dividend', List.mem_cons,
    List.not_mem_nil, or_false]
  by_cases room : toSize ((maxLength : Int) - markerMaxSizeEver) = 0
  · simp [room]
  · by_cases none : size = 0
    · simp [room, none]
    · rw [if_neg (by omega), if_neg room, if_neg none]
      refine ⟨_, ?_, rfl⟩
      exact loopConversions_length (toUnsigned_lt _)

/-! ## What `set_parameters` lets through -/

theorem setParameters_silent_iff {given : Params} :
    (setParameters false false given).2 = [] ↔ 63 < given.maxMessageLength := by
  simp only [setParameters, markerMaxSizeEver_eq]
  by_cases small : given.maxMessageLength ≤ 63
  · simp [small]
  · simp [small, Nat.lt_of_not_le small]

/-- Splitting is sound for exactly the limits that were stored without a warning. -/
theorem stored_limit_sound_iff {given : Params} (limitSmall : given.maxMessageLength < 2 ^ 32)
    (small : message.length < 2 ^ 32) (idSmall : id < 2 ^ 64) :
    Sound (arithmetic (markerMaxSizeBytes (2 ^ 31 - 1) (2 ^ 31 - 1)) message.length
      (setParameters false false given).1.maxMessageLength id) ↔ 63 < given.maxMessageLength := by
  rw [markerMaxSizeEver_eq]
  exact sound_iff limitSmall small idSmall

theorem stored_limit_sound_hundred : 63 < 100 ∧
    Sound (arithmetic (markerMaxSizeBytes (2 ^ 31 - 1) (2 ^ 31 - 1)) (List.replicate 101 (65 : UInt8)).length
      (setParameters false false { maxMessageLength := 100 }).1.maxMessageLength 1234567890123) := by
  have length : (List.replicate 101 (65 : UInt8)).length = 101 := List.length_replicate
  have small : (List.replicate 101 (65 : UInt8)).length < 2 ^ 32 := by
    rw [length]
    decide
  exact ⟨by decide, (@stored_limit_sound_iff 1234567890123 _ { maxMessageLength := 100 } (by decide) small
    (by decide)).mpr (by decide)⟩

/-- The least limit that the warning calls valid is stored, and divides by zero. -/
theorem least_limit_divides_by_zero :
    (setParameters false false { maxMessageLength := 63 }).1.maxMessageLength = 63 ∧
      splitMessage (markerMaxSizeBytes (2 ^ 31 - 1) (2 ^ 31 - 1)) (List.replicate 64 65)
        (setParameters false false { maxMessageLength := 63 }).1.maxMessageLength 1234567890123 =
          .error .divideByZero ∧
      ¬ Sound (arithmetic (markerMaxSizeBytes (2 ^ 31 - 1) (2 ^ 31 - 1)) 64
        (setParameters false false { maxMessageLength := 63 }).1.maxMessageLength 1234567890123) := by
  refine ⟨rfl, ?_, fun sound => ?_⟩
  · rw [markerMaxSizeEver_eq]
    rfl
  · refine sound.divides 0 ?_ rfl
    rw [markerMaxSizeEver_eq]
    exact List.mem_cons_self

end Defragmenter.SplitArithmetic
