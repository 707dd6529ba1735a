import Defragmenter.MarkerGrammar

/-! Which bytes the parser looks at. It knows the length of the message, and
checks one byte more than it has read before it goes on; but the ZERO WIDTH
SPACE behind the last field has three. A message that ends between its second
and its third byte makes the parser look at the byte behind the message. -/
namespace Defragmenter.MarkerReads
open Decimal Marker MarkerGrammar

/-- `isMarkerChar` looks at a byte only if those before it are right. -/
def isMarkerCharReads (s : Memory) (p : Nat) : List Nat :=
  p :: (if s p = 0xe2 then (p + 1) :: (if s (p + 1) = 0x80 then [p + 2] else []) else [])

/-- The digit loop of one field. -/
def fieldReads (message : Memory) (length : Nat) : Nat → Nat → List Nat
  | 0, _ => []
  | n + 1, i =>
    if i < length then i :: (if isdigit (message i) then fieldReads message length n (i + 1) else [])
    else []

/-- The loop over the fields. -/
def parseFieldsReads (message : Memory) (length : Nat) : Nat → Nat → List Nat
  | 0, _ => []
  | n + 1, p =>
    let sz := fieldSize message length szIntMax p
    fieldReads message length szIntMax p ++
      if sz = 0 ∨ length ≤ p + sz + 1 then []
      else if n ≠ 0 then
        (p + sz) :: (if message (p + sz) = bar then parseFieldsReads message length n (p + sz + 1) else [])
      else isMarkerCharReads message (p + sz)

/-- The loop over the id. -/
def timestampReads (message : Memory) : Nat → Nat → List Nat
  | 0, _ => []
  | n + 1, i => i :: (if isdigit (message i) then timestampReads message n (i + 1) else [])

def markerParseFieldsReads (message : Memory) (length : Nat) : List Nat :=
  if length ≤ szMarkerChar + szTm + nInts * (1 + szIntMin) + szMarkerChar then []
  else isMarkerCharReads message 0 ++
    if isMarkerChar message 0 = false then []
    else (szMarkerChar + szTm) ::
      (if message (szMarkerChar + szTm) ≠ bar then []
      else timestampReads message szTm szMarkerChar ++
        if (List.range szTm).any fun i => !isdigit (message (szMarkerChar + i)) then []
        else parseFieldsReads message length nInts (szMarkerChar + szTm + 1))

/-- `strtoul` and `strtoull` look at the digits and at what stops them. -/
def strtoulReads (str : Memory) : Nat → Nat → List Nat
  | 0, _ => []
  | fuel + 1, p => p :: (if isdigit (str p) then strtoulReads str fuel (p + 1) else [])

/-- `markerExists` looks at what `markerParseFields` does. -/
def markerParseReads (message : Memory) (length : Nat) : List Nat :=
  markerParseFieldsReads message length ++
    match markerParseFields message length with
    | none => []
    | some fields => strtoulReads message length szMarkerChar ++
        fields.flatMap fun f => strtoulReads message length f.1

/-- No byte at or behind the end is looked at, and the size that is returned is
no more than the length. -/
def StaysInside (bytes : List UInt8) (beyond : Memory) : Prop :=
  (∀ i ∈ markerParseReads (memoryOf bytes beyond) bytes.length, i < bytes.length) ∧
  ∀ fields, markerParse (memoryOf bytes beyond) bytes.length = some fields →
    fields.markerSize ≤ bytes.length

/-- The message is a marker without its last byte. -/
def LacksLast (bytes : List UInt8) : Prop :=
  leastLength ≤ bytes.length ∧ ∃ t : MarkerText, t.bytes = bytes ++ [0x8b]

/-- `fieldsText` without its last byte. -/
def cutText : List Field → List UInt8
  | [] => []
  | [d] => d.digits ++ [0xe2, 0x80]
  | d :: rest => d.digits ++ bar :: cutText rest

variable {message : Memory} {length n p i : Nat} {t : MarkerText} {bytes : List UInt8} {beyond : Memory}

theorem fieldsText_eq {fs : List Field} (some : fs ≠ []) : fieldsText fs = cutText fs ++ [0x8b] := by
  induction fs with
  | nil => exact absurd rfl some
  | cons d rest ih =>
    cases rest with
    | nil => rw [fieldsText, cutText, List.append_assoc]; rfl
    | cons e rest =>
      have tail := ih (List.cons_ne_nil e rest)
      rw [fieldsText_cons, tail]
      exact (List.append_assoc d.digits (bar :: cutText (e :: rest)) [0x8b]).symm

theorem cutText_cons (d e : Field) (rest : List Field) :
    cutText (d :: e :: rest) = d.digits ++ bar :: cutText (e :: rest) := rfl

theorem fieldReads_inside (member : i ∈ fieldReads message length n p) : i < length := by
  induction n generalizing p with
  | zero => cases member
  | succ n ih =>
    rw [fieldReads] at member
    split at member
    · rename_i inside
      rcases List.mem_cons.mp member with rfl | later
      · exact inside
      · split at later
        · exact ih later
        · cases later
    · cases member

theorem timestampReads_inside (member : i ∈ timestampReads message n p) : i < p + n := by
  induction n generalizing p with
  | zero => cases member
  | succ n ih =>
    rw [timestampReads] at member
    rcases List.mem_cons.mp member with rfl | later
    · omega
    · split at later
      · have := ih later
        omega
      · cases later

theorem mem_isMarkerCharReads {s : Memory} : i ∈ isMarkerCharReads s p ↔
    i = p ∨ s p = 0xe2 ∧ (i = p + 1 ∨ s (p + 1) = 0x80 ∧ i = p + 2) := by
  unfold isMarkerCharReads
  by_cases first : s p = 0xe2
  · by_cases second : s (p + 1) = 0x80 <;> simp [first, second]
  · simp [first]

/-- A look past the end comes from a marker that ends there but for its last byte. -/
theorem parseFieldsReads_inside (positive : 0 < n) (member : i ∈ parseFieldsReads message length n p) :
    i < length ∨ i = length ∧
      ∃ fs : List Field, fs.length = n ∧ Shows message p (cutText fs) ∧ p + (cutText fs).length = length := by
  induction n generalizing p with
  | zero => exact absurd positive (Nat.lt_irrefl 0)
  | succ n ih =>
    obtain ⟨digits, size, shown, isDigit, bounded⟩ := fieldSize_sound message length szIntMax p
    rw [parseFieldsReads, ← size] at member
    rcases List.mem_append.mp member with digit | behind
    · exact .inl (fieldReads_inside digit)
    · split at behind
      · cases behind
      · rename_i inside
        obtain ⟨some, inside⟩ := not_or.mp inside
        let d : Field := ⟨digits, fun none => some (by rw [none]; rfl), bounded, isDigit⟩
        cases n with
        | zero =>
          rw [if_neg (by simp)] at behind
          rcases mem_isMarkerCharReads.mp behind with rfl | ⟨first, rfl | ⟨second, rfl⟩⟩
          · exact .inl (by omega)
          · exact .inl (by omega)
          · by_cases last : p + digits.length + 2 < length
            · exact .inl last
            · have ends : p + (digits.length + 2) = length := by omega
              refine .inr ⟨by omega, [d], rfl, shows_append.mpr ⟨shown, first, second, trivial⟩, ?_⟩
              rw [cutText, List.length_append]
              exact ends
        | succ n =>
          rw [if_pos (by simp)] at behind
          rcases List.mem_cons.mp behind with rfl | later
          · exact .inl (by omega)
          · split at later
            · rename_i separator
              refine (ih (Nat.succ_pos n) later).imp_right ?_
              rintro ⟨past, fs, count, shown', ends⟩
              cases fs with
              | nil => cases count
              | cons e rest =>
                refine ⟨past, d :: e :: rest, by rw [List.length_cons, count],
                  shows_append.mpr ⟨shown, separator, shown'⟩, ?_⟩
                have own : d.digits.length = digits.length := rfl
                rw [cutText_cons, List.length_append, List.length_cons]
                omega
            · cases later

/-- And such a marker does make it look there. -/
theorem parseFieldsReads_cut {fs : List Field} (some : fs ≠ []) (shown : Shows message p (cutText fs))
    (ends : p + (cutText fs).length = length) : length ∈ parseFieldsReads message length fs.length p := by
  induction fs generalizing p with
  | nil => exact absurd rfl some
  | cons d rest ih =>
    have positive := d.length_pos
    cases rest with
    | nil =>
      obtain ⟨digits, first, second, _⟩ := shows_append.mp shown
      rw [cutText, List.length_append] at ends
      simp only [List.length_cons, List.length_nil] at ends
      have stop : Shows message p (d.digits ++ [0xe2]) := shows_append.mpr ⟨digits, first, trivial⟩
      have size := d.measured stop (by decide) (show p + d.digits.length ≤ length by omega)
      rw [List.length_singleton, parseFieldsReads, size, if_neg (by omega), if_neg (by simp)]
      exact List.mem_append_right _ (mem_isMarkerCharReads.mpr (.inr ⟨first, .inr ⟨second, by omega⟩⟩))
    | cons e rest =>
      obtain ⟨digits, separator, others⟩ := shows_append.mp shown
      rw [cutText_cons, List.length_append, List.length_cons] at ends
      have stop : Shows message p (d.digits ++ [bar]) := shows_append.mpr ⟨digits, separator, trivial⟩
      have size := d.measured stop (by decide) (show p + d.digits.length ≤ length by omega)
      have tail := ih (List.cons_ne_nil e rest) others (by omega)
      have more : 0 < (cutText (e :: rest)).length := by
        cases rest <;> simp [cutText]
      rw [List.length_cons, parseFieldsReads, size, if_neg (by omega), if_pos (by simp), if_pos separator]
      exact List.mem_append_right _ (List.mem_cons_of_mem _ tail)

/-! ## The marker -/

/-- All but the last byte of the text. -/
theorem bytes_cut (t : MarkerText) : t.bytes = (t.head ++ cutText t.fields) ++ [0x8b] := by
  have text : fieldsText t.fields = cutText t.fields ++ [0x8b] := fieldsText_eq (List.cons_ne_nil _ _)
  rw [bytes_eq, text, List.append_assoc]

theorem strtoulReads_inside {digits : List UInt8} {stop : UInt8} {fuel : Nat}
    (shown : Shows message p (digits ++ [stop])) (ends : isdigit stop = false)
    (member : i ∈ strtoulReads message fuel p) : i ≤ p + digits.length := by
  induction fuel generalizing p digits with
  | zero => cases member
  | succ fuel ih =>
    rw [strtoulReads] at member
    rcases List.mem_cons.mp member with rfl | later
    · exact Nat.le_add_right _ _
    · cases digits with
      | nil =>
        rw [shown.1, ends, if_neg Bool.false_ne_true] at later
        cases later
      | cons b digits =>
        split at later
        · have := ih shown.2 later
          rw [List.length_cons]
          omega
        · cases later

/-- What `strtoul` looks at of a field is in front of the two bytes that end the text. -/
theorem places_inside {fs : List Field} {place : Nat × Nat} {fuel : Nat}
    (shown : Shows message p (fieldsText fs)) (member : place ∈ places p fs)
    (read : i ∈ strtoulReads message fuel place.1) : i + 2 < p + (fieldsText fs).length := by
  induction fs generalizing p with
  | nil => cases member
  | cons d rest ih =>
    have three : markerChar.length = 3 := rfl
    cases rest with
    | nil =>
      obtain rfl := List.mem_singleton.mp member
      obtain ⟨digits, stop, _⟩ := shows_append.mp shown
      have := strtoulReads_inside (shows_append.mpr ⟨digits, stop, trivial⟩) (by decide) read
      rw [fieldsText, List.length_append]
      omega
    | cons e rest =>
      obtain ⟨digits, stop, others⟩ := shows_append.mp shown
      have more := fieldsText_ne_nil e rest
      rw [fieldsText_cons, List.length_append, List.length_cons]
      rcases List.mem_cons.mp member with rfl | later
      · have := strtoulReads_inside (shows_append.mpr ⟨digits, stop, trivial⟩) (by decide) read
        omega
      · have := ih others later
        omega

/-- What is looked at past the end shows that the message is a marker without its last byte. -/
theorem parseReads_inside (member : i ∈ markerParseFieldsReads (memoryOf bytes beyond) bytes.length) :
    i < bytes.length ∨ LacksLast bytes := by
  have twentyEight : leastLength = 28 := rfl
  unfold markerParseFieldsReads at member
  split at member
  · cases member
  · rename_i long
    have least : leastLength ≤ bytes.length := Nat.lt_of_not_le long
    rcases List.mem_append.mp member with opening | behind
    · refine .inl ?_
      rcases mem_isMarkerCharReads.mp opening with rfl | ⟨_, rfl | ⟨_, rfl⟩⟩ <;> omega
    · split at behind
      · cases behind
      · rename_i opening
        rcases List.mem_cons.mp behind with rfl | behind
        · exact .inl (Nat.lt_of_lt_of_le (by decide) least)
        · split at behind
          · cases behind
          · rename_i separator
            rcases List.mem_append.mp behind with digit | behind
            · have inId := timestampReads_inside digit
              have sixteen : szMarkerChar + szTm = 16 := rfl
              exact .inl (by omega)
            · split at behind
              · cases behind
              · rename_i digits
                refine (parseFieldsReads_inside (by decide) behind).imp_right ?_
                rintro ⟨past, fs, count, shown, ends⟩
                obtain ⟨t, rfl, head⟩ := exists_head count (Bool.not_eq_false _ ▸ opening)
                  (Decidable.not_not.mp separator) (Bool.not_eq_true _ ▸ digits)
                have start : szMarkerChar + szTm + 1 = 0 + t.head.length := by rw [head_length]; rfl
                rw [start] at shown ends
                have size : (t.head ++ cutText t.fields).length = bytes.length := by
                  rw [List.length_append]
                  omega
                have text := (shows_start_iff (Nat.le_of_eq size)).mp (shows_append.mpr ⟨head, shown⟩)
                exact ⟨least, t, by rw [bytes_cut, text.eq_of_length size]⟩

/-- And such a message does make the parser look at the byte behind it. -/
theorem parseReads_cut (lacks : LacksLast bytes) (beyond : Memory) :
    bytes.length ∈ markerParseFieldsReads (memoryOf bytes beyond) bytes.length := by
  obtain ⟨least, t, same⟩ := lacks
  rw [bytes_cut] at same
  obtain rfl := List.append_cancel_right same
  obtain ⟨head, fields⟩ := shows_append.mp (shows_memoryOf (t.head ++ cutText t.fields) beyond)
  obtain ⟨opening, separator, digits⟩ := head_checked head
  have start : 0 + t.head.length = szMarkerChar + szTm + 1 := by rw [head_length]; rfl
  rw [start] at fields
  have ends : szMarkerChar + szTm + 1 + (cutText t.fields).length = (t.head ++ cutText t.fields).length := by
    rw [List.length_append, ← start, Nat.zero_add]
  have read := parseFieldsReads_cut (List.cons_ne_nil _ _) fields ends
  unfold markerParseFieldsReads
  rw [if_neg (Nat.not_le.mpr least), if_neg (by simp [opening]), if_neg (by simp [separator]),
    if_neg (by simp [digits])]
  exact List.mem_append_right _ (List.mem_cons_of_mem _ (List.mem_append_right _ read))

theorem LacksLast.leaves (lacks : LacksLast bytes) : ¬ StaysInside bytes beyond := by
  rintro ⟨inside, _⟩
  have read := inside _ (List.mem_append_left _ (parseReads_cut lacks beyond))
  exact absurd read (Nat.lt_irrefl _)

theorem strtoul_inside (shown : ShowsMarker message length t) {fields : List (Nat × Nat)}
    (places_ : fields = places 17 t.fields) (member : i ∈ strtoulReads message length szMarkerChar ++
      fields.flatMap fun f => strtoulReads message length f.1) : i < length := by
  obtain ⟨head, texts⟩ := shown.layout
  have size := bytes_length t
  have within := shown.2.1
  rcases List.mem_append.mp member with id | field
  · have inId := strtoulReads_inside (head_id head) (by decide) id
    have least : 28 ≤ length := shown.2.2
    have thirteen : t.id.length = 13 := t.idLength
    have three : szMarkerChar = 3 := rfl
    omega
  · obtain ⟨place, member, read⟩ := List.mem_flatMap.mp field
    have := places_inside texts (places_ ▸ member) read
    omega

/-- The parser stays inside the message exactly if the message does not end in
front of the last byte of its marker. -/
theorem stays_inside_iff (bytes : List UInt8) (beyond : Memory) :
    StaysInside bytes beyond ↔ ¬ LacksLast bytes := by
  refine ⟨fun inside lacks => lacks.leaves inside, fun whole => ⟨fun i member => ?_, fun fields accepted => ?_⟩⟩
  · rcases List.mem_append.mp member with scan | value
    · exact (parseReads_inside scan).resolve_right whole
    · cases accepted : markerParseFields (memoryOf bytes beyond) bytes.length with
      | none =>
        rw [accepted] at value
        cases value
      | some fields =>
        rw [accepted] at value
        obtain ⟨t, shown, same⟩ := markerParseFields_sound accepted
        exact strtoul_inside shown same value
  · obtain ⟨t, shown, rfl⟩ := markerParse_iff.mp accepted
    obtain ⟨least, ⟨payload, same⟩ | cut⟩ := showsMarker_iff.mp shown
    · change t.bytes.length ≤ bytes.length
      rw [same, List.length_append]
      exact Nat.le_add_right _ _
    · have lastByte := cut
      rw [bytes_cut] at lastByte
      obtain ⟨_, same⟩ := List.append_inj' lastByte rfl
      exact absurd ⟨least, t, by rw [cut, ← same]⟩ whole

/-- A marker of 29 bytes without the last. -/
theorem secondOfTwo_read_past : ¬ StaysInside (secondOfTwo.bytes.take 28) fun _ => 0 := by
  have lacks : LacksLast (secondOfTwo.bytes.take 28) :=
    ⟨by decide +kernel, secondOfTwo, by decide +kernel⟩
  exact lacks.leaves

end Defragmenter.MarkerReads
