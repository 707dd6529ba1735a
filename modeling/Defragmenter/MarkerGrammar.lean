import Defragmenter.Marker

/-! The grammar of markers. What the parser accepts is the text of a marker at
the start of the message, and what it returns are the values of the five runs
of digits in it, cut to 32 bits. The text need not end inside the message: of
the ZERO WIDTH SPACE that closes it the last byte may be the one behind. What
the printer prints is such a text, so it is read back; the two halves of the
protocol rest on this. -/
namespace Defragmenter.MarkerGrammar
open Decimal Marker

/-- A run of digits in one of the four fields. -/
structure Field where
  digits : List UInt8
  nonempty : digits ≠ []
  bounded : digits.length ≤ szIntMax
  isdigit : ∀ b ∈ digits, isdigit b = true

def Field.value (d : Field) : Nat := digitsValue 0 d.digits

/-- The fields with their separators, and the closing ZERO WIDTH SPACE. -/
def fieldsText : List Field → List UInt8
  | [] => []
  | [d] => d.digits ++ markerChar
  | d :: rest => d.digits ++ bar :: fieldsText rest

/-- Where the fields stand, when the first of them starts at `p`. -/
def places (p : Nat) : List Field → List (Nat × Nat)
  | [] => []
  | d :: rest => (p, d.digits.length) :: places (p + d.digits.length + 1) rest

/-- The text of a marker. -/
structure MarkerText where
  id : List UInt8
  partNo : Field
  numParts : Field
  off : Field
  sz : Field
  idLength : id.length = szTm
  idDigits : ∀ b ∈ id, Decimal.isdigit b = true

def MarkerText.fields (t : MarkerText) : List Field := [t.partNo, t.numParts, t.off, t.sz]

def MarkerText.bytes (t : MarkerText) : List UInt8 :=
  markerChar ++ (t.id ++ bar :: fieldsText t.fields)

/-- The decimal values of the five runs of digits. -/
def MarkerText.values (t : MarkerText) : Fields where
  id := digitsValue 0 t.id
  partNo := t.partNo.value
  numParts := t.numParts.value
  off := t.off.value
  sz := t.sz.value
  markerSize := t.bytes.length

/-- What the parser makes of them: a field goes through a 32-bit number. -/
def MarkerText.parsed (t : MarkerText) : Fields where
  id := digitsValue 0 t.id
  partNo := t.partNo.value % 2 ^ 32
  numParts := t.numParts.value % 2 ^ 32
  off := t.off.value % 2 ^ 32
  sz := t.sz.value % 2 ^ 32
  markerSize := t.bytes.length

variable {message : Memory} {length n p : Nat} {d : Field} {rest : List Field} {t : MarkerText}

/-! ## One field -/

theorem fieldSize_sound (message : Memory) (length n p : Nat) :
    ∃ digits : List UInt8, digits.length = fieldSize message length n p ∧ Shows message p digits ∧
      (∀ b ∈ digits, isdigit b = true) ∧ digits.length ≤ n := by
  induction n generalizing p with
  | zero => exact ⟨[], rfl, trivial, by simp, Nat.le_refl 0⟩
  | succ n ih =>
    rw [fieldSize]
    split
    · rename_i digit
      obtain ⟨digits, size, shown, digits_, bounded⟩ := ih (p + 1)
      refine ⟨message p :: digits, by rw [List.length_cons, size], ⟨rfl, shown⟩, ?_, Nat.succ_le_succ bounded⟩
      intro b member
      rcases List.mem_cons.mp member with rfl | later
      · exact digit.2
      · exact digits_ b later
    · exact ⟨[], rfl, trivial, by simp, Nat.zero_le _⟩

theorem Field.length_pos (d : Field) : 0 < d.digits.length := List.length_pos_iff.mpr d.nonempty

/-- The separator or the closing character ends a field. -/
theorem Field.measured {stop : UInt8} (d : Field) (shown : Shows message p (d.digits ++ [stop]))
    (ends : Decimal.isdigit stop = false) (inside : p + d.digits.length ≤ length) :
    fieldSize message length szIntMax p = d.digits.length :=
  fieldSize_shows shown d.isdigit ends d.bounded inside

theorem fieldsText_cons (d e : Field) (rest : List Field) :
    fieldsText (d :: e :: rest) = d.digits ++ bar :: fieldsText (e :: rest) := rfl

theorem fieldsText_ne_nil (d : Field) (rest : List Field) : 4 ≤ (fieldsText (d :: rest)).length := by
  induction rest generalizing d with
  | nil =>
    have := d.length_pos
    simp only [fieldsText, markerChar, List.length_append, List.length_cons, List.length_nil]
    omega
  | cons e rest ih =>
    have := ih e
    rw [fieldsText_cons, List.length_append, List.length_cons]
    omega

/-! ## The fields -/

theorem parseFields_complete (fields : List Field) (some : fields ≠ [])
    (shown : Shows message p (fieldsText fields))
    (inside : p + (fieldsText fields).length ≤ length + 1) :
    parseFields message length fields.length p = .some (places p fields) := by
  induction fields generalizing p with
  | nil => exact absurd rfl some
  | cons d rest ih =>
    have positive := d.length_pos
    cases rest with
    | nil =>
      rw [fieldsText, List.length_append] at inside
      have three : markerChar.length = 3 := rfl
      obtain ⟨digits, closing⟩ := shows_append.mp shown
      have stop : Shows message p (d.digits ++ [0xe2]) := shows_append.mpr ⟨digits, closing.1, trivial⟩
      have size := d.measured stop (by decide) (show p + d.digits.length ≤ length by omega)
      rw [List.length_singleton, parseFields, size, if_neg]
      · rfl
      · rintro (none | short | other)
        · omega
        · omega
        · rw [isMarkerChar_iff.mpr closing] at other
          cases other
    | cons e rest =>
      have later := fieldsText_ne_nil e rest
      rw [fieldsText_cons, List.length_append, List.length_cons] at inside
      obtain ⟨digits, separator, others⟩ := shows_append.mp shown
      have stop : Shows message p (d.digits ++ [bar]) := shows_append.mpr ⟨digits, separator, trivial⟩
      have size := d.measured stop (by decide) (show p + d.digits.length ≤ length by omega)
      have tail := ih (List.cons_ne_nil e rest) others (by omega)
      rw [List.length_cons, parseFields, size, tail, if_neg]
      · rfl
      · rintro (none | short | other)
        · omega
        · omega
        · exact other separator

theorem parseFields_sound {fields : List (Nat × Nat)} (positive : 0 < n)
    (accepted : parseFields message length n p = some fields) :
    ∃ fs : List Field, fs.length = n ∧ Shows message p (fieldsText fs) ∧
      p + (fieldsText fs).length ≤ length + 1 ∧ fields = places p fs := by
  induction n generalizing p fields with
  | zero => exact absurd positive (Nat.lt_irrefl 0)
  | succ n ih =>
    obtain ⟨digits, size, shown, isDigit, bounded⟩ := fieldSize_sound message length szIntMax p
    simp only [parseFields, ← size, Option.ite_none_left_eq_some, Option.map_eq_some_iff, not_or] at accepted
    obtain ⟨⟨some, inside, stop⟩, others, tail, rfl⟩ := accepted
    let d : Field := ⟨digits, fun none => some (by rw [none]; rfl), bounded, isDigit⟩
    have own : d.digits.length = digits.length := rfl
    cases n with
    | zero =>
      cases tail
      simp only [ne_eq, not_true_eq_false, ↓reduceIte, Bool.not_eq_false] at stop
      have three : markerChar.length = 3 := rfl
      refine ⟨[d], rfl, shows_append.mpr ⟨shown, isMarkerChar_iff.mp stop⟩, ?_, rfl⟩
      rw [fieldsText, List.length_append]
      omega
    | succ n =>
      simp only [ne_eq, Nat.succ_ne_zero, not_false_eq_true, ↓reduceIte, not_not] at stop
      obtain ⟨fs, count, shown', inside', rfl⟩ := ih (Nat.succ_pos n) tail
      cases fs with
      | nil => cases count
      | cons e rest =>
        refine ⟨d :: e :: rest, by rw [List.length_cons, count], ?_, ?_, rfl⟩
        · exact shows_append.mpr ⟨shown, stop, shown'⟩
        · rw [fieldsText_cons, List.length_append, List.length_cons]
          omega

/-! ## The marker -/

/-- The shortest message that gets past the first check. -/
def leastLength : Nat := szMarkerChar + szTm + nInts * (1 + szIntMin) + szMarkerChar + 1

/-- Memory shows the text, of which at most the last byte is behind the message. -/
def ShowsMarker (message : Memory) (length : Nat) (t : MarkerText) : Prop :=
  Shows message 0 t.bytes ∧ t.bytes.length ≤ length + 1 ∧ leastLength ≤ length

/-- The text in front of the fields. -/
def MarkerText.head (t : MarkerText) : List UInt8 := markerChar ++ (t.id ++ [bar])

theorem head_length (t : MarkerText) : t.head.length = 17 := by
  have three : markerChar.length = 3 := rfl
  have thirteen : t.id.length = 13 := t.idLength
  rw [MarkerText.head, List.length_append, List.length_append, List.length_singleton]
  omega

theorem bytes_eq (t : MarkerText) : t.bytes = t.head ++ fieldsText t.fields := by
  simp [MarkerText.bytes, MarkerText.head]

theorem bytes_length (t : MarkerText) : t.bytes.length = 17 + (fieldsText t.fields).length := by
  rw [bytes_eq, List.length_append, head_length]

theorem head_id (shown : Shows message 0 t.head) : Shows message 3 (t.id ++ [bar]) := by
  have three : 0 + markerChar.length = 3 := rfl
  exact three ▸ (shows_append.mp shown).2

/-- The checks in front of the fields. -/
theorem head_checked (shown : Shows message 0 t.head) :
    isMarkerChar message 0 = true ∧ message (szMarkerChar + szTm) = bar ∧
      ((List.range szTm).any fun i => !isdigit (message (szMarkerChar + i))) = false := by
  have id := shows_append.mp (head_id shown)
  refine ⟨isMarkerChar_iff.mpr (shows_append.mp shown).1, ?_, ?_⟩
  · have stop := id.2.1
    rwa [t.idLength] at stop
  · rw [List.any_eq_false]
    intro i member
    have inside : i < t.id.length := by
      rw [t.idLength]
      exact List.mem_range.mp member
    have here := getElem_of_shows id.1 inside
    rw [szMarkerChar, here]
    simpa using t.idDigits _ (List.getElem_mem inside)

/-- What passes the checks is the head of a marker. -/
theorem exists_head {fs : List Field} (count : fs.length = nInts) (opening : isMarkerChar message 0 = true)
    (separator : message (szMarkerChar + szTm) = bar)
    (digits : ((List.range szTm).any fun i => !isdigit (message (szMarkerChar + i))) = false) :
    ∃ t : MarkerText, t.fields = fs ∧ Shows message 0 t.head := by
  obtain ⟨partNo, numParts, off, sz, rfl⟩ : ∃ partNo numParts off sz, fs = [partNo, numParts, off, sz] := by
    obtain ⟨partNo, rest, rfl⟩ := List.exists_of_length_succ fs count
    obtain ⟨numParts, rest, rfl⟩ := List.exists_of_length_succ rest (Nat.succ.inj count)
    obtain ⟨off, rest, rfl⟩ := List.exists_of_length_succ rest (Nat.succ.inj (Nat.succ.inj count))
    obtain ⟨sz, rfl⟩ := List.length_eq_one_iff.mp (Nat.succ.inj (Nat.succ.inj (Nat.succ.inj count)))
    exact ⟨partNo, numParts, off, sz, rfl⟩
  have size : ((List.range szTm).map fun i => message (szMarkerChar + i)).length = szTm := by simp
  let t : MarkerText := {
    id := (List.range szTm).map fun i => message (szMarkerChar + i)
    partNo, numParts, off, sz
    idLength := size
    idDigits := by simpa [List.any_eq_false] using digits }
  have idShown : Shows message szMarkerChar t.id := shows_of_getElem fun k inside => by simp [t]
  have behind : szMarkerChar + t.id.length = szMarkerChar + szTm := congrArg (szMarkerChar + ·) size
  refine ⟨t, rfl, shows_append.mpr ⟨isMarkerChar_iff.mp opening, shows_append.mpr ⟨idShown, ?_, trivial⟩⟩⟩
  change message (szMarkerChar + t.id.length) = bar
  rw [behind, separator]

theorem ShowsMarker.layout (shown : ShowsMarker message length t) :
    Shows message 0 t.head ∧ Shows message 17 (fieldsText t.fields) := by
  have both := shows_append.mp (bytes_eq t ▸ shown.1)
  rwa [head_length] at both

theorem markerParseFields_complete (shown : ShowsMarker message length t) :
    markerParseFields message length = some (places 17 t.fields) := by
  obtain ⟨head, fields⟩ := shown.layout
  obtain ⟨opening, separator, digits⟩ := head_checked head
  have size := bytes_length t
  have inside : 17 + (fieldsText t.fields).length ≤ length + 1 := size ▸ shown.2.1
  rw [markerParseFields, if_neg (Nat.not_le.mpr shown.2.2), if_neg (by simp [opening, separator]),
    if_neg (by simp [digits])]
  exact parseFields_complete t.fields (List.cons_ne_nil _ _) fields inside

theorem markerParseFields_sound {fields : List (Nat × Nat)}
    (accepted : markerParseFields message length = some fields) :
    ∃ t, ShowsMarker message length t ∧ fields = places 17 t.fields := by
  simp only [markerParseFields, Option.ite_none_left_eq_some, not_or, Bool.not_eq_false, ne_eq, not_not,
    Bool.not_eq_true] at accepted
  obtain ⟨long, ⟨opening, separator⟩, digits, parsed⟩ := accepted
  obtain ⟨fs, count, shown, inside, rfl⟩ := parseFields_sound (by decide) parsed
  obtain ⟨t, rfl, head⟩ := exists_head count opening separator digits
  have behind : szMarkerChar + szTm + 1 = 0 + t.head.length := by rw [head_length]; rfl
  rw [behind] at shown
  refine ⟨t, ⟨bytes_eq t ▸ shows_append.mpr ⟨head, shown⟩, ?_, Nat.lt_of_not_le long⟩, rfl⟩
  rw [bytes_length]
  exact inside

/-- A run of at most ten digits fits the parser's 64-bit numbers. -/
theorem digitsValue_lt {digits : List UInt8} (isDigit : ∀ b ∈ digits, isdigit b = true) (value : Nat) :
    digitsValue value digits < (value + 1) * 10 ^ digits.length := by
  induction digits generalizing value with
  | nil => simp [digitsValue]
  | cons b digits ih =>
    have digit : b.toNat - 48 ≤ 9 := by
      have here := isDigit b List.mem_cons_self
      simp only [isdigit, Bool.and_eq_true, decide_eq_true_eq] at here
      omega
    have tail := ih (fun b' member => isDigit b' (List.mem_cons_of_mem b member)) (value * 10 + (b.toNat - 48))
    have le : value * 10 + (b.toNat - 48) + 1 ≤ (value + 1) * 10 := by omega
    have grown := Nat.mul_le_mul_right (10 ^ digits.length) le
    have value_eq : digitsValue value (b :: digits) = digitsValue (value * 10 + (b.toNat - 48)) digits := rfl
    rw [value_eq, List.length_cons, pow_succ]
    calc digitsValue (value * 10 + (b.toNat - 48)) digits
        < (value * 10 + (b.toNat - 48) + 1) * 10 ^ digits.length := tail
      _ ≤ (value + 1) * 10 * 10 ^ digits.length := grown
      _ = (value + 1) * (10 ^ digits.length * 10) := by rw [Nat.mul_assoc, Nat.mul_comm 10]

/-- `strtoul` reads a run of digits that ends inside the message. -/
theorem strtoul_digits {digits : List UInt8} {stop : UInt8} (shown : Shows message p (digits ++ [stop]))
    (isDigit : ∀ b ∈ digits, isdigit b = true) (ends : isdigit stop = false) (short : digits.length ≤ szTm)
    (enough : digits.length < length) : strtoul message length p = digitsValue 0 digits := by
  have bound := digitsValue_lt isDigit 0
  have power : (10 : Nat) ^ digits.length ≤ 10 ^ 13 := Nat.pow_le_pow_right (by decide) short
  rw [strtoul, readDigits_shows shown isDigit ends enough]
  omega

theorem Field.parsed {stop : UInt8} (d : Field) (shown : Shows message p (d.digits ++ [stop]))
    (ends : Decimal.isdigit stop = false) (enough : szIntMax < length) :
    parseUInt32 message length p = d.value % 2 ^ 32 := by
  have short := d.bounded
  have ten : szIntMax ≤ szTm := by decide
  rw [parseUInt32, strtoul_digits shown d.isdigit ends (by omega) (by omega)]
  rfl

/-- The parser accepts exactly the texts of markers, and returns their values
as far as they fit. -/
theorem markerParse_iff {fields : Fields} : markerParse message length = some fields ↔
    ∃ t, ShowsMarker message length t ∧ fields = t.parsed := by
  have complete : ∀ t, ShowsMarker message length t → markerParse message length = some t.parsed := by
    intro t shown
    obtain ⟨head, texts⟩ := shown.layout
    have id := head_id head
    have size := bytes_length t
    have least : 28 ≤ length := shown.2.2
    obtain ⟨partNo, partNoStop, texts⟩ := shows_append.mp texts
    obtain ⟨numParts, numPartsStop, texts⟩ := shows_append.mp texts
    obtain ⟨off, offStop, texts⟩ := shows_append.mp texts
    obtain ⟨sz, szStop, _⟩ := shows_append.mp texts
    have ten : szIntMax < length := Nat.lt_of_lt_of_le (by decide) least
    have thirteen : t.id.length < length := by
      rw [t.idLength]
      exact Nat.lt_of_lt_of_le (by decide) least
    have ends : isdigit bar = false := by decide
    have closes : isdigit 0xe2 = false := by decide
    simp only [markerParse, markerParseFields_complete shown, MarkerText.fields, places, parseUInt64,
      szMarkerChar]
    rw [strtoul_digits id t.idDigits ends (Nat.le_of_eq t.idLength) thirteen,
      t.partNo.parsed (shows_append.mpr ⟨partNo, partNoStop, trivial⟩) ends ten,
      t.numParts.parsed (shows_append.mpr ⟨numParts, numPartsStop, trivial⟩) ends ten,
      t.off.parsed (shows_append.mpr ⟨off, offStop, trivial⟩) ends ten,
      t.sz.parsed (shows_append.mpr ⟨sz, szStop, trivial⟩) closes ten]
    simp only [MarkerText.fields, fieldsText, List.length_append, List.length_cons, markerChar,
      List.length_nil] at size
    simp only [MarkerText.parsed, Option.some.injEq, Fields.mk.injEq, true_and]
    omega
  constructor
  · intro parsed
    cases accepted : markerParseFields message length with
    | none =>
      rw [markerParse, accepted] at parsed
      cases parsed
    | some places =>
      obtain ⟨t, shown, _⟩ := markerParseFields_sound accepted
      rw [complete t shown] at parsed
      exact ⟨t, shown, (Option.some.inj parsed).symm⟩
  · rintro ⟨t, shown, rfl⟩
    exact complete t shown

theorem fieldsText_inj {fs fs' : List Field} (shown : Shows message p (fieldsText fs))
    (shown' : Shows message p (fieldsText fs')) (same : places p fs = places p fs') : fs = fs' := by
  induction fs generalizing p fs' with
  | nil =>
    cases fs' with
    | nil => rfl
    | cons => cases same
  | cons d rest ih =>
    cases fs' with
    | nil => cases same
    | cons d' rest' =>
      obtain ⟨here, tail⟩ := List.cons.inj same
      have size : d.digits.length = d'.digits.length := (Prod.mk.inj here).2
      have digits : ∀ (e : Field) (l : List Field), Shows message p (fieldsText (e :: l)) →
          Shows message p e.digits := by
        intro e l shown
        cases l <;> exact (shows_append.mp shown).1
      have equal : d = d' := by
        have bytes : d.digits = d'.digits := by
          refine List.ext_getElem size fun k inside inside' => ?_
          rw [← getElem_of_shows (digits d rest shown) inside,
            ← getElem_of_shows (digits d' rest' shown') inside']
        cases d
        cases d'
        cases bytes
        rfl
      subst equal
      cases rest with
      | nil =>
        cases rest' with
        | nil => rfl
        | cons => cases tail
      | cons e l =>
        cases rest' with
        | nil => cases tail
        | cons e' l' =>
          have behind := (shows_append.mp shown).2.2
          have behind' := (shows_append.mp shown').2.2
          exact congrArg (d :: ·) (ih behind behind' tail)

/-- A message shows at most one marker. -/
theorem ShowsMarker.unique {t' : MarkerText} (shown : ShowsMarker message length t)
    (shown' : ShowsMarker message length t') : t = t' := by
  have same : places 17 t.fields = places 17 t'.fields := Option.some.inj
    ((markerParseFields_complete shown).symm.trans (markerParseFields_complete shown'))
  obtain ⟨head, fields⟩ := shown.layout
  obtain ⟨head', fields'⟩ := shown'.layout
  have id := head_id head
  have id' := head_id head'
  have equal := fieldsText_inj fields fields' same
  have ids : t.id = t'.id := by
    refine List.ext_getElem (t.idLength.trans t'.idLength.symm) fun k inside inside' => ?_
    rw [← getElem_of_shows (shows_append.mp id).1 inside, ← getElem_of_shows (shows_append.mp id').1 inside']
  obtain ⟨_, _, _, _, _, _, _⟩ := t
  obtain ⟨_, _, _, _, _, _, _⟩ := t'
  simp only [MarkerText.fields, List.cons.injEq, and_true] at equal
  obtain ⟨rfl, rfl, rfl, rfl⟩ := equal
  cases ids
  rfl

/-! ## Messages -/

variable {bytes : List UInt8} {beyond : Memory}

theorem shows_start_iff {text : List UInt8} (fits : text.length ≤ bytes.length) :
    Shows (memoryOf bytes beyond) 0 text ↔ text <+: bytes := by
  constructor
  · intro shown
    refine List.prefix_iff_eq_take.mpr (List.ext_getElem ?_ fun k inside inside' => ?_)
    · rw [List.length_take, Nat.min_eq_left fits]
    · have here := getElem_of_shows shown inside
      rw [List.getElem_take, ← here, Nat.zero_add, memoryOf, dif_pos (Nat.lt_of_lt_of_le inside fits)]
  · rintro ⟨rest, rfl⟩
    exact (shows_append.mp (shows_memoryOf (text ++ rest) beyond)).1

/-- The text of a marker is the start of the message, or all of it and the byte behind. -/
theorem showsMarker_iff : ShowsMarker (memoryOf bytes beyond) bytes.length t ↔
    leastLength ≤ bytes.length ∧
      ((∃ payload, bytes = t.bytes ++ payload) ∨ t.bytes = bytes ++ [beyond 0]) := by
  have further : memoryOf bytes beyond = memoryOf (bytes ++ [beyond 0]) fun p => beyond (p + 1) := by
    funext p
    unfold memoryOf
    by_cases inside : p < bytes.length
    · have longer : p < (bytes ++ [beyond 0]).length := by
        rw [List.length_append]
        omega
      rw [dif_pos inside, dif_pos longer, List.getElem_append_left inside]
    · rw [dif_neg inside]
      by_cases last : p = bytes.length
      · subst last
        simp
      · have out : ¬ p < (bytes ++ [beyond 0]).length := by
          rw [List.length_append, List.length_singleton]
          omega
        rw [dif_neg out, List.length_append, List.length_singleton]
        congr 1
        omega
  constructor
  · rintro ⟨shown, size, least⟩
    refine ⟨least, ?_⟩
    by_cases fits : t.bytes.length ≤ bytes.length
    · obtain ⟨payload, same⟩ := (shows_start_iff fits).mp shown
      exact .inl ⟨payload, same.symm⟩
    · have whole : t.bytes.length = (bytes ++ [beyond 0]).length := by
        rw [List.length_append, List.length_singleton]
        omega
      rw [further] at shown
      exact .inr (((shows_start_iff (Nat.le_of_eq whole)).mp shown).eq_of_length whole)
  · rintro ⟨least, ⟨payload, rfl⟩ | cut⟩
    · refine ⟨(shows_append.mp (shows_memoryOf (t.bytes ++ payload) beyond)).1, ?_, least⟩
      rw [List.length_append]
      omega
    · refine ⟨?_, ?_, least⟩
      · rw [further, cut]
        exact shows_memoryOf _ _
      · rw [cut, List.length_append, List.length_singleton]

/-- Every field fits in 32 bits. -/
def MarkerText.Fits (t : MarkerText) : Prop := ∀ d ∈ t.fields, d.value < 2 ^ 32

theorem MarkerText.Fits.parsed (fits : t.Fits) : t.parsed = t.values := by
  have partNo := fits t.partNo (by simp [MarkerText.fields])
  have numParts := fits t.numParts (by simp [MarkerText.fields])
  have off := fits t.off (by simp [MarkerText.fields])
  have sz := fits t.sz (by simp [MarkerText.fields])
  simp only [MarkerText.parsed, MarkerText.values, Nat.mod_eq_of_lt partNo, Nat.mod_eq_of_lt numParts,
    Nat.mod_eq_of_lt off, Nat.mod_eq_of_lt sz]

/-- The message is a marker whose fields fit, with a payload behind it. -/
def IsMarked (bytes : List UInt8) (t : MarkerText) : Prop :=
  ∃ payload, bytes = t.bytes ++ payload ∧ payload ≠ [] ∧ t.Fits

theorem leastLength_le (t : MarkerText) : leastLength ≤ t.bytes.length + 1 := by
  have partNo := t.partNo.length_pos
  have numParts := t.numParts.length_pos
  have off := t.off.length_pos
  have sz := t.sz.length_pos
  have size := bytes_length t
  have twentyEight : leastLength = 28 := rfl
  simp only [MarkerText.fields, fieldsText, markerChar, List.length_append, List.length_cons,
    List.length_nil] at size
  omega

/-- A marker with a payload behind it is shown, whatever its fields. -/
theorem shows_with_payload {payload : List UInt8} (nonempty : payload ≠ []) :
    ShowsMarker (memoryOf (t.bytes ++ payload) beyond) (t.bytes ++ payload).length t := by
  have positive := List.length_pos_iff.mpr nonempty
  have least := leastLength_le t
  refine showsMarker_iff.mpr ⟨?_, .inl ⟨payload, rfl⟩⟩
  rw [List.length_append]
  omega

theorem IsMarked.shorter (marked : IsMarked bytes t) : t.bytes.length < bytes.length := by
  obtain ⟨payload, rfl, nonempty, _⟩ := marked
  have positive := List.length_pos_iff.mpr nonempty
  rw [List.length_append]
  omega

theorem IsMarked.shows (marked : IsMarked bytes t) (beyond : Memory) :
    ShowsMarker (memoryOf bytes beyond) bytes.length t := by
  obtain ⟨payload, rfl, nonempty, _⟩ := marked
  exact shows_with_payload nonempty

/-- `markerExists` accepts exactly the marked messages, and `markerParse` returns
the values they show and a size inside the message. -/
def ReadsGrammar (bytes : List UInt8) (beyond : Memory) : Prop :=
  (markerExists (memoryOf bytes beyond) bytes.length = true ↔ ∃ t, IsMarked bytes t) ∧
  ∀ t, IsMarked bytes t → markerParse (memoryOf bytes beyond) bytes.length = some t.values ∧
    t.values.markerSize < bytes.length

/-- What the parser accepts although it is not in the grammar. -/
inductive Loose (bytes : List UInt8) (beyond : Memory) : Prop where
  /-- A field does not fit in 32 bits. -/
  | large {t : MarkerText} {payload : List UInt8} : bytes = t.bytes ++ payload → payload ≠ [] →
      ¬ t.Fits → Loose bytes beyond
  /-- There is no payload; the first check only finds out if every field is one digit. -/
  | bare {t : MarkerText} : bytes = t.bytes → leastLength ≤ bytes.length → Loose bytes beyond
  /-- The last byte of the marker is the one behind the message. -/
  | cut {t : MarkerText} : t.bytes = bytes ++ [beyond 0] → leastLength ≤ bytes.length →
      Loose bytes beyond

theorem markerExists_iff : markerExists message length = true ↔ ∃ t, ShowsMarker message length t := by
  rw [markerExists, Option.isSome_iff_exists]
  constructor
  · rintro ⟨fields, accepted⟩
    obtain ⟨t, shown, _⟩ := markerParseFields_sound accepted
    exact ⟨t, shown⟩
  · rintro ⟨t, shown⟩
    exact ⟨_, markerParseFields_complete shown⟩

/-- A loose message shows a marker and is not marked with it. -/
theorem Loose.shows (loose : Loose bytes beyond) :
    ∃ t, ShowsMarker (memoryOf bytes beyond) bytes.length t ∧ ¬ IsMarked bytes t := by
  cases loose with
  | @large t payload same nonempty overflow =>
    subst same
    exact ⟨t, shows_with_payload nonempty, fun ⟨_, _, _, fits⟩ => overflow fits⟩
  | @bare t same least =>
    refine ⟨t, showsMarker_iff.mpr ⟨least, .inl ⟨[], by rw [same, List.append_nil]⟩⟩, fun marked => ?_⟩
    have shorter := marked.shorter
    rw [same] at shorter
    exact absurd shorter (Nat.lt_irrefl _)
  | @cut t same least =>
    refine ⟨t, showsMarker_iff.mpr ⟨least, .inr same⟩, fun marked => ?_⟩
    have shorter := marked.shorter
    rw [same, List.length_append] at shorter
    omega

theorem Loose.misread (loose : Loose bytes beyond) : ¬ ReadsGrammar bytes beyond := by
  rintro ⟨accepts, _⟩
  obtain ⟨t, shown, unmarked⟩ := loose.shows
  obtain ⟨t', marked⟩ := accepts.mp (markerExists_iff.mpr ⟨t, shown⟩)
  exact unmarked (shown.unique (marked.shows beyond) ▸ marked)

theorem marked_or_loose (shown : ShowsMarker (memoryOf bytes beyond) bytes.length t) :
    IsMarked bytes t ∨ Loose bytes beyond := by
  obtain ⟨least, ⟨payload, same⟩ | cut⟩ := showsMarker_iff.mp shown
  · by_cases nonempty : payload = []
    · exact .inr (.bare (by rw [same, nonempty, List.append_nil]) least)
    · by_cases fits : t.Fits
      · exact .inl ⟨payload, same, nonempty, fits⟩
      · exact .inr (.large same nonempty fits)
  · exact .inr (.cut cut least)

/-- The parser keeps to its grammar on every message but the loose ones. -/
theorem reads_grammar_iff (bytes : List UInt8) (beyond : Memory) :
    ReadsGrammar bytes beyond ↔ ¬ Loose bytes beyond := by
  refine ⟨fun reads loose => loose.misread reads, fun tight => ?_⟩
  refine ⟨markerExists_iff.trans ⟨?_, ?_⟩, fun t marked => ⟨?_, marked.shorter⟩⟩
  · rintro ⟨t, shown⟩
    exact ⟨t, (marked_or_loose shown).resolve_right tight⟩
  · rintro ⟨t, marked⟩
    exact ⟨t, marked.shows beyond⟩
  · have fits : t.Fits := marked.elim fun _ rest => rest.2.2
    rw [← fits.parsed]
    exact markerParse_iff.mpr ⟨t, marked.shows beyond, rfl⟩

/-- The digits of a number of at most ten. -/
def printed (n : Nat) (small : (decimal n).length ≤ szIntMax) : Field :=
  ⟨decimal n, decimal_ne_nil n, small, decimal_digits n⟩

/-- The first part of one, at offset zero, of a message of `2 ^ 32` bytes. -/
def hugeSize : MarkerText where
  id := decimal 1234567890123
  partNo := printed 1 (by decide +kernel)
  numParts := printed 1 (by decide +kernel)
  off := printed 0 (by decide +kernel)
  sz := printed (2 ^ 32) (by decide +kernel)
  idLength := by decide +kernel
  idDigits := decimal_digits _

/-- The parser reads it as one of no bytes. -/
theorem hugeSize_accepted : ¬ ReadsGrammar (hugeSize.bytes ++ [65]) fun _ => 0 := by
  have loose : Loose (hugeSize.bytes ++ [65]) fun _ => 0 := by
    refine .large rfl (List.cons_ne_nil _ _) fun fits => ?_
    have small : digitsValue 0 (decimal (2 ^ 32)) < 2 ^ 32 :=
      fits hugeSize.sz (by simp [MarkerText.fields])
    rw [digitsValue_decimal] at small
    exact absurd small (Nat.lt_irrefl _)
  exact loose.misread

/-! ## What the printer prints -/

/-- A printed marker is the text of one, and its values are what was printed. -/
theorem exists_printed {id partNo numParts off sz : Nat} (lower : 10 ^ 12 ≤ id) (upper : id < 10 ^ 13)
    (partNoSmall : partNo < 2 ^ 32) (numPartsSmall : numParts < 2 ^ 32) (offSmall : off < 2 ^ 32)
    (szSmall : sz < 2 ^ 32) :
    ∃ t : MarkerText, t.bytes = markerPrint id partNo numParts off sz ∧ t.parsed =
      ⟨id, partNo, numParts, off, sz, (markerPrint id partNo numParts off sz).length⟩ := by
  have short : ∀ {n : Nat}, n < 2 ^ 32 → (decimal n).length ≤ szIntMax := by
    intro n small
    rw [decimal_length]
    exact numDigits_le_ten small
  let t : MarkerText := {
    id := decimal id
    partNo := printed partNo (short partNoSmall)
    numParts := printed numParts (short numPartsSmall)
    off := printed off (short offSmall)
    sz := printed sz (short szSmall)
    idLength := (decimal_length id).trans (numDigits_id lower upper)
    idDigits := decimal_digits id }
  have value : ∀ {n : Nat} (small : n < 2 ^ 32), (printed n (short small)).value % 2 ^ 32 = n := by
    intro n small
    rw [Field.value, printed, digitsValue_decimal, Nat.mod_eq_of_lt small]
  refine ⟨t, rfl, ?_⟩
  simp only [MarkerText.parsed, t, value, partNoSmall, numPartsSmall, offSmall, szSmall, digitsValue_decimal]
  rfl

/-- Round trip: a printed marker with a payload behind it parses to exactly
the printed values and the marker's own length. -/
theorem markerParse_markerPrint {id partNo numParts off sz : Nat}
    {payload : List UInt8} (lower : 10 ^ 12 ≤ id) (upper : id < 10 ^ 13)
    (partNoSmall : partNo < 2 ^ 32) (numPartsSmall : numParts < 2 ^ 32) (offSmall : off < 2 ^ 32)
    (szSmall : sz < 2 ^ 32) (nonempty : payload ≠ [])
    (shown : Shows message 0 (markerPrint id partNo numParts off sz ++ payload))
    (size : length = (markerPrint id partNo numParts off sz ++ payload).length) :
    markerParse message length =
      some ⟨id, partNo, numParts, off, sz, (markerPrint id partNo numParts off sz).length⟩ := by
  obtain ⟨t, text, values⟩ := exists_printed lower upper partNoSmall numPartsSmall offSmall szSmall
  have positive : 0 < payload.length := List.length_pos_iff.mpr nonempty
  have least := leastLength_le t
  rw [← text, List.length_append] at size
  rw [← text] at shown
  have marker : ShowsMarker message length t := by
    refine ⟨(shows_append.mp shown).1, ?_, ?_⟩
    · omega
    · omega
  exact markerParse_iff.mpr ⟨t, marker, values.symm⟩

/-! ## The other way round -/

/-- A run of digits without a superfluous zero in front. -/
def Plain (digits : List UInt8) : Prop := digits.head? = some 48 → digits.length = 1

instance : DecidablePred Plain := fun digits =>
  inferInstanceAs (Decidable (digits.head? = some 48 → digits.length = 1))

def MarkerText.Plain (t : MarkerText) : Prop :=
  MarkerGrammar.Plain t.id ∧ ∀ d ∈ t.fields, MarkerGrammar.Plain d.digits

theorem digitsValue_pos {digits : List UInt8} (isDigit : ∀ b ∈ digits, isdigit b = true)
    (nonempty : digits ≠ []) (head : digits.head? ≠ some 48) (value : Nat) : 0 < digitsValue value digits := by
  have grows : ∀ (rest : List UInt8) (v : Nat), 0 < v → 0 < digitsValue v rest := by
    intro rest
    induction rest with
    | nil => exact fun v positive => positive
    | cons b rest ih =>
      intro v positive
      have next : 0 < v * 10 + (b.toNat - 48) := by omega
      exact ih _ next
  cases digits with
  | nil => exact absurd rfl nonempty
  | cons b rest =>
    have here := isDigit b List.mem_cons_self
    have different : b.toNat ≠ 48 := fun zero => head (congrArg some (UInt8.toNat_inj.mp zero))
    simp only [isdigit, Bool.and_eq_true, decide_eq_true_eq] at here
    have first : 0 < value * 10 + (b.toNat - 48) := by omega
    exact grows rest _ first

/-- Such a run is what its value is printed as. -/
theorem decimal_digitsValue {digits : List UInt8} (isDigit : ∀ b ∈ digits, isdigit b = true)
    (nonempty : digits ≠ []) (plain : Plain digits) : decimal (digitsValue 0 digits) = digits := by
  induction digits using List.reverseRecOn with
  | nil => exact absurd rfl nonempty
  | append_singleton front b ih =>
    have digit := isDigit b (by simp)
    simp only [isdigit, Bool.and_eq_true, decide_eq_true_eq] at digit
    have printed : digitByte (b.toNat - 48) = b := by
      rw [digitByte, Nat.add_sub_of_le digit.1, UInt8.ofNat_toNat]
    have value : digitsValue 0 (front ++ [b]) = digitsValue 0 front * 10 + (b.toNat - 48) := by
      simp [digitsValue]
    have small : b.toNat - 48 < 10 := by omega
    by_cases single : front = []
    · subst single
      rw [value, decimal, if_pos]
      · simpa [digitsValue] using printed
      · simpa [digitsValue] using small
    · have head : front.head? ≠ some 48 := by
        intro zero
        have one := plain (by rw [List.head?_append, zero]; rfl)
        rw [List.length_append, List.length_singleton] at one
        exact single (List.length_eq_zero_iff.mp (by omega))
      have inFront : ∀ b ∈ front, isdigit b = true := fun b member => isDigit b (List.mem_append_left _ member)
      have positive := digitsValue_pos inFront single head 0
      have rest := ih inFront single fun zero => absurd zero head
      rw [value, decimal, if_neg (by omega), Nat.mul_add_mod_of_lt small,
        Nat.add_comm, Nat.add_mul_div_right _ _ (by decide), Nat.div_eq_of_lt small, Nat.zero_add, rest, printed]

/-- A marker without superfluous zeros is what the printer prints for its values. -/
theorem markerPrint_values (plain : t.Plain) :
    markerPrint t.values.id t.values.partNo t.values.numParts t.values.off t.values.sz = t.bytes := by
  have field : ∀ d ∈ t.fields, decimal d.value = d.digits := fun d member =>
    decimal_digitsValue d.isdigit d.nonempty (plain.2 d member)
  have idNonempty : t.id ≠ [] := by
    intro none
    have thirteen := t.idLength
    rw [none] at thirteen
    cases thirteen
  simp only [MarkerText.values, markerPrint, MarkerText.bytes, fieldsText, MarkerText.fields,
    decimal_digitsValue t.idDigits idNonempty plain.1, field t.partNo (by simp [MarkerText.fields]),
    field t.numParts (by simp [MarkerText.fields]), field t.off (by simp [MarkerText.fields]),
    field t.sz (by simp [MarkerText.fields])]

/-- Where the parser accepts a marker without superfluous zeros whose fields
fit, the printer reproduces the start of the message. -/
def Reprints (bytes : List UInt8) (beyond : Memory) : Prop :=
  ∀ fields (t : MarkerText), markerParse (memoryOf bytes beyond) bytes.length = some fields →
    ShowsMarker (memoryOf bytes beyond) bytes.length t → t.Plain → t.Fits →
    markerPrint fields.id fields.partNo fields.numParts fields.off fields.sz =
      bytes.take fields.markerSize

/-- The marker takes up the message and the byte behind it. -/
def CutShort (bytes : List UInt8) (beyond : Memory) : Prop :=
  ∃ t : MarkerText, t.bytes = bytes ++ [beyond 0] ∧ leastLength ≤ bytes.length ∧ t.Plain ∧ t.Fits

theorem CutShort.misprinted (cut : CutShort bytes beyond) : ¬ Reprints bytes beyond := by
  obtain ⟨t, same, least, plain, fits⟩ := cut
  intro reprints
  have shown := showsMarker_iff.mpr ⟨least, .inr same⟩
  have again := reprints _ t (markerParse_iff.mpr ⟨t, shown, rfl⟩) shown plain fits
  rw [fits.parsed, markerPrint_values plain, same] at again
  have lengths := congrArg List.length again
  rw [List.length_append, List.length_singleton, List.length_take] at lengths
  omega

/-- What is printed is read back, and what is read is printed back unless the
marker is cut short by its last byte. -/
theorem marker_round_trip_iff (bytes : List UInt8) (beyond : Memory) :
    (∀ (id partNo numParts off sz : Nat) (payload : List UInt8), 10 ^ 12 ≤ id →
      id < 10 ^ 13 → partNo < 2 ^ 32 → numParts < 2 ^ 32 → off < 2 ^ 32 → sz < 2 ^ 32 → payload ≠ [] →
      markerParse (memoryOf (markerPrint id partNo numParts off sz ++ payload) beyond)
          (markerPrint id partNo numParts off sz ++ payload).length =
        some ⟨id, partNo, numParts, off, sz, (markerPrint id partNo numParts off sz).length⟩) ∧
    (Reprints bytes beyond ↔ ¬ CutShort bytes beyond) := by
  constructor
  · intro id partNo numParts off sz payload lower upper partNoSmall numPartsSmall offSmall szSmall
      nonempty
    exact markerParse_markerPrint lower upper partNoSmall numPartsSmall offSmall szSmall nonempty
      (shows_memoryOf _ beyond) rfl
  · refine ⟨fun reprints cut => cut.misprinted reprints, ?_⟩
    intro whole fields t accepted shown plain fits
    obtain ⟨t', shown', rfl⟩ := markerParse_iff.mp accepted
    obtain rfl := shown.unique shown'
    rw [fits.parsed, markerPrint_values plain]
    obtain ⟨least, ⟨payload, same⟩ | cut⟩ := showsMarker_iff.mp shown
    · rw [same]
      exact List.take_left.symm
    · exact absurd ⟨t, cut, least, plain, fits⟩ whole

/-- The second part of two, of a message of 65 bytes; the marker has 29 bytes. -/
def secondOfTwo : MarkerText where
  id := decimal 1234567890123
  partNo := printed 2 (by decide +kernel)
  numParts := printed 2 (by decide +kernel)
  off := printed 33 (by decide +kernel)
  sz := printed 65 (by decide +kernel)
  idLength := by decide +kernel
  idDigits := decimal_digits _

theorem secondOfTwo_plain : secondOfTwo.Plain ∧ secondOfTwo.Fits := by
  unfold MarkerText.Plain MarkerText.Fits
  decide +kernel

/-- 28 bytes of it are accepted, with the last byte from behind them. -/
theorem secondOfTwo_misprinted : ¬ Reprints (secondOfTwo.bytes.take 28) fun _ => 0x8b := by
  have cut : CutShort (secondOfTwo.bytes.take 28) fun _ => 0x8b :=
    ⟨secondOfTwo, by decide +kernel, by decide +kernel, secondOfTwo_plain⟩
  exact cut.misprinted

end Defragmenter.MarkerGrammar
