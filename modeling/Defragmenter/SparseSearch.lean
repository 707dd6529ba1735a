import Mathlib.Order.BoundedOrder.Basic
import Mathlib.Order.Lattice
import Mathlib.Tactic.Linarith

/-! Binary search in a sorted array with holes. A hole holds the least element
of the order. The search probes the first held slot from the middle on, but
never the last slot of its interval; when everything between the middle and
that last slot is a hole, it gives up the last slot unseen. `Hidden` says which
slots are lost that way, and the search finds exactly the others. -/
namespace Defragmenter.SparseSearch

variable {α : Type} [LinearOrder α] [OrderBot α] (key : Nat → α)

/-- The first held slot from `i` on, or the slot `room` further. -/
def nextHeld : Nat → Nat → Nat
  | 0, i => i
  | room + 1, i => if key i = ⊥ then nextHeld room (i + 1) else i

/-- The slot at which `n` is or belongs, between `i1` and `i2`. `fuel` bounds
the halvings. -/
def search (n : α) : Nat → Nat → Nat → Nat
  | 0, i1, i2 => if key i1 < n then i2 else i1
  | fuel + 1, i1, i2 =>
    if i1 + 1 < i2 then
      let im := (i1 + i2) / 2
      let imu := nextHeld key (i2 - 1 - im) im
      if imu + 1 < i2 then
        if key imu < n then search n fuel imu i2
        else if n < key imu then search n fuel i1 im
        else imu
      else search n fuel i1 im
    else if key i1 < n then i2 else i1

/-- The slots that `nextHeld` looks at. -/
def nextHeldReads : Nat → Nat → List Nat
  | 0, _ => []
  | room + 1, i => i :: if key i = ⊥ then nextHeldReads room (i + 1) else []

/-- The slots that `search` looks at. -/
def searchReads (n : α) : Nat → Nat → Nat → List Nat
  | 0, i1, _ => [i1]
  | fuel + 1, i1, i2 =>
    if i1 + 1 < i2 then
      let im := (i1 + i2) / 2
      let imu := nextHeld key (i2 - 1 - im) im
      nextHeldReads key (i2 - 1 - im) im ++
        if imu + 1 < i2 then
          imu :: if key imu < n then searchReads n fuel imu i2
            else if n < key imu then searchReads n fuel i1 im
            else []
        else searchReads n fuel i1 im
    else [i1]

/-- The held slots of an interval stand in increasing order. -/
def Sorted (lo hi : Nat) : Prop :=
  ∀ i j, lo ≤ i → i < j → j < hi → key i ≠ ⊥ → key j ≠ ⊥ → key i < key j

/-- The intervals a search for the key of slot `j` comes through. -/
inductive Narrows (lo hi j : Nat) : Nat → Nat → Prop where
  | whole : Narrows lo hi j lo hi
  /-- The probed slot is below `j`. -/
  | up {i1 i2 imu : Nat} : Narrows lo hi j i1 i2 → (i1 + i2) / 2 ≤ imu → imu < j →
      (∀ k, (i1 + i2) / 2 ≤ k → k < imu → key k = ⊥) → key imu ≠ ⊥ → Narrows lo hi j imu i2
  /-- The middle is above `j`. -/
  | down {i1 i2 : Nat} : Narrows lo hi j i1 i2 → j < (i1 + i2) / 2 →
      Narrows lo hi j i1 ((i1 + i2) / 2)

/-- Slot `j` is the last of an interval of the search for it, and everything from the
middle of that interval up to it is a hole. -/
def Hidden (lo hi j : Nat) : Prop :=
  ∃ i1, Narrows key lo hi j i1 (j + 1) ∧ (i1 + (j + 1)) / 2 < j ∧
    ∀ k, (i1 + (j + 1)) / 2 ≤ k → k < j → key k = ⊥

/-- Slot `j` and the one before it are an interval of the search for slot `j`. -/
def Adjacent (lo hi j : Nat) : Prop := ∃ i1, Narrows key lo hi j i1 (j + 1) ∧ i1 + 1 = j

variable {key} {lo hi i j room fuel i1 i2 : Nat} {n : α}

theorem le_nextHeld : i ≤ nextHeld key room i ∧ nextHeld key room i ≤ i + room := by
  induction room generalizing i with
  | zero => simp [nextHeld]
  | succ room ih =>
    rw [nextHeld]
    split
    · have := @ih (i + 1)
      omega
    · omega

theorem hole_before_nextHeld {k : Nat} (from_ : i ≤ k) (before : k < nextHeld key room i) :
    key k = ⊥ := by
  induction room generalizing i with
  | zero =>
    simp only [nextHeld] at before
    omega
  | succ room ih =>
    rw [nextHeld] at before
    split at before
    · rename_i hole
      by_cases here : k = i
      · rw [here, hole]
      · exact ih (by omega) before
    · omega

theorem nextHeld_held (stops : nextHeld key room i < i + room) :
    key (nextHeld key room i) ≠ ⊥ := by
  induction room generalizing i with
  | zero =>
    simp only [nextHeld] at stops
    omega
  | succ room ih =>
    rw [nextHeld] at stops ⊢
    split
    · rename_i hole
      rw [if_pos hole] at stops
      exact ih (by omega)
    · assumption

/-- A search never leaves its interval. -/
theorem search_mem (le : i1 ≤ i2) :
    i1 ≤ search key n fuel i1 i2 ∧ search key n fuel i1 i2 ≤ i2 := by
  induction fuel generalizing i1 i2 with
  | zero =>
    rw [search]
    split <;> omega
  | succ fuel ih =>
    have bounds := @le_nextHeld α _ _ key ((i1 + i2) / 2) (i2 - 1 - (i1 + i2) / 2)
    rw [search]
    split
    · dsimp only
      split
      · split
        · have := @ih (nextHeld key (i2 - 1 - (i1 + i2) / 2) ((i1 + i2) / 2)) i2 (by omega)
          omega
        · split
          · have := @ih i1 ((i1 + i2) / 2) (by omega)
            omega
          · omega
      · have := @ih i1 ((i1 + i2) / 2) (by omega)
        omega
    · split <;> omega

theorem Narrows.bounds (narrows : Narrows key lo hi j i1 i2) (lower : lo ≤ j) (upper : j < hi) :
    lo ≤ i1 ∧ i1 ≤ j ∧ j < i2 ∧ i2 ≤ hi := by
  induction narrows with
  | whole => omega
  | up _ _ _ _ _ ih => omega
  | down _ _ ih => omega

/-- The first slot is never hidden. -/
theorem not_hidden_first (inside : lo < hi) : ¬ Hidden key lo hi lo := by
  rintro ⟨i1, narrows, middle, _⟩
  have bounds := narrows.bounds (Nat.le_refl lo) inside
  omega

/-- The only held slot of three or more is hidden, if it is the last. -/
theorem hidden_last (wide : lo + 3 ≤ hi) (holes : ∀ k, lo ≤ k → k + 1 < hi → key k = ⊥) :
    Hidden key lo hi (hi - 1) := by
  have last : hi - 1 + 1 = hi := by omega
  refine ⟨lo, ?_, by omega, fun k middle before => holes k (by omega) (by omega)⟩
  rw [last]
  exact .whole

theorem nextHeld_eq {imu : Nat} (le : i ≤ imu) (inside : imu ≤ i + room)
    (holes : ∀ k, i ≤ k → k < imu → key k = ⊥) (held : key imu ≠ ⊥) :
    nextHeld key room i = imu := by
  have bounds := @le_nextHeld α _ _ key i room
  rcases Nat.lt_trichotomy (nextHeld key room i) imu with before | same | after
  · exact absurd (holes _ bounds.1 before) (nextHeld_held (by omega))
  · exact same
  · exact absurd (hole_before_nextHeld le after) held

theorem search_final (narrow : ¬ i1 + 1 < i2) :
    search key n fuel i1 i2 = if key i1 < n then i2 else i1 := by
  cases fuel with
  | zero => rfl
  | succ fuel => rw [search, if_neg narrow]

/-- Nothing above the low end is at most `n`: the search ends there. -/
theorem search_from (inside : i1 < i2) (le : i2 ≤ hi)
    (above : ∀ k, i1 < k → k < hi → key k ≠ ⊥ → n < key k) (enough : i2 - i1 ≤ fuel) :
    search key n fuel i1 i2 = if key i1 < n then i1 + 1 else i1 := by
  induction fuel generalizing i2 with
  | zero => omega
  | succ fuel ih =>
    by_cases wide : i1 + 1 < i2
    · have probe := @le_nextHeld α _ _ key ((i1 + i2) / 2) (i2 - 1 - (i1 + i2) / 2)
      have lower : search key n fuel i1 ((i1 + i2) / 2) = _ := ih (by omega) (by omega) (by omega)
      rw [search, if_pos wide]
      dsimp only
      by_cases further : nextHeld key (i2 - 1 - (i1 + i2) / 2) ((i1 + i2) / 2) + 1 < i2
      · have heldProbe := @nextHeld_held α _ _ key ((i1 + i2) / 2) (i2 - 1 - (i1 + i2) / 2) (by omega)
        have less := above _ (by omega) (by omega) heldProbe
        rw [if_pos further, if_neg (not_lt_of_gt less), if_pos less, lower]
      · rw [if_neg further, lower]
    · rw [search_final wide, show i2 = i1 + 1 by omega]

/-! ## The search for the place above a slot -/

/-- The probed slot is below `j`: the search goes on above it. -/
theorem search_up (sorted : Sorted key lo hi) (lower : lo ≤ j) (upper : j < hi) (held : key j ≠ ⊥)
    (atMost : key j ≤ n) {imu : Nat} (narrows : Narrows key lo hi j i1 i2) (le : (i1 + i2) / 2 ≤ imu)
    (below : imu < j) (holes : ∀ k, (i1 + i2) / 2 ≤ k → k < imu → key k = ⊥)
    (heldProbe : key imu ≠ ⊥) : search key n (fuel + 1) i1 i2 = search key n fuel imu i2 := by
  have bounds := narrows.bounds lower upper
  have probe : nextHeld key (i2 - 1 - (i1 + i2) / 2) ((i1 + i2) / 2) = imu :=
    nextHeld_eq le (by omega) holes heldProbe
  have less : key imu < n := lt_of_lt_of_le (sorted imu j (by omega) below upper heldProbe held) atMost
  have wide : i1 + 1 < i2 := by omega
  have inside : imu + 1 < i2 := by omega
  simp only [search, wide, probe, inside, less, ↓reduceIte]

/-- The middle is above `j`: the search goes on below the middle. -/
theorem search_down (lower : lo ≤ j) (upper : j < hi)
    (above : ∀ k, j < k → k < hi → key k ≠ ⊥ → n < key k) (narrows : Narrows key lo hi j i1 i2)
    (beyond : j < (i1 + i2) / 2) :
    search key n (fuel + 1) i1 i2 = search key n fuel i1 ((i1 + i2) / 2) := by
  have bounds := narrows.bounds lower upper
  have wide : i1 + 1 < i2 := by omega
  have probe := @le_nextHeld α _ _ key ((i1 + i2) / 2) (i2 - 1 - (i1 + i2) / 2)
  rw [search, if_pos wide]
  dsimp only
  by_cases inside : nextHeld key (i2 - 1 - (i1 + i2) / 2) ((i1 + i2) / 2) + 1 < i2
  · have heldProbe := @nextHeld_held α _ _ key ((i1 + i2) / 2) (i2 - 1 - (i1 + i2) / 2) (by omega)
    have less := above _ (by omega : j < nextHeld key _ _) (by omega) heldProbe
    rw [if_pos inside, if_neg (not_lt_of_gt less), if_pos less]
  · rw [if_neg inside]

/-- The last interval that depends on `j` alone. -/
theorem exists_last_interval (lower : lo ≤ j) (upper : j < hi) : ∃ i1 i2, Narrows key lo hi j i1 i2 ∧
    (i1 + 1 < i2 → (i1 + i2) / 2 ≤ j ∧ ∀ k, (i1 + i2) / 2 ≤ k → k < j → key k = ⊥) := by
  suffices narrowed : ∀ d i1 i2, Narrows key lo hi j i1 i2 → i2 - i1 ≤ d → ∃ i1 i2, Narrows key lo hi j i1 i2 ∧
      (i1 + 1 < i2 → (i1 + i2) / 2 ≤ j ∧ ∀ k, (i1 + i2) / 2 ≤ k → k < j → key k = ⊥) by
    exact narrowed (hi - lo) lo hi .whole (Nat.le_refl _)
  intro d
  induction d with
  | zero =>
    intro i1 i2 narrows short
    have bounds := narrows.bounds lower upper
    omega
  | succ d ih =>
    intro i1 i2 narrows short
    have bounds := narrows.bounds lower upper
    by_cases wide : i1 + 1 < i2
    · by_cases beyond : j < (i1 + i2) / 2
      · exact ih _ _ (.down narrows beyond) (by omega)
      · have probe := @le_nextHeld α _ _ key ((i1 + i2) / 2) (j - (i1 + i2) / 2)
        have holes : ∀ k, (i1 + i2) / 2 ≤ k → k < nextHeld key (j - (i1 + i2) / 2) ((i1 + i2) / 2) → key k = ⊥ :=
          fun k from_ before => hole_before_nextHeld from_ before
        by_cases below : nextHeld key (j - (i1 + i2) / 2) ((i1 + i2) / 2) < j
        · exact ih _ _ (.up narrows probe.1 below holes (nextHeld_held (by omega))) (by omega)
        · exact ⟨i1, i2, narrows, fun _ => ⟨by omega, fun k from_ before => holes k from_ (by omega)⟩⟩
    · exact ⟨i1, i2, narrows, fun again => absurd again wide⟩

section Aim
variable (sorted : Sorted key lo hi) (lower : lo ≤ j) (upper : j < hi) (held : key j ≠ ⊥) (atMost : key j ≤ n)
  (above : ∀ k, j < k → k < hi → key k ≠ ⊥ → n < key k)
include sorted lower upper held atMost above

/-- The search really comes through the intervals it narrows to. -/
theorem search_narrows (narrows : Narrows key lo hi j i1 i2) :
    ∃ fuel, i2 - i1 ≤ fuel ∧ search key n (hi - lo) lo hi = search key n fuel i1 i2 := by
  induction narrows with
  | whole => exact ⟨hi - lo, Nat.le_refl _, rfl⟩
  | @up i1 i2 imu narrows le below holes heldProbe ih =>
    obtain ⟨fuel, enough, same⟩ := ih
    have bounds := narrows.bounds lower upper
    obtain ⟨fuel, rfl⟩ := Nat.exists_eq_succ_of_ne_zero (show fuel ≠ 0 by omega)
    rw [search_up sorted lower upper held atMost narrows le below holes heldProbe] at same
    exact ⟨fuel, by omega, same⟩
  | @down i1 i2 narrows beyond ih =>
    obtain ⟨fuel, enough, same⟩ := ih
    have bounds := narrows.bounds lower upper
    obtain ⟨fuel, rfl⟩ := Nat.exists_eq_succ_of_ne_zero (show fuel ≠ 0 by omega)
    rw [search_down lower upper above narrows beyond] at same
    exact ⟨fuel, by omega, same⟩

/-- A hidden slot is passed by, and the search ends below it. -/
theorem search_hidden (hidden : Hidden key lo hi j) : search key n (hi - lo) lo hi < j := by
  obtain ⟨i1, narrows, middle, holes⟩ := hidden
  obtain ⟨fuel, enough, same⟩ := search_narrows sorted lower upper held atMost above narrows
  have bounds := narrows.bounds lower upper
  obtain ⟨fuel, rfl⟩ := Nat.exists_eq_succ_of_ne_zero (show fuel ≠ 0 by omega)
  have probe : nextHeld key (j + 1 - 1 - (i1 + (j + 1)) / 2) ((i1 + (j + 1)) / 2) = j :=
    nextHeld_eq (by omega) (by omega) holes held
  have wide : i1 + 1 < j + 1 := by omega
  have stays := @search_mem α _ _ key fuel i1 ((i1 + (j + 1)) / 2) n (by omega)
  simp only [search, wide, probe, lt_irrefl, ↓reduceIte] at same
  omega

theorem search_adjacent (adjacent : Adjacent key lo hi j) : search key n (hi - lo) lo hi = j := by
  obtain ⟨i1, narrows, rfl⟩ := adjacent
  obtain ⟨fuel, enough, same⟩ := search_narrows sorted lower upper held atMost above narrows
  have bounds := narrows.bounds lower upper
  obtain ⟨fuel, rfl⟩ := Nat.exists_eq_succ_of_ne_zero (show fuel ≠ 0 by omega)
  have middle : (i1 + (i1 + 1 + 1)) / 2 = i1 + 1 := by omega
  have less : key i1 < n := by
    by_cases hole : key i1 = ⊥
    · rw [hole]
      exact lt_of_lt_of_le (bot_lt_iff_ne_bot.mpr held) atMost
    · exact lt_of_lt_of_le (sorted i1 (i1 + 1) (by omega) (by omega) upper hole held) atMost
  have probe : nextHeld key (i1 + 1 + 1 - 1 - (i1 + 1)) (i1 + 1) = i1 + 1 := by
    rw [show i1 + 1 + 1 - 1 - (i1 + 1) = 0 by omega]
    rfl
  have wide : i1 + 1 < i1 + 1 + 1 := by omega
  simp only [search, wide, middle, probe, lt_irrefl, ↓reduceIte] at same
  rw [same, search_final (by omega), if_pos less]

/-- A slot that is not hidden is where the search ends: at it, or right behind
it if the key is greater. -/
theorem search_visible (visible : ¬ Hidden key lo hi j) (apart : ¬ Adjacent key lo hi j) :
    search key n (hi - lo) lo hi = if key j < n then j + 1 else j := by
  obtain ⟨i1, i2, narrows, last⟩ := @exists_last_interval α _ _ key lo hi j lower upper
  obtain ⟨fuel, enough, same⟩ := search_narrows sorted lower upper held atMost above narrows
  have bounds := narrows.bounds lower upper
  obtain ⟨fuel, rfl⟩ := Nat.exists_eq_succ_of_ne_zero (show fuel ≠ 0 by omega)
  rw [same]
  by_cases wide : i1 + 1 < i2
  · obtain ⟨middle, holes⟩ := last wide
    have inside : j + 1 < i2 := by
      refine Nat.lt_of_not_le fun ends => ?_
      obtain rfl : i2 = j + 1 := by omega
      rcases Nat.lt_or_ge ((i1 + (j + 1)) / 2) j with before | here
      · exact visible ⟨i1, narrows, before, holes⟩
      · exact apart ⟨i1, narrows, by omega⟩
    have probe : nextHeld key (i2 - 1 - (i1 + i2) / 2) ((i1 + i2) / 2) = j :=
      nextHeld_eq middle (by omega) holes held
    simp only [search, wide, probe, inside, ↓reduceIte]
    rcases lt_or_eq_of_le atMost with less | equal
    · rw [if_pos less, search_from (by omega) bounds.2.2.2 above (by omega)]
    · rw [equal, if_neg (lt_irrefl n), if_neg (lt_irrefl n), if_neg (lt_irrefl n)]
  · rw [search_final wide, show i1 = j by omega, show i2 = j + 1 by omega]

end Aim

/-- The search finds a held slot exactly if it is not hidden. -/
theorem search_eq_iff (sorted : Sorted key lo hi) (lower : lo ≤ j) (upper : j < hi) (held : key j ≠ ⊥) :
    search key (key j) (hi - lo) lo hi = j ↔ ¬ Hidden key lo hi j := by
  have above : ∀ k, j < k → k < hi → key k ≠ ⊥ → key j < key k :=
    fun k after inside heldK => sorted j k lower after inside held heldK
  constructor
  · intro found hidden
    have before := search_hidden sorted lower upper held (le_refl _) above hidden
    omega
  · intro visible
    by_cases adjacent : Adjacent key lo hi j
    · exact search_adjacent sorted lower upper held (le_refl _) above adjacent
    · rw [search_visible sorted lower upper held (le_refl _) above visible adjacent, if_neg (lt_irrefl _)]

/-- Slots of one key are one slot. -/
theorem Sorted.injective (sorted : Sorted key lo hi) (lowerI : lo ≤ i) (upperI : i < hi)
    (lowerJ : lo ≤ j) (upperJ : j < hi) (held : key i ≠ ⊥) (same : key i = key j) : i = j := by
  have heldJ : key j ≠ ⊥ := same ▸ held
  rcases Nat.lt_trichotomy i j with before | equal | after
  · exact absurd (sorted i j lowerI before upperJ held heldJ) (by rw [same]; exact lt_irrefl _)
  · exact equal
  · exact absurd (sorted j i lowerJ after upperI heldJ held) (by rw [same]; exact lt_irrefl _)

/-! ## The ends of the interval -/

theorem nextHeldReads_lt {k : Nat} (member : k ∈ nextHeldReads key room i) : k < i + room := by
  induction room generalizing i with
  | zero => cases member
  | succ room ih =>
    rw [nextHeldReads] at member
    rcases List.mem_cons.mp member with rfl | later
    · omega
    · split at later
      · have := ih later
        omega
      · cases later

/-- A search looks at no slot outside its interval. -/
theorem searchReads_lt {k : Nat} (inside : i1 < i2) (member : k ∈ searchReads key n fuel i1 i2) : k < i2 := by
  induction fuel generalizing i1 i2 with
  | zero =>
    obtain rfl := List.mem_singleton.mp member
    exact inside
  | succ fuel ih =>
    have probe := @le_nextHeld α _ _ key ((i1 + i2) / 2) (i2 - 1 - (i1 + i2) / 2)
    rw [searchReads] at member
    split at member
    · have lower : k ∈ searchReads key n fuel i1 ((i1 + i2) / 2) → k < i2 := fun later => by
        have := ih (by omega) later
        omega
      rcases List.mem_append.mp member with scanned | later
      · have := nextHeldReads_lt scanned
        omega
      · split at later
        · rcases List.mem_cons.mp later with rfl | later
          · omega
          · split at later
            · exact ih (by omega) later
            · split at later
              · exact lower later
              · cases later
        · exact lower later
    · obtain rfl := List.mem_singleton.mp member
      exact inside

/-- An interval of more than one slot is not left at its end. -/
theorem search_lt (wide : i1 + 1 < i2) (enough : i2 - i1 ≤ fuel) : search key n fuel i1 i2 < i2 := by
  induction fuel generalizing i1 with
  | zero => omega
  | succ fuel ih =>
    have probe := @le_nextHeld α _ _ key ((i1 + i2) / 2) (i2 - 1 - (i1 + i2) / 2)
    have lower := @search_mem α _ _ key fuel i1 ((i1 + i2) / 2) n (by omega)
    rw [search, if_pos wide]
    dsimp only
    split
    · rename_i inside
      split
      · exact ih inside (by omega)
      · split <;> omega
    · omega

/-- The search goes past the end exactly if there is but one slot and it is below. -/
theorem search_eq_hi_iff (inside : lo < hi) :
    search key n (hi - lo) lo hi = hi ↔ lo + 1 = hi ∧ key lo < n := by
  by_cases wide : lo + 1 < hi
  · have := @search_lt α _ _ key (hi - lo) lo hi n wide (Nat.le_refl _)
    omega
  · rw [search_final wide]
    split
    · rename_i less
      exact ⟨fun _ => ⟨by omega, less⟩, fun _ => rfl⟩
    · rename_i notLess
      exact ⟨fun same => by omega, fun both => absurd both.2 notLess⟩

/-- The low ends that a search comes through while its high end stays at `hi`. -/
inductive Rises (key : Nat → α) (n : α) (hi : Nat) : Nat → Nat → Prop where
  | here {i : Nat} : Rises key n hi i i
  | up {i1 imu i : Nat} : (i1 + hi) / 2 ≤ imu → imu + 1 < hi → (∀ k, (i1 + hi) / 2 ≤ k → k < imu → key k = ⊥) →
      key imu ≠ ⊥ → key imu < n → Rises key n hi imu i → Rises key n hi i1 i

theorem rises_cases (inside : i1 + 1 < hi) (rises : Rises key n hi i1 (hi - 2)) : i1 + 2 = hi ∨
    ∃ imu, nextHeld key (hi - 1 - (i1 + hi) / 2) ((i1 + hi) / 2) = imu ∧ imu + 1 < hi ∧ key imu < n ∧
      Rises key n hi imu (hi - 2) := by
  cases rises with
  | here => exact .inl (by omega)
  | @up _ imu _ le before holes held less rest =>
    exact .inr ⟨imu, nextHeld_eq le (by omega) holes held, before, less, rest⟩

/-- The search ends at the last of several slots exactly if it rises to the one
before, and that one is below. -/
theorem search_eq_last_iff (wide : i1 + 1 < hi) (enough : hi - i1 ≤ fuel) :
    search key n fuel i1 hi = hi - 1 ↔ Rises key n hi i1 (hi - 2) ∧ key (hi - 2) < n := by
  induction fuel generalizing i1 with
  | zero => omega
  | succ fuel ih =>
    have probe := @le_nextHeld α _ _ key ((i1 + hi) / 2) (hi - 1 - (i1 + hi) / 2)
    have lower := @search_mem α _ _ key fuel i1 ((i1 + hi) / 2) n (by omega)
    rw [search, if_pos wide]
    dsimp only
    by_cases inside : nextHeld key (hi - 1 - (i1 + hi) / 2) ((i1 + hi) / 2) + 1 < hi
    · have held := @nextHeld_held α _ _ key ((i1 + hi) / 2) (hi - 1 - (i1 + hi) / 2) (by omega)
      have onlyUp : ¬ key (nextHeld key (hi - 1 - (i1 + hi) / 2) ((i1 + hi) / 2)) < n →
          ¬ Rises key n hi i1 (hi - 2) := by
        intro notLess rises
        rcases rises_cases wide rises with last | ⟨imu, same, _, less, _⟩
        · omega
        · exact notLess (same ▸ less)
      rw [if_pos inside]
      by_cases less : key (nextHeld key (hi - 1 - (i1 + hi) / 2) ((i1 + hi) / 2)) < n
      · rw [if_pos less, ih inside (by omega)]
        refine and_congr_left fun _ => ⟨fun rest => ?_, fun rises => ?_⟩
        · exact .up probe.1 inside (fun k from_ before => hole_before_nextHeld from_ before) held less rest
        · rcases rises_cases wide rises with last | ⟨imu, same, _, _, rest⟩
          · omega
          · exact same ▸ rest
      · rw [if_neg less]
        split
        · exact ⟨fun same => by omega, fun both => absurd both.1 (onlyUp less)⟩
        · exact ⟨fun same => by omega, fun both => absurd both.1 (onlyUp less)⟩
    · rw [if_neg inside]
      constructor
      · intro same
        have last : i1 + 2 = hi := by omega
        rw [search_final (by omega)] at same
        split at same
        · rename_i less
          rw [show hi - 2 = i1 by omega]
          exact ⟨.here, less⟩
        · omega
      · rintro ⟨rises, less⟩
        rcases rises_cases wide rises with last | ⟨imu, same, before, _⟩
        · rw [show hi - 2 = i1 by omega] at less
          rw [search_final (by omega), if_pos less]
          omega
        · omega

end Defragmenter.SparseSearch
