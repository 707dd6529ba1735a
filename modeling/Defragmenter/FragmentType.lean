import Defragmenter.Bookkeeping
import Defragmenter.FragmentBytes
import Defragmenter.InboundHistory

/-! The type that the fragments carry. A message gets the client's type once its
first window is out, and a restored message gets none, so these fragments carry
the zero of a new record. Messages are numbered as the client sends them, over
all the processes on one store. -/
namespace Defragmenter.FragmentType
open Decimal Database InboundStore OutboundStore Split Receipts Sender Moves Provenance Tracking Messages Restart
open Restored FragmentBytes Receiver InboundHistory Marker Runs

/-- What a client gave with a long message, the window it was sent in, and the parts it has. -/
structure Given where
  type : Int
  window : Nat
  parts : Nat
  deriving DecidableEq

/-- A process and its predecessors on the same store. -/
structure Succession where
  world : World
  state : State
  /-- The long messages that were split, in order. -/
  given : List Given := []
  /-- Which of them is at an address. -/
  number : Nat → Option Nat := fun _ => none
  /-- Which of them was stored last under a key. -/
  stored : Key → Option Nat := fun _ => none
  /-- What the predecessors passed for fragments: the message and the type. -/
  earlier : List (Nat × Int) := []

/-- All calls for fragments: the message and the type. -/
def Succession.calls (c : Succession) : List (Nat × Int) :=
  c.earlier ++ c.state.base.filterMap fun call =>
    (call.part.bind fun place => c.number place.1).map fun n => (n, call.type)

/-- The next message gets its number, with its address and the key of its row. -/
def Succession.add (c : Succession) (state : State) (g : Given) (row : Option Key) : Succession :=
  { c with
    state
    given := c.given ++ [g]
    number := Function.update c.number c.state.fresh (some c.given.length)
    stored := row.elim c.stored fun key => Function.update c.stored key (some c.given.length) }

/-- A message is on record once it has an address, and its row if it is kept. -/
def enter (c : Succession) (state : State) : Op → Succession
  | .send friendNumber type message _ =>
    if c.state.fresh < state.fresh then
      c.add state ⟨type, c.world.params.fragmentsAtATime,
          (original c.world c.state message).elim 0 (·.numParts)⟩
        (if (state.heap c.state.fresh).isSome then
          some (outboundKey friendNumber (generateMsgId c.world c.state).1) else none)
    else { c with state }
  | _ => { c with state }

/-- A restored message has the number of its row. -/
def succeed (c : Succession) (world : World) (state : State) : Succession where
  world
  state
  given := c.given
  number a :=
    (keptRows world (stmtSelectFragmentedOutboundPending c.state.db))[a]?.bind fun p => c.stored (keyOf p)
  stored := c.stored
  earlier := c.calls

inductive Act where
  | op (op : Op)
  | restart (world : World)

def act : Act → Succession → Except Fault Succession
  | .op op, c => do
    let state ← step c.world op c.state
    pure (enter c state op)
  | .restart world, c => do
    let state ← initializeBoth world { db := reopened c.state.db }
    pure (succeed c world state)

/-- A first process over an empty store. -/
def Founded (c : Succession) : Prop := ∃ world state, Started world state ∧ c = { world, state }

def ProperAct : Act → Prop
  | .op op => Proper op
  | .restart _ => True

instance : DecidablePred ProperAct := fun a =>
  match a with
  | .op op => inferInstanceAs (Decidable (Proper op))
  | .restart _ => .isTrue trivial

variable {w : World} {s s' : State} {v v' : View} {label : Label} {msg : Nat} {m : MsgOutbound}

/-! ## What a message and its calls may carry -/

/-- Messages and calls are of an allowed type for their address, and rows of a known key. -/
structure Typed (allowed : Nat → Int → Prop) (known : Key → Prop) (s : State) : Prop where
  heap : ∀ a m, s.heap a = some m → allowed a m.type
  base : ∀ call ∈ s.base, ∀ a partNo, call.part = some (a, partNo) → allowed a call.type
  rows : ∀ key : Key, key.outbound = true → (rows s.db key).dataRow ≠ none → known key

variable {allowed allowed' : Nat → Int → Prop} {known known' : Key → Prop}

/-- Every call for a fragment passes the type that its message has then, to the message's friend. -/
theorem move_base (move : Move w label v v') : v'.s.base = v.s.base ∨
    ∃ call, v'.s.base = v.s.base ++ [call] ∧ ∀ a partNo, call.part = some (a, partNo) →
      ∃ m, v.s.heap a = some m ∧ call.type = m.type ∧ call.friendNumber = m.friendNumber := by
  cases move with
  | idle | passed | begun | opened | dropped | confirmed | completed | cleared => exact .inl rfl
  | short none =>
    refine .inr ⟨_, rfl, fun a partNo mine => ?_⟩
    rw [none] at mine
    cases mine
  | firstRefused found | firstSent found | nextRefused found | nextSent found | failedRefused found
  | failedSent found =>
    refine .inr ⟨_, rfl, fun a partNo mine => ?_⟩
    cases mine
    exact ⟨_, found, rfl, rfl⟩
  | lost _ _ found | resent _ _ found =>
    refine .inr ⟨_, rfl, fun a partNo mine => ?_⟩
    cases mine
    exact ⟨_, found, rfl, rfl⟩

/-- No other move than a message's entry makes a row. -/
theorem move_dataRow (move : Move w label v v') (later : label ≠ .form) {key : Key}
    (held : (rows v'.s.db key).dataRow ≠ none) : (rows v.s.db key).dataRow ≠ none := by
  cases move with
  | begun | opened | dropped => exact absurd rfl later
  | idle | short | passed | firstRefused | firstSent | nextRefused | nextSent | failedRefused | failedSent
  | lost | resent | cleared => exact held
  | confirmed _ _ _ _ stored => exact dataRow_of_confirmed stored held
  | completed =>
    intro absent
    refine held ?_
    change (rows (dbClearOutboundPending _ _ _) key).dataRow = _
    rw [rows_cleared]
    split
    · rfl
    · exact absent

theorem Typed.move (typed : Typed allowed known v.s) (move : Move w label v v') (later : label ≠ .form) :
    Typed allowed known v'.s where
  heap a m here := by
    cases change_of_move move with
    | quiet kept =>
      obtain ⟨m₀, found, _, _, same⟩ := kept.back here
      exact same ▸ typed.heap a m₀ found
    | begun | opened | dropped => exact absurd rfl later
    | completed found =>
      obtain ⟨_, none⟩ | ⟨_, here⟩ := heap_update_iff.mp here
      · cases none
      · exact typed.heap a m here
  base call member a partNo mine := by
    rcases move_base move with same | ⟨new, grown, carries⟩
    · exact typed.base call (same ▸ member) a partNo mine
    · rw [grown] at member
      rcases List.mem_append.mp member with before | last
      · exact typed.base call before a partNo mine
      · obtain rfl := List.mem_singleton.mp last
        obtain ⟨m, found, same, _⟩ := carries a partNo mine
        exact same ▸ typed.heap a m found
  rows key outbound held := typed.rows key outbound (move_dataRow move later held)

theorem Typed.chain {admitted : Label → Prop} (typed : Typed allowed known v.s)
    (chain : Chain w admitted v v') (later : ∀ label, admitted label → label ≠ .form) :
    Typed allowed known v'.s :=
  chain.invariant (I := fun v => Typed allowed known v.s)
    (fun ok move before => before.move move (later _ ok)) typed

theorem base_grows {admitted : Label → Prop} (chain : Chain w admitted v v') :
    v.s.base <+: v'.s.base :=
  chain.invariant (I := fun v' => v.s.base <+: v'.s.base)
    (fun _ move before => by
      rcases move_base move with same | ⟨_, grown, _⟩
      · exact same ▸ before
      · exact grown ▸ before.trans (List.prefix_append ..)) (List.prefix_refl _)

/-! ## What is on record of a message -/

/-- There is a first window for the message, and a fragment to send in it. -/
def Given.Goes (g : Given) : Prop := g.window ≠ 0 ∧ g.parts ≠ 0

/-- The types that may go out for the message of this number: the client's, and zero. -/
def Fits (given : List Given) (n : Nat) (type : Int) : Prop :=
  ∃ g, given[n]? = some g ∧ g.Goes ∧ (type = 0 ∨ type = g.type)

/-- What may go out from an address. -/
def Carries (c : Succession) (a : Nat) (type : Int) : Prop :=
  ∃ n, c.number a = some n ∧ Fits c.given n type

/-- The key is one of a message that is on record. -/
def Known (c : Succession) (key : Key) : Prop := ∃ n, c.stored key = some n ∧ Fits c.given n 0

structure Told (c : Succession) : Prop where
  issued : Issued c.world c.state
  typed : Typed (Carries c) (Known c) c.state
  earlier : ∀ n type, (n, type) ∈ c.earlier → Fits c.given n type
  begun : ∀ n g, c.given[n]? = some g → g.Goes → (n, 0) ∈ c.calls

variable {c c' : Succession} {n : Nat} {type : Int}

theorem mem_calls : (n, type) ∈ c.calls ↔ (n, type) ∈ c.earlier ∨
    ∃ call ∈ c.state.base, ∃ a partNo, call.part = some (a, partNo) ∧ c.number a = some n ∧
      call.type = type := by
  rw [Succession.calls, List.mem_append, List.mem_filterMap]
  refine or_congr_right (exists_congr fun call => and_congr_right fun _ => ?_)
  cases mine : call.part with
  | none => simp
  | some place =>
    obtain ⟨a, partNo⟩ := place
    simp

theorem Told.calls (told : Told c) (member : (n, type) ∈ c.calls) : Fits c.given n type := by
  rcases mem_calls.mp member with before | ⟨call, made, a, partNo, mine, number, rfl⟩
  · exact told.earlier n type before
  · obtain ⟨n', number', fits⟩ := told.typed.base call made a partNo mine
    cases number.symm.trans number'
    exact fits

/-- What was called for stays so, while the old addresses keep their numbers. -/
theorem calls_grow (issued : Issued c.world c.state) (earlier : c'.earlier = c.earlier)
    (base : c.state.base <+: c'.state.base) (number : ∀ a < c.state.fresh, c'.number a = c.number a)
    (member : (n, type) ∈ c.calls) : (n, type) ∈ c'.calls := by
  rcases mem_calls.mp member with before | ⟨call, member, a, partNo, mine, named, same⟩
  · exact mem_calls.mpr (.inl (earlier ▸ before))
  · obtain ⟨i, at_i⟩ := List.getElem?_of_mem member
    have below := (issued.called at_i mine).1
    exact mem_calls.mpr (.inr ⟨call, base.subset member, a, partNo, mine,
      (number a below).trans named, same⟩)

theorem Fits.grow {given more : List Given} (fits : Fits given n type) : Fits (given ++ more) n type := by
  obtain ⟨g, known, rest⟩ := fits
  refine ⟨g, ?_, rest⟩
  rw [List.getElem?_append_left (List.getElem?_eq_some_iff.mp known).1]
  exact known

theorem fits_new {given : List Given} {g : Given} (goes : g.Goes) (right : type = 0 ∨ type = g.type) :
    Fits (given ++ [g]) given.length type :=
  ⟨g, List.getElem?_concat_length, goes, right⟩

/-! ## Every step keeps the record -/

/-- A receipt and a periodic pass enter nothing. -/
theorem Told.later {op : Op} (told : Told c) (proper : Proper op)
    (later : ∀ f t bytes m, op ≠ .send f t bytes m) (ran : step c.world op c.state = .ok s') :
    Told { c with state := s' } := by
  have chain := later_chain proper later ran
  have issued := chain.invariant (I := fun v => Issued c.world v.s) (fun _ move before => before.move move)
    told.issued
  refine ⟨issued, told.typed.chain chain fun _ => id, told.earlier, fun n g known goes => ?_⟩
  exact calls_grow told.issued rfl (base_grows chain) (fun _ _ => rfl) (told.begun n g known goes)

/-- The window that a long send begins with. -/
theorem window_kept {friendNumber : Nat} {bytes : List UInt8}
    (chain : Chain w (· = .first) ⟨begunState w s friendNumber m, none, some (s.fresh, bytes)⟩
      ⟨s', none, some (s.fresh, bytes)⟩) :
    s'.fresh = s.fresh + 1 ∧ s'.db = s.db ∧
      ∃ m₁, s'.heap s.fresh = some m₁ ∧ m₁.friendNumber = friendNumber ∧ m₁.id = m.id := by
  refine chain.invariant (I := fun v => v.s.fresh = s.fresh + 1 ∧ v.s.db = s.db ∧
    ∃ m₁, v.s.heap s.fresh = some m₁ ∧ m₁.friendNumber = friendNumber ∧ m₁.id = m.id) ?_
    ⟨rfl, rfl, _, Function.update_self .., rfl, rfl⟩
  rintro _ v v' rfl move ⟨fresh, db, m₁, found, friend, id⟩
  have store : v'.s.db = v.s.db := by
    cases move <;> rfl
  cases change_of_move move with
  | quiet kept =>
    obtain ⟨m₂, found₂⟩ := kept.forth found
    obtain ⟨m₀, found₀, shape, _⟩ := kept.back found₂
    cases found.symm.trans found₀
    exact ⟨kept.fresh.trans fresh, store.trans db, m₂, found₂, shape.friendNumber.trans friend,
      shape.id.trans id⟩

/-- Without a window, or without a part, it is not opened. -/
theorem window_closed {friendNumber : Nat} {bytes : List UInt8}
    (none : w.params.fragmentsAtATime = 0 ∨ m.numParts = 0)
    (chain : Chain w (· = .first) ⟨begunState w s friendNumber m, Option.none, some (s.fresh, bytes)⟩ v') :
    v' = ⟨begunState w s friendNumber m, Option.none, some (s.fresh, bytes)⟩ := by
  refine chain.invariant
    (I := (· = ⟨begunState w s friendNumber m, Option.none, some (s.fresh, bytes)⟩)) ?_ rfl
  rintro _ v v' rfl move rfl
  have here : (begunState w s friendNumber m).heap s.fresh = some { m with friendNumber } :=
    Function.update_self ..
  cases move with
  | firstRefused found inside room | firstSent found inside room =>
    cases here.symm.trans found
    rcases none with none | none
    · omega
    · exact absurd inside (by simp [none])

theorem type_of_split {big maxLength id : Nat} {bytes : List UInt8}
    (split : splitMessage big bytes maxLength id = .ok m) : m.type = 0 := by
  unfold splitMessage at split
  dsimp only at split
  split at split
  · cases split
  · split at split
    · cases split
    · cases split
      rfl

/-- The first call of the window is one for the first part, with the type of a new record. -/
theorem first_call {friendNumber : Nat} (type : m.type = 0) (unsent : m.numTransit = 0)
    (room : w.params.fragmentsAtATime ≠ 0) (parts : m.numParts ≠ 0)
    (went : sendFrom w s.fresh m.numParts 0 (begunState w s friendNumber m) = .ok s') :
    ∃ call ∈ s'.base, call.part = some (s.fresh, 1) ∧ call.type = 0 := by
  have here : (begunState w s friendNumber m).heap s.fresh = some { m with friendNumber } :=
    Function.update_self ..
  obtain ⟨count, same⟩ := Nat.exists_eq_succ_of_ne_zero parts
  have grown := sendFrom_base here went
  rw [same, comesTo, if_pos (by rw [unsent]; exact Nat.pos_of_ne_zero room), List.map_cons] at grown
  refine ⟨partCall s.fresh { m with friendNumber } 0, ?_, rfl, type⟩
  rw [grown]
  exact List.mem_append_right _ List.mem_cons_self

variable {g : Given} {key : Key} {row : Option Key}

theorem carries_old {a : Nat} (below : a < c.state.fresh) (carries : Carries c a type) :
    Carries (c.add s' g row) a type := by
  obtain ⟨n, number, fits⟩ := carries
  exact ⟨n, (Function.update_of_ne (Nat.ne_of_lt below) _ _).trans number, fits.grow⟩

theorem carries_new (goes : g.Goes) (right : type = 0 ∨ type = g.type) :
    Carries (c.add s' g row) c.state.fresh type :=
  ⟨c.given.length, Function.update_self .., fits_new goes right⟩

theorem known_add (goes : row ≠ none → g.Goes) (known : Known c key ∨ row = some key) :
    Known (c.add s' g row) key := by
  cases row with
  | none =>
    obtain ⟨n, stored, fits⟩ := known.resolve_right nofun
    exact ⟨n, stored, fits.grow⟩
  | some own =>
    by_cases same : key = own
    · subst same
      exact ⟨c.given.length, Function.update_self .., fits_new (goes nofun) (.inl rfl)⟩
    · obtain ⟨n, stored, fits⟩ := known.resolve_right fun named => same (Option.some.inj named).symm
      exact ⟨n, (Function.update_of_ne same _ _).trans stored, fits.grow⟩

/-- What there was is typed as before once the next message has its number. -/
theorem Told.before (told : Told c) (next : State) (g : Given) (row : Option Key) :
    (∀ a m, c.state.heap a = some m → Carries (c.add next g row) a m.type) ∧
      ∀ call ∈ c.state.base, ∀ a partNo, call.part = some (a, partNo) →
        Carries (c.add next g row) a call.type := by
  refine ⟨fun a m found => ?_, fun call member a partNo mine => ?_⟩
  · exact carries_old (told.issued.below found) (told.typed.heap a m found)
  · obtain ⟨i, at_i⟩ := List.getElem?_of_mem member
    exact carries_old (told.issued.called at_i mine).1 (told.typed.base call member a partNo mine)

theorem Told.add (told : Told c) (issued : Issued c.world s') (grows : c.state.base <+: s'.base)
    (typed : Typed (Carries (c.add s' g row)) (Known (c.add s' g row)) s')
    (first : g.Goes → ∃ call ∈ s'.base, call.part = some (c.state.fresh, 1) ∧ call.type = 0) :
    Told (c.add s' g row) := by
  refine ⟨issued, typed, fun n type member => (told.earlier n type member).grow, fun n g' known goes => ?_⟩
  have known : (c.given ++ [g])[n]? = some g' := known
  rcases getElem?_snoc known with before | ⟨rfl, rfl⟩
  · refine calls_grow told.issued rfl grows (fun a below => ?_) (told.begun n g' before goes)
    exact Function.update_of_ne (Nat.ne_of_lt below) _ _
  · obtain ⟨call, member, mine, zero⟩ := first goes
    exact mem_calls.mpr (.inr ⟨call, member, _, _, mine, Function.update_self .., zero⟩)

/-- The first window of a message for which there is one. -/
theorem Told.window (told : Told c) (next : State) (row : Option Key) {friendNumber : Nat} {bytes : List UInt8} {s₁ : State}
    (split : splitMessage c.state.markerMaxSizeEver bytes c.world.params.maxMessageLength
      (max (c.world.clock c.state.ticks) (c.state.lastMsgId + 1)) = .ok m)
    (goes : g.Goes)
    (chain : Chain c.world (· = .first)
      ⟨begunState c.world c.state friendNumber m, none, some (c.state.fresh, bytes)⟩
      ⟨s₁, none, some (c.state.fresh, bytes)⟩) :
    Typed (Carries (c.add next g row)) (Known c) s₁ := by
  have zero : m.type = 0 := type_of_split split
  obtain ⟨heap, base⟩ := told.before next g row
  have begun : Typed (Carries (c.add next g row)) (Known c) (begunState c.world c.state friendNumber m) := by
    refine ⟨fun a m' here => ?_, base, told.typed.rows⟩
    obtain ⟨rfl, same⟩ | ⟨_, here⟩ := heap_update_iff.mp here
    · cases same
      exact carries_new goes (.inl zero)
    · exact heap a m' here
  exact begun.chain chain (by rintro _ rfl; nofun)

theorem original_of_split {bytes : List UInt8}
    (split : splitMessage s.markerMaxSizeEver bytes w.params.maxMessageLength
      (max (w.clock s.ticks) (s.lastMsgId + 1)) = .ok m) : original w s bytes = some m := by
  change (splitMessage s.markerMaxSizeEver bytes w.params.maxMessageLength
    (max (w.clock s.ticks) (s.lastMsgId + 1))).toOption = _
  rw [split]
  rfl

theorem Told.long (told : Told c) {friendNumber : Nat} {bytes : List UInt8} {beyond : Memory}
    (long : c.world.params.maxMessageLength < bytes.length)
    (sends : LongSend c.world friendNumber type bytes c.state s') :
    Told (enter c s' (.send friendNumber type bytes beyond)) := by
  have chain := sends.chain long
  have issued := chain.invariant (I := fun v => Issued c.world v.s) (fun _ move before => before.move move)
    told.issued
  have grows := base_grows chain
  cases sends with
  | @opened s₁ m m₁ receipt db split went window found taken _ _ inserted same =>
    obtain ⟨fresh, store, m₁', found', friend, id⟩ := window_kept window
    cases found.symm.trans found'
    have goes : (⟨type, c.world.params.fragmentsAtATime, m.numParts⟩ : Given).Goes := by
      refine not_or.mp fun none => ?_
      have closed := congrArg View.s (window_closed none window)
      have closed : s₁ = begunState c.world c.state friendNumber m := closed
      have here : s₁.heap c.state.fresh = some { m with friendNumber } := by
        rw [closed]
        exact Function.update_self ..
      cases found.symm.trans here
      have unsent := (unsent_of_split split).numTransit
      have taken : 0 < m.numTransit := taken
      omega
    have key : outboundKey m₁.friendNumber m₁.id =
        outboundKey friendNumber (generateMsgId c.world c.state).1 := by
      rw [friend, id, (unsent_of_split split).id_eq]
      rfl
    have entered : enter c s' (.send friendNumber type bytes beyond) =
        c.add s' ⟨type, c.world.params.fragmentsAtATime, m.numParts⟩
          (some (outboundKey m₁.friendNumber m₁.id)) := by
      have bigger : c.state.fresh < s'.fresh := by
        rw [same]
        change c.state.fresh < s₁.fresh
        omega
      have kept : (s'.heap c.state.fresh).isSome = true := by
        rw [same]
        simp [openedState]
      rw [enter, if_pos bigger, if_pos kept, original_of_split split, key]
      rfl
    rw [entered]
    have typed := told.window s' (some (outboundKey m₁.friendNumber m₁.id)) split goes window
    refine told.add issued grows ⟨fun a m' here => ?_, ?_, fun own outbound held => ?_⟩ fun _ => ?_
    · rw [same] at here
      obtain ⟨rfl, mine⟩ | ⟨_, here⟩ := heap_update_iff.mp here
      · cases mine
        exact carries_new goes (.inr rfl)
      · exact typed.heap a m' here
    · rw [same]
      exact typed.base
    · refine known_add (fun _ => goes) ?_
      by_cases mine : own = outboundKey m₁.friendNumber m₁.id
      · exact .inr (congrArg some mine).symm
      · have agree := (rows_inserted inserted).2 own mine
        rw [same] at held
        change (rows db own).dataRow ≠ none at held
        rw [agree] at held
        exact .inl (typed.rows own outbound held)
    · have made := first_call (type_of_split split) (unsent_of_split split).numTransit goes.1 goes.2 went
      rw [same]
      exact made
  | @dropped s₁ m m₁ split went window found none same =>
    obtain ⟨fresh, store, _⟩ := window_kept window
    have entered : enter c s' (.send friendNumber type bytes beyond) =
        c.add s' ⟨type, c.world.params.fragmentsAtATime, m.numParts⟩ Option.none := by
      have bigger : c.state.fresh < s'.fresh := by
        rw [same]
        change c.state.fresh < s₁.fresh
        omega
      have gone : ¬ (s'.heap c.state.fresh).isSome = true := by
        rw [same]
        simp [msgOutboundDelete]
      rw [enter, if_pos bigger, if_neg gone, original_of_split split]
      rfl
    rw [entered]
    have others : ∀ {a m'}, s'.heap a = some m' → s₁.heap a = some m' ∧ a ≠ c.state.fresh := by
      intro a m' here
      rw [same] at here
      obtain ⟨_, none⟩ | ⟨other, here⟩ := heap_update_iff.mp here
      · cases none
      · exact ⟨here, other⟩
    have rows : ∀ own : Key, own.outbound = true → (rows s'.db own).dataRow ≠ Option.none →
        Known (c.add s' ⟨type, c.world.params.fragmentsAtATime, m.numParts⟩ Option.none) own := by
      intro own outbound held
      rw [same] at held
      change (InboundStore.rows s₁.db own).dataRow ≠ _ at held
      rw [store] at held
      exact known_add (fun absent => absurd rfl absent) (.inl (told.typed.rows own outbound held))
    by_cases goes : (⟨type, c.world.params.fragmentsAtATime, m.numParts⟩ : Given).Goes
    · have typed := told.window s' Option.none split goes window
      refine told.add issued grows ⟨fun a m' here => typed.heap a m' (others here).1, ?_, rows⟩ fun _ => ?_
      · rw [same]
        exact typed.base
      · have made := first_call (type_of_split split) (unsent_of_split split).numTransit goes.1 goes.2 went
        rw [same]
        exact made
    · have closed : s₁ = begunState c.world c.state friendNumber m := by
        refine congrArg View.s (window_closed ?_ window)
        by_contra some
        exact goes (not_or.mp some)
      obtain ⟨heap, base⟩ := told.before s' ⟨type, c.world.params.fragmentsAtATime, m.numParts⟩
        Option.none
      refine told.add issued grows ⟨fun a m' here => ?_, ?_, rows⟩ fun gone => absurd gone goes
      · obtain ⟨here, other⟩ := others here
        rw [closed] at here
        obtain ⟨same, _⟩ | ⟨_, here⟩ := heap_update_iff.mp here
        · exact absurd same other
        · exact heap a m' here
      · rw [same, closed]
        exact base

/-- A restored message has the type of a new record, and its row is on record. -/
theorem Told.restart (told : Told c) (started : initializeBoth w { db := reopened c.state.db } = .ok s') :
    Told (succeed c w s') := by
  have loading := loading_started started
  have adopted := adopted_of_started started
  refine ⟨loading.issued, ⟨fun a m found => ?_, fun call member => ?_, fun key outbound held => ?_⟩,
    fun n type => told.calls, fun n g known goes => ?_⟩
  · obtain ⟨p, selected, at_a, kept⟩ := loading.row found
    obtain ⟨built, split, resumes⟩ := resumes_of_loaded kept
    obtain ⟨row, data, here, _⟩ := mem_pending.mp selected
    have held : (rows c.state.db (keyOf p)).dataRow ≠ none := by
      have here : rows c.state.db (keyOf p) = ⟨some row, some data⟩ := here
      rw [here]
      exact Option.some_ne_none data
    obtain ⟨n, stored, fits⟩ := told.typed.rows (keyOf p) rfl held
    refine ⟨n, ?_, ?_⟩
    · change ((keptRows w (stmtSelectFragmentedOutboundPending (reopened c.state.db)))[a]?.bind
        fun p => c.stored (keyOf p)) = _
      rw [at_a]
      exact stored
    · rw [resumes.type, type_of_split split]
      exact fits
  · have member : call ∈ s'.base := member
    rw [loading.base] at member
    cases member
  · by_cases loose : ∃ p ∈ stmtSelectFragmentedOutboundPending (reopened c.state.db),
        loaded w p = none ∧ keyOf p = key
    · obtain ⟨p, member, discarded, rfl⟩ := loose
      exact absurd (adopted.dropped p member discarded) held
    · have same := adopted.kept key fun p member discarded mine => loose ⟨p, member, discarded, mine⟩
      have held : (rows s'.db key).dataRow ≠ none := held
      rw [same] at held
      exact told.typed.rows key outbound held
  · exact mem_calls.mpr (.inl (told.begun n g known goes))

theorem Told.act {a : Act} (told : Told c) (proper : ProperAct a) (ran : act a c = .ok c') : Told c' := by
  cases a with
  | restart world =>
    obtain ⟨s', started, same⟩ := bind_ok.mp ran
    cases same
    exact told.restart started
  | op op =>
    obtain ⟨s', stepped, same⟩ := bind_ok.mp ran
    cases same
    cases op with
    | receipt friendNumber messageId =>
      have op : Proper (.receipt friendNumber messageId) := proper
      exact told.later op (fun _ _ _ _ => Op.noConfusion) stepped
    | periodic =>
      have op : Proper .periodic := proper
      exact told.later op (fun _ _ _ _ => Op.noConfusion) stepped
    | send friendNumber type bytes beyond =>
      rcases send_cases stepped with rfl | ⟨call, none, rfl⟩ | ⟨long, sends⟩
      · rw [enter, if_neg (Nat.lt_irrefl _)]
        exact told
      · rw [enter, if_neg (Nat.lt_irrefl _)]
        have short : Move c.world .outside ⟨c.state, Option.none, Option.none⟩ _ := .short none
        have grows : c.state.base <+: c.state.base ++ [call] := List.prefix_append ..
        refine ⟨told.issued.move short, told.typed.move short nofun, told.earlier, fun n g known goes => ?_⟩
        exact calls_grow told.issued rfl grows (fun _ _ => rfl) (told.begun n g known goes)
      · exact told.long long sends

theorem told_founded (founded : Founded c) : Told c := by
  obtain ⟨world, state, started, rfl⟩ := founded
  obtain rfl := started_iff.mp started
  refine ⟨.initial, ⟨fun a m found => ?_, fun call member => ?_, fun key _ held => absurd rfl held⟩,
    fun n type member => ?_, fun n g known => ?_⟩
  · cases found
  · cases member
  · cases member
  · cases known

/-! ## The other side -/

theorem receive_type {limit : BlobLimit} {f : InboundFragment} {r r' : Rows} {ready : MsgReady}
    (received : receive limit f r = .ok (r', some ready)) : ready.type = f.type := by
  rcases receive_cases received with ⟨_, _, _, none⟩ | ⟨m, d, _, deposited⟩
  · cases none
  · rcases deposit_cases deposited with ⟨_, _, _, _, none⟩ | ⟨_, _, ⟨_, _, same⟩ | ⟨_, _, none⟩⟩
    · cases none
    · cases same
      rfl
    · cases none

/-- What the receiver hands over has the type of the message that came in last. -/
theorem friendMessageCb_type {limit : BlobLimit} {db db' : Db} {m : Incoming} {tm : Nat}
    {handed : Handed} (ran : friendMessageCb limit db m tm = .ok (db', some handed)) :
    handed.type = m.type := by
  cases parsed : markerParse m.memory m.message.length with
  | none =>
    rw [friendMessageCb_other parsed] at ran
    cases ran
    rfl
  | some fields =>
    rw [friendMessageCb_fragment parsed] at ran
    obtain ⟨⟨db₁, ready⟩, inserted, ran⟩ := bind_ok.mp ran
    cases ready with
    | none => cases ran
    | some ready =>
      cases ran
      exact receive_type (receive_of_insert inserted).1

/-! ## Runs -/

/-- However often the process is restarted: every call for a fragment is one for
a message on record; they all pass the type the client gave with it exactly if
that is zero, or no first window was opened; and the receiver's client gets the
type of the fragment that came last. -/
theorem type_given_iff {acts : List Act} (run : Run act (fun _ a => ProperAct a) Founded acts c) :
    (∀ call ∈ c.state.base, ∀ a partNo, call.part = some (a, partNo) →
      ∃ n g, c.number a = some n ∧ c.given[n]? = some g) ∧
    (∀ n g, c.given[n]? = some g →
      ((∀ type, (n, type) ∈ c.calls → type = g.type) ↔ g.type = 0 ∨ g.window = 0 ∨ g.parts = 0)) ∧
    ∀ limit db m tm db' handed, friendMessageCb limit db m tm = .ok (db', some handed) →
      handed.type = m.type := by
  have told : Told c := run.invariant (I := Told) (fun _ => told_founded)
    fun _ _ _ before proper ran => before.act proper ran
  refine ⟨fun call member a partNo mine => ?_, fun n g known => ⟨fun same => ?_, fun silent type member => ?_⟩,
    fun _ _ _ _ _ _ => friendMessageCb_type⟩
  · obtain ⟨n, number, g, known, _⟩ := told.typed.base call member a partNo mine
    exact ⟨n, g, number, known⟩
  · by_cases goes : g.Goes
    · exact .inl (same 0 (told.begun n g known goes)).symm
    · refine .inr ?_
      by_contra some
      exact goes (not_or.mp some)
  · obtain ⟨g', known', goes, right⟩ := told.calls member
    cases known.symm.trans known'
    rcases silent with zero | none
    · exact right.elim (fun same => same.trans zero.symm) id
    · exact absurd none (not_or.mpr goes)

/-- One fragment at a time, and all are taken. -/
def oneByOne (answers : List Nat) : World := scripted { maxMessageLength := 64, fragmentsAtATime := 1 } answers []

def founded (w : World) : Succession := { world := w, state := initialState w }

theorem founded_founded (w : World) : Founded (founded w) := ⟨w, _, started_initialState w, rfl⟩

/-- A message of type zero, of which the second part goes out after a restart. -/
theorem type_given_of_zero : ∃ c, Run act (fun _ a => ProperAct a) Founded
      [.op .periodic, .restart (oneByOne [6]), .op (.send 1 0 (List.replicate 65 1) fun _ => 0)] c ∧
    c.given = [⟨0, 1, 2⟩] ∧ c.calls = [(0, 0), (0, 0)] ∧ ∀ type, (0, type) ∈ c.calls → type = 0 := by
  obtain ⟨c, run, checked⟩ := exists_run act (fun _ a => ProperAct a)
    [.op (.send 1 0 (List.replicate 65 1) fun _ => 0), .restart (oneByOne [6]), .op .periodic]
    (fun c => c.given = [⟨0, 1, 2⟩] ∧ c.calls = [(0, 0), (0, 0)]) (founded_founded (oneByOne [5]))
    (by decide +kernel)
  obtain ⟨given, calls⟩ := of_decide_eq_true checked
  have first : c.given[0]? = some ⟨0, 1, 2⟩ := by rw [given]; rfl
  exact ⟨c, run, given, calls, ((type_given_iff run).2.1 0 _ first).mpr (.inl rfl)⟩

/-- A message of type one: its first fragment goes out with zero, the second,
once the first is confirmed, with one. -/
theorem first_window_untyped : ∃ c, Run act (fun _ a => ProperAct a) Founded
      [.op (.receipt 1 5), .op (.send 1 1 (List.replicate 65 1) fun _ => 0)] c ∧
    c.given = [⟨1, 1, 2⟩] ∧ c.calls = [(0, 0), (0, 1)] ∧ ¬ ∀ type, (0, type) ∈ c.calls → type = 1 := by
  obtain ⟨c, run, checked⟩ := exists_run act (fun _ a => ProperAct a)
    [.op (.send 1 1 (List.replicate 65 1) fun _ => 0), .op (.receipt 1 5)]
    (fun c => c.given = [⟨1, 1, 2⟩] ∧ c.calls = [(0, 0), (0, 1)]) (founded_founded (oneByOne [5, 6]))
    (by decide +kernel)
  obtain ⟨given, calls⟩ := of_decide_eq_true checked
  refine ⟨c, run, given, calls, fun same => ?_⟩
  have zero := same 0 (by rw [calls]; simp)
  cases zero

end Defragmenter.FragmentType
