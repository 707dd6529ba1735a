import Defragmenter.Delivery
import Defragmenter.Duplex
import Defragmenter.Refinement

/-! Any number of processes that send to each other, and are sent to by
strangers. Each has one store and one client, which may answer from inside the
callback that hands it a message. Seen from any two of them, in either
direction, the network does what a sender and a receiver do that have nothing
else to do. -/
namespace Defragmenter.Network
open Decimal Marker Database InboundStore OutboundStore Split Receipts Sender Moves Receiver InboundHistory Isolation
open Reentry (ClientSend clientSend)
open Runs Provenance Tracking Accounting ClientView Completion Confirmations TwoPeers Delivery Conversations Halves
open Duplex Mailbox Refinement Unwinding

/-! ## Peers that do the same -/

/-- The peers are the same to each other, whatever else is in their stores. -/
structure Agrees (n : Link) (c d : Peers) : Prop where
  sender : Alike c.state d.state
  stored : ∀ id, rows d.db ⟨false, n.sender, id⟩ = rows c.db ⟨false, n.sender, id⟩
  landings : d.landings = c.landings

variable {n : Link} {c c' d d' : Peers} {a : Act} {acts : List Act} {w : World} {s s' t : State} {db db' db₁ : Db}
  {k : Call} {handed : Option Handed} {answers : List ClientSend}

theorem Agrees.refl (c : Peers) : Agrees n c c := ⟨.refl _, fun _ => rfl, rfl⟩

theorem Agrees.symm (agrees : Agrees n c d) : Agrees n d c where
  sender := agrees.sender.symm
  stored id := (agrees.stored id).symm
  landings := agrees.landings.symm

theorem Agrees.trans {e : Peers} (agrees : Agrees n c d) (agrees' : Agrees n d e) : Agrees n c e where
  sender := agrees.sender.trans agrees'.sender
  stored id := (agrees'.stored id).trans (agrees.stored id)
  landings := agrees'.landings.trans agrees.landings

theorem sendable_alike (w : World) (op : Op) (alike : Alike s t) (sendable : Sendable w s op) : Sendable w t op := by
  rw [alike.process]
  cases op with
  | send => exact sendable
  | receipt | periodic => trivial

theorem leading_alike (w : World) (op : Op) (alike : Alike s t) (leading : Leading w s op) : Leading w t op := by
  rw [alike.process]
  cases op with
  | send => trivial
  | receipt => exact leading
  | periodic => exact leading

/-- A message from a friend changes rows of this friend only. -/
theorem receiveCall_others {limit : BlobLimit} {friendNumber : Nat} (ran : receiveCall limit k db = .ok (db', handed))
    (other : k.incoming.friendNumber ≠ friendNumber) (id : Nat) :
    rows db' ⟨false, friendNumber, id⟩ = rows db ⟨false, friendNumber, id⟩ := by
  refine (confined limit).others (some ⟨false, friendNumber, id⟩) ran fun same => other ?_
  obtain ⟨fields, _, same⟩ := Option.map_eq_some_iff.mp same.symm
  exact congrArg Key.friendId same

/-- A message from a friend does the same over stores that hold the same of him. -/
theorem receiveCall_friend {limit : BlobLimit} {friendNumber : Nat} (ran : receiveCall limit k db = .ok (db', handed))
    (friend : k.incoming.friendNumber = friendNumber)
    (same : ∀ id, rows db₁ ⟨false, friendNumber, id⟩ = rows db ⟨false, friendNumber, id⟩) :
    ∃ db₁', receiveCall limit k db₁ = .ok (db₁', handed) ∧
      ∀ id, rows db₁' ⟨false, friendNumber, id⟩ = rows db' ⟨false, friendNumber, id⟩ := by
  have here : rowsOf (conversation k) db₁ = rowsOf (conversation k) db := by
    rw [conversation]
    cases markerParse k.incoming.memory k.incoming.message.length with
    | none => rfl
    | some fields =>
      have same := same fields.id
      rw [← friend] at same
      exact same
  obtain ⟨db₁', ran₁, after⟩ := (confined limit).own ran here
  refine ⟨db₁', ran₁, fun id => ?_⟩
  by_cases own : some ⟨false, friendNumber, id⟩ = conversation k
  · rw [← own] at after
    exact after
  · have kept := (confined limit).others _ ran own
    have kept₁ := (confined limit).others _ ran₁ own
    change rows db' ⟨false, friendNumber, id⟩ = rows db ⟨false, friendNumber, id⟩ at kept
    change rows db₁' ⟨false, friendNumber, id⟩ = rows db₁ ⟨false, friendNumber, id⟩ at kept₁
    rw [kept, kept₁, same id]

/-- What happens on one side happens on the other. -/
theorem Agrees.act (agrees : Agrees n c d) (ran : act n a c = .ok c') :
    ∃ d', TwoPeers.act n a d = .ok d' ∧ Agrees n c' d' := by
  have base := agrees.sender.base
  have own : ∀ op, senderStep n op c = .ok c' → ∃ d', senderStep n op d = .ok d' ∧ Agrees n c' d' := by
    intro op ran
    obtain ⟨s', stepped, same⟩ := bind_ok.mp ran
    cases same
    obtain ⟨_, t', stepped', alike⟩ := step_outgoing op agrees.sender stepped
    exact ⟨{ d with state := t' }, bind_ok.mpr ⟨t', stepped', rfl⟩, alike, agrees.stored, agrees.landings⟩
  cases a with
  | send => exact own _ ran
  | periodic => exact own _ ran
  | receipt i =>
    simp only [TwoPeers.act] at ran ⊢
    rw [base]
    cases at_i : c.state.base[i]? with
    | none =>
      rw [at_i] at ran
      cases ran
      exact ⟨d, rfl, agrees⟩
    | some call =>
      rw [at_i] at ran
      exact own _ ran
  | deliver i beyond tm =>
    simp only [TwoPeers.act] at ran ⊢
    rw [base]
    cases at_i : c.state.base[i]? with
    | none =>
      rw [at_i] at ran
      cases ran
      exact ⟨d, rfl, agrees⟩
    | some call =>
      rw [at_i] at ran
      cases data : call.data with
      | none =>
        simp only [data] at ran ⊢
        cases ran
        exact ⟨d, rfl, agrees⟩
      | some message =>
        simp only [data] at ran ⊢
        obtain ⟨⟨db, handed⟩, received, same⟩ := bind_ok.mp ran
        cases same
        have received : receiveCall n.limit ⟨incoming n call message beyond, tm⟩ c.db = .ok (db, handed) := received
        obtain ⟨db₁, received₁, stored⟩ := receiveCall_friend received rfl agrees.stored
        have landings : (⟨i, call.part, handed⟩ : Landing) :: d.landings = ⟨i, call.part, handed⟩ :: c.landings := by
          rw [agrees.landings]
        exact ⟨_, bind_ok.mpr ⟨(db₁, handed), received₁, rfl⟩, agrees.sender, stored, landings⟩

theorem Agrees.possible (agrees : Agrees n c d) (possible : Possible n c a) : Possible n d a := by
  cases a with
  | send | periodic => trivial
  | receipt i =>
    obtain ⟨taken, call, at_i, came⟩ := possible
    refine ⟨taken, call, ?_, fun friend => ?_⟩
    · rw [agrees.sender.base]
      exact at_i
    · rw [agrees.landings]
      exact came friend
  | deliver i beyond tm =>
    obtain ⟨taken, call, at_i, friend⟩ := possible
    refine ⟨taken, call, ?_, friend⟩
    rw [agrees.sender.base]
    exact at_i

theorem Agrees.toldApart {call : BaseCall} {message : List UInt8} {beyond : Memory} (agrees : Agrees n c d)
    (apart : ToldApart c call (incoming n call message beyond)) :
    ToldApart d call (incoming n call message beyond) := by
  refine ⟨apart.1, fun fragment came fields parsed => ?_⟩
  rw [agrees.landings] at came
  have stored : rows d.db ⟨false, n.sender, fields.id⟩ = rows c.db ⟨false, n.sender, fields.id⟩ :=
    agrees.stored fields.id
  change ∀ r ∈ (rows d.db ⟨false, n.sender, fields.id⟩).dataRow, _
  rw [stored]
  exact apart.2 fragment came fields parsed

theorem Agrees.careful (agrees : Agrees n c d) (careful : Careful n c a) : Careful n d a := by
  cases a with
  | send friendNumber type message beyond =>
    exact sendable_alike n.world (.send friendNumber type message beyond) agrees.sender careful
  | periodic | receipt => trivial
  | deliver i beyond tm =>
    intro call at_i message data
    rw [agrees.sender.base] at at_i
    exact agrees.toldApart (careful call at_i message data)

theorem Agrees.safeguarded (agrees : Agrees n c d) (safeguarded : Safeguarded n c a) : Safeguarded n d a := by
  cases a with
  | send friendNumber type message beyond =>
    exact sendable_alike n.world (.send friendNumber type message beyond) agrees.sender safeguarded
  | periodic => exact leading_alike n.world .periodic agrees.sender safeguarded
  | receipt i =>
    intro call at_i
    rw [agrees.sender.base] at at_i
    exact leading_alike n.world _ agrees.sender (safeguarded call at_i)
  | deliver i beyond tm =>
    intro call at_i message data
    rw [agrees.sender.base] at at_i
    exact agrees.toldApart (safeguarded call at_i message data)

/-- What the peers do can be done, and the cursors lead if they do in the network. -/
def Allowed (leads : Prop) (n : Link) (c : Peers) (a : Act) : Prop :=
  Possible n c a ∧ Careful n c a ∧ (leads → Safeguarded n c a)

/-- A run on one side is one on the other. -/
theorem Agrees.run {leads : Prop} (agrees : Agrees n c d) (run : Run (TwoPeers.act n) (Allowed leads n) (· = c) acts c') :
    ∃ d', Run (TwoPeers.act n) (Allowed leads n) (· = d) acts d' ∧ Agrees n c' d' := by
  induction run with
  | nil same => exact ⟨d, .nil rfl, same ▸ agrees⟩
  | cons _ allowed ran ih =>
    obtain ⟨d₁, run₁, agrees₁⟩ := ih
    obtain ⟨possible, careful, safeguarded⟩ := allowed
    obtain ⟨d', ran', agrees'⟩ := agrees₁.act ran
    exact ⟨d', .cons run₁ ⟨agrees₁.possible possible, agrees₁.careful careful,
      fun leads => agrees₁.safeguarded (safeguarded leads)⟩ ran', agrees'⟩

/-! ## The network -/

/-- The processes of a network, and how each knows the others among its friends. -/
structure Topology (ι : Type) where
  world : ι → World
  friend : ι → ι → Nat
  distinct : ∀ x, Function.Injective (friend x)

/-- One process, and what has reached it from each of the others, last first. -/
structure Member (ι : Type) where
  state : State
  landings : ι → List Landing

inductive Deed (ι : Type) where
  | send (friendNumber : Nat) (type : Int) (message : List UInt8) (beyond : Memory)
  | periodic
  /-- The receipt of a call of the base library. -/
  | receipt (call : Nat)
  /-- What another process sent in a call arrives, with the answers of the
  client, should it be handed a message. -/
  | deliver (sender : ι) (call : Nat) (beyond : Memory) (tm : Nat) (answers : List ClientSend)
  /-- Something arrives from a friend that is no process of the network. -/
  | stranger (k : Call) (answers : List ClientSend)

variable {ι : Type} [DecidableEq ι] (net : Topology ι)

/-- The second process as the receiver of what the first one sends. -/
def link (x y : ι) : Link := ⟨net.world x, net.friend x y, net.friend y x, (net.world y).limit⟩

/-- The two as if they were alone. -/
def view (x y : ι) (ms : ι → Member ι) : Peers := ⟨(ms x).state, (ms y).state.db, (ms y).landings x⟩

def ownStep (x : ι) (op : Op) (ms : ι → Member ι) : Except Fault (Member ι) := do
  let state ← step (net.world x) op (ms x).state
  pure { ms x with state }

/-- Of a call that was not made, or that passed no bytes, nothing comes. -/
def deed (x : ι) (ms : ι → Member ι) : Deed ι → Except Fault (Member ι)
  | .send friendNumber type message beyond => ownStep net x (.send friendNumber type message beyond) ms
  | .periodic => ownStep net x .periodic ms
  | .receipt i =>
    match (ms x).state.base[i]? with
    | none => .ok (ms x)
    | some call => ownStep net x (.receipt call.friendNumber ((net.world x).answer i)) ms
  | .deliver y i beyond tm answers =>
    match (ms y).state.base[i]? with
    | none => .ok (ms x)
    | some call =>
      match call.data with
      | none => .ok (ms x)
      | some message => do
        let (state, handed) ← receiveAnswering (net.world x)
          ⟨incoming (link net y x) call message beyond, tm⟩ answers (ms x).state
        pure ⟨state, Function.update (ms x).landings y (⟨i, call.part, handed⟩ :: (ms x).landings y)⟩
  | .stranger k answers => do
    let (state, _) ← receiveAnswering (net.world x) k answers (ms x).state
    pure { ms x with state }

def networkStep (input : ι × Deed ι) (ms : ι → Member ι) : Except Fault (ι → Member ι) :=
  (deed net input.1 ms input.2).map (Function.update ms input.1)

/-- Every process starts over an empty store. -/
def Founded (ms : ι → Member ι) : Prop := ∀ x, ms x = ⟨initialState (net.world x), fun _ => []⟩

/-- Between each two only what can happen does, and strangers are strangers. -/
def Attainable (x : ι) (ms : ι → Member ι) : Deed ι → Prop
  | .receipt i => ∀ y, Possible (link net x y) (view x y ms) (.receipt i)
  | .deliver y i beyond tm _ => Possible (link net y x) (view y x ms) (.deliver i beyond tm)
  | .stranger k _ => ∀ y, k.incoming.friendNumber ≠ net.friend x y
  | _ => True

/-- Each of the answers can be sent, one after another. -/
def Answerable (w : World) : List ClientSend → State → Prop
  | [], _ => True
  | k :: rest, s => Sendable w s (opOf k) ∧ ∀ s' ∈ (clientSend w s k).toOption, Answerable w rest s'

/-- Long messages and answers can be sent, and what comes in is told apart. -/
def Heedful (x : ι) (ms : ι → Member ι) : Deed ι → Prop
  | .send friendNumber type message beyond =>
      Sendable (net.world x) (ms x).state (.send friendNumber type message beyond)
  | .deliver y i beyond tm answers =>
      Careful (link net y x) (view y x ms) (.deliver i beyond tm) ∧ Answerable (net.world x) answers (ms x).state
  | .stranger _ answers => Answerable (net.world x) answers (ms x).state
  | _ => True

/-- The cursors lead where they are used. -/
def Leads (x : ι) (ms : ι → Member ι) : Deed ι → Prop
  | .periodic => Leading (net.world x) (ms x).state .periodic
  | .receipt i => ∀ call ∈ (ms x).state.base[i]?,
      Leading (net.world x) (ms x).state (.receipt call.friendNumber ((net.world x).answer i))
  | _ => True

instance decidableAnswerable (w : World) : ∀ answers s, Decidable (Answerable w answers s)
  | [], _ => .isTrue trivial
  | k :: rest, s =>
    letI := decidableAnswerable w rest
    inferInstanceAs (Decidable (Sendable w s (opOf k) ∧ ∀ s' ∈ (clientSend w s k).toOption, Answerable w rest s'))

instance [Fintype ι] {ms : ι → Member ι} : DecidablePred (Attainable net x ms) := fun d =>
  match d with
  | .send .. => .isTrue trivial
  | .periodic => .isTrue trivial
  | .receipt i => inferInstanceAs (Decidable (∀ y, Possible (link net x y) (view x y ms) (.receipt i)))
  | .deliver y i beyond tm _ =>
    inferInstanceAs (Decidable (Possible (link net y x) (view y x ms) (.deliver i beyond tm)))
  | .stranger k _ => inferInstanceAs (Decidable (∀ y, k.incoming.friendNumber ≠ net.friend x y))

instance {ms : ι → Member ι} : DecidablePred (Heedful net x ms) := fun d =>
  match d with
  | .send friendNumber type message beyond =>
    inferInstanceAs (Decidable (Sendable (net.world x) (ms x).state (.send friendNumber type message beyond)))
  | .periodic => .isTrue trivial
  | .receipt _ => .isTrue trivial
  | .deliver y i beyond tm answers => inferInstanceAs (Decidable
      (Careful (link net y x) (view y x ms) (.deliver i beyond tm) ∧ Answerable (net.world x) answers (ms x).state))
  | .stranger _ answers => inferInstanceAs (Decidable (Answerable (net.world x) answers (ms x).state))

instance {ms : ι → Member ι} : DecidablePred (Leads net x ms) := fun d =>
  match d with
  | .send .. => .isTrue trivial
  | .periodic => inferInstanceAs (Decidable (Leading (net.world x) (ms x).state .periodic))
  | .receipt i => inferInstanceAs (Decidable (∀ call ∈ (ms x).state.base[i]?,
      Leading (net.world x) (ms x).state (.receipt call.friendNumber ((net.world x).answer i))))
  | .deliver .. => .isTrue trivial
  | .stranger .. => .isTrue trivial

variable {net} {x y z : ι} {ms ms' : ι → Member ι} {m' : Member ι} {leads : Prop}

/-! ## What a deed is between two -/

/-- The answers are sends of the one who gives them. -/
theorem answers_sent (answerable : Answerable n.world answers c.state)
    (went : answers.foldlM (clientSend n.world) c.state = .ok s') :
    ∃ acts, Run (TwoPeers.act n) (Allowed leads n) (· = c) acts { c with state := s' } := by
  induction answers generalizing c with
  | nil =>
    cases went
    exact ⟨[], .nil rfl⟩
  | cons k rest ih =>
    rw [List.foldlM_cons] at went
    obtain ⟨s₁, sent, went⟩ := bind_ok.mp went
    obtain ⟨sendable, later⟩ := answerable
    have first : Run (TwoPeers.act n) (Allowed leads n) (· = c)
        [.send k.friendNumber k.type k.message k.beyond] { c with state := s₁ } :=
      .cons (.nil rfl) ⟨trivial, sendable, fun _ => sendable⟩ (bind_ok.mpr ⟨s₁, sent, rfl⟩)
    obtain ⟨acts, run⟩ := @ih { c with state := s₁ } (later s₁ (mem_toOption.mpr sent)) went
    exact ⟨_, first.append run⟩

/-- What a process does on receiving: it takes the message in, and its answers follow. -/
theorem answering_splits (ran : receiveAnswering w k answers s = .ok (s', handed)) :
    ∃ db₁ t', receiveCall w.limit k s.db = .ok (db₁, handed) ∧
      (if handed.isSome then answers else []).foldlM (clientSend w) s = .ok t' ∧ Alike t' s' ∧
      SameIncoming db₁ s'.db := by
  obtain ⟨db₁, received, t₁, went, alike, same⟩ := answered_after ran
  obtain ⟨kept, t', went', alike'⟩ := answers_outgoing (alike_received received).symm went
  refine ⟨db₁, t', received, went', alike'.symm.trans alike, fun key inbound => ?_⟩
  exact (same key inbound).trans (kept key inbound)

/-- The two go from what they are in one state of the network to what they are in another. -/
def Follows (net : Topology ι) (leads : Prop) (x y : ι) (ms ms' : ι → Member ι) : Prop :=
  ∃ acts c', Run (TwoPeers.act (link net x y)) (Allowed leads (link net x y)) (· = view x y ms) acts c' ∧
    Agrees (link net x y) c' (view x y ms')

/-- A call of the sending half, which is the two's if the sender makes it. -/
theorem follows_own {op : Op} (a : Act) (ran : ownStep net z op ms = .ok m')
    (does : x = z → TwoPeers.act (link net x y) a (view x y ms) = senderStep (link net x y) op (view x y ms))
    (allowed : x = z → Allowed leads (link net x y) (view x y ms) a) :
    Follows net leads x y ms (Function.update ms z m') := by
  obtain ⟨s', stepped, same⟩ := bind_ok.mp ran
  cases same
  have kept := (step_outgoing op (.refl _) stepped).1
  have stored : ∀ id, rows (Function.update ms z { ms z with state := s' } y).state.db ⟨false, net.friend y x, id⟩ =
      rows (ms y).state.db ⟨false, net.friend y x, id⟩ := by
    intro id
    by_cases own : y = z
    · subst own
      rw [Function.update_self]
      exact kept _ rfl
    · rw [Function.update_of_ne own]
  have landings : (Function.update ms z { ms z with state := s' } y).landings x = (ms y).landings x := by
    by_cases own : y = z
    · subst own
      rw [Function.update_self]
    · rw [Function.update_of_ne own]
  by_cases own : x = z
  · subst own
    have went : TwoPeers.act (link net x y) a (view x y ms) = .ok { view x y ms with state := s' } := by
      rw [does rfl]
      exact bind_ok.mpr ⟨s', stepped, rfl⟩
    refine ⟨[a], _, .cons (.nil rfl) (allowed rfl) went, ?_, stored, landings⟩
    change Alike s' (Function.update ms x _ x).state
    rw [Function.update_self]
    exact .refl s'
  · refine ⟨[], _, .nil rfl, ?_, stored, landings⟩
    change Alike (ms x).state (Function.update ms z _ x).state
    rw [Function.update_of_ne own]
    exact .refl _

/-- The answers to what came in are the two's if the sender gives them. -/
theorem follows_answers {landings : ι → List Landing}
    (ran : receiveAnswering (net.world z) k answers (ms z).state = .ok (s', handed))
    (answerable : Answerable (net.world z) answers (ms z).state)
    (run : Run (TwoPeers.act (link net x y)) (Allowed leads (link net x y)) (· = view x y ms) acts c)
    (sender : c.state = (ms x).state)
    (stored : ∀ id, rows (Function.update ms z ⟨s', landings⟩ y).state.db ⟨false, net.friend y x, id⟩ =
      rows c.db ⟨false, net.friend y x, id⟩)
    (landed : (Function.update ms z ⟨s', landings⟩ y).landings x = c.landings) :
    Follows net leads x y ms (Function.update ms z ⟨s', landings⟩) := by
  by_cases own : x = z
  · subst own
    obtain ⟨_, t', _, went, alike, _⟩ := answering_splits ran
    have answerable : Answerable (link net x y).world (if handed.isSome then answers else []) c.state := by
      rw [sender]
      cases handed with
      | none => trivial
      | some h => exact answerable
    obtain ⟨sends, sent⟩ := @answers_sent (link net x y) c t' _ leads answerable (by rw [sender]; exact went)
    refine ⟨_, _, run.append sent, ?_, stored, landed⟩
    change Alike t' (Function.update ms x _ x).state
    rw [Function.update_self]
    exact alike
  · refine ⟨acts, c, run, ?_, stored, landed⟩
    change Alike c.state (Function.update ms z _ x).state
    rw [Function.update_of_ne own, sender]
    exact .refl _

/-- What a stranger sends is nothing between the two, but for the answers. -/
theorem follows_stranger (ran : receiveAnswering (net.world z) k answers (ms z).state = .ok (s', handed))
    (answerable : Answerable (net.world z) answers (ms z).state)
    (strange : ∀ y, k.incoming.friendNumber ≠ net.friend z y) :
    Follows net leads x y ms (Function.update ms z ⟨s', (ms z).landings⟩) := by
  obtain ⟨db₁, _, received, _, _, same⟩ := answering_splits ran
  refine follows_answers ran answerable (.nil rfl) rfl (fun id => ?_) ?_
  · by_cases own : y = z
    · subst own
      rw [Function.update_self]
      exact (same _ rfl).trans (receiveCall_others received (strange x) id)
    · rw [Function.update_of_ne own]
      rfl
  · by_cases own : y = z
    · subst own
      rw [Function.update_self]
      rfl
    · rw [Function.update_of_ne own]
      rfl

/-- What arrives is the two's if it goes from the one to the other. -/
theorem follows_delivery {y₀ : ι} {i tm : Nat} {call : BaseCall} {message : List UInt8} {beyond : Memory}
    (at_i : (ms y₀).state.base[i]? = some call) (data : call.data = some message)
    (ran : receiveAnswering (net.world z) ⟨incoming (link net y₀ z) call message beyond, tm⟩ answers
      (ms z).state = .ok (s', handed))
    (answerable : Answerable (net.world z) answers (ms z).state)
    (possible : Possible (link net y₀ z) (view y₀ z ms) (.deliver i beyond tm))
    (careful : Careful (link net y₀ z) (view y₀ z ms) (.deliver i beyond tm)) :
    Follows net leads x y ms (Function.update ms z
      ⟨s', Function.update (ms z).landings y₀ (⟨i, call.part, handed⟩ :: (ms z).landings y₀)⟩) := by
  obtain ⟨db₁, _, received, _, _, same⟩ := answering_splits ran
  by_cases reached : y = z
  · subst reached
    by_cases sent : x = y₀
    · subst sent
      have arrives : TwoPeers.act (link net x y) (.deliver i beyond tm) (view x y ms) =
          .ok ⟨(ms x).state, db₁, ⟨i, call.part, handed⟩ :: (ms y).landings x⟩ := by
        have at_i : (view x y ms).state.base[i]? = some call := at_i
        simp only [TwoPeers.act, at_i, data]
        exact bind_ok.mpr ⟨(db₁, handed), received, rfl⟩
      refine follows_answers ran answerable (.cons (.nil rfl) ⟨possible, careful, fun _ => careful⟩ arrives) rfl
        (fun id => ?_) ?_
      · rw [Function.update_self]
        exact same _ rfl
      · rw [Function.update_self]
        exact Function.update_self ..
    · refine follows_answers ran answerable (.nil rfl) rfl (fun id => ?_) ?_
      · rw [Function.update_self]
        have other : net.friend y y₀ ≠ net.friend y x := fun same => sent (net.distinct y same).symm
        exact (same _ rfl).trans (receiveCall_others received other id)
      · rw [Function.update_self]
        exact Function.update_of_ne sent ..
  · refine follows_answers ran answerable (.nil rfl) rfl (fun id => ?_) ?_
    · rw [Function.update_of_ne reached]
      rfl
    · rw [Function.update_of_ne reached]
      rfl

/-- Whatever one of the processes does, between any two it is what they do, or nothing. -/
theorem follows_deed {d : Deed ι} (attainable : Attainable net z ms d) (heedful : Heedful net z ms d)
    (ran : deed net z ms d = .ok m') : Follows net (Leads net z ms d) x y ms (Function.update ms z m') := by
  have idle : Follows net (Leads net z ms d) x y ms (Function.update ms z (ms z)) := by
    rw [Function.update_eq_self]
    exact ⟨[], _, .nil rfl, .refl _⟩
  cases d with
  | send friendNumber type message beyond =>
    refine follows_own (.send friendNumber type message beyond) ran (fun _ => rfl) ?_
    rintro rfl
    exact ⟨trivial, heedful, fun _ => heedful⟩
  | periodic =>
    refine follows_own .periodic ran (fun _ => rfl) ?_
    rintro rfl
    exact ⟨trivial, trivial, id⟩
  | receipt i =>
    simp only [deed] at ran
    cases at_i : (ms z).state.base[i]? with
    | none =>
      rw [at_i] at ran
      cases ran
      exact idle
    | some call =>
      rw [at_i] at ran
      refine follows_own (.receipt i) ran ?_ ?_
      · rintro rfl
        have at_i : (view x y ms).state.base[i]? = some call := at_i
        simp only [TwoPeers.act, at_i]
        rfl
      · rintro rfl
        exact ⟨attainable y, trivial, id⟩
  | deliver y₀ i beyond tm answers =>
    simp only [deed] at ran
    cases at_i : (ms y₀).state.base[i]? with
    | none =>
      rw [at_i] at ran
      cases ran
      exact idle
    | some call =>
      rw [at_i] at ran
      cases data : call.data with
      | none =>
        simp only [data] at ran
        cases ran
        exact idle
      | some message =>
        simp only [data] at ran
        obtain ⟨⟨s', handed⟩, answered, same⟩ := bind_ok.mp ran
        cases same
        exact follows_delivery at_i data answered heedful.2 attainable heedful.1
  | stranger k answers =>
    obtain ⟨⟨s', handed⟩, answered, same⟩ := bind_ok.mp ran
    cases same
    exact follows_stranger answered heedful attainable

/-! ## Runs -/

/-- What any two of the processes have done in a run of the network. -/
theorem run_between {inputs : List (ι × Deed ι)}
    (run : Run (networkStep net) (fun ms input => Attainable net input.1 ms input.2 ∧
      Heedful net input.1 ms input.2 ∧ (leads → Leads net input.1 ms input.2)) (Founded net) inputs ms) (x y : ι) :
    ∃ acts c, Run (TwoPeers.act (link net x y)) (Allowed leads (link net x y)) (Begun (link net x y)) acts c ∧
      Agrees (link net x y) c (view x y ms) := by
  apply run.invariant (I := fun ms => ∃ acts c, Run (TwoPeers.act (link net x y)) (Allowed leads (link net x y))
    (Begun (link net x y)) acts c ∧ Agrees (link net x y) c (view x y ms))
  · intro ms founded
    refine ⟨[], view x y ms, .nil ?_, .refl _⟩
    rw [view, founded x, founded y]
    exact ⟨started_initialState _, fun _ => rfl, rfl⟩
  · rintro ms ⟨z, d⟩ ms' ⟨acts, c, run, agrees⟩ ⟨attainable, heedful, lead⟩ ran
    obtain ⟨m', done, same⟩ := map_ok.mp ran
    subst same
    obtain ⟨acts', c', run', agrees'⟩ := @follows_deed _ _ net x y z ms m' d attainable heedful done
    obtain ⟨d', run'', agrees''⟩ := agrees.symm.run run'
    have run'' : Run (TwoPeers.act (link net x y)) (Allowed leads (link net x y)) (· = c) acts' d' := by
      refine run''.weaken fun c a allowed => ⟨allowed.1, allowed.2.1, fun given => allowed.2.2 (lead given)⟩
    exact ⟨_, d', run.append run'', agrees''.symm.trans agrees'⟩

theorem Agrees.mailbox (agrees : Agrees n c d) : Refinement.mailbox n d = Refinement.mailbox n c := by
  simp only [Refinement.mailbox, agrees.sender.events, agrees.landings]

/-- Whatever the processes of a network do to each other and strangers to them,
with clients that answer from inside the callback and stores that hold what each
sends and receives, from each process to each other one there is a mailbox that
keeps its promises. -/
theorem network_refines_mailboxes {inputs : List (ι × Deed ι)} (increasing : ∀ x, Increasing (net.world x))
    (range : ∀ x, ProperRange (net.world x).params) (small : ∀ x, (net.world x).params.fragmentsAtATime < 2 ^ 32)
    (maxLength : ∀ x, (net.world x).params.maxMessageLength < 2 ^ 32)
    (run : Run (networkStep net) (fun ms input => Attainable net input.1 ms input.2 ∧
      Heedful net input.1 ms input.2 ∧ Leads net input.1 ms input.2) (Founded net) inputs ms) (x y : ι) :
    Relation.ReflTransGen Next {} (mailbox (link net x y) (view x y ms)) ∧
      Sound (mailbox (link net x y) (view x y ms)) := by
  obtain ⟨acts, c, run, agrees⟩ := @run_between _ _ net ms True inputs
    (run.weaken fun ms input guard => ⟨guard.1, guard.2.1, fun _ => guard.2.2⟩) x y
  have run := run.weaken fun c a (allowed : Allowed True (link net x y) c a) =>
    (⟨allowed.1, allowed.2.2 trivial⟩ : Possible (link net x y) c a ∧ Safeguarded (link net x y) c a)
  rw [agrees.mailbox]
  have reached := mailbox_reached (increasing x) (range x) (small x) (maxLength x) run
  exact ⟨reached, .reached reached⟩

/-- `receiveAnswering` for a message with these fields in its marker. -/
def answeringRead (w : World) (fields : Fields) (k : Call) (answers : List ClientSend) (s : State) :
    Except Fault (State × Option Handed) := do
  if markerParse k.incoming.memory k.incoming.message.length ≠ some fields then throw .abort
  let f := inFragment k.incoming k.tm fields
  let (db, ready) ← insertUntil w.limit .readyCallback s.db f
  match ready with
  | none => pure (onStore s db, none)
  | some given =>
    let s ← answers.foldlM (clientSend w) (onStore s db)
    pure (onStore s (dbUnlock (deleteDataRecord s.db false f.friendNumber f.id)), some (messageReady given))

theorem answering_of_read {fields : Fields} (ran : answeringRead w fields k answers s = .ok (s', handed)) :
    receiveAnswering w k answers s = .ok (s', handed) := by
  unfold answeringRead at ran
  split at ran
  · cases ran
  · rename_i parsed
    simp only [receiveAnswering, not_not.mp parsed]
    exact ran

/-- `networkStep` where it was said before what the markers read. -/
def networkRead (net : Topology ι) (markers : ι → Nat → Fields) (input : ι × Deed ι) (ms : ι → Member ι) :
    Except Fault (ι → Member ι) :=
  match input.2 with
  | .deliver y i beyond tm answers =>
    match (ms y).state.base[i]? with
    | none => networkStep net input ms
    | some call =>
      match call.data with
      | none => networkStep net input ms
      | some message => do
        let (state, handed) ← answeringRead (net.world input.1) (markers y i)
          ⟨incoming (link net y input.1) call message beyond, tm⟩ answers (ms input.1).state
        pure (Function.update ms input.1
          ⟨state, Function.update (ms input.1).landings y (⟨i, call.part, handed⟩ :: (ms input.1).landings y)⟩)
  | _ => networkStep net input ms

theorem step_of_read {markers : ι → Nat → Fields} {input : ι × Deed ι}
    (ran : networkRead net markers input ms = .ok ms') : networkStep net input ms = .ok ms' := by
  obtain ⟨x, d⟩ := input
  cases d with
  | send | periodic | receipt | stranger => exact ran
  | deliver y i beyond tm answers =>
    simp only [networkRead] at ran
    cases at_i : (ms y).state.base[i]? with
    | none =>
      simp only [at_i] at ran
      exact ran
    | some call =>
      simp only [at_i] at ran
      cases data : call.data with
      | none =>
        simp only [data] at ran
        exact ran
      | some message =>
        simp only [data] at ran
        obtain ⟨⟨state, handed⟩, answered, same⟩ := bind_ok.mp ran
        cases same
        simp only [networkStep, deed, at_i, data, answering_of_read answered]
        rfl

/-- Two processes with numbers behind the client's range, each a friend of the other. -/
def pair : Topology Bool where
  world _ := behindRange
  friend x y := bif x then bif y then 2 else 7 else bif y then 1 else 2
  distinct x y y' same := by revert x y y'; decide

/-- A message goes there, and another one back from inside the callback. -/
def exchange : List (Bool × Deed Bool) :=
  [(false, .send 1 0 (List.replicate 65 1) fun _ => 0), (true, .deliver false 1 (fun _ => 0) 3 []),
    (true, .deliver false 0 (fun _ => 0) 4 [⟨7, 0, List.replicate 65 2, fun _ => 0⟩]),
    (false, .receipt 0), (false, .deliver true 0 (fun _ => 0) 5 []), (false, .receipt 1), (true, .receipt 0),
    (false, .deliver true 1 (fun _ => 0) 6 []), (true, .receipt 1)]

theorem exchanged : ∃ ms, Run (networkStep pair) (fun ms input => Attainable pair input.1 ms input.2 ∧
      Heedful pair input.1 ms input.2 ∧ Leads pair input.1 ms input.2) (Founded pair) exchange.reverse ms ∧
    (∀ x, (ms x).state.receipts.lo = (ms x).state.receipts.hi) ∧
    (mailbox (link pair false true) (view false true ms)).told = [0] ∧
    (mailbox (link pair true false) (view true false ms)).told = [0] := by
  have founded : Founded pair fun _ => ⟨initialState behindRange, fun _ => []⟩ := fun _ => rfl
  obtain ⟨ms, run, checked⟩ := exists_run (networkRead pair fun _ => bothMarkers)
    (fun ms input => Attainable pair input.1 ms input.2 ∧ Heedful pair input.1 ms input.2 ∧
      Leads pair input.1 ms input.2) exchange
    (fun ms => (∀ x, (ms x).state.receipts.lo = (ms x).state.receipts.hi) ∧
      (mailbox (link pair false true) (view false true ms)).told = [0] ∧
      (mailbox (link pair true false) (view true false ms)).told = [0])
    founded (by decide +kernel)
  exact ⟨ms, run.steps fun _ _ _ => step_of_read, of_decide_eq_true checked⟩

theorem range_behindRange : ProperRange behindRange.params := ⟨by decide, by decide⟩

theorem maxLength_behindRange : behindRange.params.maxMessageLength < 2 ^ 32 := by decide

theorem network_refines_mailboxes_of_exchange : ∃ ms,
    Run (networkStep pair) (fun ms input => Attainable pair input.1 ms input.2 ∧ Heedful pair input.1 ms input.2 ∧
      Leads pair input.1 ms input.2) (Founded pair) exchange.reverse ms ∧
    (mailbox (link pair false true) (view false true ms)).told = [0] ∧
    ∀ x y, Relation.ReflTransGen Next {} (mailbox (link pair x y) (view x y ms)) ∧
      Sound (mailbox (link pair x y) (view x y ms)) := by
  obtain ⟨ms, run, _, told, _⟩ := exchanged
  exact ⟨ms, run, told, network_refines_mailboxes (fun _ => obliging_behindRange.increasing)
    (fun _ => range_behindRange) (fun _ => obliging_behindRange.small) (fun _ => maxLength_behindRange) run⟩

end Defragmenter.Network
