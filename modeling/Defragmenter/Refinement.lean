import Defragmenter.Mailbox
import Defragmenter.TwoPeers

/-! A sender, a receiver and an unreliable library between them make a mailbox
that keeps its promises: whatever they do, safeguarded, the mailbox does as well
or stands still. Its messages are those the sender's client was given a number
for; they are handed over when the receiver's client is handed one, and reported
when the sender's client hears that one is complete. -/
namespace Defragmenter.Refinement
open Decimal Database InboundStore Split Sender Moves Provenance Tracking Accounting ClientView Completion
open Confirmations Receiver Reassembly Runs TwoPeers Mailbox

/-- The message a client was given a number for, if it is for the receiver. -/
def postingTo (receiver : Nat) : Event → Option (Nat × List UInt8)
  | .returned a friendNumber _ message _ => if friendNumber = receiver then some (a, message) else none
  | _ => none

/-- The message that was reported complete, if it was for the receiver. -/
def toldOf (receiver : Nat) : Event → Option Nat
  | .completed a friendNumber _ => if friendNumber = receiver then some a else none
  | _ => none

/-- The message that was handed over with a fragment of it, if one was. -/
def handing (d : Landing) : Option (Nat × List UInt8) :=
  d.part.bind fun place => d.handed.map fun h => (place.1, h.message)

/-- What the peers have made of the mailbox from the sender to the receiver. -/
def mailbox (n : Link) (c : Peers) : Box Nat (List UInt8) where
  posted := c.state.events.filterMap (postingTo n.receiver)
  handed := c.landings.filterMap handing
  told := c.state.events.filterMap (toldOf n.receiver)

variable {n : Link} {c c' : Peers} {originals : Nat → Option MsgOutbound} {w : World} {s s' : State} {a : Nat}
  {bytes : List UInt8}

theorem mem_posted : (a, bytes) ∈ (mailbox n c).posted ↔
    ∃ id r, .returned a n.receiver id bytes r ∈ c.state.events := by
  simp only [mailbox, List.mem_filterMap]
  constructor
  · rintro ⟨e, member, is⟩
    cases e with
    | returned b friendNumber id message r =>
      simp only [postingTo, Option.ite_none_right_eq_some, Option.some.injEq, Prod.mk.injEq] at is
      obtain ⟨rfl, rfl, rfl⟩ := is
      exact ⟨id, r, member⟩
    | completed | passed | confirmed => cases is
  · rintro ⟨id, r, member⟩
    exact ⟨_, member, if_pos rfl⟩

theorem mem_told : a ∈ (mailbox n c).told ↔ ∃ r, .completed a n.receiver r ∈ c.state.events := by
  simp only [mailbox, List.mem_filterMap]
  constructor
  · rintro ⟨e, member, is⟩
    cases e with
    | completed b friendNumber r =>
      simp only [toldOf, Option.ite_none_right_eq_some, Option.some.injEq] at is
      obtain ⟨rfl, rfl⟩ := is
      exact ⟨r, member⟩
    | returned | passed | confirmed => cases is
  · rintro ⟨r, member⟩
    exact ⟨_, member, if_pos rfl⟩

theorem mem_handed : (a, bytes) ∈ (mailbox n c).handed ↔ bytes ∈ handedOver c.landings a := by
  simp only [mailbox, handedOver, List.mem_filterMap]
  refine exists_congr fun d => and_congr_right fun _ => ?_
  cases part : d.part with
  | none => simp [handing, part]
  | some place =>
    by_cases own : place.1 = a
    · simp [handing, part, own]
    · simp [handing, part, own]

/-! ## What a call of the sender tells -/

/-- What a call of the sender adds to the events. -/
inductive News (w : World) (s s' : State) : Prop where
  | none : s'.events = s.events → News w s s'
  | taken (p : Posting) : p.msg = s.fresh → s'.events = p.event :: s.events → News w s s'
  | passed (friendNumber r : Nat) : s'.events = .passed friendNumber r :: s.events → News w s s'
  | confirmed (a partNo r : Nat) : s'.events = .confirmed a partNo r :: s.events → News w s s'
  | completed (a partNo r : Nat) (m : MsgOutbound) : s.heap a = some m →
      s'.events = .completed a m.friendNumber m.receipt :: .confirmed a partNo r :: s.events → News w s s'

theorem news_of_long {friendNumber : Nat} {type : Int} {message : List UInt8}
    (sends : LongSend w friendNumber type message s s') : News w s s' := by
  -- the first window tells nothing
  have silent : ∀ {m : MsgOutbound} {s₁ : State},
      Chain w (· = .first) ⟨begunState w s friendNumber m, none, some (s.fresh, message)⟩
        ⟨s₁, none, some (s.fresh, message)⟩ → s₁.events = s.events := by
    intro m s₁ window
    apply window.invariant (I := fun v => v.s.events = s.events)
    · rintro _ v v' rfl move before
      cases move <;> exact before
    · rfl
  cases sends with
  | @opened s₁ m m₁ receipt db _ _ window _ _ _ _ _ same =>
    subst same
    refine .taken ⟨s.fresh, m₁.friendNumber, m₁.id, message, receipt⟩ rfl ?_
    exact congrArg _ (silent window)
  | @dropped s₁ _ _ _ _ window _ _ same =>
    have told : s₁.events = s.events := silent window
    subst same
    exact .none told

theorem news_of_step {op : Op} (ran : step w op s = .ok s') : News w s s' := by
  cases op with
  | send friendNumber type message beyond =>
    rcases send_cases ran with rfl | ⟨call, _, rfl⟩ | ⟨_, sends⟩
    · exact .none rfl
    · exact .none rfl
    · exact news_of_long sends
  | receipt friendNumber messageId =>
    rcases receipt_cases ran with ⟨_, _, rfl⟩ | ⟨_, _, rfl⟩ | processed
    · exact .none rfl
    · exact .passed _ _ rfl
    · cases processed with
      | completed _ _ found _ same _ result =>
        subst same result
        exact .completed _ _ _ _ found rfl
      | continued _ _ _ _ _ _ serves result =>
        subst result
        exact .confirmed _ _ _ serves.events
  | periodic =>
    obtain ⟨s₁, expires, served⟩ := periodic_cases ran
    exact .none (served.events.trans expires.frame.2.2)

/-! ## The peers and the mailbox -/

/-- A message that is entered now has a name of its own. -/
theorem Progress.newName {p : Posting} (progress : Progress n originals c) (new : p.msg = c.state.fresh) :
    ∀ message, (p.msg, message) ∉ (mailbox n c).posted := by
  intro message member
  obtain ⟨id, r, returned⟩ := mem_posted.mp member
  have below := (progress.traced.posted.known ⟨p.msg, n.receiver, id, message, r⟩ returned).below
  exact absurd new (Nat.ne_of_lt below)

/-- A message that is completed now was handed over, and is reported for the first time. -/
theorem Progress.tells {m : MsgOutbound} (maxLength : n.world.params.maxMessageLength < 2 ^ 32)
    (progress : Progress n originals c) {originals' : Nat → Option MsgOutbound}
    (after : Progress n originals' c') (landings : c'.landings = c.landings)
    (found : c.state.heap a = some m) (friend : m.friendNumber = n.receiver)
    (kept : c.state.events ⊆ c'.state.events) (told : .completed a n.receiver m.receipt ∈ c'.state.events) :
    (∃ bytes, (a, bytes) ∈ (mailbox n c).handed) ∧ a ∉ (mailbox n c).told := by
  have closing := progress.traced.reported.closing
  have silent : completions c.state a = [] := closing.silent a (.inl ⟨m, found⟩)
  refine ⟨?_, fun member => ?_⟩
  · obtain ⟨p, given, rfl, addressee⟩ := progress.traced.posted.addressed.heap a m found
    have number : m.receipt = p.receipt := by
      rcases closing.returned _ _ _ _ _ given with ⟨m', here, receipt, _⟩ | complete
      · cases found.symm.trans here
        exact receipt
      · rw [silent] at complete
        cases complete
    have called : p.receipt ∈ callbacks c'.state := List.mem_filterMap.mpr ⟨_, told, congrArg some number⟩
    have given : .returned p.msg n.receiver p.id p.message p.receipt ∈ c'.state.events :=
      (addressee.trans friend) ▸ kept given
    have handed := (after.sound maxLength).handed _ _ _ _ given called
    rw [landings] at handed
    exact ⟨p.message, mem_handed.mpr (by rw [handed]; exact List.mem_singleton_self _)⟩
  · obtain ⟨r, earlier⟩ := mem_told.mp member
    have here : (n.receiver, r) ∈ completions c.state a :=
      List.mem_filterMap.mpr ⟨_, earlier, if_pos rfl⟩
    rw [silent] at here
    cases here

/-- A call of the sender is a step of the mailbox, or none. -/
theorem Progress.senderMoves (maxLength : n.world.params.maxMessageLength < 2 ^ 32)
    (progress : Progress n originals c) {originals' : Nat → Option MsgOutbound}
    (after : Progress n originals' c') (landings : c'.landings = c.landings)
    (news : News n.world c.state c'.state) :
    mailbox n c' = mailbox n c ∨ Next (mailbox n c) (mailbox n c') := by
  have same : ∀ {e : List Event}, c'.state.events = e ++ c.state.events →
      e.filterMap (postingTo n.receiver) = [] → e.filterMap (toldOf n.receiver) = [] →
      mailbox n c' = mailbox n c := by
    intro e events posts tells
    simp only [mailbox, events, landings, List.filterMap_append, posts, tells, List.nil_append]
  cases news with
  | none events => exact .inl (@same [] events rfl rfl)
  | passed _ _ events => exact .inl (@same [_] events rfl rfl)
  | confirmed _ _ _ events => exact .inl (@same [_] events rfl rfl)
  | taken p new events =>
    by_cases friend : p.friendNumber = n.receiver
    · right
      have posts : mailbox n c' = { mailbox n c with posted := (p.msg, p.message) :: (mailbox n c).posted } := by
        simp [mailbox, events, landings, Posting.event, postingTo, toldOf, friend, List.filterMap_cons]
      rw [posts]
      exact .post (Progress.newName progress new)
    · left
      apply @same [_] events
      · simp [Posting.event, postingTo, friend]
      · rfl
  | completed a partNo r m found events =>
    by_cases friend : m.friendNumber = n.receiver
    · right
      have tells : mailbox n c' = { mailbox n c with told := a :: (mailbox n c).told } := by
        simp [mailbox, events, landings, postingTo, toldOf, friend, List.filterMap_cons]
      have kept : c.state.events ⊆ c'.state.events := by
        rw [events]
        exact List.subset_cons_of_subset _ (List.subset_cons_self _ _)
      have told : .completed a n.receiver m.receipt ∈ c'.state.events := by
        rw [events, friend]
        exact List.mem_cons_self
      obtain ⟨⟨bytes, handed⟩, new⟩ := Progress.tells maxLength progress after landings found friend kept told
      rw [tells]
      exact .tell handed new
    · left
      apply @same [_, _] events
      · rfl
      · simp [toldOf, friend]

/-- What reaches the receiver makes a step of the mailbox, or none. -/
theorem Progress.landingMoves {i tm : Nat} {call : BaseCall} {message : List UInt8} {beyond : Memory}
    (maxLength : n.world.params.maxMessageLength < 2 ^ 32) (progress : Progress n originals c)
    {originals' : Nat → Option MsgOutbound} (after : Progress n originals' c')
    (taken : n.world.answer i ≠ 0) (at_i : c.state.base[i]? = some call) (data : call.data = some message)
    (friend : call.friendNumber = n.receiver)
    (ran : land n i call (incoming n call message beyond) tm c = .ok c') :
    mailbox n c' = mailbox n c ∨ Next (mailbox n c) (mailbox n c') := by
  obtain ⟨⟨db, handed⟩, _, same⟩ := bind_ok.mp ran
  cases same
  cases part : call.part with
  | none =>
    left
    simp [mailbox, handing]
  | some place =>
    obtain ⟨a, partNo⟩ := place
    rw [part] at after
    cases handed with
    | none =>
      left
      simp [mailbox, handing]
    | some h =>
      right
      obtain ⟨p, l, given, addressee, rfl, describes, _⟩ :=
        @Progress.fragment n c originals a i call message beyond partNo maxLength progress taken at_i data part
      have addressee : p.friendNumber = n.receiver := addressee.trans friend
      have before := (progress.arrived p l given addressee describes).handed
      have now := (after.arrived p l given addressee describes).handed
      rw [handedOver_own rfl] at now
      -- the message comes whole, and nothing had come of it
      have whole : h.message = p.message ∧ handedOver c.landings p.msg = [] := by
        rw [← describes.bytes]
        by_cases all : (landed (⟨i, some (p.msg, partNo), some h⟩ :: c.landings) p.msg).card = l.parts
        · rw [if_pos all] at now
          exact List.cons_eq_cons.mp now
        · rw [if_neg all] at now
          cases now
      have hands : mailbox n { c with db, landings := ⟨i, some (p.msg, partNo), some h⟩ :: c.landings } =
          { mailbox n c with handed := (p.msg, p.message) :: (mailbox n c).handed } := by
        simp [mailbox, handing, whole.1]
      rw [hands]
      have posted : (p.msg, p.message) ∈ (mailbox n c).posted :=
        mem_posted.mpr ⟨p.id, p.receipt, addressee ▸ given⟩
      apply Next.handOver posted
      intro bytes member
      have member := mem_handed.mp member
      rw [whole.2] at member
      cases member

/-- What the peers do is a step of the mailbox, or none. -/
theorem mailbox_step {a : Act} (increasing : Increasing n.world) (range : ProperRange n.world.params)
    (small : n.world.params.fragmentsAtATime < 2 ^ 32) (maxLength : n.world.params.maxMessageLength < 2 ^ 32)
    (progress : Progress n originals c) (possible : Possible n c a) (safeguarded : Safeguarded n c a)
    (ran : act n a c = .ok c') : mailbox n c' = mailbox n c ∨ Next (mailbox n c) (mailbox n c') := by
  obtain ⟨originals', after⟩ := progress.step increasing range small maxLength possible safeguarded ran
  have sender : ∀ {op : Op}, senderStep n op c = .ok c' →
      mailbox n c' = mailbox n c ∨ Next (mailbox n c) (mailbox n c') := by
    intro op ran
    obtain ⟨s', stepped, same⟩ := bind_ok.mp ran
    cases same
    exact Progress.senderMoves maxLength progress after rfl (news_of_step stepped)
  cases a with
  | send => exact sender ran
  | periodic => exact sender ran
  | receipt i =>
    obtain ⟨_, call, at_i, _⟩ := possible
    have at_i : c.state.base[i]? = some call := at_i
    simp only [act, at_i] at ran
    exact sender ran
  | deliver i beyond tm =>
    obtain ⟨taken, call, at_i, friend⟩ := possible
    have at_i : c.state.base[i]? = some call := at_i
    simp only [act, at_i] at ran
    cases data : call.data with
    | none =>
      simp only [data] at ran
      cases ran
      exact .inl rfl
    | some message =>
      simp only [data] at ran
      exact Progress.landingMoves maxLength progress after taken at_i data friend ran

variable {acts : List Act}

/-- Every run is one of the mailbox. -/
theorem mailbox_reached (increasing : Increasing n.world) (range : ProperRange n.world.params)
    (small : n.world.params.fragmentsAtATime < 2 ^ 32) (maxLength : n.world.params.maxMessageLength < 2 ^ 32)
    (run : Run (act n) (fun c a => Possible n c a ∧ Safeguarded n c a) (Begun n) acts c) :
    Relation.ReflTransGen Next {} (mailbox n c) := by
  obtain ⟨c₀, begun, reached⟩ : ∃ c₀, Begun n c₀ ∧
      Relation.ReflTransGen Next (mailbox n c₀) (mailbox n c) := by
    apply run.refines (I := fun c => ∃ originals, Progress n originals c)
    · intro c begun
      exact ⟨_, progress_begun range begun⟩
    · rintro c a c' ⟨_, progress⟩ ⟨possible, safeguarded⟩ ran
      exact progress.step increasing range small maxLength possible safeguarded ran
    · rintro c a c' ⟨_, progress⟩ ⟨possible, safeguarded⟩ ran
      exact mailbox_step increasing range small maxLength progress possible safeguarded ran
  have empty : mailbox n c₀ = {} := by
    obtain ⟨state, db, landings⟩ := c₀
    obtain ⟨started, _, rfl⟩ := begun
    have same : state = initialState n.world := started_iff.mp started
    subst same
    rfl
  rw [empty] at reached
  exact reached

/-- The peers refine a mailbox that keeps its promises: in every safeguarded
run, with calls refused, fragments lost, doubled and out of order, what was
taken, handed over and reported is what such a mailbox can come to. -/
theorem peers_refine_mailbox (increasing : Increasing n.world) (range : ProperRange n.world.params)
    (small : n.world.params.fragmentsAtATime < 2 ^ 32) (maxLength : n.world.params.maxMessageLength < 2 ^ 32)
    (run : Run (act n) (fun c a => Possible n c a ∧ Safeguarded n c a) (Begun n) acts c) :
    Relation.ReflTransGen Next {} (mailbox n c) ∧ Sound (mailbox n c) := by
  have reached := mailbox_reached increasing range small maxLength run
  exact ⟨reached, .reached reached⟩

/-- The second part comes first and the first part twice, and both receipts follow. -/
theorem peers_refine_mailbox_of_both_parts : ∃ c,
    Run (act twoParts) (fun c a => Possible twoParts c a ∧ Safeguarded twoParts c a) (Begun twoParts)
      [.receipt 1, .receipt 0, .deliver 0 (fun _ => 0) 5, .deliver 0 (fun _ => 0) 4,
        .deliver 1 (fun _ => 0) 3, .send 1 0 (List.replicate 65 1) fun _ => 0] c ∧
    mailbox twoParts c = ⟨[(0, List.replicate 65 1)], [(0, List.replicate 65 1)], [0]⟩ ∧
    Relation.ReflTransGen Next {} (mailbox twoParts c) ∧ Sound (mailbox twoParts c) := by
  obtain ⟨c, run, checked⟩ := exists_run (actRead twoParts bothMarkers)
    (fun c a => Possible twoParts c a ∧ Safeguarded twoParts c a)
    [.send 1 0 (List.replicate 65 1) fun _ => 0, .deliver 1 (fun _ => 0) 3,
      .deliver 0 (fun _ => 0) 4, .deliver 0 (fun _ => 0) 5, .receipt 0, .receipt 1]
    (fun c => (mailbox twoParts c).posted = [(0, List.replicate 65 1)] ∧
      (mailbox twoParts c).handed = [(0, List.replicate 65 1)] ∧ (mailbox twoParts c).told = [0])
    begun_twoParts (by decide +kernel)
  have run := run.steps fun _ _ _ => act_of_read
  obtain ⟨posted, handed, told⟩ := of_decide_eq_true checked
  have made : mailbox twoParts c = ⟨[(0, List.replicate 65 1)], [(0, List.replicate 65 1)], [0]⟩ := calc
    mailbox twoParts c =
        ⟨(mailbox twoParts c).posted, (mailbox twoParts c).handed, (mailbox twoParts c).told⟩ := rfl
    _ = ⟨[(0, List.replicate 65 1)], [(0, List.replicate 65 1)], [0]⟩ := by rw [posted, handed, told]
  exact ⟨c, run, made, peers_refine_mailbox (increasing_scripted (by decide))
    ⟨by decide, by decide⟩ (by decide) (by decide) run⟩

end Defragmenter.Refinement
