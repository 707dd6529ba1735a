import Defragmenter.Provenance

/-! Whose receipt it is. The receipt table is shared by all conversations and
the callback does not look at its friend number, so a number that two friends
both use is taken for whichever of them the lookup comes upon. -/
namespace Defragmenter.Attribution
open Split Receipts Sender Moves Provenance Runs Database

/-- The ids the base library returned are unique for each friend. -/
def UniquePerFriend (w : World) (s : State) : Prop :=
  ∀ i < s.base.length, ∀ j < s.base.length,
    s.base[i]?.map (·.friendNumber) = s.base[j]?.map (·.friendNumber) ∧
    w.answer i = w.answer j ∧ w.answer i ≠ 0 → i = j

instance {w : World} {s : State} : Decidable (UniquePerFriend w s) :=
  inferInstanceAs (Decidable (∀ _ < _, _))

/-- The number was returned for a short message to this friend. -/
def PassedThrough (w : World) (s : State) (friendNumber messageId : Nat) : Prop :=
  ∃ i call, s.base[i]? = some call ∧ call.part = none ∧ call.friendNumber = friendNumber ∧
    w.answer i = messageId

/-- What one receipt may do: it confirms nothing but a part that was sent to
its friend under its number, and one for a short message reaches the client. -/
def Attributed (w : World) (s s' : State) (friendNumber messageId : Nat) : Prop :=
  ∃ new, s'.events = new ++ s.events ∧
    (∀ a p r, .confirmed a p r ∈ new → SentAs w s a p messageId ∧
      ∃ m, s.heap a = some m ∧ m.friendNumber = friendNumber) ∧
    (PassedThrough w s friendNumber messageId → .passed friendNumber messageId ∈ new)

/-- If the lookup comes upon a live record of the number, it is one of a
message to this friend; if it does not, the number is none of the client's
range that a short message to this friend got. -/
structure OwnNumber (w : World) (s : State) (friendNumber messageId : Nat) : Prop where
  own : ∀ j, s.receipts.findReceipt messageId = some j → s.receipts.key j = messageId →
    ∀ m, s.heap (s.receipts.receipts j).msg = some m → m.friendNumber = friendNumber
  outside : NotFound s.receipts messageId → PassedThrough w s friendNumber messageId →
    ¬ InRange w.params messageId

variable {w : World} {s s' : State} {friendNumber messageId : Nat}

theorem receipt_attributed_of_run {ops : List Op}
    (run : Run (step w) (fun _ op => Proper op) (Started w) ops s) (unique : UniquePerFriend w s)
    (proper : messageId ≠ 0)
    (ran : friendReadReceiptCb w s friendNumber messageId = .ok s') :
    Attributed w s s' friendNumber messageId ↔ OwnNumber w s friendNumber messageId := by
  have issued : Issued w s := Issued.run run fun _ _ proper => proper
  rcases receipt_cases ran with ⟨missing, inRange, rfl⟩ | ⟨missing, outside, rfl⟩ | processed
  · constructor
    · rintro ⟨new, same, _, passes⟩
      have empty : new = [] := List.self_eq_append_left.mp same
      refine ⟨fun j found key => absurd key (missing j found), fun _ short => ?_⟩
      have := passes short
      rw [empty] at this
      cases this
    · rintro ⟨_, outside⟩
      exact ⟨[], rfl, by simp, fun short => absurd inRange (outside missing short)⟩
  · constructor
    · intro _
      exact ⟨fun j found key => absurd key (missing j found), fun _ _ => outside⟩
    · intro _
      exact ⟨[_], rfl, by simp, fun _ => List.mem_singleton.mpr rfl⟩
  · obtain ⟨j, m, lookup, held, found, done, events, only⟩ := processed.events
    have sent := issued.recorded j (held ▸ proper)
    rw [held] at sent
    constructor
    · rintro ⟨new, same, confirms, _⟩
      have split : new = done ++ [.confirmed (s.receipts.receipts j).msg
          (s.receipts.receipts j).partNo messageId] := by
        rw [events] at same
        exact (List.append_cancel_right same).symm
      have member : .confirmed (s.receipts.receipts j).msg (s.receipts.receipts j).partNo messageId ∈
          new := by
        rw [split]
        exact List.mem_append_right _ (List.mem_singleton.mpr rfl)
      obtain ⟨_, m', found', friend⟩ := confirms _ _ messageId member
      rw [found] at found'
      cases found'
      refine ⟨fun j' lookup' _ m'' found'' => ?_, fun missing => absurd held (missing j lookup)⟩
      rw [lookup] at lookup'
      cases lookup'
      rw [found] at found''
      cases found''
      exact friend
    · rintro ⟨own, _⟩
      have friend := own j lookup held m found
      refine ⟨_, events, fun a p r member => ?_, fun short => ?_⟩
      · rcases List.mem_append.mp member with complete | here
        · cases only _ complete
        · cases List.mem_singleton.mp here
          exact ⟨sent, m, found, friend⟩
      · -- the number would have been returned to this friend for two calls
        obtain ⟨i, call, at_i, part, answered⟩ := sent
        obtain ⟨i', call', at_i', short, friend', answered'⟩ := short
        have addressed := (issued.addressed at_i part found).1
        have friends : s.base[i]?.map (·.friendNumber) = s.base[i']?.map (·.friendNumber) := by
          rw [at_i, at_i']
          exact congrArg some (addressed.trans (friend.trans friend'.symm))
        have same : i = i' := unique i (List.getElem?_eq_some_iff.mp at_i).1 i'
          (List.getElem?_eq_some_iff.mp at_i').1
          ⟨friends, answered.trans answered'.symm, answered ▸ proper⟩
        subst same
        rw [at_i] at at_i'
        cases at_i'
        rw [part] at short
        cases short

/-- A long message to one friend and a short one to another, with these ids. -/
def twoFriends (answers : List Nat) : World := scripted { maxMessageLength := 64 } answers []

def twoMessages : List Op :=
  [.send 1 0 (List.replicate 65 1) fun _ => 0, .send 2 0 [1] fun _ => 0]

/-- With different ids the first part's receipt is attributed. -/
theorem receipt_attributed_of_different : ∃ s s',
    friendReadReceiptCb (twoFriends [5, 6, 7]) s 1 5 = .ok s' ∧
      Attributed (twoFriends [5, 6, 7]) s s' 1 5 := by
  obtain ⟨s, run, checked⟩ := exists_run (step (twoFriends [5, 6, 7])) (fun _ op => Proper op)
    twoMessages (fun s => UniquePerFriend (twoFriends [5, 6, 7]) s ∧
      s.receipts.findReceipt 5 = some 0 ∧ s.receipts.key 0 = 5 ∧
      (s.heap (s.receipts.receipts 0).msg).map (·.friendNumber) = some 1 ∧
      (friendReadReceiptCb (twoFriends [5, 6, 7]) s 1 5).isOk)
    (started_initialState (twoFriends [5, 6, 7])) (by decide +kernel)
  obtain ⟨unique, lookup, held, friend, returns⟩ := of_decide_eq_true checked
  cases ran : friendReadReceiptCb (twoFriends [5, 6, 7]) s 1 5 with
  | error fault =>
    rw [ran] at returns
    cases returns
  | ok s' =>
    refine ⟨s, s', ran, (receipt_attributed_of_run run unique (by decide) ran).mpr ⟨?_, ?_⟩⟩
    · intro j found _ m here
      rw [lookup] at found
      cases found
      rw [here] at friend
      exact Option.some.inj friend
    · intro missing
      exact absurd held (missing 0 lookup)

/-- With an id they share, the other friend's receipt confirms the first part. -/
theorem receipt_of_another_friend : ∃ s s',
    Run (step (twoFriends [5, 6, 5])) (fun _ op => Proper op) (Started (twoFriends [5, 6, 5]))
      twoMessages.reverse s ∧
    UniquePerFriend (twoFriends [5, 6, 5]) s ∧
    friendReadReceiptCb (twoFriends [5, 6, 5]) s 2 5 = .ok s' ∧
      ¬ Attributed (twoFriends [5, 6, 5]) s s' 2 5 := by
  obtain ⟨s, run, checked⟩ := exists_run (step (twoFriends [5, 6, 5])) (fun _ op => Proper op)
    twoMessages (fun s => UniquePerFriend (twoFriends [5, 6, 5]) s ∧
      (s.heap 0).map (·.friendNumber) = some 1 ∧
      (friendReadReceiptCb (twoFriends [5, 6, 5]) s 2 5).toOption.map (·.events) =
        some (.confirmed 0 1 5 :: s.events))
    (started_initialState (twoFriends [5, 6, 5])) (by decide +kernel)
  obtain ⟨unique, friend, events⟩ := of_decide_eq_true checked
  cases ran : friendReadReceiptCb (twoFriends [5, 6, 5]) s 2 5 with
  | error fault =>
    rw [ran] at events
    cases events
  | ok s' =>
    rw [ran] at events
    have events : s'.events = [.confirmed 0 1 5] ++ s.events := Option.some.inj events
    refine ⟨s, s', run, unique, ran, ?_⟩
    rintro ⟨new, same, confirms, _⟩
    rw [events] at same
    have new_eq := List.append_cancel_right same
    subst new_eq
    obtain ⟨_, m, found, other⟩ := confirms 0 1 5 (List.mem_singleton.mpr rfl)
    rw [found, Option.map_some, other] at friend
    cases friend

end Defragmenter.Attribution
