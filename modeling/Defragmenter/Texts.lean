import Defragmenter.MarkerReads
import Defragmenter.Provenance
import Defragmenter.Receiver

/-! Short messages on their way. The sender looks for a marker in what its
client gives it, the receiver in what it gets, and each of them with its own
memory behind the message. So what went out as a text may come in as a fragment,
but only a text that lacks the last byte of a marker. -/
namespace Defragmenter.Texts
open Decimal Marker MarkerGrammar MarkerReads Database Split Receipts Sender Moves Provenance Receiver Runs

/-- The calls of the base library that are for no part, first to last. -/
def texts (s : State) : List BaseCall := s.base.filter (·.part.isNone)

/-- The call that a short message of the client is passed on with, if the sender
sees no marker in it. -/
def textCall (w : World) : Op → Option BaseCall
  | .send friendNumber type message beyond =>
    if markerExists (memoryOf message beyond) message.length then none
    else if message.length ≤ w.params.maxMessageLength then
      some { friendNumber, type, data := some message, length := message.length, part := none }
    else none
  | _ => none

/-- No text has gone out between the two states. -/
def SameTexts (s s' : State) : Prop := texts s' = texts s

variable {w : World} {s s' s₁ : State} {v v' : View} {label : Label} {admitted : Label → Prop}
  {friendNumber messageId : Nat} {type : Int} {message bytes : List UInt8} {beyond : Memory} {call : BaseCall}
  {op : Op} {ops : List Op}

theorem SameTexts.of_base (base : s'.base = s.base) : SameTexts s s' := by
  rw [SameTexts, texts, base, texts]

theorem SameTexts.trans (first : SameTexts s s₁) (second : SameTexts s₁ s') : SameTexts s s' :=
  Eq.trans second first

/-- The calls that `msgSendPart` makes are for parts. -/
theorem SameTexts.of_part {msg i : Nat} {m : MsgOutbound} (base : s'.base = s.base ++ [partCall msg m i]) :
    SameTexts s s' := by
  rw [SameTexts, texts, base, List.filter_append]
  exact List.append_nil _

theorem SameTexts.of_move (inside : label ≠ .outside) (move : Move w label v v') : SameTexts v.s v'.s := by
  cases move with
  | idle | short => exact absurd rfl inside
  | passed | begun | opened | dropped | confirmed | completed | cleared => exact .of_base rfl
  | firstRefused | firstSent | nextRefused | nextSent | failedRefused | failedSent | lost | resent => exact .of_part rfl

theorem SameTexts.of_chain (inside : ∀ label, admitted label → label ≠ .outside) (chain : Chain w admitted v v') :
    SameTexts v.s v'.s := by
  apply chain.invariant (I := fun v' => SameTexts v.s v'.s)
  · intro label v₁ v' ok move before
    exact before.trans (.of_move (inside label ok) move)
  · exact .of_base rfl

theorem sameTexts_long (sends : LongSend w friendNumber type message s s') : SameTexts s s' := by
  cases sends with
  | opened _ _ window _ _ _ _ _ same | dropped _ _ window _ _ same =>
    subst same
    have went := SameTexts.of_chain (by rintro _ rfl; exact Label.noConfusion) window
    exact went

theorem sameTexts_serves {taken : Option Nat} {msg : Nat} (serves : Serves w taken msg s s') : SameTexts s s' := by
  cases serves with
  | offline _ same =>
    subst same
    exact .of_base rfl
  | online _ next _ failed =>
    have first := SameTexts.of_chain (by rintro _ rfl; exact Label.noConfusion) next
    have second := SameTexts.of_chain (by rintro _ rfl; exact Label.noConfusion) failed
    exact .trans first second

theorem sameTexts_served {msgs : List Nat} (served : Served w msgs s s') : SameTexts s s' := by
  induction served with
  | nil => exact .of_base rfl
  | cons serves _ ih => exact (sameTexts_serves serves).trans ih

theorem sameTexts_processed (processed : Processed w messageId s s') : SameTexts s s' := by
  cases processed with
  | completed _ _ _ _ same _ result =>
    subst same result
    exact .of_base rfl
  | continued _ _ _ _ same _ serves result =>
    subst same result
    have served := sameTexts_serves serves
    exact served

theorem sameTexts_periodic (ran : doPeriodic w s = .ok s') : SameTexts s s' := by
  obtain ⟨s₁, expires, served⟩ := periodic_cases ran
  obtain rfl | chain := expires
  · exact sameTexts_served served
  · have first := SameTexts.of_chain (by rintro _ rfl; exact Label.noConfusion) chain
    exact .trans first (sameTexts_served served)

theorem send_text (ran : step w (.send friendNumber type message beyond) s = .ok s') :
    texts s' = texts s ++ (textCall w (.send friendNumber type message beyond)).toList := by
  obtain ⟨⟨s₁, receipt⟩, ran, same⟩ := bind_ok.mp ran
  cases same
  unfold friendSendMessage at ran
  rw [textCall]
  split at ran
  · rename_i marked
    cases ran
    rw [if_pos marked]
    exact (List.append_nil _).symm
  · rename_i plain
    rw [if_neg plain]
    split at ran
    · rename_i short
      cases ran
      rw [if_pos short]
      exact List.filter_append ..
    · rename_i long
      rw [if_neg long]
      exact Eq.trans (sameTexts_long (friendSendMessageLong_sends ran)) (List.append_nil _).symm

/-- An operation makes its own call for a text and no other. -/
theorem step_text (ran : step w op s = .ok s') : texts s' = texts s ++ (textCall w op).toList := by
  cases op with
  | send => exact send_text ran
  | receipt friendNumber messageId =>
    refine Eq.trans ?_ (List.append_nil _).symm
    obtain ⟨_, _, rfl⟩ | ⟨_, _, rfl⟩ | processed := receipt_cases ran
    · rfl
    · rfl
    · exact sameTexts_processed processed
  | periodic => exact Eq.trans (sameTexts_periodic ran) (List.append_nil _).symm

/-- The texts that went out are those the client gave, in their order. -/
theorem texts_of_run (run : Run (step w) (fun _ _ => True) (Started w) ops s) :
    texts s = ops.reverse.filterMap (textCall w) := by
  induction run with
  | nil started =>
    rw [started_iff.mp started]
    rfl
  | cons _ _ ran ih =>
    rw [step_text ran, ih, List.reverse_cons, List.filterMap_append]
    congr 1

/-- What is passed on is a client's own message, as it is. -/
theorem given_of_textCall (passed : textCall w op = some call) : ∃ friendNumber bytes beyond,
    op = .send friendNumber call.type bytes beyond ∧
      call = ⟨friendNumber, call.type, some bytes, bytes.length, none⟩ ∧
      bytes.length ≤ w.params.maxMessageLength ∧ markerExists (memoryOf bytes beyond) bytes.length = false := by
  unfold textCall at passed
  split at passed
  · rename_i friendNumber type bytes beyond
    split at passed
    · cases passed
    · rename_i plain
      split at passed
      · rename_i short
        cases passed
        exact ⟨friendNumber, bytes, beyond, rfl, rfl, short, Bool.not_eq_true _ ▸ plain⟩
      · cases passed
  · cases passed

/-- A text in which one peer saw no marker is one in which the other may see
one, for some memory behind it, exactly if only the last byte is missing. -/
theorem told_apart_iff (plain : markerExists (memoryOf bytes beyond) bytes.length = false) :
    (∀ beyond', markerExists (memoryOf bytes beyond') bytes.length = false) ↔ ¬ LacksLast bytes := by
  constructor
  · rintro never ⟨least, t, last⟩
    have shown : ShowsMarker (memoryOf bytes fun _ => 0x8b) bytes.length t := showsMarker_iff.mpr ⟨least, .inr last⟩
    have seen := markerExists_iff.mpr ⟨t, shown⟩
    rw [never] at seen
    cases seen
  · intro whole beyond'
    rw [← Bool.not_eq_true, markerExists_iff]
    rintro ⟨t, shown⟩
    obtain ⟨least, full | cut⟩ := showsMarker_iff.mp shown
    · -- a whole marker is seen with any memory behind it
      have seen : markerExists (memoryOf bytes beyond) bytes.length = true :=
        markerExists_iff.mpr ⟨t, showsMarker_iff.mpr ⟨least, .inl full⟩⟩
      rw [plain] at seen
      cases seen
    · refine whole ⟨least, t, ?_⟩
      rw [bytes_cut] at cut ⊢
      obtain ⟨same, _⟩ := List.append_inj' cut rfl
      rw [same]

/-- In every run of a sender the short messages in which it sees no marker go out
once each, in the client's order. Such a message comes to the receiver's client as
it was sent, over any store and with any memory behind it, unless it lacks the last
byte of a marker; and such a text is taken for a fragment where that byte stands
behind it. -/
theorem texts_come_as_sent (run : Run (step w) (fun _ _ => True) (Started w) ops s) :
    texts s = ops.reverse.filterMap (textCall w) ∧
    ∀ call ∈ s.base, call.part = none → ∃ friendNumber bytes beyond,
      .send friendNumber call.type bytes beyond ∈ ops ∧
      call = ⟨friendNumber, call.type, some bytes, bytes.length, none⟩ ∧
      bytes.length ≤ w.params.maxMessageLength ∧
      ((∀ friendNumber beyond, isFragment ⟨friendNumber, call.type, bytes, beyond⟩ = false) ↔ ¬ LacksLast bytes) ∧
      (¬ LacksLast bytes → ∀ limit db friendNumber beyond tm,
        friendMessageCb limit db ⟨friendNumber, call.type, bytes, beyond⟩ tm =
          .ok (db, some ⟨friendNumber, call.type, bytes⟩)) := by
  have sent := texts_of_run run
  refine ⟨sent, fun call member text => ?_⟩
  have listed : call ∈ texts s := List.mem_filter.mpr ⟨member, by rw [text]; rfl⟩
  rw [sent] at listed
  obtain ⟨op, taken, passed⟩ := List.mem_filterMap.mp listed
  obtain ⟨friendNumber, bytes, beyond, rfl, same, short, plain⟩ := given_of_textCall passed
  have apart : (∀ friendNumber beyond, isFragment ⟨friendNumber, call.type, bytes, beyond⟩ = false) ↔
      ¬ LacksLast bytes := by
    rw [← told_apart_iff plain]
    exact ⟨fun never beyond' => never 0 beyond', fun never _ beyond' => never beyond'⟩
  refine ⟨friendNumber, bytes, beyond, List.mem_reverse.mp taken, same, short, apart,
    fun whole limit db friendNumber beyond' tm => ?_⟩
  have none := apart.mpr whole friendNumber beyond'
  rw [isFragment, markerExists_eq, Option.isSome_eq_false_iff, Option.isNone_iff_eq_none] at none
  exact friendMessageCb_other none

def greeting : List UInt8 := [104, 105]

def greeter : World := scripted { maxMessageLength := 1372 } [9] []

/-- A greeting goes out and comes in. -/
theorem texts_come_as_sent_of_greeting : ∃ s,
    Run (step greeter) (fun _ _ => True) (Started greeter) [.send 1 0 greeting fun _ => 0] s ∧
    texts s = [⟨1, 0, some greeting, 2, none⟩] ∧ ∀ limit db friendNumber beyond tm,
      friendMessageCb limit db ⟨friendNumber, 0, greeting, beyond⟩ tm =
        .ok (db, some ⟨friendNumber, 0, greeting⟩) := by
  obtain ⟨s, run, _⟩ := exists_run (step greeter) (fun _ _ => True) [.send 1 0 greeting fun _ => 0]
    (fun _ => true) (started_initialState greeter) (by decide +kernel)
  obtain ⟨sent, come⟩ := texts_come_as_sent run
  have sent : texts s = [⟨1, 0, some greeting, 2, none⟩] := sent
  have listed : ⟨1, 0, some greeting, 2, none⟩ ∈ texts s := sent ▸ List.mem_singleton_self _
  obtain ⟨_, bytes, _, _, same, _, _, passes⟩ := come _ (List.mem_filter.mp listed).1 rfl
  cases same
  refine ⟨s, run, sent, passes fun lacks => ?_⟩
  exact absurd lacks.1 (by decide)

end Defragmenter.Texts
