import Defragmenter.Conversations

/-! What the client can be handed of a letter. Fragments may come in any order,
any number of times or not at all, between messages of any contents: what is
handed over is as long as the letter, has its bytes wherever a part has come
and zeros elsewhere, and it is handed over once at most. -/
namespace Defragmenter.Patchwork
open Decimal Marker Database InboundStore Split Tiling Receiver InboundHistory Isolation Reassembly
open Unwinding Conversations

/-- The parts of the letter that some call has brought. -/
def came (l : Letter) (calls : List Call) : Finset Nat :=
  (Finset.range l.parts).filter fun k => ∃ c ∈ calls,
    c.incoming.friendNumber = l.friendNumber ∧ c.incoming.message = fragmentBytes l.id l.size l.bytes k

/-- The rows of a letter of which the parts in `got` have come in, some of them
perhaps more than once. -/
def Patched (l : Letter) (got : Finset Nat) (r : Rows) : Prop :=
  r = {} ∧ got = ∅ ∨ r.metaRow.isSome ∧ ∀ d, r.dataRow = some d → d.message = l.stored got

/-- The letter was handed over. -/
def Finished (r : Rows) : Prop := r.metaRow.isSome ∧ r.dataRow = none

variable {limit : BlobLimit} {l : Letter} {k j : Nat} {got : Finset Nat} {r r' : Rows} {db db' : Db} {c : Call}
  {calls past : List Call} {log : List (Call × Option Handed)} {ready : Option MsgReady} {handed : Option Handed}

/-! ## One fragment -/

/-- A fragment changes nothing, or puts its part in place. -/
theorem Patched.receive {type : Int} {tm : Nat} (patched : Patched l got r) (inside : k < l.parts)
    (step : receive limit (l.inbound k type tm) r = .ok (r', ready)) :
    Patched l (insert k got) r' ∧ ∀ given, ready = some given →
      Finished r' ∧ messageReady given = ⟨l.friendNumber, type, l.stored (insert k got)⟩ := by
  rcases receive_cases step with ⟨done, gone, rfl, rfl⟩ | ⟨m, d, before, deposited⟩
  · refine ⟨.inr ⟨done, fun d here => ?_⟩, fun given => nofun⟩
    rw [gone] at here
    cases here
  · have blob : d.message = l.stored got := by
      rcases before with rfl | ⟨rfl, _, _, rfl⟩
      · rcases patched with ⟨empty, _⟩ | ⟨_, stored⟩
        · cases empty
        · exact stored d rfl
      · rcases patched with ⟨_, rfl⟩ | ⟨none, _⟩
        · exact mosaic_empty.symm
        · cases none
    have offset : (l.inbound k type tm).off = k * l.size := rfl
    have head := l.stored_head got inside
    rcases deposit_cases deposited with ⟨b, probe, taken, rfl, rfl⟩ | ⟨_, _, whole⟩
    · -- the byte that is there is one of the part's own
      have again : k ∈ got := by
        by_contra missing
        rw [if_neg missing, ← blob, ← offset, probe] at head
        exact taken (Option.some.inj head)
      rw [Finset.insert_eq_of_mem again]
      refine ⟨.inr ⟨rfl, fun d' here => ?_⟩, fun given => nofun⟩
      cases here
      exact blob
    · have written : written (l.inbound k type tm) d = l.stored (insert k got) := by
        rw [InboundHistory.written, blob]
        exact l.stored_write got inside type tm
      rcases whole with ⟨_, rfl, rfl⟩ | ⟨_, rfl, rfl⟩
      · refine ⟨.inr ⟨rfl, fun d' => nofun⟩, fun given same => ?_⟩
        cases same
        exact ⟨⟨rfl, rfl⟩, congrArg (Handed.mk l.friendNumber type) written⟩
      · refine ⟨.inr ⟨rfl, fun d' here => ?_⟩, fun given => nofun⟩
        cases here
        exact written

theorem Finished.receive {f : InboundFragment} (finished : Finished r)
    (step : receive limit f r = .ok (r', ready)) : r' = r ∧ ready = none := by
  rcases receive_cases step with ⟨_, _, same, none⟩ | ⟨m, d, before, _⟩
  · exact ⟨same, none⟩
  · rcases before with rfl | ⟨rfl, _⟩
    · cases finished.2
    · cases finished.1

/-! ## Calls -/

theorem mem_came : k ∈ came l calls ↔ ∃ c ∈ calls, Carries l k c.incoming := by
  simp only [came, Finset.mem_filter, Finset.mem_range, carries_iff]
  constructor
  · rintro ⟨inside, c, member, friend, message⟩
    exact ⟨c, member, friend, inside, message⟩
  · rintro ⟨c, member, friend, inside, message⟩
    exact ⟨inside, c, member, friend, message⟩

/-- A fragment is one part of its letter. -/
theorem carries_unique {m : Incoming} (carried : Carries l k m) (other : Carries l j m) : j = k := by
  obtain ⟨fields, parsed, here⟩ := inFragment_carried carried
  obtain ⟨fields', parsed', there⟩ := inFragment_carried other
  cases parsed.symm.trans parsed'
  have same : j + 1 = k + 1 := congrArg InboundFragment.partNo ((there 0).symm.trans (here 0))
  omega

theorem conversation_carried (carried : Carries l k c.incoming) : conversation c = some l.key := by
  obtain ⟨fields, parsed, arguments⟩ := inFragment_carried carried
  have id : fields.id = l.id := congrArg InboundFragment.id (arguments 0)
  rw [conversation, parsed, Option.map_some, keyOf, id, carried.1]
  rfl

theorem came_own (carried : Carries l k c.incoming) : came l (past ++ [c]) = insert k (came l past) := by
  ext j
  rw [Finset.mem_insert, mem_came, mem_came]
  constructor
  · rintro ⟨c', member, other⟩
    rcases List.mem_append.mp member with earlier | last
    · exact .inr ⟨c', earlier, other⟩
    · rw [List.mem_singleton.mp last] at other
      exact .inl (carries_unique carried other)
  · rintro (rfl | ⟨c', member, other⟩)
    · exact ⟨c, by simp, carried⟩
    · exact ⟨c', List.mem_append_left _ member, other⟩

theorem came_other (other : conversation c ≠ some l.key) : came l (past ++ [c]) = came l past := by
  ext j
  rw [mem_came, mem_came]
  constructor
  · rintro ⟨c', member, carried⟩
    rcases List.mem_append.mp member with earlier | last
    · exact ⟨c', earlier, carried⟩
    · rw [List.mem_singleton.mp last] at carried
      exact absurd (conversation_carried carried) other
  · rintro ⟨c', member, carried⟩
    exact ⟨c', List.mem_append_left _ member, carried⟩

/-- The call that brings a part does to the rows of its letter what `receive` does. -/
theorem receive_of_call (carried : Carries l k c.incoming) (ran : receiveCall limit c db = .ok (db', handed)) :
    ∃ ready, receive limit (l.inbound k c.incoming.type c.tm) (rows db l.key) = .ok (rows db' l.key, ready) ∧
      handed = ready.map messageReady := by
  rw [receiveCall, friendMessageCb_carried carried] at ran
  obtain ⟨⟨db₁, ready⟩, inserted, same⟩ := bind_ok.mp ran
  cases same
  exact ⟨ready, (receive_of_insert inserted).1, rfl⟩

/-! ## Runs -/

/-- What was handed over with the fragments of a key, in its order. -/
def handedFor (key : Key) (log : List (Call × Option Handed)) : List Handed :=
  (answers conversation (some key) log).filterMap Prod.snd

variable {key : Key} {h : Handed}

theorem mem_handedFor : h ∈ handedFor key log ↔ ∃ c, (c, some h) ∈ log ∧ conversation c = some key := by
  simp [handedFor, answers]

theorem handedFor_other (other : conversation c ≠ some key) :
    handedFor key ((c, handed) :: log) = handedFor key log := by
  simp [handedFor, answers, other]

theorem handedFor_own (own : conversation c = some key) :
    handedFor key ((c, handed) :: log) = handed.toList ++ handedFor key log := by
  cases handed <;> simp [handedFor, answers, own]

/-- Of a finished letter nothing more is handed over, whatever comes. -/
theorem finished_run (finished : Finished (rows db key)) (ran : receiveAll limit calls db = .ok (db', log)) :
    handedFor key log = [] := by
  induction calls generalizing db log with
  | nil =>
    cases ran
    rfl
  | cons c rest ih =>
    obtain ⟨db₁, o, later, stepped, went, rfl⟩ := transduce_cons.mp ran
    by_cases own : conversation c = some key
    · obtain ⟨fields, parsed, mine⟩ := Option.map_eq_some_iff.mp own
      rw [receiveCall, friendMessageCb_fragment parsed] at stepped
      obtain ⟨⟨db₂, ready⟩, inserted, same⟩ := bind_ok.mp stepped
      cases same
      have step := (receive_of_insert inserted).1
      have here : (inFragment c.incoming c.tm fields).key = key := mine
      rw [here] at step
      obtain ⟨kept, rfl⟩ := finished.receive step
      rw [handedFor_own own, ih (kept ▸ finished) went]
      rfl
    · have kept := (confined limit).others (some key) stepped (Ne.symm own)
      have kept : rows db₁ key = rows db key := kept
      rw [handedFor_other own]
      exact ih (kept ▸ finished) went

/-- Every call that is for the letter's key brings a part of the letter. -/
def Genuine (l : Letter) (calls : List Call) : Prop :=
  ∀ c ∈ calls, conversation c = some l.key → ∃ k, Carries l k c.incoming

/-- What the calls in `past` began, the later ones go on with. -/
theorem patched_run (genuine : Genuine l calls) (patched : Patched l (came l past) (rows db l.key))
    (ran : receiveAll limit calls db = .ok (db', log)) :
    (handedFor l.key log).length ≤ 1 ∧ ∀ earlier c h later, log = earlier ++ (c, some h) :: later →
      conversation c = some l.key →
        h = ⟨l.friendNumber, c.incoming.type, l.stored (came l (past ++ earlier.map Prod.fst ++ [c]))⟩ := by
  induction calls generalizing db past log with
  | nil =>
    cases ran
    exact ⟨Nat.zero_le 1, by simp⟩
  | cons c rest ih =>
    obtain ⟨db₁, o, log₁, stepped, went, rfl⟩ := transduce_cons.mp ran
    have genuine₁ : Genuine l rest := fun c' member => genuine c' (List.mem_cons_of_mem _ member)
    by_cases own : conversation c = some l.key
    · obtain ⟨k, carried⟩ := genuine c List.mem_cons_self own
      obtain ⟨ready, step, rfl⟩ := receive_of_call carried stepped
      obtain ⟨patched₁, finishes⟩ := patched.receive (carries_iff.mp carried).2.1 step
      rw [← came_own carried] at patched₁ finishes
      rw [handedFor_own own]
      cases ready with
      | none =>
        obtain ⟨once, all⟩ := ih genuine₁ patched₁ went
        refine ⟨once, fun earlier c' h later split own' => ?_⟩
        cases earlier with
        | nil => cases split
        | cons entry earlier =>
          obtain ⟨rfl, same⟩ := List.cons.inj split
          simpa using all earlier c' h later same own'
      | some given =>
        obtain ⟨finished, message⟩ := finishes given rfl
        have nothing := finished_run finished went
        rw [nothing]
        refine ⟨Nat.le_refl 1, fun earlier c' h later split own' => ?_⟩
        cases earlier with
        | nil =>
          cases split
          simpa using message
        | cons entry earlier =>
          obtain ⟨_, same⟩ := List.cons.inj split
          have member : h ∈ handedFor l.key log₁ := mem_handedFor.mpr ⟨c', by simp [same], own'⟩
          rw [nothing] at member
          cases member
    · have kept : rows db₁ l.key = rows db l.key := (confined limit).others (some l.key) stepped (Ne.symm own)
      rw [← kept, ← came_other own] at patched
      obtain ⟨once, all⟩ := ih genuine₁ patched went
      rw [handedFor_other own]
      refine ⟨once, fun earlier c' h later split own' => ?_⟩
      cases earlier with
      | nil =>
        cases split
        exact absurd own' own
      | cons entry earlier =>
        obtain ⟨rfl, same⟩ := List.cons.inj split
        simpa using all earlier c' h later same own'

/-- Over any store without rows of the letter, among messages of any contents,
with its fragments in any order, doubled or missing: what the client is handed
of a letter, once at most, is as long as the letter, and has its bytes where a
part has come and zeros elsewhere. -/
theorem handed_is_patchwork (genuine : Genuine l calls) (absent : rows db l.key = {})
    (ran : receiveAll limit calls db = .ok (db', log)) :
    (handedFor l.key log).length ≤ 1 ∧ ∀ earlier c h later, log = earlier ++ (c, some h) :: later →
      conversation c = some l.key →
        h.friendNumber = l.friendNumber ∧ h.type = c.incoming.type ∧ h.message.length = l.bytes.length ∧
        ∀ i < l.bytes.length, h.message[i]? =
          if i / l.size ∈ came l (earlier.map Prod.fst ++ [c]) then l.bytes[i]? else some 0 := by
  have nothing : came l [] = ∅ := by
    ext k
    simp [mem_came]
  have patched : Patched l (came l []) (rows db l.key) := .inl ⟨absent, nothing⟩
  obtain ⟨once, all⟩ := patched_run genuine patched ran
  refine ⟨once, fun earlier c h later split own => ?_⟩
  rw [all earlier c h later split own]
  refine ⟨rfl, rfl, mosaic_length, fun i inside => ?_⟩
  change (mosaic 0 l.size l.bytes _)[i]? = _
  rw [mosaic_getElem?, List.nil_append, List.getElem?_eq_getElem inside, Option.map_some]
  split <;> rfl

/-- A letter of two parts that begins with a zero. -/
def zeroFirst : Letter :=
  { uniformLetter 1 with
    bytes := 0 :: List.replicate 64 1
    long := by decide
    small := by decide }

/-- Its first part. -/
def zeroPart (tm : Nat) : Call := ⟨packet zeroFirst 0 0, tm⟩

/-- The first part twice counts as both parts: the second half is zeros. -/
theorem handed_is_patchwork_of_first_twice : ∃ db' h,
    receiveAll defaultLimit [zeroPart 6, zeroPart 7] {} =
      .ok (db', [(zeroPart 6, none), (zeroPart 7, some h)]) ∧
    h.message.length = 65 ∧ h.message[40]? = some 0 := by
  have inside : 0 < zeroFirst.parts := by decide +kernel
  have carried : ∀ tm, Carries zeroFirst 0 (zeroPart tm).incoming := fun _ => carries_packet inside 0
  have first : receive defaultLimit (zeroFirst.inbound 0 0 6) {} =
      .ok (⟨some ⟨0, 6, 6, 1, 2⟩, some { message := zeroFirst.stored {0} }⟩, none) := by decide +kernel
  have second : receive defaultLimit (zeroFirst.inbound 0 0 7)
      ⟨some ⟨0, 6, 6, 1, 2⟩, some { message := zeroFirst.stored {0} }⟩ =
        .ok (⟨some ⟨0, 6, 7, 2, 2⟩, none⟩, some ⟨6, 7, 7, 0, zeroFirst.stored {0}⟩) := by decide +kernel
  have first : receive defaultLimit (zeroFirst.inbound 0 0 6) (rows {} zeroFirst.key) = _ := first
  obtain ⟨db₁, ran₁, rows₁, _⟩ := deliver_step (d := ⟨zeroFirst, 0, _, 6, carried 6⟩) first
  obtain ⟨db₂, ran₂, _, _⟩ := deliver_step (d := ⟨zeroFirst, 0, _, 7, carried 7⟩) (rows₁.symm ▸ second)
  have ran : receiveAll defaultLimit [zeroPart 6, zeroPart 7] {} = .ok (db₂, [(zeroPart 6, none),
      (zeroPart 7, some ⟨7, 0, zeroFirst.stored {0}⟩)]) :=
    transduce_cons.mpr ⟨db₁, _, _, ran₁, transduce_cons.mpr ⟨db₂, _, _, ran₂, rfl, rfl⟩, rfl⟩
  have genuine : Genuine zeroFirst [zeroPart 6, zeroPart 7] := by
    intro c member _
    rcases List.mem_cons.mp member with rfl | last
    · exact ⟨0, carried 6⟩
    · rw [List.mem_singleton.mp last]
      exact ⟨0, carried 7⟩
  obtain ⟨_, all⟩ := handed_is_patchwork genuine rfl ran
  obtain ⟨_, _, length, bytes⟩ := all [(zeroPart 6, none)] (zeroPart 7) _ [] rfl (conversation_carried (carried 7))
  refine ⟨db₂, _, ran, length, ?_⟩
  rw [bytes 40 (by decide +kernel), if_neg]
  intro member
  obtain ⟨c, here, second⟩ := mem_came.mp member
  have first : Carries zeroFirst 0 c.incoming := by
    rcases List.mem_cons.mp here with rfl | last
    · exact carried 6
    · rw [List.mem_singleton.mp last]
      exact carried 7
  have apart : 40 / zeroFirst.size ≠ 0 := by decide +kernel
  exact apart (carries_unique first second)

end Defragmenter.Patchwork
