import Defragmenter.Restart
import Defragmenter.Tracking

/-! The state a process starts from when there are pending messages: each row
that is kept is a message at the next address, split anew, without its confirmed
fragments; nothing was called yet and no receipt is waited for. -/
namespace Defragmenter.Restored
open Database InboundStore Split Receipts Sender Moves Provenance Tracking Restart

/-- The rows that become messages, in the order in which they are read. -/
def keptRows (w : World) (ps : List PendingSent) : List PendingSent :=
  ps.filter fun p => (loaded w p).isSome

/-- What a process has made of these rows. -/
structure Loading (w : World) (ps : List PendingSent) (s : State) : Prop where
  fresh : s.fresh = (keptRows w ps).length
  heap : ∀ a, s.heap a = (keptRows w ps)[a]?.bind (loaded w)
  nodup : s.msgsOutbound.Nodup
  members : ∀ a ∈ s.msgsOutbound, a < s.fresh
  base : s.base = []
  receipts : s.receipts = receiptsInitialize
  events : s.events = []

variable {w : World} {db : Db} {ps : List PendingSent} {p : PendingSent} {s : State} {m : MsgOutbound}

theorem keptRows_snoc : keptRows w (ps ++ [p]) =
    if (loaded w p).isSome then keptRows w ps ++ [p] else keptRows w ps := by
  simp only [keptRows, List.filter_append, List.filter_cons, List.filter_nil]
  split <;> simp

theorem loading_settle (loading : Loading w ps s) :
    Loading w (ps ++ [p]) (settle s p (loaded w p)) := by
  cases found : loaded w p with
  | none =>
    have rows : keptRows w (ps ++ [p]) = keptRows w ps := by
      rw [keptRows_snoc, found]
      rfl
    obtain ⟨fresh, heap, nodup, members, base, receipts, events⟩ := loading
    exact ⟨by rw [rows]; exact fresh, by rw [rows]; exact heap, nodup, members, base, receipts, events⟩
  | some m =>
    have rows : keptRows w (ps ++ [p]) = keptRows w ps ++ [p] := by
      rw [keptRows_snoc, found]
      rfl
    have absent : s.fresh ∉ s.msgsOutbound := fun member => Nat.lt_irrefl _ (loading.members _ member)
    refine ⟨?_, fun a => ?_, nodup_link loading.nodup absent, fun a member => ?_, loading.base,
      loading.receipts, loading.events⟩
    · rw [rows, List.length_append, ← loading.fresh]
      rfl
    · change Function.update s.heap s.fresh (some m) a = _
      rw [rows]
      by_cases own : a = s.fresh
      · rw [own, Function.update_self, loading.fresh, List.getElem?_concat_length, Option.bind_some, found]
      · rw [Function.update_of_ne own, loading.heap]
        rcases Nat.lt_or_ge a (keptRows w ps).length with inside | beyond
        · rw [List.getElem?_append_left inside]
        · have past : (keptRows w ps ++ [p]).length ≤ a := by
            rw [List.length_append, List.length_singleton, ← loading.fresh]
            have := loading.fresh
            omega
          rw [List.getElem?_eq_none beyond, List.getElem?_eq_none past]
    · change a < s.fresh + 1
      rcases mem_link.mp member with rfl | earlier
      · exact Nat.lt_succ_self _
      · exact Nat.lt_succ_of_lt (loading.members a earlier)

theorem loading_all (rest : List PendingSent) : ∀ {ps : List PendingSent} {s : State},
    Loading w ps s → Loading w (ps ++ rest) (rest.foldl (fun s p => settle s p (loaded w p)) s) := by
  induction rest with
  | nil =>
    intro ps s loading
    rwa [List.append_nil]
  | cons p rest ih =>
    intro ps s loading
    have next := ih (loading_settle (p := p) loading)
    rwa [List.append_assoc] at next

theorem loading_started (started : initializeBoth w { db } = .ok s) :
    Loading w (stmtSelectFragmentedOutboundPending db) s := by
  have empty : Loading w [] (loadingState w db) :=
    ⟨rfl, fun _ => rfl, List.nodup_nil, fun _ member => (List.not_mem_nil member).elim, rfl, rfl, rfl⟩
  obtain ⟨s₁, settled, rfl⟩ := started_settled started
  have loading := loading_all (stmtSelectFragmentedOutboundPending db) empty
  rw [List.nil_append, ← settled] at loading
  exact ⟨loading.fresh, loading.heap, loading.nodup, loading.members, loading.base, loading.receipts,
    loading.events⟩

/-- A message that was restored is the one its bytes are split into, with some
fragments confirmed and freed. -/
structure Resumes (built m : MsgOutbound) : Prop where
  id : m.id = built.id
  type : m.type = built.type
  numParts : m.numParts = built.numParts
  fragments : m.fragments.length = built.fragments.length
  part : ∀ i, (part m i).confirmed = false → part m i = part built i

theorem resumes_of_loaded (found : loaded w p = some m) : ∃ built,
    splitMessage 0 p.message w.params.maxMessageLength p.id = .ok built ∧ Resumes built m := by
  unfold loaded at found
  cases split : splitMessage 0 p.message w.params.maxMessageLength p.id with
  | error fault =>
    rw [split] at found
    cases found
  | ok built =>
    rw [split] at found
    change resume p built = some m at found
    unfold resume at found
    dsimp only at found
    split at found
    · rename_i useful
      cases found
      have shaped := (unsent_of_split split).shaped
      have length : built.fragments.length = p.confirmed.length := by
        rw [shaped, useful.2.1]
      refine ⟨built, rfl, rfl, rfl, rfl, ?_, fun i unconfirmed => ?_⟩
      · change (List.zipWith restoreConfirmed built.fragments p.confirmed).length = _
        rw [List.length_zipWith, length, Nat.min_self]
      · simp only [Moves.part, List.getD_eq_getElem?_getD, List.getElem?_zipWith] at unconfirmed ⊢
        rcases Nat.lt_or_ge i built.fragments.length with inside | beyond
        · rw [List.getElem?_eq_getElem inside, List.getElem?_eq_getElem (length ▸ inside)] at unconfirmed ⊢
          simp only [Option.getD_some, restoreConfirmed] at unconfirmed ⊢
          split at unconfirmed
          · rw [if_pos ‹_›]
          · cases unconfirmed
        · rw [List.getElem?_eq_none beyond, List.getElem?_eq_none (length ▸ beyond)]
    · cases found

/-- The message at an address, and the row it was restored from. -/
theorem Loading.row (loading : Loading w ps s) {a : Nat} (found : s.heap a = some m) :
    ∃ p ∈ ps, (keptRows w ps)[a]? = some p ∧ loaded w p = some m := by
  rw [loading.heap] at found
  obtain ⟨p, at_a, kept⟩ := Option.bind_eq_some_iff.mp found
  exact ⟨p, (List.mem_filter.mp (List.mem_of_getElem? at_a)).1, at_a, kept⟩

theorem Loading.issued (loading : Loading w ps s) : Issued w s := by
  have quiet : ∀ {i : Nat} {call : BaseCall}, s.base[i]? ≠ some call := by
    intro i call found
    rw [loading.base] at found
    cases found
  refine ⟨fun {a m} found => ?_, fun {a m} found => ?_, fun found => absurd found quiet,
    fun found => absurd found quiet, fun k held => ?_⟩
  · obtain ⟨p, _, at_a, _⟩ := loading.row found
    rw [loading.fresh]
    exact (List.getElem?_eq_some_iff.mp at_a).1
  · obtain ⟨p, _, _, kept⟩ := loading.row found
    obtain ⟨built, split, resumes⟩ := resumes_of_loaded kept
    have unsent := unsent_of_split split
    rw [resumes.fragments, resumes.numParts]
    exact ⟨unsent.shaped, unsent.small⟩
  · rw [loading.receipts] at held
    exact absurd rfl held

theorem Loading.linked (loading : Loading w ps s) : Linked ⟨s, none, none⟩ := by
  refine ⟨loading.nodup, fun a member => ?_, by simp⟩
  have inside := loading.members a member
  rw [loading.fresh] at inside
  have kept := (List.mem_filter.mp (List.getElem_mem inside)).2
  obtain ⟨m, found⟩ := Option.isSome_iff_exists.mp kept
  refine ⟨m, ?_⟩
  change s.heap a = some m
  rw [loading.heap, List.getElem?_eq_getElem inside]
  exact found

end Defragmenter.Restored
