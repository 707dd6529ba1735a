import Defragmenter.Rings
import Defragmenter.Runs
import Defragmenter.Sender

/-! The list of outbound messages with its pointers. `Sender` has it as the list
of the nodes in their order around the ring; here the two are compared, and what
unlinking the first of two messages costs is counted. -/
namespace Defragmenter.OutboundList
open Rings Runs Sender Split

/-- `msgsOutbound`, and the pointers of every message. Nothing reads the
pointers of a message that was never linked. -/
structure Pointers where
  msgsOutbound : Option Nat := none
  links : Links Nat := ⟨id, id⟩

def msgsOutboundLink (p : Pointers) (msg : Nat) : Pointers :=
  match p.msgsOutbound with
  | some first => { p with links := p.links.insertAfter first msg }
  | none => { msgsOutbound := some msg, links := p.links.alone msg }

def msgsOutboundUnlink (p : Pointers) (msg : Nat) : Pointers where
  msgsOutbound :=
    if p.msgsOutbound = some msg then
      if p.links.next msg ≠ p.links.prev msg then some (p.links.prev msg) else none
    else p.msgsOutbound
  links := p.links.remove msg

/-- The loop of `msgsOutboundDeleteAll`, with the messages deleted so far. -/
def msgsOutboundDeleteAll : Nat → Pointers → List Nat → Option (List Nat)
  | 0, _, _ => none
  | rounds + 1, p, deleted =>
    match p.msgsOutbound with
    | none => some deleted
    | some msg => msgsOutboundDeleteAll rounds (msgsOutboundUnlink p msg) (deleted ++ [msg])

/-- `sendMore` along the pointers, which no message's turn writes to. -/
def sendMore (w : World) (p : Pointers) (rounds : Nat) (s : State) : Except Fault State :=
  match p.msgsOutbound with
  | none => .ok s
  | some first => each p.links first (serve w) .diverges rounds first s

/-! ## The calls -/

inductive Op where
  | link (msg : Nat)
  | unlink (msg : Nat)
  deriving DecidableEq

/-- The pointers, and the messages linked and not yet unlinked. -/
structure Outbound where
  pointers : Pointers := {}
  linked : List Nat := []

def step : Op → Outbound → Except Fault Outbound
  | .link msg, u => .ok ⟨msgsOutboundLink u.pointers msg, msg :: u.linked⟩
  | .unlink msg, u => .ok ⟨msgsOutboundUnlink u.pointers msg, u.linked.erase msg⟩

/-- Only new messages are linked, and only linked ones unlinked. -/
def Proper (u : Outbound) : Op → Prop
  | .link msg => msg ∉ u.linked
  | .unlink msg => msg ∈ u.linked

instance : ∀ u op, Decidable (Proper u op)
  | u, .link msg => inferInstanceAs (Decidable (msg ∉ u.linked))
  | u, .unlink msg => inferInstanceAs (Decidable (msg ∈ u.linked))

/-- The calls, last first, and what they lead to from the empty list. -/
abbrev Reaches (ops : List Op) (u : Outbound) : Prop := Run step Proper (· = {}) ops u

/-- What the list is for: it names every linked message once, whichever way it is
followed, and a pass over it serves every one of them once and ends. -/
structure Complete (u : Outbound) : Prop where
  empty : u.pointers.msgsOutbound = none ↔ u.linked = []
  around : ∀ first, u.pointers.msgsOutbound = some first → ∃ visited : List Nat,
    visited.Nodup ∧ (∀ msg, msg ∈ visited ↔ msg ∈ u.linked) ∧
    ∀ rounds, visited.length ≤ rounds → each u.pointers.links first
      (fun seen msg => Except.ok (seen ++ [msg])) Fault.diverges rounds first [] = .ok visited
  inverse : ∀ msg ∈ u.linked, u.pointers.links.prev (u.pointers.links.next msg) = msg ∧
    u.pointers.links.next (u.pointers.links.prev msg) = msg
  served : ∃ order : List Nat, order.Nodup ∧ (∀ msg, msg ∈ order ↔ msg ∈ u.linked) ∧
    ∀ w s rounds, order.length ≤ rounds →
      sendMore w u.pointers rounds s = order.foldlM (serve w) s

/-- `msgsOutboundDeleteAll` ends, and every linked message is among those it deleted. -/
def Empties (u : Outbound) : Prop :=
  ∃ rounds deleted, msgsOutboundDeleteAll rounds u.pointers [] = some deleted ∧
    ∀ msg ∈ u.linked, msg ∈ deleted

/-- The call that takes the first of exactly two messages out. -/
def UnlinksFirstOfTwo (u : Outbound) (op : Op) : Prop :=
  ∃ msg, op = .unlink msg ∧ u.pointers.msgsOutbound = some msg ∧ u.linked.length = 2

/-! ## The ring and what has dropped out of it -/

/-- The nodes reached from `msgsOutbound`, in order, and those that are reached
from nowhere, each of them alone in a ring of its own. -/
structure Shows (p : Pointers) (nodes orphans : List Nat) : Prop where
  first : p.msgsOutbound = nodes.head?
  ring : Ring p.links nodes
  alone : ∀ msg ∈ orphans, Ring p.links [msg]
  apart : nodes.Disjoint orphans

variable {p : Pointers} {nodes orphans : List Nat} {msg first : Nat} {u v : Outbound}
  {ops : List Op} {w : World}

theorem alone_iff {links : Links Nat} : Ring links [msg] ↔ links.next msg = msg ∧ links.prev msg = msg := by
  rw [ring_cons]
  simp [Rings.Joined]

theorem shows_link (shown : Shows p nodes orphans) (new : msg ∉ nodes) (newer : msg ∉ orphans) :
    Shows (msgsOutboundLink p msg) (Sender.msgsOutboundLink nodes msg) orphans := by
  have apart : (msg :: nodes).Disjoint orphans := List.disjoint_cons_left.mpr ⟨newer, shown.apart⟩
  cases nodes with
  | nil =>
    have empty : p.msgsOutbound = none := shown.first
    refine ⟨by simp [msgsOutboundLink, empty, Sender.msgsOutboundLink], ?_, ?_, apart⟩
    · simp only [msgsOutboundLink, empty]
      exact ring_alone _ _
    · intro orphan member
      have other : orphan ≠ msg := fun same => newer (same ▸ member)
      obtain ⟨next, prev⟩ := alone_iff.mp (shown.alone orphan member)
      simp only [msgsOutboundLink, empty]
      exact alone_iff.mpr (by simp [Links.alone, other, next, prev])
  | cons first rest =>
    have headed : p.msgsOutbound = some first := shown.first
    refine ⟨by simp [msgsOutboundLink, headed, Sender.msgsOutboundLink], ?_, ?_, ?_⟩
    · simp only [msgsOutboundLink, headed]
      exact shown.ring.insertAfter new
    · intro orphan member
      have outside : orphan ∉ first :: rest := fun inside => shown.apart inside member
      obtain ⟨-, -, nextInside, -⟩ := shown.ring.joined_all (List.mem_cons_self : first ∈ first :: rest)
      obtain ⟨next, prev⟩ := @insertAfter_away _ p.links first msg _ orphan
        (fun same => newer (same ▸ member))
        (fun same => outside (same ▸ List.mem_cons_self))
        (fun same => outside (same ▸ nextInside))
      simp only [msgsOutboundLink, headed]
      exact (shown.alone orphan member).frame (by simpa using next) (by simpa using prev)
    · intro other member
      simp only [Sender.msgsOutboundLink, List.mem_cons] at member
      exact apart (by simp only [List.mem_cons]; tauto)

/-- What drops out of the list when a message is unlinked. -/
def dropped : List Nat → Nat → List Nat
  | [first, other], msg => if msg = first then [other] else []
  | _, _ => []

theorem dropped_later {rest : List Nat} (later : msg ≠ first) : dropped (first :: rest) msg = [] := by
  unfold dropped
  split
  · rename_i a b matched
    cases matched
    exact if_neg later
  · rfl

/-- Unlinking writes to no ring but the message's own. -/
theorem alone_unlink {orphan : Nat} (shown : Shows p nodes orphans) (member : msg ∈ nodes)
    (outside : orphan ∈ orphans) : Ring (p.links.remove msg) [orphan] := by
  obtain ⟨-, -, nextInside, prevInside⟩ := shown.ring.joined_all member
  have away : orphan ∉ nodes := fun inside => shown.apart inside outside
  obtain ⟨next, prev⟩ := @remove_away _ p.links msg _ orphan
    (fun same : orphan = _ => away (same ▸ nextInside))
    (fun same : orphan = _ => away (same ▸ prevInside))
  exact (shown.alone orphan outside).frame (by simpa using next) (by simpa using prev)

/-- Unlinking a message from the ring is what `Sender` has, and the second of two
messages drops out with the first. -/
theorem shows_unlink (shown : Shows p nodes orphans) (member : msg ∈ nodes) :
    Shows (msgsOutboundUnlink p msg) (Sender.msgsOutboundUnlink nodes msg)
      (dropped nodes msg ++ orphans) := by
  have kept : ∀ orphan ∈ orphans, Ring (p.links.remove msg) [orphan] := fun orphan outside =>
    alone_unlink shown member outside
  cases nodes with
  | nil => cases member
  | cons first rest =>
    have headed : p.msgsOutbound = some first := shown.first
    obtain ⟨firstAway, restAway⟩ := List.disjoint_cons_left.mp shown.apart
    by_cases same : msg = first
    · subst same
      have left : Ring (p.links.remove msg) rest := shown.ring.remove_first
      have chain := (ring_cons.mp shown.ring).2
      cases rest with
      | nil =>
        obtain ⟨next, prev⟩ := alone_iff.mp shown.ring
        have shape : Sender.msgsOutboundUnlink [msg] msg = [] := by simp [Sender.msgsOutboundUnlink]
        rw [shape]
        exact ⟨by simp [msgsOutboundUnlink, headed, next, prev], left, kept,
          List.disjoint_nil_left _⟩
      | cons b middle =>
        rw [List.cons_append, List.isChain_cons_cons] at chain
        obtain ⟨⟨next, -⟩, chain⟩ := chain
        rcases List.eq_nil_or_concat middle with rfl | ⟨middle, last, rfl⟩
        · -- `next` and `prev` are both the other message, which stays behind alone
          obtain ⟨-, prev⟩ := List.isChain_pair.mp chain
          have shape : Sender.msgsOutboundUnlink [msg, b] msg = [] := by
            simp [Sender.msgsOutboundUnlink]
          rw [shape]
          refine ⟨?_, ⟨.nil, Cycle.Chain.nil _⟩, ?_, List.disjoint_nil_left _⟩
          · simp [msgsOutboundUnlink, headed, next, prev]
          · intro orphan outside
            rcases List.mem_append.mp outside with here | there
            · simp only [dropped, ↓reduceIte, List.mem_singleton] at here
              rw [here]
              exact left
            · exact kept orphan there
        · -- the last message is the first from now on
          rw [List.concat_eq_append] at *
          have split : List.IsChain (Rings.Joined p.links) ((b :: middle) ++ last :: [msg]) := by
            simpa using chain
          obtain ⟨-, prev⟩ := List.isChain_pair.mp (List.isChain_split.mp split).2
          have apart : b ≠ last := by
            rintro rfl
            have := left.once
            simp at this
          have shape : Sender.msgsOutboundUnlink (msg :: b :: (middle ++ [last])) msg =
              last :: b :: middle := by
            have shown : b :: (middle ++ [last]) = (b :: middle) ++ [last] := rfl
            simp only [Sender.msgsOutboundUnlink, ↓reduceIte]
            rw [shown, List.getLast?_concat, List.dropLast_concat]
            simp
          have none : dropped (msg :: b :: (middle ++ [last])) msg = [] := by
            cases middle <;> rfl
          rw [shape, none]
          refine ⟨?_, ?_, kept, ?_⟩
          · simp [msgsOutboundUnlink, headed, next, prev, apart]
          · have turned : Ring (p.links.remove msg) ((b :: middle) ++ [last]) := left
            exact turned.turn
          · intro other inside
            exact restAway (by
              simp only [List.mem_cons, List.mem_append, List.not_mem_nil, or_false] at inside ⊢
              tauto)
    · have inside : msg ∈ rest := (List.mem_cons.mp member).resolve_left same
      obtain ⟨before, after, rfl⟩ := List.append_of_mem inside
      have notBefore : msg ∉ before := fun there =>
        List.disjoint_of_nodup_append (List.nodup_cons.mp shown.ring.once).2 there (by simp)
      have shape : Sender.msgsOutboundUnlink (first :: (before ++ msg :: after)) msg =
          (first :: before) ++ after := by
        simp [Sender.msgsOutboundUnlink, same, List.erase_append_right _ notBefore]
      have whole : Ring p.links ((first :: before) ++ msg :: after) := shown.ring
      rw [shape, dropped_later same]
      refine ⟨?_, whole.remove, kept, ?_⟩
      · have other : first ≠ msg := Ne.symm same
        simp [msgsOutboundUnlink, headed, other]
      · intro other there
        refine shown.apart (?_ : other ∈ first :: (before ++ msg :: after))
        simp only [List.mem_cons, List.mem_append] at there ⊢
        tauto

/-- A message that dropped out can still be unlinked, to no effect on the list. -/
theorem shows_unlink_orphan (shown : Shows p nodes orphans) (member : msg ∈ orphans) :
    Shows (msgsOutboundUnlink p msg) nodes (orphans.erase msg) := by
  obtain ⟨next, prev⟩ := alone_iff.mp (shown.alone msg member)
  have outside : msg ∉ nodes := fun inside => shown.apart inside member
  have same : p.links.remove msg = p.links := remove_alone next prev
  have headed : p.msgsOutbound ≠ some msg := by
    rw [shown.first]
    exact fun first => outside (List.mem_of_mem_head? first)
  refine ⟨?_, ?_, ?_, ?_⟩
  · simp only [msgsOutboundUnlink, if_neg headed]
    exact shown.first
  · simp only [msgsOutboundUnlink, same]
    exact shown.ring
  · intro orphan there
    simp only [msgsOutboundUnlink, same]
    exact shown.alone orphan (List.mem_of_mem_erase there)
  · exact fun other inside there => shown.apart inside (List.mem_of_mem_erase there)

/-! ## Runs -/

/-- Every linked message is around the ring, or has dropped out of it. -/
structure Ringed (u : Outbound) (nodes orphans : List Nat) : Prop where
  shown : Shows u.pointers nodes orphans
  once : orphans.Nodup
  linked : (nodes ++ orphans).Perm u.linked

theorem dropped_first_length {rest : List Nat} :
    (dropped (first :: rest) first).length = if rest.length = 1 then 1 else 0 := by
  match rest with
  | [] => rfl
  | [other] => simp [dropped]
  | _ :: _ :: _ => simp [dropped]

theorem unlink_perm (member : msg ∈ nodes) :
    (Sender.msgsOutboundUnlink nodes msg ++ dropped nodes msg).Perm (nodes.erase msg) := by
  cases nodes with
  | nil => cases member
  | cons first rest =>
    by_cases same : msg = first
    · subst same
      rw [List.erase_cons_head]
      rcases List.eq_nil_or_concat rest with rfl | ⟨middle, last, rfl⟩
      · simp [Sender.msgsOutboundUnlink, dropped]
      · cases middle with
        | nil => simp [Sender.msgsOutboundUnlink, dropped]
        | cons b middle =>
          have shape : b :: (middle ++ [last]) = (b :: middle) ++ [last] := rfl
          have none : dropped (msg :: b :: (middle ++ [last])) msg = [] := by cases middle <;> rfl
          rw [List.concat_eq_append, List.cons_append, none, List.append_nil]
          simp only [Sender.msgsOutboundUnlink, ↓reduceIte]
          rw [shape, List.getLast?_concat, List.dropLast_concat]
          simpa using @List.perm_append_comm _ [last] (b :: middle)
    · have other : first ≠ msg := Ne.symm same
      rw [dropped_later same, List.append_nil, List.erase_cons_tail (by simpa using other)]
      simp [Sender.msgsOutboundUnlink, same]

theorem ringed_link (ringed : Ringed u nodes orphans) (new : msg ∉ u.linked)
    (stepped : step (.link msg) u = .ok v) : ∃ nodes', Ringed v nodes' orphans := by
  cases stepped
  have outside : msg ∉ nodes ++ orphans := fun inside => new (ringed.linked.mem_iff.mp inside)
  obtain ⟨notNode, notOrphan⟩ : msg ∉ nodes ∧ msg ∉ orphans := by simpa using outside
  refine ⟨_, shows_link ringed.shown notNode notOrphan, ringed.once, ?_⟩
  have listed : (Sender.msgsOutboundLink nodes msg).Perm (msg :: nodes) := by
    cases nodes with
    | nil => exact .rfl
    | cons first rest => exact .swap _ _ _
  exact (listed.append_right orphans).trans (ringed.linked.cons msg)

theorem ringed_unlink (ringed : Ringed u nodes orphans) (member : msg ∈ nodes)
    (stepped : step (.unlink msg) u = .ok v) :
    Ringed v (Sender.msgsOutboundUnlink nodes msg) (dropped nodes msg ++ orphans) := by
  cases stepped
  have perm := unlink_perm member
  refine ⟨shows_unlink ringed.shown member, ?_, ?_⟩
  · have inside : ∀ other ∈ dropped nodes msg, other ∈ nodes := fun other there =>
      List.mem_of_mem_erase (perm.mem_iff.mp (List.mem_append_right _ there))
    refine List.Nodup.append ?_ ringed.once fun other there => ringed.shown.apart (inside other there)
    have all := perm.nodup_iff.mpr (ringed.shown.ring.once.erase msg)
    exact (List.nodup_append.mp all).2.1
  · rw [← List.append_assoc]
    have kept : (nodes ++ orphans).erase msg = nodes.erase msg ++ orphans :=
      List.erase_append_left _ member
    exact (perm.append_right orphans).trans (kept ▸ ringed.linked.erase msg)

theorem ringed_unlink_orphan (ringed : Ringed u nodes orphans) (member : msg ∈ orphans)
    (stepped : step (.unlink msg) u = .ok v) : Ringed v nodes (orphans.erase msg) := by
  cases stepped
  have outside : msg ∉ nodes := fun inside => ringed.shown.apart inside member
  refine ⟨shows_unlink_orphan ringed.shown member, ringed.once.erase msg, ?_⟩
  have kept : (nodes ++ orphans).erase msg = nodes ++ orphans.erase msg :=
    List.erase_append_right _ outside
  exact kept ▸ ringed.linked.erase msg

/-- One call keeps the ring and what dropped out of it apart. -/
theorem ringed_step {op : Op} (ringed : Ringed u nodes orphans) (proper : Proper u op)
    (stepped : step op u = .ok v) : ∃ nodes' orphans', Ringed v nodes' orphans' := by
  cases op with
  | link msg =>
    obtain ⟨nodes', ringed⟩ := ringed_link ringed proper stepped
    exact ⟨nodes', orphans, ringed⟩
  | unlink msg =>
    rcases List.mem_append.mp (ringed.linked.mem_iff.mpr proper) with inside | outside
    · exact ⟨_, _, ringed_unlink ringed inside stepped⟩
    · exact ⟨_, _, ringed_unlink_orphan ringed outside stepped⟩

theorem ringed_start : Ringed {} [] [] :=
  ⟨⟨rfl, ⟨.nil, Cycle.Chain.nil _⟩, by simp, List.disjoint_nil_left _⟩, .nil, .rfl⟩

theorem ringed_run (run : Reaches ops u) : ∃ nodes orphans, Ringed u nodes orphans := by
  refine run.invariant (I := fun u => ∃ nodes orphans, Ringed u nodes orphans) ?_ ?_
  · rintro _ rfl
    exact ⟨[], [], ringed_start⟩
  · rintro _ op _ ⟨nodes, orphans, ringed⟩ proper stepped
    exact ringed_step ringed proper stepped

/-! ## What a pass reaches -/

theorem foldlM_collect (visited seen : List Nat) :
    visited.foldlM (fun seen msg => Except.ok (seen ++ [msg])) seen =
      (.ok (seen ++ visited) : Except Fault (List Nat)) := by
  induction visited generalizing seen with
  | nil => simp [pure, Except.pure]
  | cons msg visited ih => exact (ih (seen ++ [msg])).trans (by simp)

/-- A pass over the pointers is the pass over the list that `Sender` has. -/
theorem sendMore_shows {rounds : Nat} (shown : Shows p nodes orphans) (enough : nodes.length ≤ rounds)
    (s : State) : sendMore w p rounds s = nodes.foldlM (serve w) s := by
  cases nodes with
  | nil =>
    have empty : p.msgsOutbound = none := shown.first
    simp only [sendMore, empty]
    rfl
  | cons first rest =>
    have headed : p.msgsOutbound = some first := shown.first
    simp only [sendMore, headed]
    exact shown.ring.each enough s

/-- The list is complete exactly when nothing has dropped out of it. -/
theorem complete_iff (ringed : Ringed u nodes orphans) : Complete u ↔ orphans = [] := by
  constructor
  · intro complete
    cases nodes with
    | nil =>
      have none := complete.empty.mp ringed.shown.first
      have perm := ringed.linked
      rw [none] at perm
      exact perm.eq_nil
    | cons first rest =>
      obtain ⟨visited, -, same, around⟩ := complete.around first ringed.shown.first
      have went := around (visited.length + (first :: rest).length) (Nat.le_add_right _ _)
      have enough : rest.length < visited.length + (first :: rest).length := by
        rw [List.length_cons]
        omega
      rw [ringed.shown.ring.each enough, foldlM_collect, List.nil_append] at went
      cases went
      refine List.eq_nil_iff_forall_not_mem.mpr fun orphan outside => ?_
      have linked : orphan ∈ u.linked := ringed.linked.mem_iff.mp (List.mem_append_right _ outside)
      exact ringed.shown.apart ((same orphan).mpr linked) outside
  · rintro rfl
    have perm : nodes.Perm u.linked := by simpa using ringed.linked
    have once := ringed.shown.ring.once
    refine ⟨?_, ?_, ?_, ⟨nodes, once, fun msg => perm.mem_iff, fun w s rounds enough =>
      sendMore_shows ringed.shown enough s⟩⟩
    · rw [ringed.shown.first, List.head?_eq_none_iff]
      constructor
      · rintro rfl
        exact perm.nil_eq.symm
      · intro none
        rw [none] at perm
        exact perm.eq_nil
    · intro first headed
      rw [ringed.shown.first] at headed
      obtain ⟨rest, rfl⟩ := List.head?_eq_some_iff.mp headed
      refine ⟨_, once, fun msg => perm.mem_iff, fun rounds enough => ?_⟩
      rw [ringed.shown.ring.each enough, foldlM_collect, List.nil_append]
    · intro msg linked
      obtain ⟨back, forth, -⟩ := ringed.shown.ring.joined_all (perm.mem_iff.mpr linked)
      exact ⟨back, forth⟩

/-- The second of two messages is all that ever drops out. -/
theorem complete_step {op : Op} (ringed : Ringed u nodes []) (proper : Proper u op)
    (stepped : step op u = .ok v) : Complete v ↔ ¬ UnlinksFirstOfTwo u op := by
  have perm : nodes.Perm u.linked := by simpa using ringed.linked
  cases op with
  | link msg =>
    obtain ⟨nodes', after⟩ := ringed_link ringed proper stepped
    refine ⟨?_, fun _ => (complete_iff after).mpr rfl⟩
    rintro - ⟨other, impossible, -⟩
    cases impossible
  | unlink msg =>
    have inside : msg ∈ nodes := perm.mem_iff.mpr proper
    rw [complete_iff (ringed_unlink ringed inside stepped), List.append_nil]
    have first : u.pointers.msgsOutbound = nodes.head? := ringed.shown.first
    constructor
    · rintro none ⟨other, same, headed, two⟩
      cases same
      obtain ⟨a, b, rfl⟩ := List.length_eq_two.mp (perm.length_eq.trans two)
      rw [first] at headed
      cases headed
      simp [dropped] at none
    · intro other
      unfold dropped
      split
      · rename_i a b
        refine if_neg fun same => other ⟨msg, rfl, first.trans (congrArg some same.symm), ?_⟩
        exact perm.length_eq.symm
      · rfl

/-! ## Deleting all -/

theorem deleteAll_length {rounds : Nat} {deleted gone : List Nat} (shown : Shows p nodes orphans)
    (done : msgsOutboundDeleteAll rounds p deleted = some gone) :
    gone.length = deleted.length + (if 2 ≤ nodes.length then nodes.length - 1 else nodes.length) := by
  induction rounds generalizing p nodes orphans deleted with
  | zero => cases done
  | succ rounds ih =>
    cases nodes with
    | nil =>
      have empty : p.msgsOutbound = none := shown.first
      simp only [msgsOutboundDeleteAll, empty] at done
      cases done
      simp
    | cons first rest =>
      have headed : p.msgsOutbound = some first := shown.first
      simp only [msgsOutboundDeleteAll, headed] at done
      have counted := ih (shows_unlink shown List.mem_cons_self) done
      have length := (unlink_perm (List.mem_cons_self : first ∈ first :: rest)).length_eq
      rw [List.length_append, dropped_first_length, List.erase_cons_head] at length
      rw [counted]
      simp only [List.length_append, List.length_cons, List.length_nil]
      split at length <;> split <;> split <;> omega

/-- Deleting all leaves one message behind as soon as there are two. -/
theorem empties_iff (ringed : Ringed u nodes orphans) :
    Empties u ↔ orphans = [] ∧ u.linked.length ≤ 1 := by
  have size := ringed.linked.length_eq
  rw [List.length_append] at size
  constructor
  · rintro ⟨rounds, deleted, done, all⟩
    have counted := deleteAll_length ringed.shown done
    have once : u.linked.Nodup := ringed.linked.nodup_iff.mp
      (ringed.shown.ring.once.append ringed.once ringed.shown.apart)
    have bound := (once.subperm all).length_le
    rw [List.length_nil, Nat.zero_add] at counted
    rw [← List.length_eq_zero_iff]
    split at counted <;> omega
  · rintro ⟨rfl, few⟩
    have perm : nodes.Perm u.linked := by simpa using ringed.linked
    match nodes, ringed with
    | [], ringed =>
      have empty : u.pointers.msgsOutbound = none := ringed.shown.first
      exact ⟨1, [], by simp [msgsOutboundDeleteAll, empty], fun msg linked => perm.mem_iff.mpr linked⟩
    | [first], ringed =>
      have headed : u.pointers.msgsOutbound = some first := ringed.shown.first
      have shape : Sender.msgsOutboundUnlink [first] first = [] := by simp [Sender.msgsOutboundUnlink]
      have after := (shows_unlink ringed.shown List.mem_cons_self).first
      rw [shape, List.head?_nil] at after
      exact ⟨2, [first], by simp [msgsOutboundDeleteAll, headed, after],
        fun msg linked => perm.mem_iff.mpr linked⟩
    | first :: second :: rest, ringed =>
      simp only [List.length_cons, List.length_nil] at size
      omega

/-! ## The list loses nothing -/

theorem outbound_list_iff (run : Reaches ops u) :
    ((∀ earlier v, earlier <:+ ops → Reaches earlier v → Complete v) ↔
      ∀ op earlier v, op :: earlier <:+ ops → Reaches earlier v → ¬ UnlinksFirstOfTwo v op) ∧
    (Empties u ↔ Complete u ∧ u.linked.length ≤ 1) := by
  refine ⟨⟨?_, ?_⟩, ?_⟩
  · intro complete op earlier v early reached
    obtain ⟨after, run⟩ := run.earlier early
    cases run with
    | cons before proper stepped =>
      cases before.unique reached
      obtain ⟨nodes, orphans, ringed⟩ := ringed_run reached
      cases (complete_iff ringed).mp (complete earlier v ((List.suffix_cons op earlier).trans early) reached)
      exact (complete_step ringed proper stepped).mp
        (complete (op :: earlier) after early (.cons reached proper stepped))
  · intro never earlier v early reached
    suffices kept : ∃ nodes, Ringed v nodes [] by
      obtain ⟨nodes, ringed⟩ := kept
      exact (complete_iff ringed).mpr rfl
    induction reached with
    | nil started =>
      cases started
      exact ⟨[], ringed_start⟩
    | cons reached proper stepped ih =>
      rename_i earlier before after op
      obtain ⟨nodes, ringed⟩ := ih ((List.suffix_cons op earlier).trans early)
      have complete := (complete_step ringed proper stepped).mpr (never op earlier before early reached)
      obtain ⟨nodes', orphans', ringed'⟩ := ringed_step ringed proper stepped
      cases (complete_iff ringed').mp complete
      exact ⟨nodes', ringed'⟩
  · obtain ⟨nodes, orphans, ringed⟩ := ringed_run run
    rw [empties_iff ringed, complete_iff ringed]

/-- Three messages, of which the second and then the first are taken out. -/
theorem outbound_list_iff_of_three :
    ∃ u, Reaches [.unlink 1, .unlink 2, .link 3, .link 2, .link 1] u ∧
      u.pointers.msgsOutbound = none ∧ ¬ Empties u := by
  obtain ⟨u, run, checked⟩ := @exists_run _ _ _ (· = ({} : Outbound)) step Proper _
    [.link 1, .link 2, .link 3, .unlink 2, .unlink 1]
    (fun u => decide (u.pointers.msgsOutbound = none ∧ u.linked = [3])) {} rfl (by decide +kernel)
  obtain ⟨gone, linked⟩ := of_decide_eq_true checked
  refine ⟨u, run, gone, fun empties => ?_⟩
  obtain ⟨complete, -⟩ := (outbound_list_iff run).2.mp empties
  rw [complete.empty.mp gone] at linked
  cases linked

/-- With the first of two messages the second is lost: it stays linked, and
nothing reaches it. -/
theorem second_of_two_lost :
    ∃ u, Reaches [.unlink 1, .link 2, .link 1] u ∧ u.linked = [2] ∧ ¬ Complete u := by
  obtain ⟨u, run, checked⟩ := @exists_run _ _ _ (· = ({} : Outbound)) step Proper _
    [.link 1, .link 2, .unlink 1]
    (fun u => decide (u.pointers.msgsOutbound = none ∧ u.linked = [2])) {} rfl (by decide +kernel)
  obtain ⟨gone, linked⟩ := of_decide_eq_true checked
  refine ⟨u, run, linked, fun complete => ?_⟩
  rw [complete.empty.mp gone] at linked
  cases linked

end Defragmenter.OutboundList
