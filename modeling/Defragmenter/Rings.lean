import Mathlib.Data.List.Cycle
import Mathlib.Logic.Function.Basic

/-! Rings of doubly linked nodes: the pointer writes that put a node in and take
one out, what they leave of a ring, and the loop that goes once around. -/
namespace Defragmenter.Rings
open Function

/-- The two pointers of every node. -/
structure Links (α : Type*) where
  next : α → α
  prev : α → α

variable {α : Type*} {links links' : Links α} {a b x y : α} {nodes nodes' rest mid : List α}

/-- `x` points forward to `y`, and `y` back to `x`. -/
def Joined (links : Links α) (x y : α) : Prop := links.next x = y ∧ links.prev y = x

/-- The nodes in their order around the ring, each once, from any one of them on. -/
structure Ring (links : Links α) (nodes : List α) : Prop where
  once : nodes.Nodup
  joined : Cycle.Chain (Joined links) (nodes : Cycle α)

theorem ring_cons : Ring links (a :: rest) ↔
    (a :: rest).Nodup ∧ List.IsChain (Joined links) (a :: (rest ++ [a])) := by
  constructor
  · intro ring
    exact ⟨ring.once, (Cycle.chain_coe_cons _ _ _).mp ring.joined⟩
  · rintro ⟨once, joined⟩
    exact ⟨once, (Cycle.chain_coe_cons _ _ _).mpr joined⟩

/-- Where a ring is said to begin does not matter. -/
theorem Ring.rotated (ring : Ring links nodes) (same : List.IsRotated nodes nodes') :
    Ring links nodes' where
  once := same.nodup_iff.mp ring.once
  joined := Cycle.coe_eq_coe.mpr same ▸ ring.joined

theorem Ring.turn {before after : List α} (ring : Ring links (before ++ after)) :
    Ring links (after ++ before) := ring.rotated List.isRotated_append

/-- A way from `x` to `y` is one still where its pointers forward, but for the
last node's, and its pointers back, but for the first node's, are what they were. -/
theorem chain_frame (chain : List.IsChain (Joined links) (x :: (mid ++ [y])))
    (next : ∀ z ∈ x :: mid, links'.next z = links.next z)
    (prev : ∀ z ∈ mid ++ [y], links'.prev z = links.prev z) :
    List.IsChain (Joined links') (x :: (mid ++ [y])) := by
  induction mid generalizing x with
  | nil =>
    rw [List.nil_append, List.isChain_pair] at chain ⊢
    exact ⟨(next x (by simp)).trans chain.1, (prev y (by simp)).trans chain.2⟩
  | cons z mid ih =>
    rw [List.cons_append, List.isChain_cons_cons] at chain ⊢
    obtain ⟨⟨forth, back⟩, later⟩ := chain
    refine ⟨⟨(next x (by simp)).trans forth, (prev z (by simp)).trans back⟩, ih later ?_ ?_⟩
    · intro u member
      exact next u (List.mem_cons_of_mem _ member)
    · intro u member
      exact prev u (List.mem_cons_of_mem _ member)

/-- A ring is one still after writes to other nodes. -/
theorem Ring.frame (ring : Ring links nodes) (next : ∀ z ∈ nodes, links'.next z = links.next z)
    (prev : ∀ z ∈ nodes, links'.prev z = links.prev z) : Ring links' nodes := by
  cases nodes with
  | nil => exact ⟨ring.once, Cycle.Chain.nil _⟩
  | cons a rest =>
    obtain ⟨once, chain⟩ := ring_cons.mp ring
    refine ring_cons.mpr ⟨once, chain_frame chain next fun z member => prev z ?_⟩
    rcases List.mem_append.mp member with member | member
    · exact List.mem_cons_of_mem _ member
    · rw [List.mem_singleton.mp member]
      exact List.mem_cons_self

theorem Ring.joined_all (ring : Ring links nodes) (member : x ∈ nodes) :
    links.prev (links.next x) = x ∧ links.next (links.prev x) = x ∧
      links.next x ∈ nodes ∧ links.prev x ∈ nodes := by
  obtain ⟨before, after, rfl⟩ := List.append_of_mem member
  have turned : Ring links (x :: (after ++ before)) := ring.turn
  have chain := (ring_cons.mp turned).2
  have first : links.prev (links.next x) = x ∧ links.next x ∈ before ++ x :: after := by
    cases around : after ++ before with
    | nil =>
      rw [around, List.nil_append, List.isChain_pair] at chain
      obtain ⟨forth, back⟩ := chain
      exact ⟨by rw [forth, back], by simp [forth]⟩
    | cons y others =>
      rw [around, List.cons_append, List.isChain_cons_cons] at chain
      obtain ⟨⟨forth, back⟩, -⟩ := chain
      have inside : y ∈ after ++ before := around ▸ List.mem_cons_self
      refine ⟨by rw [forth, back], ?_⟩
      rw [forth]
      simp only [List.mem_append, List.mem_cons] at inside ⊢
      tauto
  have last : links.next (links.prev x) = x ∧ links.prev x ∈ before ++ x :: after := by
    rcases List.eq_nil_or_concat (after ++ before) with around | ⟨others, y, around⟩
    · rw [around, List.nil_append, List.isChain_pair] at chain
      obtain ⟨forth, back⟩ := chain
      exact ⟨by rw [back, forth], by simp [back]⟩
    · have inside : y ∈ after ++ before := by simp [around]
      have both : List.IsChain (Joined links) (([x] ++ others) ++ y :: [x]) := by
        simpa [around] using chain
      obtain ⟨forth, back⟩ := List.isChain_pair.mp (List.isChain_split.mp both).2
      refine ⟨by rw [back, forth], ?_⟩
      rw [back]
      simp only [List.mem_append, List.mem_cons] at inside ⊢
      tauto
  exact ⟨first.1, last.1, first.2, last.2⟩

section Writes
variable [DecidableEq α]

def Links.setNext (links : Links α) (x y : α) : Links α :=
  { links with next := update links.next x y }

def Links.setPrev (links : Links α) (x y : α) : Links α :=
  { links with prev := update links.prev x y }

@[simp] theorem setNext_next : (links.setNext x y).next = update links.next x y := rfl
@[simp] theorem setNext_prev : (links.setNext x y).prev = links.prev := rfl
@[simp] theorem setPrev_next : (links.setPrev x y).next = links.next := rfl
@[simp] theorem setPrev_prev : (links.setPrev x y).prev = update links.prev x y := rfl

/-- A node on its own. -/
def Links.alone (links : Links α) (x : α) : Links α := (links.setNext x x).setPrev x x

/-- `x` behind `a`: first its own pointers, then those of its neighbours. -/
def Links.insertAfter (links : Links α) (a x : α) : Links α :=
  let links := links.setNext x (links.next a)
  let links := links.setPrev x a
  let links := links.setPrev (links.next a) x
  links.setNext a x

/-- The neighbours of `x` joined, and its own pointers left as they are. -/
def Links.remove (links : Links α) (x : α) : Links α :=
  let links := links.setPrev (links.next x) (links.prev x)
  links.setNext (links.prev x) (links.next x)

theorem ring_alone (links : Links α) (x : α) : Ring (links.alone x) [x] :=
  ring_cons.mpr ⟨by simp, by simp [Links.alone, Joined]⟩

theorem Ring.insertAfter (ring : Ring links (a :: rest)) (new : x ∉ a :: rest) :
    Ring (links.insertAfter a x) (a :: x :: rest) := by
  obtain ⟨once, chain⟩ := ring_cons.mp ring
  obtain ⟨notFirst, notRest⟩ := List.ne_and_not_mem_of_not_mem_cons new
  obtain ⟨firstOnce, restOnce⟩ := List.nodup_cons.mp once
  refine ring_cons.mpr ⟨?_, ?_⟩
  · simp only [List.nodup_cons, List.mem_cons, not_or]
    exact ⟨⟨Ne.symm notFirst, firstOnce⟩, notRest, restOnce⟩
  cases rest with
  | nil =>
    rw [List.nil_append, List.isChain_pair] at chain
    obtain ⟨forth, -⟩ := chain
    simp [Links.insertAfter, Joined, forth, notFirst, Ne.symm notFirst]
  | cons b later =>
    rw [List.cons_append, List.isChain_cons_cons] at chain
    obtain ⟨⟨forth, -⟩, others⟩ := chain
    obtain ⟨notNext, notLater⟩ := List.ne_and_not_mem_of_not_mem_cons notRest
    obtain ⟨apart, firstApart⟩ := List.ne_and_not_mem_of_not_mem_cons firstOnce
    obtain ⟨nextOnce, -⟩ := List.nodup_cons.mp restOnce
    simp only [List.cons_append, List.isChain_cons_cons]
    refine ⟨?_, ?_, chain_frame others ?_ ?_⟩
    · simp [Links.insertAfter, Joined, forth, Ne.symm notFirst, notNext]
    · simp [Links.insertAfter, Joined, forth, notFirst, Ne.symm notFirst]
    · intro z member
      have notA : z ≠ a := fun same => firstOnce (same ▸ member)
      have notX : z ≠ x := fun same => notRest (same ▸ member)
      simp [Links.insertAfter, notA, notX]
    · intro z member
      have notB : z ≠ b := by
        rintro rfl
        rcases List.mem_append.mp member with member | member
        · exact nextOnce member
        · exact apart (List.mem_singleton.mp member).symm
      have notX : z ≠ x := by
        rintro rfl
        rcases List.mem_append.mp member with member | member
        · exact notLater member
        · exact notFirst (List.mem_singleton.mp member)
      simp [Links.insertAfter, forth, Ne.symm notFirst, notB, notX]

theorem Ring.remove_first (ring : Ring links (x :: rest)) : Ring (links.remove x) rest := by
  obtain ⟨once, chain⟩ := ring_cons.mp ring
  obtain ⟨apart, restOnce⟩ := List.nodup_cons.mp once
  cases rest with
  | nil => exact ⟨restOnce, Cycle.Chain.nil _⟩
  | cons b later =>
    refine ring_cons.mpr ⟨restOnce, ?_⟩
    obtain ⟨nextOnce, -⟩ := List.nodup_cons.mp restOnce
    obtain ⟨notNext, notLater⟩ := List.ne_and_not_mem_of_not_mem_cons apart
    rw [List.cons_append, List.isChain_cons_cons] at chain
    obtain ⟨⟨forth, -⟩, others⟩ := chain
    rcases List.eq_nil_or_concat later with rfl | ⟨middle, c, rfl⟩
    · rw [List.nil_append, List.isChain_pair] at others
      obtain ⟨-, back⟩ := others
      simp [Links.remove, Joined, forth, back, notNext]
    · -- the last node `c` is joined to `b`, and every other pair was joined before
      have split : List.IsChain (Joined links) ((b :: middle) ++ c :: [x]) := by
        simpa using others
      obtain ⟨way, ending⟩ := List.isChain_split.mp split
      obtain ⟨-, back⟩ := List.isChain_pair.mp ending
      have notLast : c ≠ x := by
        rintro rfl
        exact notLater (by simp)
      have lastOnce : c ∉ b :: middle := by
        rw [List.concat_eq_append] at restOnce
        exact fun member => List.disjoint_of_nodup_append
          (show ((b :: middle) ++ [c]).Nodup from restOnce) member (by simp)
      have goal : List.IsChain (Joined (links.remove x)) ((b :: middle) ++ c :: [b]) := by
        refine List.isChain_split.mpr ⟨chain_frame way ?_ ?_, List.isChain_pair.mpr ?_⟩
        · intro z member
          have notC : z ≠ c := fun same => lastOnce (same ▸ member)
          simp [Links.remove, forth, back, notC, notNext]
        · intro z member
          have notB : z ≠ b := by
            rintro rfl
            rw [List.concat_eq_append] at nextOnce
            exact nextOnce member
          simp [Links.remove, forth, notB]
        · simp [Links.remove, Joined, forth, back, notNext]
      simpa using goal

theorem Ring.remove {before after : List α} (ring : Ring links (before ++ x :: after)) :
    Ring (links.remove x) (before ++ after) := by
  have turned : Ring links (x :: (after ++ before)) := ring.turn
  exact turned.remove_first.turn

/-- Putting `x` in touches only it, `a` and the node behind `a`. -/
theorem insertAfter_away {z : α} (notX : z ≠ x) (notA : z ≠ a) (notNext : z ≠ links.next a) :
    (links.insertAfter a x).next z = links.next z ∧ (links.insertAfter a x).prev z = links.prev z := by
  by_cases same : a = x <;> simp_all [Links.insertAfter]

theorem remove_away {z : α} (notNext : z ≠ links.next x) (notPrev : z ≠ links.prev x) :
    (links.remove x).next z = links.next z ∧ (links.remove x).prev z = links.prev z := by
  by_cases same : x = links.next x
  · have kept : update links.prev (links.next x) (links.prev x) = links.prev := by
      rw [← same]
      exact update_eq_self x links.prev
    simp [Links.remove, kept, notPrev]
  · simp [Links.remove, notNext, same, notPrev]

/-- A node alone stays as it is. -/
theorem remove_alone (next : links.next x = x) (prev : links.prev x = x) : links.remove x = links := by
  have forth : update links.next x x = links.next :=
    funext fun z => by by_cases same : z = x <;> simp [same, next]
  have back : update links.prev x x = links.prev :=
    funext fun z => by by_cases same : z = x <;> simp [same, prev]
  simp [Links.remove, next, prev, Links.setNext, Links.setPrev, forth, back]

/-! ## Going around -/

/-- `do { s = body(s, x); x = x->next; } while (x != start)`, which is `stuck` if
it has not come round in so many rounds. -/
def each {ε σ : Type*} (links : Links α) (start : α) (body : σ → α → Except ε σ) (stuck : ε) :
    Nat → α → σ → Except ε σ
  | 0, _, _ => .error stuck
  | rounds + 1, x, s => do
    let s ← body s x
    if links.next x = start then pure s else each links start body stuck rounds (links.next x) s

variable {ε σ : Type*} {body : σ → α → Except ε σ} {stuck : ε} {rounds : Nat}

theorem each_chain (chain : List.IsChain (Joined links) (x :: (mid ++ [a]))) (apart : a ∉ mid)
    (enough : mid.length < rounds) (s : σ) :
    each links a body stuck rounds x s = (x :: mid).foldlM body s := by
  induction mid generalizing x rounds s with
  | nil =>
    obtain ⟨rounds, rfl⟩ := Nat.exists_eq_add_of_lt enough
    rw [List.nil_append, List.isChain_pair] at chain
    simp [each, chain.1]
  | cons z mid ih =>
    obtain ⟨rounds, rfl⟩ := Nat.exists_eq_add_of_lt enough
    rw [List.cons_append, List.isChain_cons_cons] at chain
    obtain ⟨⟨forth, -⟩, later⟩ := chain
    obtain ⟨notFirst, apart⟩ := List.ne_and_not_mem_of_not_mem_cons apart
    have round : (z :: mid).length + rounds = (mid.length + rounds) + 1 := by
      simp only [List.length_cons]
      omega
    rw [round, each, List.foldlM_cons]
    congr
    funext s
    rw [forth, if_neg (Ne.symm notFirst)]
    exact ih later apart (by omega) s

/-- Going around a ring takes the nodes in their order, each once, and ends. -/
theorem Ring.each (ring : Ring links (a :: rest)) (enough : rest.length < rounds) (s : σ) :
    each links a body stuck rounds a s = (a :: rest).foldlM body s := by
  obtain ⟨once, chain⟩ := ring_cons.mp ring
  exact each_chain chain (List.nodup_cons.mp once).1 enough s

end Writes
end Defragmenter.Rings
