import Mathlib.Data.List.Basic

/-! Machines whose steps each work on one part of the state. What such a machine
has made of a part, and what it answered to the inputs for it, are what it
would have made of these inputs alone; so the order of inputs for different
parts does not matter. -/
namespace Defragmenter.Unwinding

variable {σ ι ω ε δ τ : Type}

/-- The inputs one after another, each with what the machine answers to it. -/
def transduce (step : ι → σ → Except ε (σ × ω)) : List ι → σ → Except ε (σ × List (ι × ω))
  | [], s => .ok (s, [])
  | i :: rest, s =>
    match step i s with
    | .error e => .error e
    | .ok (s', o) =>
      match transduce step rest s' with
      | .error e => .error e
      | .ok (s'', log) => .ok (s'', (i, o) :: log)

/-- A step reads and writes the part its input is for, and no other. -/
structure Confined (step : ι → σ → Except ε (σ × ω)) (part : ι → δ) (view : δ → σ → τ) : Prop where
  others : ∀ {i s s' o} d, step i s = .ok (s', o) → d ≠ part i → view d s' = view d s
  own : ∀ {i s s' t o}, step i s = .ok (s', o) → view (part i) t = view (part i) s →
    ∃ t', step i t = .ok (t', o) ∧ view (part i) t' = view (part i) s'

variable {step : ι → σ → Except ε (σ × ω)} {part : ι → δ} {view : δ → σ → τ}
  {inputs inputs' : List ι} {i : ι} {s s' t : σ} {o : ω} {log : List (ι × ω)}

theorem transduce_cons : transduce step (i :: inputs) s = .ok (s', log) ↔
    ∃ s₁ o rest, step i s = .ok (s₁, o) ∧ transduce step inputs s₁ = .ok (s', rest) ∧
      log = (i, o) :: rest := by
  rw [transduce]
  cases stepped : step i s with
  | error e => simp
  | ok result =>
    obtain ⟨s₁, o⟩ := result
    dsimp only
    cases ran : transduce step inputs s₁ with
    | error e => simp [ran]
    | ok rest =>
      obtain ⟨s₂, answers⟩ := rest
      simp only [Except.ok.injEq, Prod.mk.injEq]
      constructor
      · rintro ⟨rfl, rfl⟩
        exact ⟨s₁, o, answers, ⟨rfl, rfl⟩, ran, rfl⟩
      · rintro ⟨_, _, answers', ⟨rfl, rfl⟩, ran', rfl⟩
        cases ran.symm.trans ran'
        exact ⟨rfl, rfl⟩

variable [DecidableEq δ]

/-- The inputs for one part, and the answers to them. -/
def only (part : ι → δ) (d : δ) (inputs : List ι) : List ι := inputs.filter fun i => part i = d

def answers (part : ι → δ) (d : δ) (log : List (ι × ω)) : List (ι × ω) :=
  log.filter fun entry => part entry.1 = d

/-- The inputs for one part do alone, wherever that part is the same, what they
did between the others. -/
theorem Confined.alone (confined : Confined step part view) {d : δ} (same : view d t = view d s)
    (ran : transduce step inputs s = .ok (s', log)) :
    ∃ t', transduce step (only part d inputs) t = .ok (t', answers part d log) ∧ view d t' = view d s' := by
  induction inputs generalizing s t log with
  | nil =>
    cases ran
    exact ⟨t, rfl, same⟩
  | cons i rest ih =>
    obtain ⟨s₁, o, later, stepped, went, rfl⟩ := transduce_cons.mp ran
    by_cases mine : part i = d
    · subst mine
      obtain ⟨t₁, stepped', same'⟩ := confined.own stepped same
      obtain ⟨t', ran', after⟩ := ih same' went
      refine ⟨t', ?_, after⟩
      simp only [only, answers, List.filter_cons, decide_true, ↓reduceIte]
      exact transduce_cons.mpr ⟨t₁, o, _, stepped', ran', rfl⟩
    · have kept := confined.others d stepped (Ne.symm mine)
      obtain ⟨t', ran', after⟩ := ih (same.trans kept.symm) went
      refine ⟨t', ?_, after⟩
      simp only [only, answers, List.filter_cons, mine, decide_false, Bool.false_eq_true, ↓reduceIte]
      exact ran'

/-- If the inputs of every part go through on their own, all of them go through together. -/
theorem Confined.together (confined : Confined step part view)
    (each : ∀ d, ∃ result, transduce step (only part d inputs) s = .ok result) :
    ∃ result, transduce step inputs s = .ok result := by
  induction inputs generalizing s with
  | nil => exact ⟨(s, []), rfl⟩
  | cons i rest ih =>
    obtain ⟨⟨t, log⟩, ran⟩ := each (part i)
    simp only [only, List.filter_cons, decide_true, ↓reduceIte] at ran
    obtain ⟨s₁, o, later, stepped, went, rfl⟩ := transduce_cons.mp ran
    have after : ∀ d, ∃ result, transduce step (only part d rest) s₁ = .ok result := by
      intro d
      by_cases mine : part i = d
      · subst mine
        exact ⟨_, went⟩
      · obtain ⟨⟨u, other⟩, apart⟩ := each d
        simp only [only, List.filter_cons, mine, decide_false, Bool.false_eq_true, ↓reduceIte] at apart
        have kept := confined.others d stepped (Ne.symm mine)
        obtain ⟨u', apart', _⟩ := confined.alone kept apart
        exact ⟨_, by simpa only [only, List.filter_filter, Bool.and_self] using apart'⟩
    obtain ⟨⟨s', log⟩, ran'⟩ := ih after
    exact ⟨_, transduce_cons.mpr ⟨s₁, o, log, stepped, ran', rfl⟩⟩

/-- Inputs that are in the same order for every part go through in every other
order as well, with the same outcome for every part. -/
theorem Confined.reordered (confined : Confined step part view)
    (same : ∀ d, only part d inputs' = only part d inputs)
    (ran : transduce step inputs s = .ok (s', log)) :
    ∃ t' log', transduce step inputs' s = .ok (t', log') ∧
      ∀ d, view d t' = view d s' ∧ answers part d log' = answers part d log := by
  have each : ∀ d, ∃ result, transduce step (only part d inputs') s = .ok result := by
    intro d
    obtain ⟨u, went, _⟩ := confined.alone (d := d) rfl ran
    rw [same d]
    exact ⟨_, went⟩
  obtain ⟨⟨t', log'⟩, ran'⟩ := confined.together each
  refine ⟨t', log', ran', fun d => ?_⟩
  obtain ⟨u, went, after⟩ := confined.alone (d := d) rfl ran
  obtain ⟨u', went', after'⟩ := confined.alone (d := d) rfl ran'
  rw [same d] at went'
  obtain ⟨rfl, answered⟩ := Prod.mk.inj (Except.ok.inj (went.symm.trans went'))
  exact ⟨after'.symm.trans after, answered.symm⟩

end Defragmenter.Unwinding
