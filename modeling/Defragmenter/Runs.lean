import Mathlib.Logic.Relation

/-! Runs of a deterministic step function that can fail, each step under a
guard on the state it is taken from. A run is what a caller can bring about; a
property of every state a run reaches is proved by `Run.invariant`, and a
concrete run is built by evaluating it with `exec`. -/
namespace Defragmenter.Runs

variable {σ ι ε : Type}

/-- The states reached from a start state by steps that return and meet their
guard, with the operations taken, last first. -/
inductive Run (step : ι → σ → Except ε σ) (guard : σ → ι → Prop) (start : σ → Prop) :
    List ι → σ → Prop where
  | nil {s : σ} : start s → Run step guard start [] s
  | cons {ops : List ι} {s s' : σ} {op : ι} : Run step guard start ops s → guard s op →
      step op s = .ok s' → Run step guard start (op :: ops) s'

variable {step : ι → σ → Except ε σ} {guard guard' : σ → ι → Prop} {start : σ → Prop}
  {ops : List ι} {s : σ}

/-- What holds at the start and is kept by every guarded step holds in every
state a run reaches. -/
theorem Run.invariant {I : σ → Prop} (run : Run step guard start ops s)
    (init : ∀ s, start s → I s)
    (keep : ∀ s op s', I s → guard s op → step op s = .ok s' → I s') : I s := by
  induction run with
  | nil started => exact init _ started
  | cons _ guarded stepped ih => exact keep _ _ _ ih guarded stepped

theorem Run.weaken (run : Run step guard start ops s)
    (implies : ∀ s op, guard s op → guard' s op) : Run step guard' start ops s := by
  induction run with
  | nil started => exact .nil started
  | cons _ guarded stepped ih => exact .cons ih (implies _ _ guarded) stepped

/-- Steps that another step function takes as well make a run of its own. -/
theorem Run.steps {step' : ι → σ → Except ε σ} (run : Run step guard start ops s)
    (implies : ∀ s op s', step op s = .ok s' → step' op s = .ok s') : Run step' guard start ops s := by
  induction run with
  | nil started => exact .nil started
  | cons _ guarded stepped ih => exact .cons ih guarded (implies _ _ _ stepped)

/-- A run goes on from the state it has reached. -/
theorem Run.append {more : List ι} {s' : σ} (run : Run step guard start ops s)
    (rest : Run step guard (· = s) more s') : Run step guard start (more ++ ops) s' := by
  induction rest with
  | nil same => exact same ▸ run
  | cons _ guarded stepped ih => exact .cons ih guarded stepped

/-- Where every step is one of another system under an abstraction, or none,
so is every run: the run refines the other system. -/
theorem Run.refines {τ : Type} {Next : τ → τ → Prop} {I : σ → Prop} (abstraction : σ → τ)
    (run : Run step guard start ops s) (init : ∀ s, start s → I s)
    (keep : ∀ s op s', I s → guard s op → step op s = .ok s' → I s')
    (simulates : ∀ s op s', I s → guard s op → step op s = .ok s' →
      abstraction s' = abstraction s ∨ Next (abstraction s) (abstraction s')) :
    ∃ s₀, start s₀ ∧ Relation.ReflTransGen Next (abstraction s₀) (abstraction s) := by
  induction run with
  | nil started => exact ⟨_, started, .refl⟩
  | cons run guarded stepped ih =>
    obtain ⟨s₀, started, reached⟩ := ih
    have holds := run.invariant init keep
    refine ⟨s₀, started, ?_⟩
    rcases simulates _ _ _ holds guarded stepped with same | next
    · rw [same]
      exact reached
    · exact reached.tail next

/-- A run has run through all its earlier states. -/
theorem Run.earlier {before : List ι} (run : Run step guard start ops s) (early : before <:+ ops) :
    ∃ t, Run step guard start before t := by
  induction run with
  | nil started =>
    rw [List.suffix_nil.mp early]
    exact ⟨_, .nil started⟩
  | cons run guarded stepped ih =>
    rcases List.suffix_cons_iff.mp early with rfl | early
    · exact ⟨_, .cons run guarded stepped⟩
    · exact ih early

/-- From one start state the same operations lead to the same state. -/
theorem Run.unique {init t : σ} (run : Run step guard (· = init) ops s)
    (other : Run step guard (· = init) ops t) : t = s := by
  induction run generalizing t with
  | nil started =>
    cases other with
    | nil started' => exact started'.trans started.symm
  | cons _ _ stepped ih =>
    cases other with
    | cons other _ stepped' =>
      rw [ih other, stepped] at stepped'
      exact (Except.ok.inj stepped').symm

/-- The operations in order, checking every guard; nothing if one fails or a
step does. -/
def exec (step : ι → σ → Except ε σ) (guard : σ → ι → Prop) [∀ s op, Decidable (guard s op)] :
    List ι → σ → Option σ
  | [], s => some s
  | op :: rest, s =>
    if guard s op then
      match step op s with
      | .ok s' => exec step guard rest s'
      | .error _ => none
    else none

theorem Run.exec [∀ s op, Decidable (guard s op)] {rest : List ι} {s' : σ}
    (run : Run step guard start ops s) (executed : Runs.exec step guard rest s = some s') :
    Run step guard start (rest.reverse ++ ops) s' := by
  induction rest generalizing ops s with
  | nil =>
    cases executed
    exact run
  | cons op rest ih =>
    simp only [Runs.exec] at executed
    by_cases guarded : guard s op
    · rw [if_pos guarded] at executed
      cases stepped : step op s with
      | error fault =>
        rw [stepped] at executed
        cases executed
      | ok s₁ =>
        rw [stepped] at executed
        rw [List.reverse_cons, List.append_assoc]
        exact ih (.cons run guarded stepped) executed
    · rw [if_neg guarded] at executed
      cases executed

/-- A run is made by executing it. -/
theorem exists_run (step : ι → σ → Except ε σ) (guard : σ → ι → Prop)
    [∀ s op, Decidable (guard s op)] (ops : List ι) (check : σ → Bool) {init : σ}
    (started : start init) (executed : (exec step guard ops init).any check = true) :
    ∃ s, Run step guard start ops.reverse s ∧ check s = true := by
  cases reached : exec step guard ops init with
  | none =>
    rw [reached] at executed
    cases executed
  | some s =>
    rw [reached] at executed
    refine ⟨s, ?_, executed⟩
    have begun : Run step guard start [] init := .nil started
    have run := begun.exec reached
    rwa [List.append_nil] at run

/-- How a computation failed, if it did. -/
def failure {α : Type} : Except ε α → Option ε
  | .ok _ => none
  | .error fault => some fault

theorem failure_eq {α : Type} {r : Except ε α} {fault : ε} (failed : failure r = some fault) :
    r = .error fault := by
  cases r with
  | ok _ => cases failed
  | error _ => exact congrArg Except.error (Option.some.inj failed)

end Defragmenter.Runs
