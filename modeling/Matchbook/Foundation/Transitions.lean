namespace Transitions

/-! # Labelled transitions

A step relation gives every step the labels it shows. A `Run` collects them
from the first step to the last. -/

variable {State : Type u} {Label : Type v} {step : State → List Label → State → Prop}

inductive Run (step : State → List Label → State → Prop) (start : State) :
    List Label → State → Prop
  | refl : Run step start [] start
  | snoc {labels new : List Label} {middle final : State}
      (run : Run step start labels middle) (last : step middle new final) :
      Run step start (labels ++ new) final

theorem Run.single {start final : State} {labels : List Label}
    (taken : step start labels final) : Run step start labels final := by
  simpa using Run.snoc .refl taken

theorem Run.trans {start middle final : State} {first second : List Label}
    (left : Run step start first middle) (right : Run step middle second final) :
    Run step start (first ++ second) final := by
  induction right with
  | refl => simpa using left
  | snoc run last induction =>
      rw [← List.append_assoc]
      exact induction.snoc last

theorem Run.invariant {Invariant : State → Prop}
    (kept : ∀ state labels next, Invariant state → step state labels next → Invariant next)
    {start final : State} {labels : List Label} (run : Run step start labels final)
    (initial : Invariant start) : Invariant final := by
  induction run with
  | refl => exact initial
  | snoc run last induction => exact kept _ _ _ induction last

/-- Invariant rule that knows all labels so far. -/
theorem Run.recorded {Invariant : State → List Label → Prop}
    (kept : ∀ state new next seen, Invariant state seen → step state new next →
      Invariant next (seen ++ new))
    {start final : State} {labels : List Label} (run : Run step start labels final)
    (initial : Invariant start []) : Invariant final labels := by
  induction run with
  | refl => exact initial
  | snoc run last induction => exact kept _ _ _ _ induction last

theorem Run.first {start final : State} {labels : List Label} (run : Run step start labels final) :
    (labels = [] ∧ start = final) ∨ ∃ new middle later, step start new middle ∧
      Run step middle later final ∧ labels = new ++ later := by
  induction run with
  | refl => exact .inl ⟨rfl, rfl⟩
  | @snoc labels new middle final run last induction =>
      rcases induction with ⟨rfl, rfl⟩ | ⟨head, next, later, first, rest, rfl⟩
      · exact .inr ⟨new, final, [], last, .refl, by simp⟩
      · exact .inr ⟨head, next, later ++ new, first, rest.snoc last, by simp⟩

/-- The runs of a deterministic relation to states without steps are all the same. -/
theorem Run.unique {Final : State → Prop}
    (deterministic : ∀ state labels next labels' next', step state labels next →
      step state labels' next' → labels = labels' ∧ next = next')
    (stuck : ∀ state labels next, Final state → ¬ step state labels next)
    {start final final' : State} {labels labels' : List Label} (run : Run step start labels final)
    (run' : Run step start labels' final') (isFinal : Final final) (isFinal' : Final final') :
    labels = labels' ∧ final = final' := by
  -- every run is the beginning of the whole one
  have goesOn : ∀ {middle : State} {before : List Label}, Run step start before middle →
      ∃ later, labels' = before ++ later ∧ Run step middle later final' := by
    intro middle before run
    induction run with
    | refl => exact ⟨labels', rfl, run'⟩
    | @snoc before new middle next run last induction =>
        rcases induction with ⟨later, rfl, rest⟩
        rcases rest.first with ⟨rfl, rfl⟩ | ⟨new', next', later', first, rest', rfl⟩
        · exact absurd last (stuck _ _ _ isFinal')
        · rcases deterministic _ _ _ _ _ last first with ⟨rfl, rfl⟩
          exact ⟨later', by simp, rest'⟩
  rcases goesOn run with ⟨later, rfl, rest⟩
  rcases rest.first with ⟨rfl, rfl⟩ | ⟨new, middle, later', first, -⟩
  · exact ⟨by simp, rfl⟩
  · exact absurd first (stuck _ _ _ isFinal)

theorem Run.mono {step' : State → List Label → State → Prop}
    (weaker : ∀ state labels next, step state labels next → step' state labels next)
    {start final : State} {labels : List Label} (run : Run step start labels final) :
    Run step' start labels final := by
  induction run with
  | refl => exact .refl
  | snoc run last induction => exact induction.snoc (weaker _ _ _ last)

/-- Runs under other labels. -/
theorem Run.map {Label' : Type w} {step' : State → List Label' → State → Prop}
    (relabel : Label → Label')
    (weaker : ∀ state labels next, step state labels next →
      step' state (labels.map relabel) next)
    {start final : State} {labels : List Label} (run : Run step start labels final) :
    Run step' start (labels.map relabel) final := by
  induction run with
  | refl => exact .refl
  | snoc run last induction =>
      rw [List.map_append]
      exact induction.snoc (weaker _ _ _ last)

/-- Image rule: a run under an invariant, state by state and label by label. -/
theorem Run.image {State' : Type u'} {Label' : Type v'}
    {step' : State' → List Label' → State' → Prop} {Invariant : State → Prop}
    (image : State → State') (relabel : Label → Label')
    (kept : ∀ state labels next, Invariant state → step state labels next →
      step' (image state) (labels.map relabel) (image next) ∧ Invariant next)
    {start final : State} {labels : List Label} (run : Run step start labels final)
    (initial : Invariant start) :
    Run step' (image start) (labels.map relabel) (image final) ∧ Invariant final := by
  induction run with
  | refl => exact ⟨.refl, initial⟩
  | snoc run last induction =>
      have both := kept _ _ _ induction.2 last
      rw [List.map_append]
      exact ⟨induction.1.snoc both.1, both.2⟩

/-- Observer rule: if every step from a state the observer knows to be good is
a step of `step'` to another such state, then the run is one of `step'`. -/
theorem Run.witnessed {Observer : Type w} {observe : Observer → Label → Observer}
    {Invariant : State → Observer → Prop}
    {step' : State × Observer → List Label → State × Observer → Prop}
    (kept : ∀ state labels next observer, Invariant state observer → step state labels next →
      step' (state, observer) labels (next, labels.foldl observe observer) ∧
        Invariant next (labels.foldl observe observer))
    {start final : State} {labels : List Label} {observer : Observer}
    (run : Run step start labels final) (initial : Invariant start observer) :
    Run step' (start, observer) labels (final, labels.foldl observe observer) ∧
      Invariant final (labels.foldl observe observer) := by
  induction run with
  | refl => exact ⟨.refl, initial⟩
  | snoc run last induction =>
      have both := kept _ _ _ _ induction.2 last
      rw [List.foldl_append]
      exact ⟨induction.1.snoc both.1, both.2⟩

theorem foldl_ignored {Observer : Type w} {observe : Observer → Label → Observer}
    {observer : Observer} {labels : List Label}
    (ignored : ∀ label ∈ labels, observe observer label = observer) :
    labels.foldl observe observer = observer := by
  induction labels with
  | nil => rfl
  | cons label labels induction =>
      rw [List.foldl_cons, ignored label List.mem_cons_self]
      exact induction fun other member => ignored other (List.mem_cons_of_mem label member)

/-- Ghost rule: a run can be accompanied by what its steps do not show. -/
theorem Run.accompanied {Ghost : Type w} {Invariant : State → Ghost → Prop}
    {step' : State × Ghost → List Label → State × Ghost → Prop}
    (kept : ∀ state labels next ghost, Invariant state ghost → step state labels next →
      ∃ ghost', step' (state, ghost) labels (next, ghost') ∧ Invariant next ghost')
    {start final : State} {labels : List Label} {ghost : Ghost}
    (run : Run step start labels final) (initial : Invariant start ghost) :
    ∃ ghost', Run step' (start, ghost) labels (final, ghost') ∧ Invariant final ghost' := by
  induction run with
  | refl => exact ⟨ghost, .refl, initial⟩
  | snoc run last induction =>
      rcases induction with ⟨before, taken, good⟩
      rcases kept _ _ _ before good last with ⟨after, step, good'⟩
      exact ⟨after, taken.snoc step, good'⟩

/-! ## What holds throughout -/

section throughout

variable {Observer : Type w} {observe : Observer → Label → Observer}
  {Good : Observer → Label → Prop}

/-- Every label is good for what has been observed before it. -/
def Throughout (observe : Observer → Label → Observer) (Good : Observer → Label → Prop) :
    Observer → List Label → Prop
  | _, [] => True
  | observer, label :: labels =>
      Good observer label ∧ Throughout observe Good (observe observer label) labels

theorem throughout_append {observer : Observer} {first second : List Label} :
    Throughout observe Good observer (first ++ second) ↔
      Throughout observe Good observer first ∧
        Throughout observe Good (first.foldl observe observer) second := by
  induction first generalizing observer with
  | nil => simp [Throughout]
  | cons label first induction =>
      rw [List.cons_append, Throughout, Throughout, induction, List.foldl_cons, and_assoc]

theorem throughout_of_forall {observer : Observer} {labels : List Label}
    (good : ∀ observer, ∀ label ∈ labels, Good observer label) :
    Throughout observe Good observer labels := by
  induction labels generalizing observer with
  | nil => trivial
  | cons label labels induction =>
      exact ⟨good observer label List.mem_cons_self,
        induction fun observer other member => good observer other
          (List.mem_cons_of_mem label member)⟩

theorem throughout_ignored {observer : Observer} {labels : List Label}
    (ignored : ∀ label ∈ labels, observe observer label = observer)
    (good : ∀ label ∈ labels, Good observer label) : Throughout observe Good observer labels := by
  induction labels with
  | nil => trivial
  | cons label labels induction =>
      rw [Throughout, ignored label List.mem_cons_self]
      exact ⟨good label List.mem_cons_self,
        induction (fun other member => ignored other (List.mem_cons_of_mem label member))
          fun other member => good other (List.mem_cons_of_mem label member)⟩

/-- Observer rule for what holds throughout a run. -/
theorem Run.throughout {Invariant : State → Observer → Prop}
    (kept : ∀ state labels next observer, Invariant state observer → step state labels next →
      Throughout observe Good observer labels ∧ Invariant next (labels.foldl observe observer))
    {start final : State} {labels : List Label} {observer : Observer}
    (run : Run step start labels final) (initial : Invariant start observer) :
    Throughout observe Good observer labels ∧ Invariant final (labels.foldl observe observer) := by
  induction run with
  | refl => exact ⟨trivial, initial⟩
  | snoc run last induction =>
      have both := kept _ _ _ _ induction.2 last
      rw [List.foldl_append]
      exact ⟨throughout_append.mpr ⟨induction.1, both.1⟩, both.2⟩

end throughout

end Transitions
