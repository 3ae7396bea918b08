namespace BoundedLoop

/-! # Loops with an iteration bound

`loop body bound` runs a loop body for at most `bound` rounds. It has no
result when the bound is used up or when the body itself has none, so a
theorem that a loop has a result also says that the loop terminates. The rules
below are the only way later proofs look inside a loop. -/

inductive Turn (State : Type u) (Result : Type v)
  | again (state : State)
  | leave (result : Result)

def loop (body : State → Option (Turn State Result)) : Nat → State → Option Result
  | 0, _ => none
  | bound + 1, state =>
      match body state with
      | none => none
      | some (.leave result) => some result
      | some (.again next) => loop body bound next

theorem loop_leave {body : State → Option (Turn State Result)} {state : State}
    {result : Result} (round : body state = some (.leave result)) (bound : Nat) :
    loop body (bound + 1) state = some result := by
  simp [loop, round]

theorem loop_again {body : State → Option (Turn State Result)} {state next : State}
    (round : body state = some (.again next)) (bound : Nat) :
    loop body (bound + 1) state = loop body bound next := by
  simp [loop, round]

theorem loop_mono {body : State → Option (Turn State Result)} {state : State}
    {result : Result} {bound larger : Nat} (le : bound ≤ larger)
    (run : loop body bound state = some result) :
    loop body larger state = some result := by
  induction bound generalizing state larger with
  | zero => simp [loop] at run
  | succ bound induction =>
      obtain ⟨larger, rfl⟩ : ∃ previous, larger = previous + 1 :=
        ⟨larger - 1, by omega⟩
      cases round : body state with
      | none => simp [loop, round] at run
      | some turn =>
          cases turn with
          | leave final =>
              simp only [loop, round] at run ⊢
              exact run
          | again next =>
              simp only [loop, round] at run ⊢
              exact induction (by omega) run

/-- Invariant rule, without termination: whatever holds at the start and is
kept by every round that goes on gives the postcondition when the loop is
left. -/
theorem loop_invariant {body : State → Option (Turn State Result)}
    (Invariant : State → Prop) (Post : Result → Prop)
    (again : ∀ state next, Invariant state → body state = some (.again next) →
      Invariant next)
    (leave : ∀ state result, Invariant state → body state = some (.leave result) →
      Post result)
    {bound : Nat} {state : State} {result : Result} (initial : Invariant state)
    (run : loop body bound state = some result) : Post result := by
  induction bound generalizing state with
  | zero => simp [loop] at run
  | succ bound induction =>
      cases round : body state with
      | none => simp [loop, round] at run
      | some turn =>
          cases turn with
          | leave final =>
              simp only [loop, round, Option.some.injEq] at run
              exact run ▸ leave state final initial round
          | again next =>
              simp only [loop, round] at run
              exact induction (again state next initial round) run

/-- Invariant rule with termination: every round has an outcome, and a round
that goes on makes the measure smaller. -/
theorem loop_total {body : State → Option (Turn State Result)}
    (Invariant : State → Prop) (Post : Result → Prop) (measure : State → Nat)
    (round : ∀ state, Invariant state →
      (∃ next, body state = some (.again next) ∧ Invariant next ∧
        measure next < measure state) ∨
      (∃ result, body state = some (.leave result) ∧ Post result))
    {bound : Nat} {state : State} (initial : Invariant state)
    (enough : measure state < bound) :
    ∃ result, loop body bound state = some result ∧ Post result := by
  induction bound generalizing state with
  | zero => omega
  | succ bound induction =>
      rcases round state initial with ⟨next, outcome, kept, smaller⟩ |
        ⟨result, outcome, post⟩
      · rw [loop_again outcome]
        exact induction kept (by omega)
      · exact ⟨result, loop_leave outcome bound, post⟩

inductive Turn.Related (Again : State → State' → Prop) (Leave : Result → Result' → Prop) :
    Turn State Result → Turn State' Result' → Prop
  | again {state state'} (related : Again state state') :
      Turn.Related Again Leave (.again state) (.again state')
  | leave {result result'} (post : Leave result result') :
      Turn.Related Again Leave (.leave result) (.leave result')

/-- Lockstep rule: when every round of the second loop is matched by a round of
the first, a result of the second is matched by a result of the first, within
the same bound. -/
theorem loop_lockstep {body : State → Option (Turn State Result)}
    {body' : State' → Option (Turn State' Result')}
    (Again : State → State' → Prop) (Leave : Result → Result' → Prop)
    (round : ∀ state state' turn', Again state state' → body' state' = some turn' →
      ∃ turn, body state = some turn ∧ Turn.Related Again Leave turn turn')
    {bound : Nat} {state : State} {state' : State'} {result' : Result'}
    (initial : Again state state') (run : loop body' bound state' = some result') :
    ∃ result, loop body bound state = some result ∧ Leave result result' := by
  induction bound generalizing state state' with
  | zero => simp [loop] at run
  | succ bound induction =>
      cases outcome' : body' state' with
      | none => simp [loop, outcome'] at run
      | some turn' =>
          rcases round state state' turn' initial outcome' with ⟨turn, outcome, related⟩
          cases related with
          | leave post =>
              simp only [loop, outcome', Option.some.injEq] at run
              exact ⟨_, loop_leave outcome bound, run ▸ post⟩
          | again related =>
              simp only [loop, outcome'] at run
              rw [loop_again outcome]
              exact induction related run

def Turn.map (onState : State → State') (onResult : Result → Result') :
    Turn State Result → Turn State' Result'
  | .again state => .again (onState state)
  | .leave result => .leave (onResult result)

/-- A loop whose rounds are those of another loop, seen through a function. -/
theorem loop_map {body : State → Option (Turn State Result)}
    {body' : State' → Option (Turn State' Result')} {onState : State → State'}
    {onResult : Result → Result'}
    (round : ∀ state, body' (onState state) = (body state).map (Turn.map onState onResult))
    (bound : Nat) (state : State) :
    loop body' bound (onState state) = (loop body bound state).map onResult := by
  induction bound generalizing state with
  | zero => rfl
  | succ bound induction =>
      rw [loop, loop, round]
      cases body state with
      | none => rfl
      | some turn =>
          cases turn with
          | leave result => rfl
          | again next => exact induction next

end BoundedLoop
