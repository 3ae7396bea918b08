import Matchbook.Engine.Refinement

namespace Matchbook

open BoundedLoop

/-! # How the side table grows

A slot of the side table is given back to the free list, never to the vector. Only
an iceberg that rests and a stop-limit that parks may need a new one. -/

/-! ## Memory -/

namespace Memory

variable (mem : Memory) (book : BookName) (i : Nat) (o : Ptr) (amount : Qty)

@[simp] theorem size_setExtra (extra : Extra) :
    (mem.setExtra o extra).extras.size = mem.extras.size := by
  rw [setExtra_extras]
  cases (mem.nodes o).ext <;> simp

@[simp] theorem size_release : (mem.release o).extras.size = mem.extras.size := by
  unfold release
  cases (mem.nodes o).ext <;> simp

@[simp] theorem size_append : (mem.append book i o).extras.size = mem.extras.size := rfl

@[simp] theorem size_takeReserve :
    (mem.takeReserve book i o amount).extras.size = mem.extras.size :=
  size_setExtra mem o _

@[simp] theorem size_replenish : (mem.replenish book i o).extras.size = mem.extras.size :=
  size_takeReserve mem book i o _

@[simp] theorem size_dropHead : (mem.dropHead book i o).extras.size = mem.extras.size :=
  size_release (mem.forget (mem.nodes o).id) o

theorem size_allocExtra : mem.extras.size ≤ mem.allocExtra.2.extras.size ∧
    mem.allocExtra.2.extras.size ≤ mem.extras.size + 1 := by
  unfold allocExtra
  split <;> simp

end Memory

/-! ## Matching -/

namespace MatchingEngine

variable {H : Type}

def slots (s : MatchingEngine H) : Nat := s.mem.extras.size

/-- At most `k` slots are new. -/
def GrowsBy (k : Nat) (s s' : MatchingEngine H) : Prop :=
  s.slots ≤ s'.slots ∧ s'.slots ≤ s.slots + k

theorem growsBy_of_eq {s s' : MatchingEngine H} {k : Nat} (same : s'.slots = s.slots) :
    GrowsBy k s s' := by
  constructor <;> omega

section silent

variable (s : MatchingEngine H) (side : Side) (i : Nat) (o : Ptr)

@[simp] theorem slots_nextId : s.nextId.2.slots = s.slots := rfl

@[simp] theorem slots_emit [Handler H] (event : Event) : (s.emit event).slots = s.slots := rfl

@[simp] theorem slots_occupy : (s.occupy side i).slots = s.slots := by
  unfold occupy
  cases side <;> dsimp only <;> split <;> rfl

@[simp] theorem slots_vacate : (s.vacate side i).slots = s.slots := by
  unfold vacate
  dsimp only
  split <;> rfl

@[simp] theorem slots_vacateBest : (s.vacateBest side).slots = s.slots := rfl

@[simp] theorem slots_removeResting : (s.removeResting o).slots = s.slots := by
  unfold removeResting
  dsimp only
  split
  · exact slots_vacate _ _ _
  · rfl

@[simp] theorem slots_dispose : (s.dispose o).slots = s.slots :=
  (s.mem.forget (s.mem.nodes o).id).size_release o

@[simp] theorem slots_removeStop : (s.removeStop o).slots = s.slots := by
  unfold removeStop
  dsimp only
  split <;> rfl

@[simp] theorem slots_ensureStopBooks : s.ensureStopBooks.slots = s.slots := by
  unfold ensureStopBooks
  split <;> rfl

@[simp] theorem slots_cancelHead [Handler H] (book : BookName) :
    (s.cancelHead book i o).1.slots = s.slots :=
  Memory.size_dropHead _ book i o

end silent

variable {s s' : MatchingEngine H}

theorem slots_shelve (s : MatchingEngine H) (mem : Memory) (side : Side) (i : Nat) (first : Bool) :
    (if first then { s with mem }.occupy side i else { s with mem }).slots = mem.extras.size := by
  cases first with
  | false => rfl
  | true => exact slots_occupy { s with mem } side i

def turnSlots {α β : Type} : Turn (MatchingEngine H × α) (MatchingEngine H × β) → Nat
  | .again state => state.1.slots
  | .leave result => result.1.slots

/-- A loop whose rounds leave the table as long as it is does so itself. -/
theorem slots_loop {α β : Type}
    {body : MatchingEngine H × α → Option (Turn (MatchingEngine H × α) (MatchingEngine H × β))}
    (round : ∀ state turn, body state = some turn → turnSlots turn = state.1.slots)
    {bound : Nat} {start : MatchingEngine H × α} {result : MatchingEngine H × β}
    (run : loop body bound start = some result) : result.1.slots = start.1.slots := by
  apply loop_invariant (fun state => state.1.slots = start.1.slots)
    (fun result => result.1.slots = start.1.slots) _ _ rfl run
  · exact fun state next same taken => (round state _ taken).trans same
  · exact fun state result same taken => (round state _ taken).trans same

variable [Handler H]

theorem slots_sweepRound (maker : Side) (i : Nat) (taker : OrderId) (px : Price)
    (takerSide : Side) (takerOwner : OwnerId) (stp : StpPolicy)
    (state : MatchingEngine H × Option Ptr × Qty)
    (turn : Turn (MatchingEngine H × Option Ptr × Qty) (MatchingEngine H × Qty))
    (round : sweepRound maker i taker px takerSide takerOwner stp state = some turn) :
    turnSlots turn = state.1.slots := by
  rcases state with ⟨s, cursor, qty⟩
  cases cursor with
  | none =>
      cases round
      rfl
  | some o =>
      rw [sweepRound] at round
      split at round
      · cases round
        rfl
      split at round
      · dsimp only at round
        split at round <;> split at round <;> cases round
        all_goals first | rfl | exact slots_cancelHead s i o maker.book
      · dsimp only at round
        generalize (if qty < (s.mem.nodes o).qty then qty else (s.mem.nodes o).qty) = fill at round
        split at round
        · split at round
          · cases round
            exact Memory.size_replenish (s.mem.takeDisplayed maker.book i o fill) maker.book i o
          · cases round
            exact Memory.size_dropHead (s.mem.takeDisplayed maker.book i o fill) maker.book i o
        · cases round
          rfl

theorem slots_sweepLevel {maker : Side} {i : Nat} {taker : OrderId} {qty left : Qty} {px : Price}
    {takerSide : Side} {takerOwner : OwnerId} {stp : StpPolicy}
    (run : s.sweepLevel maker i taker qty px takerSide takerOwner stp = some (s', left)) :
    s'.slots = s.slots :=
  slots_loop (slots_sweepRound maker i taker px takerSide takerOwner stp) run

theorem slots_matchRound (side : Side) (taker : OrderId) (limitIdx : Int) (owner : OwnerId)
    (stp : StpPolicy) (state : MatchingEngine H × Qty)
    (turn : Turn (MatchingEngine H × Qty) (MatchingEngine H × Qty))
    (round : matchRound side taker limitIdx owner stp state = some turn) :
    turnSlots turn = state.1.slots := by
  rcases state with ⟨s, qty⟩
  rw [matchRound] at round
  dsimp only at round
  split at round
  · rcases Option.bind_eq_some_iff.mp round with ⟨⟨swept, left⟩, sweeps, round⟩
    have same := slots_sweepLevel sweeps
    dsimp only at round
    split at round <;> split at round <;> cases round
    all_goals exact same
  · cases round
    rfl

theorem slots_matchSide {side : Side} {taker : OrderId} {qty left : Qty} {limitIdx : Int}
    {owner : OwnerId} {stp : StpPolicy}
    (run : s.matchSide side taker qty limitIdx owner stp = some (s', left)) :
    s'.slots = s.slots :=
  slots_loop (slots_matchRound side taker limitIdx owner stp) run

/-! ## Resting -/

def peakSlots (peak : Qty) : Nat := if peak = 0 then 0 else 1

theorem growsBy_rest (s : MatchingEngine H) (id : OrderId) (side : Side) (price : Price) (qty : Qty)
    (owner : OwnerId) (stp : StpPolicy) (peak : Qty) :
    GrowsBy (peakSlots peak) s (s.rest id side price qty owner stp peak) := by
  rw [rest]
  split
  next o pool _ =>
  dsimp only
  by_cases hides : peak ≠ 0 ∧ peak < qty
  · have grown := Memory.size_allocExtra { s.mem with pool }
    rw [peakSlots, if_neg hides.1, GrowsBy, slots_emit, slots_shelve]
    simpa [if_pos hides, slots] using grown
  · apply growsBy_of_eq
    rw [slots_emit, slots_shelve]
    simp [if_neg hides, slots]

theorem growsBy_placeLimit {id : OrderId} {side : Side} {price : Price} {qty : Qty}
    {tif : TimeInForce} {owner : OwnerId} {stp : StpPolicy} {peak : Qty}
    (run : s.placeLimit id side price qty tif owner stp peak = some s') :
    GrowsBy (peakSlots peak) s s' := by
  rw [placeLimit] at run
  split at run
  · cases run
    exact growsBy_rest ..
  cases side
  all_goals
    rcases Option.bind_eq_some_iff.mp run with ⟨⟨matched, left⟩, sweeps, run⟩
    have same : matched.slots = s.slots := slots_matchSide sweeps
    dsimp only at run
    split at run
    · cases run
      apply growsBy_of_eq
      split <;> exact same
    split at run
    · split at run <;> cases run
      · exact growsBy_of_eq same
      · have rested (side : Side) := growsBy_rest matched id side price left owner stp peak
        simp only [GrowsBy, same] at rested
        exact rested _
    · cases run
      exact growsBy_of_eq same

theorem slots_matchMarket {id : OrderId} {side : Side} {qty left : Qty} {owner : OwnerId}
    {stp : StpPolicy} (run : s.matchMarket id side qty owner stp = some (s', left)) :
    s'.slots = s.slots := by
  cases side
  all_goals
    rcases Option.bind_eq_some_iff.mp run with ⟨⟨matched, left'⟩, sweeps, run⟩
    cases run
    have same : matched.slots = s.slots := slots_matchSide sweeps
    exact same

/-! ## Stops -/

omit [Handler H] in
theorem growsBy_restStop (s : MatchingEngine H) (id : OrderId) (side : Side)
    (stopPrice limitPrice : Price) (qty : Qty) (isMarket : Bool) (owner : OwnerId)
    (stp : StpPolicy) : GrowsBy (if isMarket then 0 else 1) s
      (s.restStop id side stopPrice limitPrice qty isMarket owner stp) := by
  have books := slots_ensureStopBooks s
  rw [restStop]
  generalize s.ensureStopBooks = s₁ at books
  generalize s₁.mem.pool.alloc = taken
  rcases taken with ⟨o, pool⟩
  have kept (mem : Memory) (first : Prop) [Decidable first] (map : LevelBitmap) : (if first then
      { s₁ with mem, pendingStops := s₁.pendingStops + 1 }.setMap side.stopBook map
      else { s₁ with mem, pendingStops := s₁.pendingStops + 1 }).slots = mem.extras.size := by
    split <;> rfl
  cases isMarket with
  | true =>
      apply growsBy_of_eq
      rw [← books]
      exact kept _ _ _
  | false =>
      have grown := Memory.size_allocExtra { s₁.mem with pool }
      rw [GrowsBy, ← books]
      constructor
      · refine Nat.le_trans ?_ (Nat.le_of_eq (kept _ _ _).symm)
        simpa [slots] using grown.1
      · refine Nat.le_trans (Nat.le_of_eq (kept _ _ _)) ?_
        simpa [slots] using grown.2

theorem slots_executeStop {id : OrderId} {side : Side} {limitPrice : Price} {qty : Qty}
    {isMarket : Bool} {owner : OwnerId} {stp : StpPolicy}
    (run : s.executeStop id side limitPrice qty isMarket owner stp = some s') :
    s'.slots = s.slots := by
  cases isMarket with
  | true =>
      rcases Option.bind_eq_some_iff.mp run with ⟨⟨matched, left⟩, sweeps, run⟩
      cases run
      exact slots_matchMarket sweeps
  | false =>
      have grown := growsBy_placeLimit run
      exact Nat.le_antisymm grown.2 grown.1

theorem slots_pumpStops (run : s.pumpStops = some s') : s'.slots = s.slots := by
  rw [pumpStops] at run
  split at run
  · cases run
    rfl
  apply loop_invariant (fun state : MatchingEngine H => state.slots = s.slots)
    (fun result : MatchingEngine H => result.slots = s.slots) _ _ rfl run
  · intro state next same round
    rw [pumpRound] at round
    split at round
    · cases round
    next o _ =>
      rcases Option.bind_eq_some_iff.mp round with ⟨fired, executed, round⟩
      cases round
      rw [slots_executeStop executed, slots_dispose, slots_removeStop, same]
  · intro state result same round
    rw [pumpRound] at round
    split at round
    · cases round
      exact same
    next o _ =>
      rcases Option.bind_eq_some_iff.mp round with ⟨fired, executed, round⟩
      cases round

/-! ## Operations -/

theorem GrowsBy.run {k : Nat} {body : MatchingEngine H → Option (MatchingEngine H × α)}
    {result : α} (grows : ∀ s' result, body s = some (s', result) → GrowsBy k s s')
    (run : s.run body = some (s', result)) : GrowsBy k s s' := by
  rcases Option.bind_eq_some_iff.mp run with ⟨⟨done, result'⟩, called, run⟩
  have grown := grows done result' called
  dsimp only at run
  split at run
  · cases run
    exact grown
  · rcases Option.bind_eq_some_iff.mp run with ⟨pumped, pumps, run⟩
    cases run
    have same := slots_pumpStops pumps
    exact ⟨grown.1.trans_eq same.symm, same.trans_le grown.2⟩

theorem growsBy_enterLimit {side : Side} {price : Price} {qty : Qty} {tif : TimeInForce}
    {owner : OwnerId} {stp : StpPolicy} {peak : Qty} {id : OrderId}
    (run : s.enterLimit side price qty tif owner stp peak = some (s', id)) :
    GrowsBy (peakSlots peak) s s' := by
  rw [enterLimit] at run
  dsimp only at run
  split at run
  · split at run <;> cases run
    · exact growsBy_of_eq rfl
    · exact growsBy_rest (s.nextId.2.emit _) ..
  split at run
  all_goals
    rcases Option.bind_eq_some_iff.mp run with ⟨short, -, run⟩
    split at run
    · cases run
      exact growsBy_of_eq rfl
    split at run
    · cases run
      exact growsBy_of_eq rfl
    · rcases Option.bind_eq_some_iff.mp run with ⟨placed, places, run⟩
      cases run
      have grown := growsBy_placeLimit places
      rw [GrowsBy, slots_emit, slots_nextId] at grown
      exact grown

theorem growsBy_doSubmitStop {side : Side} {stopPrice limitPrice : Price} {qty : Qty}
    {isMarket : Bool} {owner : OwnerId} {stp : StpPolicy} {id : OrderId}
    (run : s.doSubmitStop side stopPrice limitPrice qty isMarket owner stp = some (s', id)) :
    GrowsBy (if isMarket then 0 else 1) s s' := by
  rw [doSubmitStop] at run
  dsimp only at run
  split at run
  · cases run
    exact growsBy_of_eq rfl
  split at run
  · rcases Option.bind_eq_some_iff.mp run with ⟨fired, executed, run⟩
    cases run
    have same := slots_executeStop executed
    rw [slots_emit, slots_nextId] at same
    exact growsBy_of_eq same
  · cases run
    let accepted := s.nextId.2.emit (.accept s.nextId.1 side stopPrice qty)
    have parked := growsBy_restStop accepted s.nextId.1 side stopPrice limitPrice qty isMarket
      owner stp
    rwa [GrowsBy, show accepted.slots = s.slots from rfl] at parked

theorem slots_cancelImpl (s : MatchingEngine H) (id : OrderId) :
    (s.cancelImpl id).1.slots = s.slots := by
  rw [cancelImpl]
  split
  · rfl
  next o _ =>
    show ((if _ then s.removeStop o else s.removeResting o).dispose o).slots = s.slots
    rw [slots_dispose]
    split <;> simp

omit [Handler H] in
@[simp] theorem slots_eraseResting (s : MatchingEngine H) (o : Ptr) :
    (s.eraseResting o).slots = s.slots := by
  rw [eraseResting, slots_dispose, slots_removeResting]

omit [Handler H] in
theorem slots_doReduce (s : MatchingEngine H) (id : OrderId) (delta : Qty) :
    (s.doReduce id delta).1.slots = s.slots := by
  rw [doReduce]
  split
  · rfl
  next o _ =>
  dsimp only
  split
  · rfl
  split <;> split
  · exact s.slots_eraseResting o
  · exact s.mem.size_takeReserve (s.mem.nodes o).side.book (s.idx (s.mem.nodes o).price) o _
  · exact s.slots_eraseResting o
  · rfl

theorem growsBy_doModify {id : OrderId} {newPrice : Price} {newQty : Qty} {ok : Bool}
    (run : s.doModify id newPrice newQty = some (s', ok)) : GrowsBy 1 s s' := by
  rw [doModify] at run
  split at run
  · cases run
    exact growsBy_of_eq rfl
  next o _ =>
  dsimp only at run
  split at run
  · cases run
    exact growsBy_of_eq rfl
  split at run
  · have same := slots_cancelImpl s id
    rw [Option.some.inj run] at same
    exact growsBy_of_eq same
  split at run
  · cases run
    exact growsBy_of_eq rfl
  generalize (if (s.mem.nodes o).iceberg = true then (s.mem.extra o).peak else 0) = peak at run
  generalize (if (s.mem.nodes o).iceberg = true then
    (s.mem.nodes o).qty + (s.mem.extra o).reserve else (s.mem.nodes o).qty) = curTotal at run
  split at run
  · have same := slots_doReduce s id (curTotal - newQty)
    rw [Option.some.inj run] at same
    exact growsBy_of_eq same
  · rcases Option.bind_eq_some_iff.mp run with ⟨placed, places, run⟩
    cases run
    have grown := growsBy_placeLimit places
    have one : peakSlots peak ≤ 1 := by
      rw [peakSlots]
      split <;> decide
    rw [GrowsBy, slots_emit, slots_emit, slots_eraseResting] at grown
    exact ⟨grown.1, grown.2.trans (Nat.add_le_add_left one _)⟩

/-! ## Auctions -/

omit [Handler H] in
@[simp] theorem slots_best (s : MatchingEngine H) (side : Side) (emptied : Bool) :
    (if emptied then s.vacateBest side else s).slots = s.slots := by
  split <;> simp

theorem slots_auctionFill (s : MatchingEngine H) (side : Side) (i : Nat) (o : Ptr) (f : Qty)
    (px : Price) : (s.auctionFill side i o f px).1.slots = s.slots := by
  unfold auctionFill
  extract_lets book node fromDisp s₁ s₂ s₃ s₄ s₅
  have taken : s₂.slots = s.slots := by
    simp only [s₂]
    split
    · exact s₁.mem.size_takeReserve book i o (f - fromDisp)
    · rfl
  split
  · exact (s₂.mem.size_replenish book i o).trans taken
  · rw [← taken]
    simp only [s₅]
    split
    · exact s₂.mem.size_dropHead book i o
    · rfl

theorem slots_doUncross {crossed : Qty} (run : s.doUncross = some (s', crossed)) :
    s'.slots = s.slots := by
  rw [doUncross] at run
  dsimp only at run
  split at run
  · cases run
    rfl
  split at run
  · cases run
    rfl
  apply slots_loop _ run
  rintro ⟨s, crossed⟩ turn round
  rw [crossRound] at round
  dsimp only at round
  split at round
  · split at round
    · cases round
      simp only [turnSlots, slots_best, slots_auctionFill, slots_emit]
      rfl
    · cases round
  · cases round
    rfl

/-! ## Runs -/

def newSlots : Op → Nat
  | .submitIceberg .. | .submitStopLimit .. | .modify .. => 1
  | _ => 0

theorem growsBy_step {op : Op} {ret : Ret} (run : s.step op = some (s', ret)) :
    GrowsBy (newSlots op) s s' := by
  rw [step_eq] at run
  apply GrowsBy.run _ run
  intro done ret called
  cases op with
  | submitLimit side price qty tif owner stp =>
      rcases Option.map_eq_some_iff.mp called with ⟨⟨done, id⟩, inner, same⟩
      cases same
      rw [doSubmitLimit] at inner
      split at inner
      · cases inner
        exact growsBy_of_eq rfl
      · exact growsBy_enterLimit inner
  | submitMarket side qty owner stp =>
      rcases Option.map_eq_some_iff.mp called with ⟨⟨done, left⟩, inner, same⟩
      cases same
      rw [doSubmitMarket] at inner
      split at inner
      · cases inner
        exact growsBy_of_eq rfl
      · have same := slots_matchMarket inner
        rw [slots_emit] at same
        exact growsBy_of_eq same
  | submitIceberg side price totalQty display tif owner stp =>
      rcases Option.map_eq_some_iff.mp called with ⟨⟨done, id⟩, inner, same⟩
      cases same
      rw [doSubmitIceberg] at inner
      split at inner
      · cases inner
        exact growsBy_of_eq rfl
      · next admitted =>
        have shown : display ≠ 0 := fun zero => admitted (.inr (.inr zero))
        have grown := growsBy_enterLimit inner
        rw [peakSlots, if_neg shown] at grown
        exact grown
  | submitStop side stopPrice qty owner stp =>
      rcases Option.map_eq_some_iff.mp called with ⟨⟨done, id⟩, inner, same⟩
      cases same
      exact growsBy_doSubmitStop inner
  | submitStopLimit side stopPrice limitPrice qty owner stp =>
      rcases Option.map_eq_some_iff.mp called with ⟨⟨done, id⟩, inner, same⟩
      cases same
      exact growsBy_doSubmitStop inner
  | cancel oid =>
      cases called
      exact growsBy_of_eq (slots_cancelImpl s oid)
  | reduce oid delta =>
      cases called
      exact growsBy_of_eq (slots_doReduce s oid delta)
  | modify oid newPrice newQty =>
      rcases Option.map_eq_some_iff.mp called with ⟨⟨done, ok⟩, inner, same⟩
      cases same
      exact growsBy_doModify inner
  | halt =>
      cases called
      exact growsBy_of_eq rfl
  | resume =>
      cases called
      exact growsBy_of_eq rfl
  | uncross =>
      rcases Option.map_eq_some_iff.mp called with ⟨⟨done, crossed⟩, inner, same⟩
      cases same
      exact growsBy_of_eq (slots_doUncross inner)

theorem growsBy_runOps {ops : List Op} {rets : List Ret} (run : s.runOps ops = some (s', rets)) :
    GrowsBy ((ops.map newSlots).sum) s s' := by
  induction ops generalizing s rets with
  | nil =>
      cases run
      exact growsBy_of_eq rfl
  | cons op ops induction =>
      rcases Option.bind_eq_some_iff.mp run with ⟨⟨s₁, ret⟩, step, run⟩
      rcases Option.bind_eq_some_iff.mp run with ⟨⟨s₂, rets'⟩, later, run⟩
      cases run
      have first := growsBy_step step
      have rest := induction later
      rw [List.map_cons, List.sum_cons]
      exact ⟨first.1.trans rest.1, by have := first.2; have := rest.2; omega⟩

end MatchingEngine

end Matchbook
