import Matchbook.Engine.Calls

namespace Matchbook

/-! # The open orders of an engine

What a visit of the whole book finds, and what is left when nothing is open. -/

namespace MatchingEngine

variable {H : Type} {s : MatchingEngine H}

theorem Holds.visits {m : Market} (holds : s.Holds m) :
    ∃ bids asks stops, s.visitOrders .buy = some bids ∧ s.visitOrders .sell = some asks ∧
      s.visitStops = some stops ∧ (bids.map Prod.fst ++ asks.map Prod.fst ++ stops).Nodup ∧
      ∀ id, id ∈ bids.map Prod.fst ++ asks.map Prod.fst ++ stops ↔ m.IsOpen id := by
  rcases holds with ⟨band, r, simulates, rfl⟩
  rcases simulates.tracks with ⟨cells, mirrors, -⟩
  have valid := simulates.sound.valid
  rcases mirrors.visitStops_perm valid with ⟨stops, visited, perm⟩
  have ids (side : Side) :
      ((r.levels side).flatMap fun entry => entry.2.map MatchingEngine.visited).map Prod.fst =
        (r.restingOrders side).map RO.id := by
    rw [ReferenceEngine.restingOrders, List.map_flatMap, List.map_flatMap]
    apply List.flatMap_congr
    intro entry member
    rw [List.map_map]
    rfl
  refine ⟨_, _, stops, mirrors.visitOrders_eq valid .buy, mirrors.visitOrders_eq valid .sell,
    visited,
    ?_⟩
  rw [ids, ids, ← List.map_append]
  have same : ((r.restingOrders .buy ++ r.restingOrders .sell).map RO.id ++ stops).Perm
      r.openOrderIds := by
    simp only [ReferenceEngine.openOrderIds, List.map_append]
    exact List.perm_append_comm.trans (perm.append_right _)
  refine ⟨same.nodup_iff.mpr (ReferenceEngine.nodup_openOrderIds valid), ?_⟩
  intro id
  rw [same.mem_iff, ReferenceEngine.mem_openOrderIds]

theorem Holds.isOpen_iff {m : Market} (holds : s.Holds m) (id : OrderId) :
    m.IsOpen id ↔ (s.lookup id).isSome := by
  rcases holds with ⟨band, r, simulates, rfl⟩
  rcases simulates.tracks with ⟨cells, mirrors, -⟩
  rw [mirrors.isOpen_iff simulates.sound.valid, Option.isSome_iff_exists]
  rfl

def Rests (s : MatchingEngine H) (id : OrderId) : Prop :=
  ∃ o, s.lookup id = some o ∧ (s.mem.nodes o).stopPending = false

theorem Holds.found {m : Market} (holds : s.Holds m) {side : Side} {px : Price} {o : RO}
    (member : o ∈ m.levels side px) :
    ∃ ptr, s.lookup o.id = some ptr ∧ s.mem.Holds side.book ptr o := by
  rcases holds with ⟨band, r, simulates, rfl⟩
  rcases simulates.tracks with ⟨cells, mirrors, -⟩
  rcases List.append_of_mem member with ⟨front, back, level⟩
  rcases mirrors.found simulates.sound.valid simulates.sound.keyed level with
    ⟨i, -, -, -, -, front', ptr, back', lookup, held, -⟩
  exact ⟨ptr, lookup, held⟩

theorem Holds.rests_iff {m : Market} (holds : s.Holds m) (id : OrderId) :
    s.Rests id ↔ m.Rests id := by
  constructor
  · rintro ⟨ptr, lookup, resting⟩
    rcases holds with ⟨band, r, simulates, rfl⟩
    rcases simulates.tracks with ⟨cells, mirrors, -⟩
    rcases (mirrors.heap.filed.table id ptr).mp lookup with ⟨book, i, o, member, rfl⟩
    have node := (mirrors.heap.filed.holds book i ptr o member).node
    have present := List.mem_map_of_mem (f := Prod.snd) member
    rw [node] at resting
    rcases book_cases book with ⟨side, rfl | rfl⟩
    · rw [mirrors.resting] at present
      exact ⟨side, _, o, present, rfl⟩
    · rw [Memory.nodeOf, Side.stopBook_holdsStops] at resting
      cases resting
  · rintro ⟨side, px, o, member, rfl⟩
    rcases holds.found member with ⟨ptr, lookup, held⟩
    refine ⟨ptr, lookup, ?_⟩
    rw [held.node]
    exact side.book_holdsStops

theorem Holds.orderQty_of_mem {m : Market} (holds : s.Holds m) {side : Side} {px : Price} {o : RO}
    (member : o ∈ m.levels side px) : s.orderQty o.id = o.qty := by
  rcases holds.found member with ⟨ptr, lookup, held⟩
  rw [orderQty, lookup]
  dsimp only
  rw [held.node, Memory.nodeOf, Side.book_holdsStops]
  rfl

theorem Holds.orderQty_eq_zero {m : Market} (holds : s.Holds m) {id : OrderId}
    (closed : ¬ m.Rests id) : s.orderQty id = 0 := by
  rw [← holds.rests_iff] at closed
  rw [orderQty]
  cases lookup : s.lookup id with
  | none => rfl
  | some ptr =>
      have pending : (s.mem.nodes ptr).stopPending = true := by
        by_contra resting
        exact closed ⟨ptr, lookup, by simpa using resting⟩
      exact if_pos pending

structure Flat (s : MatchingEngine H) : Prop where
  lookup : ∀ id, s.lookup id = none
  openOrders : s.openOrders = 0
  pendingStops : s.pendingStops = 0
  best : ∀ side, s.best side = -1
  levels : ∀ book i, (s.mem.levels book i).head = none ∧ (s.mem.levels book i).total = 0 ∧
    (s.mem.levels book i).hidden = 0 ∧ (s.mem.levels book i).count = 0
  visitOrders : ∀ side, s.visitOrders side = some []
  visitStops : s.visitStops = some []

theorem Holds.flat {m : Market} (holds : s.Holds m) (closed : ∀ id, ¬ m.IsOpen id) : s.Flat := by
  have visits := holds.visits
  have ids (id : OrderId) : s.lookup id = none := by
    have none := closed id
    rw [holds.isOpen_iff] at none
    simpa using none
  rcases holds with ⟨band, r, simulates, rfl⟩
  rcases simulates.tracks with ⟨cells, mirrors, -⟩
  have valid := simulates.sound.valid
  have stops : r.stops = [] := by
    apply List.eq_nil_iff_forall_not_mem.mpr
    exact fun o member => closed o.id (.inr ⟨o, member, rfl⟩)
  have level (side : Side) (px : Price) : r.level side px = [] := by
    apply List.eq_nil_iff_forall_not_mem.mpr
    exact fun o member => closed o.id (.inl ⟨side, px, o, member, rfl⟩)
  have orders : r.openOrderIds = [] := by
    apply List.eq_nil_iff_forall_not_mem.mpr
    exact fun id member => closed id (ReferenceEngine.mem_openOrderIds.mp member)
  have empty (book : BookName) (i : Nat) : cells book i = [] := by
    apply (List.map_eq_nil_iff (f := Prod.snd)).mp
    rcases book_cases book with ⟨side, rfl | rfl⟩
    · rw [mirrors.resting, level]
    · rw [mirrors.parked, stops]
      rfl
  rcases visits with ⟨bids, asks, stopIds, buys, sells, visited, -, members⟩
  have nothing : bids.map Prod.fst ++ asks.map Prod.fst ++ stopIds = [] := by
    apply List.eq_nil_iff_forall_not_mem.mpr
    exact fun id member => closed id ((members id).mp member)
  simp only [List.append_eq_nil_iff, List.map_eq_nil_iff] at nothing
  exact {
    lookup := ids
    openOrders := by rw [mirrors.openOrders_eq valid, r.openOrders_eq, orders]; rfl
    pendingStops := by rw [mirrors.pending, stops]; rfl
    best := by
      intro side
      have none : r.best side = none := by
        by_contra present
        rcases Option.ne_none_iff_exists'.mp present with ⟨px, best⟩
        exact (simulates.sound.keyed side px).mp (Mirrors.best_mem best).1 (level side px)
      rw [mirrors.best, none]
      rfl
    levels := by
      intro book i
      rw [mirrors.heap.filed.head, mirrors.heap.filed.total, mirrors.heap.filed.hidden,
        mirrors.heap.filed.count, empty]
      exact ⟨rfl, rfl, rfl, rfl⟩
    visitOrders := by
      intro side
      cases side with
      | buy => rw [buys, nothing.1.1]
      | sell => rw [sells, nothing.1.2]
    visitStops := by rw [visited, nothing.2]
  }

end MatchingEngine

end Matchbook
