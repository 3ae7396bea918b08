import Matchbook.Engine.LockstepAuction

namespace Matchbook

open BoundedLoop OrderedMap

/-! # The fast engine refines the reference engine

Operation by operation the two engines stay in step, from the empty book on. -/

/-! ## What can be seen of an engine -/

structure View where
  best : Side → Option Price
  depth : Side → Price → Qty
  hidden : Side → Price → Qty
  count : Side → Price → UInt32
  last : Price
  hasLast : Bool
  halted : Bool
  pendingStops : Nat
  openOrders : Nat

namespace MatchingEngine

variable {H : Type}

def view (s : MatchingEngine H) : View where
  best side := if s.hasBest side then some (s.bestPrice side) else none
  depth := s.depthAt
  hidden := s.hiddenAt
  count := s.orderCountAt
  last := s.lastPx
  hasLast := s.hasLast
  halted := s.halted
  pendingStops := s.pendingStops
  openOrders := s.openOrders

/-- After every operation its answer, the tape so far and the book. -/
def trace (s : MatchingEngine Tape) : List Op → Option (List (Ret × Tape × View))
  | [] => some []
  | op :: ops => do
      let (s, ret) ← s.step op
      let seen ← s.trace ops
      some ((ret, s.h, s.view) :: seen)

end MatchingEngine

namespace ReferenceEngine

variable {H : Type}

def view (r : ReferenceEngine H) : View where
  best := r.best
  depth := r.depthAt
  hidden := r.hiddenAt
  count := r.orderCountAt
  last := r.last
  hasLast := r.hasLast
  halted := r.halted
  pendingStops := r.stops.length
  openOrders := r.openOrders

def trace (r : ReferenceEngine Tape) : List Op → Option (List (Ret × Tape × View))
  | [] => some []
  | op :: ops => do
      let (r, ret) ← r.step op
      let seen ← r.trace ops
      some ((ret, r.h, r.view) :: seen)

def restingOrders (r : ReferenceEngine H) (side : Side) : List RO :=
  (r.levels side).flatMap Prod.snd

theorem mem_restingOrders {r : ReferenceEngine H} {side : Side} {o : RO} :
    o ∈ r.restingOrders side ↔ ∃ px, o ∈ r.level side px := by
  simp only [restingOrders, List.mem_flatMap, Prod.exists, mem_levels]
  constructor
  · rintro ⟨px, level, ⟨-, rfl⟩, member⟩
    exact ⟨px, member⟩
  · rintro ⟨px, member⟩
    refine ⟨px, _, ⟨?_, rfl⟩, member⟩
    by_contra absent
    rw [ReferenceEngine.level, Std.ExtTreeMap.getD_eq_fallback absent] at member
    exact List.not_mem_nil member

theorem nodup_restingOrders {r : ReferenceEngine H} (valid : r.market.Valid) (side : Side) :
    ((r.restingOrders side).map RO.id).Nodup := by
  rw [restingOrders, List.map_flatMap, List.nodup_flatMap]
  constructor
  · rintro ⟨px, level⟩ member
    rcases mem_levels.mp member with ⟨-, rfl⟩
    exact valid.distinct side px
  · refine List.pairwise_iff_forall_sublist.mpr fun {first second} sub => ?_
    have apart := List.pairwise_iff_forall_sublist.mp (r.levels_sorted side) sub
    rcases mem_levels.mp (sub.subset List.mem_cons_self : (first.1, first.2) ∈ r.levels side) with
      ⟨-, left⟩
    obtain ⟨-, right⟩ := mem_levels.mp (sub.subset (List.mem_cons_of_mem _ List.mem_cons_self) :
      (second.1, second.2) ∈ r.levels side)
    intro id inFirst inSecond
    rcases List.mem_map.mp inFirst with ⟨o, member, rfl⟩
    rcases List.mem_map.mp inSecond with ⟨o', member', same⟩
    rw [← left] at member
    rw [← right] at member'
    rcases valid.place side first.1 side second.1 o member o' member' same.symm with ⟨-, price⟩
    exact side.worse_irrefl _ (price ▸ apart)

def openOrderIds (r : ReferenceEngine H) : List OrderId :=
  (r.stops ++ (r.restingOrders .buy ++ r.restingOrders .sell)).map RO.id

theorem mem_openOrderIds {r : ReferenceEngine H} {id : OrderId} :
    id ∈ r.openOrderIds ↔ r.market.IsOpen id := by
  simp only [openOrderIds, List.mem_map, List.mem_append, mem_restingOrders]
  constructor
  · rintro ⟨o, parked | ⟨px, member⟩ | ⟨px, member⟩, rfl⟩
    · exact .inr ⟨o, parked, rfl⟩
    · exact .inl ⟨.buy, px, o, member, rfl⟩
    · exact .inl ⟨.sell, px, o, member, rfl⟩
  · rintro (⟨side, px, o, member, rfl⟩ | ⟨o, parked, rfl⟩)
    · cases side with
      | buy => exact ⟨o, .inr (.inl ⟨px, member⟩), rfl⟩
      | sell => exact ⟨o, .inr (.inr ⟨px, member⟩), rfl⟩
    · exact ⟨o, .inl parked, rfl⟩

theorem nodup_openOrderIds {r : ReferenceEngine H} (valid : r.market.Valid) :
    r.openOrderIds.Nodup := by
  rw [openOrderIds, List.map_append, List.map_append, List.nodup_append, List.nodup_append]
  refine ⟨valid.stopDistinct, ⟨nodup_restingOrders valid .buy, nodup_restingOrders valid .sell,
    ?_⟩, ?_⟩
  · intro id inBids id' inAsks same
    rcases List.mem_map.mp inBids with ⟨o, resting, rfl⟩
    rcases List.mem_map.mp inAsks with ⟨o', resting', rfl⟩
    rcases mem_restingOrders.mp resting with ⟨px, member⟩
    rcases mem_restingOrders.mp resting' with ⟨px', member'⟩
    exact absurd (valid.place .buy px .sell px' o member o' member' same).1 (by decide)
  · intro id parked id' inBook same
    rcases List.mem_map.mp parked with ⟨stop, isStop, rfl⟩
    rw [← List.map_append] at inBook
    rcases List.mem_map.mp inBook with ⟨o, resting, rfl⟩
    rcases List.mem_append.mp resting with resting | resting <;>
      rcases mem_restingOrders.mp resting with ⟨px, member⟩ <;>
      exact valid.apart _ px o member stop isStop same.symm

theorem openOrders_eq (r : ReferenceEngine H) : r.openOrders = r.openOrderIds.length := by
  have count (entries : List (Price × List RO)) (start : Nat) :
      entries.foldl (fun n entry => n + entry.2.length) start =
        start + (entries.flatMap Prod.snd).length := by
    induction entries generalizing start with
    | nil => simp
    | cons entry entries induction =>
        rw [List.foldl_cons, induction, List.flatMap_cons, List.length_append, Nat.add_assoc]
  have reversed : (r.restingOrders .buy).length =
      ((r.book .buy).toList.flatMap Prod.snd).length := by
    simp [restingOrders, levels, List.length_flatMap, List.sum_reverse]
  have forward : (r.restingOrders .sell).length =
      ((r.book .sell).toList.flatMap Prod.snd).length := rfl
  simp only [openOrders, List.foldl_cons, List.foldl_nil, Std.ExtTreeMap.foldl_eq_foldl_toList,
    count, openOrderIds, List.length_map, List.length_append, reversed, forward, Nat.add_assoc]

end ReferenceEngine

namespace ReferenceEngine

variable {H : Type}

structure Sound (r : ReferenceEngine H) : Prop where
  valid : r.market.Valid
  keyed : r.Keyed
  settled : r.market.Settled

theorem Performed.sound [Handler H] {r r' : ReferenceEngine H} {op : Op} {ret : Ret}
    (sound : r.Sound) (performed : r.Performed op r' ret) : r'.Sound := by
  rcases performed.performs with ⟨events, performs, -⟩
  refine ⟨performs.valid sound.valid, performed.keyed, ?_⟩
  cases performs with
  | intro start steps settled => exact settled

theorem new_sound (band : Band) (h : H) : (new band h).Sound := by
  have empty (side : Side) (px : Price) : (new band h).level side px = [] :=
    Std.ExtTreeMap.getD_empty
  have noOrder (side : Side) (px : Price) (o : RO) : o ∉ (new band h).market.levels side px := by
    show o ∉ (new band h).level side px
    simp [empty]
  have noStop (o : RO) : o ∉ (new band h).market.stops := List.not_mem_nil
  refine ⟨⟨?_, ?_, ?_, ?_, ?_, ?_, ?_, ?_, List.nodup_nil, ?_, ?_, Nat.one_pos⟩, ?_, ?_⟩
  · exact fun side px o member => absurd member (noOrder side px o)
  · exact fun side px occupied => absurd (empty side px) occupied
  · exact fun side px o member => absurd member (noOrder side px o)
  · intro side px
    show ((new band h).level side px |>.map RO.id).Nodup
    rw [empty]
    exact List.nodup_nil
  · exact fun side px _ _ o member => absurd member (noOrder side px o)
  · exact fun o member => absurd member (noStop o)
  · exact fun o member => absurd member (noStop o)
  · exact fun o member => absurd member (noStop o)
  · exact fun side px o member => absurd member (noOrder side px o)
  · rintro id (⟨side, px, o, member, -⟩ | ⟨o, member, -⟩)
    · exact absurd member (noOrder side px o)
    · exact absurd member (noStop o)
  · intro side px
    rw [empty]
    simp [new]
  · exact .inr fun o member => absurd member (noStop o)

end ReferenceEngine

namespace MatchingEngine

variable {H : Type}

def Band.levels (band : Band) : Nat := (band.max - band.min + 1).toNat

structure Simulates (band : Band) (s : MatchingEngine H) (r : ReferenceEngine H) : Prop where
  tracks : Tracks band.min (Band.levels band) false false s r
  sound : r.Sound

theorem heap_new (band : Band) (h : H) (expectedOrders : Nat) :
    (new band h expectedOrders).mem.Heap fun _ _ => [] where
  filed :=
    { linked := fun _ _ => IntrusiveList.isList_nil _
      holds := fun _ _ _ _ member => absurd member List.not_mem_nil
      total := fun _ _ => rfl
      hidden := fun _ _ => rfl
      count := fun _ _ => rfl
      apart := fun _ _ _ _ _ _ _ member => absurd member List.not_mem_nil
      table := fun id ptr => by
        have none : (new band h expectedOrders).mem.lookup id = none := by
          simp only [new, Memory.lookup]
          cases id <;> rfl
        rw [none]
        simp }
  stocked :=
    { pool := ⟨[], Pool.accounts_reserve expectedOrders, fun ptr => by simp [Cells.Live]⟩
      free := fun ext member => absurd member List.not_mem_nil
      distinct := List.nodup_nil
      used := fun ptr ext live => by simp [Cells.Live] at live
      apart := fun ptr ptr' ext live => by simp [Cells.Live] at live }

theorem simulates_new (band : Band) (h : H) (expectedOrders : Nat) :
    Simulates band (new band h expectedOrders) (ReferenceEngine.new band h) where
  sound := ReferenceEngine.new_sound band h
  tracks := by
    have ordered := band.min_le_max
    have empty (side : Side) (px : Price) : px ∉ (ReferenceEngine.new band h).book side :=
      Std.ExtTreeMap.not_mem_empty
    refine ⟨fun _ _ => [], ?_, rfl, rfl⟩
    exact {
      heap := heap_new band h expectedOrders
      fastMin := rfl
      fastLevels := rfl
      refMin := rfl
      refMax := by
        simp only [ReferenceEngine.new, Band.levels]
        lia
      resting := fun side i => (Std.ExtTreeMap.getD_empty).symm
      parked := fun side i => rfl
      inside := fun side px member => absurd member (empty side px)
      occupied := fun side i => by
        refine ⟨fun set => ?_, fun member => absurd member (empty side _)⟩
        cases side <;> simp [new, Side.book, LevelBitmap.test_new] at set
      mapSize := fun side => by cases side <;> rfl
      best := fun side => by
        have none : (ReferenceEngine.new band h).best side = none := by
          cases side with
          | buy => exact last?_eq_none.mpr (empty .buy)
          | sell => exact first?_eq_none.mpr (empty .sell)
        rw [none]
        rfl
      unparked := fun _ => rfl
      stopOccupied := fun allocated => by simp [new] at allocated
      stopMapSize := fun allocated => by simp [new] at allocated
      ids := rfl
      pending := rfl
      last := rfl
      hasLast := rfl
      halted := rfl
      h := rfl }

/-! ## Operations -/

section operations

variable [Handler H] {min : Price} {nLevels : Nat} {s s₁ : MatchingEngine H}
  {r r' : ReferenceEngine H}

/-- What an operation does before the trigger pump. -/
def body (s : MatchingEngine H) : Op → Option (MatchingEngine H × Ret)
  | .submitLimit side price qty tif owner stp =>
      (s.doSubmitLimit side price qty tif owner stp).map (·.map id .id)
  | .submitMarket side qty owner stp => (s.doSubmitMarket side qty owner stp).map (·.map id .qty)
  | .submitIceberg side price totalQty display tif owner stp =>
      (s.doSubmitIceberg side price totalQty display tif owner stp).map (·.map id .id)
  | .submitStop side stopPrice qty owner stp =>
      (s.doSubmitStop side stopPrice 0 qty true owner stp).map (·.map id .id)
  | .submitStopLimit side stopPrice limitPrice qty owner stp =>
      (s.doSubmitStop side stopPrice limitPrice qty false owner stp).map (·.map id .id)
  | .cancel oid => some ((s.cancelImpl oid).map id .ok)
  | .reduce oid delta => some ((s.doReduce oid delta).map id .ok)
  | .modify oid newPrice newQty => (s.doModify oid newPrice newQty).map (·.map id .ok)
  | .halt => some ({ s with halted := true }, .done)
  | .resume => some ({ s with halted := false }, .done)
  | .uncross => s.doUncross.map (·.map id .qty)

theorem run_map (s : MatchingEngine H) (f : MatchingEngine H → Option (MatchingEngine H × α))
    (answer : α → Ret) :
    (s.run f).map (·.map id answer) = s.run fun s => (f s).map (·.map id answer) := by
  unfold run
  cases found : f s with
  | none => simp [found]
  | some result =>
      simp only [found, Option.bind_eq_bind, Option.bind_some, Option.map_some, Prod.map_fst,
        id_eq, Prod.map_snd]
      split
      · rfl
      · cases { result.1 with pumping := true }.pumpStops <;> rfl

theorem step_eq (s : MatchingEngine H) (op : Op) : s.step op = s.run (·.body op) := by
  cases op with
  | halt => rfl
  | resume => rfl
  | _ => exact run_map s _ _

theorem body_lockstep {op : Op} {ret : Ret} (tracks : Tracks min nLevels false false s r)
    (sound : r.Sound) (run : r.step op = some (r', ret)) :
    ∃ s₁, s.body op = some (s₁, ret) ∧ PumpsTo min nLevels s₁ r' := by
  rcases sound with ⟨valid, keyed, settled⟩
  cases op with
  | submitLimit side price qty tif owner stp =>
      rcases Option.map_eq_some_iff.mp run with ⟨⟨r₁, id⟩, taken, same⟩
      cases same
      rcases doSubmitLimit_lockstep tracks valid keyed settled taken with ⟨s₁, fast, pumps⟩
      exact ⟨s₁, by rw [body, fast]; rfl, pumps⟩
  | submitMarket side qty owner stp =>
      rcases Option.map_eq_some_iff.mp run with ⟨⟨r₁, left⟩, taken, same⟩
      cases same
      rcases doSubmitMarket_lockstep tracks valid keyed settled taken with ⟨s₁, fast, pumps⟩
      exact ⟨s₁, by rw [body, fast]; rfl, pumps⟩
  | submitIceberg side price totalQty display tif owner stp =>
      rcases Option.map_eq_some_iff.mp run with ⟨⟨r₁, id⟩, taken, same⟩
      cases same
      rcases doSubmitIceberg_lockstep tracks valid keyed settled taken with ⟨s₁, fast, pumps⟩
      exact ⟨s₁, by rw [body, fast]; rfl, pumps⟩
  | submitStop side stopPrice qty owner stp =>
      rcases Option.map_eq_some_iff.mp run with ⟨⟨r₁, id⟩, taken, same⟩
      cases same
      rcases doSubmitStop_lockstep tracks valid keyed settled .market taken with ⟨s₁, fast, pumps⟩
      exact ⟨s₁, by rw [body, fast]; rfl, pumps⟩
  | submitStopLimit side stopPrice limitPrice qty owner stp =>
      rcases Option.map_eq_some_iff.mp run with ⟨⟨r₁, id⟩, taken, same⟩
      cases same
      rcases doSubmitStop_lockstep tracks valid keyed settled .limit taken with ⟨s₁, fast, pumps⟩
      exact ⟨s₁, by rw [body, fast]; rfl, pumps⟩
  | cancel id =>
      rcases Option.map_eq_some_iff.mp run with ⟨⟨r₁, ok⟩, taken, same⟩
      cases same
      rcases cancelImpl_lockstep tracks valid keyed settled taken with ⟨s₁, fast, pumps⟩
      exact ⟨s₁, by rw [body, fast]; rfl, pumps⟩
  | reduce id delta =>
      rcases Option.map_eq_some_iff.mp run with ⟨⟨r₁, ok⟩, taken, same⟩
      cases same
      rcases doReduce_lockstep tracks valid keyed settled taken with ⟨s₁, fast, pumps⟩
      exact ⟨s₁, by rw [body, fast]; rfl, pumps⟩
  | modify id newPrice newQty =>
      rcases Option.map_eq_some_iff.mp run with ⟨⟨r₁, ok⟩, taken, same⟩
      cases same
      rcases doModify_lockstep tracks valid keyed settled taken with ⟨s₁, fast, pumps⟩
      exact ⟨s₁, by rw [body, fast]; rfl, pumps⟩
  | halt =>
      cases run
      rcases tracks with ⟨cells, mirrors, flags⟩
      have halted : Tracks min nLevels false false { s with halted := true }
          { r with halted := true } := ⟨cells, { mirrors with halted := rfl }, flags⟩
      exact ⟨_, rfl, pumpsTo_settled halted (valid.setHalted true) keyed (.inl rfl)⟩
  | resume =>
      rcases Option.map_eq_some_iff.mp run with ⟨r₁, pump, same⟩
      cases same
      rcases tracks with ⟨cells, mirrors, flags⟩
      have resumed : Tracks min nLevels false false { s with halted := false }
          { r with halted := false } := ⟨cells, { mirrors with halted := rfl }, flags⟩
      exact ⟨_, rfl, _, resumed, valid.setHalted false, keyed, pump⟩
  | uncross =>
      rcases Option.map_eq_some_iff.mp run with ⟨⟨r₁, crossed⟩, taken, same⟩
      cases same
      rcases Option.bind_eq_some_iff.mp taken with ⟨⟨r₂, crossed'⟩, uncrossed, taken⟩
      rcases Option.bind_eq_some_iff.mp taken with ⟨r₃, pump, same⟩
      cases same
      rcases doUncross_lockstep tracks valid keyed uncrossed with
        ⟨s₁, fast, tracks₁, valid₁, keyed₁⟩
      exact ⟨s₁, by rw [body, fast]; rfl, r₂, tracks₁, valid₁, keyed₁, pump⟩

theorem step_lockstep {op : Op} {ret : Ret} (tracks : Tracks min nLevels false false s r)
    (sound : r.Sound) (run : r.step op = some (r', ret)) :
    ∃ s', s.step op = some (s', ret) ∧ Tracks min nLevels false false s' r' := by
  rcases body_lockstep tracks sound run with ⟨s₁, fast, pumps⟩
  rw [step_eq]
  exact run_lockstep fast pumps

theorem Simulates.step {band : Band} (simulates : Simulates band s r) (op : Op) :
    ∃ s' r' ret, s.step op = some (s', ret) ∧ r.step op = some (r', ret) ∧
      Simulates band s' r' ∧ r.Performed op r' ret := by
  obtain ⟨r', ret, run, performed⟩ := ReferenceEngine.step_spec simulates.sound.valid
    simulates.sound.keyed simulates.sound.settled op
  rcases step_lockstep simulates.tracks simulates.sound run with ⟨s', fast, tracks⟩
  exact ⟨s', r', ret, fast, run, ⟨tracks, performed.sound simulates.sound⟩, performed⟩

theorem Simulates.doUncross {band : Band} (simulates : Simulates band s r) :
    ∃ s₁ r₁ crossed, s.doUncross = some (s₁, crossed) ∧ r.Auctioned r₁ crossed ∧
      Tracks band.min (Band.levels band) false false s₁ r₁ ∧ r₁.market.Valid ∧ r₁.Keyed := by
  rcases simulates.sound with ⟨valid, keyed, -⟩
  rcases ReferenceEngine.doUncross_spec valid keyed with ⟨r₁, crossed, run, auctioned⟩
  rcases doUncross_lockstep simulates.tracks valid keyed run with ⟨s₁, fast, tracks⟩
  exact ⟨s₁, r₁, crossed, fast, auctioned, tracks⟩

theorem Simulates.runOps {band : Band} (simulates : Simulates band s r) (ops : List Op) :
    ∃ s' r' rets, s.runOps ops = some (s', rets) ∧ r.runOps ops = some (r', rets) ∧
      Simulates band s' r' := by
  induction ops generalizing s r with
  | nil => exact ⟨s, r, [], rfl, rfl, simulates⟩
  | cons op ops induction =>
      rcases simulates.step op with ⟨s₁, r₁, ret, fast, ref, simulates₁, -⟩
      rcases induction simulates₁ with ⟨s', r', rets, fast', ref', simulates'⟩
      refine ⟨s', r', ret :: rets, ?_, ?_, simulates'⟩
      · simp only [MatchingEngine.runOps, fast, fast', Option.bind_eq_bind, Option.bind_some]
      · simp only [ReferenceEngine.runOps, ref, ref', Option.bind_eq_bind, Option.bind_some]

end operations

/-! ## The observable book -/

section views

variable {min : Price} {nLevels : Nat} {s : MatchingEngine H} {cells : Cells}
  {r : ReferenceEngine H}

namespace Mirrors

theorem isOpen_iff (mirrors : Mirrors min nLevels s cells r) (valid : r.market.Valid)
    {id : OrderId} : r.market.IsOpen id ↔ ∃ ptr, s.mem.lookup id = some ptr := by
  constructor
  · rintro (⟨side, px, o, member, rfl⟩ | ⟨o, parked, rfl⟩)
    · rcases List.append_of_mem member with ⟨front, back, level⟩
      rcases mirrors.idx_eq (valid.inside side px (List.ne_nil_of_mem member)) with ⟨index, -⟩
      obtain ⟨-, ptr, -, found, -⟩ := mirrors.lookup_resting
        (show r.level side (min + (s.idx px : Int)) = front ++ o :: back from index.symm ▸ level)
      exact ⟨ptr, found⟩
    · rcases List.append_of_mem parked with ⟨front, back, stops⟩
      rcases mirrors.lookup_parked stops (valid.stopInside o parked) with ⟨-, ptr, -, found, -⟩
      exact ⟨ptr, found⟩
  · rintro ⟨ptr, found⟩
    by_contra closed
    rw [mirrors.lookup_none closed] at found
    contradiction

theorem openOrders_eq (mirrors : Mirrors min nLevels s cells r) (valid : r.market.Valid) :
    s.openOrders = r.openOrders := by
  rcases mirrors.heap.stocked.pool with ⟨nodes, accounts, isLive⟩
  have table (ptr : Ptr) (live : ptr ∈ nodes) :
      s.mem.lookup (s.mem.nodes ptr).id = some ptr := by
    rcases ((isLive ptr).mp live).mem with ⟨book, i, o, member⟩
    refine (mirrors.heap.filed.table _ ptr).mpr ⟨book, i, o, member, ?_⟩
    rw [(mirrors.heap.filed.holds book i ptr o member).node]
    rfl
  have nodup : (nodes.map fun ptr => (s.mem.nodes ptr).id).Nodup := by
    refine List.Nodup.map_on (fun ptr live ptr' live' same => ?_)
      (List.nodup_append.mp accounts.nodup).1
    have here := table ptr live
    rw [same, table ptr' live'] at here
    exact (Option.some.inj here).symm
  have same : (nodes.map fun ptr => (s.mem.nodes ptr).id).Perm r.openOrderIds := by
    refine (List.perm_ext_iff_of_nodup nodup (ReferenceEngine.nodup_openOrderIds valid)).mpr
      fun id => ?_
    rw [ReferenceEngine.mem_openOrderIds, List.mem_map]
    constructor
    · rintro ⟨ptr, live, rfl⟩
      exact (mirrors.isOpen_iff valid).mpr ⟨ptr, table ptr live⟩
    · intro isOpen
      rcases (mirrors.isOpen_iff valid).mp isOpen with ⟨ptr, found⟩
      rcases (mirrors.heap.filed.table id ptr).mp found with ⟨book, i, o, member, rfl⟩
      refine ⟨ptr, (isLive ptr).mpr (Cells.live_of_mem member), ?_⟩
      rw [(mirrors.heap.filed.holds book i ptr o member).node]
      rfl
  rw [openOrders, accounts.inUse, r.openOrders_eq, ← same.length_eq, List.length_map]

theorem level_outside (mirrors : Mirrors min nLevels s cells r) {side : Side} {px : Price}
    (outside : ¬ r.inBand px) : r.level side px = [] :=
  Std.ExtTreeMap.getD_eq_fallback fun present => outside (mirrors.inside side px present)

theorem depthAt_eq (mirrors : Mirrors min nLevels s cells r) (side : Side) (px : Price) :
    s.depthAt side px = r.depthAt side px := by
  unfold depthAt ReferenceEngine.depthAt
  by_cases inside : r.inBand px
  · rcases mirrors.idx_eq inside with ⟨index, -⟩
    have sum := sum_eq_foldl RO.qty (cells side.book (s.idx px)) 0
    rw [mirrors.resting, index, zero_add] at sum
    rw [if_pos ((mirrors.inBand_iff px).mpr inside), sum, mirrors.heap.filed.total]
  · rw [if_neg (mt (mirrors.inBand_iff px).mp inside), mirrors.level_outside inside]
    rfl

theorem hiddenAt_eq (mirrors : Mirrors min nLevels s cells r) (side : Side) (px : Price) :
    s.hiddenAt side px = r.hiddenAt side px := by
  unfold hiddenAt ReferenceEngine.hiddenAt
  by_cases inside : r.inBand px
  · rcases mirrors.idx_eq inside with ⟨index, -⟩
    have sum := sum_eq_foldl RO.reserve (cells side.book (s.idx px)) 0
    rw [mirrors.resting, index, zero_add] at sum
    rw [if_pos ((mirrors.inBand_iff px).mpr inside), sum, mirrors.heap.filed.hidden]
  · rw [if_neg (mt (mirrors.inBand_iff px).mp inside), mirrors.level_outside inside]
    rfl

theorem orderCountAt_eq (mirrors : Mirrors min nLevels s cells r) (side : Side) (px : Price) :
    s.orderCountAt side px = r.orderCountAt side px := by
  unfold orderCountAt ReferenceEngine.orderCountAt
  by_cases inside : r.inBand px
  · rcases mirrors.idx_eq inside with ⟨index, -⟩
    have size := congrArg List.length (mirrors.resting side (s.idx px))
    rw [List.length_map, index] at size
    rw [if_pos ((mirrors.inBand_iff px).mpr inside), mirrors.heap.filed.count, size]
  · rw [if_neg (mt (mirrors.inBand_iff px).mp inside), mirrors.level_outside inside]
    rfl

theorem best_eq (mirrors : Mirrors min nLevels s cells r) (side : Side) :
    (if s.hasBest side then some (s.bestPrice side) else none) = r.best side := by
  have cached := mirrors.best side
  have fastMin := mirrors.fastMin
  cases best : r.best side with
  | none =>
      rw [best] at cached
      have unset : ¬ s.hasBest side := by
        unfold hasBest
        simp [cached, indexOf]
      rw [if_neg unset]
  | some px =>
      rw [best] at cached
      have low := mirrors.refMin ▸ (mirrors.inside side px (best_mem best).1).1
      simp only [indexOf] at cached
      have set : s.hasBest side := by
        unfold hasBest
        lia
      rw [if_pos set, bestPrice, Option.some.injEq]
      lia

theorem view_eq (mirrors : Mirrors min nLevels s cells r) (valid : r.market.Valid) :
    s.view = r.view := by
  unfold view ReferenceEngine.view
  congr 1
  · exact funext mirrors.best_eq
  · exact funext fun side => funext (mirrors.depthAt_eq side)
  · exact funext fun side => funext (mirrors.hiddenAt_eq side)
  · exact funext fun side => funext (mirrors.orderCountAt_eq side)
  · exact mirrors.last
  · exact mirrors.hasLast
  · exact mirrors.halted
  · exact mirrors.pending
  · exact mirrors.openOrders_eq valid

end Mirrors

end views

theorem Simulates.trace_eq {band : Band} {s : MatchingEngine Tape} {r : ReferenceEngine Tape}
    (simulates : Simulates band s r) (ops : List Op) :
    ∃ seen, s.trace ops = some seen ∧ r.trace ops = some seen := by
  induction ops generalizing s r with
  | nil => exact ⟨[], rfl, rfl⟩
  | cons op ops induction =>
      rcases simulates.step op with ⟨s', r', ret, fast, ref, simulates', -⟩
      rcases induction simulates' with ⟨seen, fast', ref'⟩
      rcases simulates'.tracks with ⟨cells, mirrors, -⟩
      have view : s'.view = r'.view := mirrors.view_eq simulates'.sound.valid
      refine ⟨(ret, s'.h, s'.view) :: seen, ?_, ?_⟩
      · simp only [trace, fast, fast', Option.bind_eq_bind, Option.bind_some]
      · simp only [ReferenceEngine.trace, ref, ref', Option.bind_eq_bind, Option.bind_some, view,
          mirrors.h]

end MatchingEngine

end Matchbook
