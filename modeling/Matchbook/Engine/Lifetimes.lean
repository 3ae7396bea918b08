import Matchbook.Engine.Journal
import Matchbook.Market.Icebergs
import Matchbook.Market.PostOnly

namespace Matchbook

open Transitions

/-! # What an order was submitted as, over its whole life

`modify` enters an order again with what the node has kept of its submission: the
owner and the policy, of an iceberg the peak, but not the time in force. -/

namespace MatchingEngine

section rules

variable {H : Type} (s : MatchingEngine H) (register : Register)

def Reenters (o : RO) (newPrice : Price) (newQty : Qty) : Prop :=
  newQty ≠ 0 ∧ s.inBand newPrice ∧ ¬ (newPrice = o.price ∧ newQty ≤ o.total)

/-- The operation enters no PostOnly order again where it would cross. -/
def StaysPassive (op : Op) : Prop :=
  ∀ (side : Side) (px : Price), ∀ o ∈ s.queue side.book px, ∀ newPrice newQty,
    op = .modify o.id newPrice newQty → s.Reenters o newPrice newQty → register.PostOnly o.id →
      s.halted = true ∨ ¬ s.wouldCross o.side newPrice

/-- The operation enters no iceberg that rests without its peak again for more than
its display. -/
def KeepsPeak (op : Op) : Prop :=
  ∀ (side : Side) (px : Price), ∀ o ∈ s.queue side.book px, ∀ newPrice newQty,
    op = .modify o.id newPrice newQty → s.Reenters o newPrice newQty → o.peak = 0 →
      ∀ d ∈ register.display? o.id, newQty ≤ d

end rules

section simulation

variable {H : Type} {band : Band} {s : MatchingEngine H} {r : ReferenceEngine H}
  {register : Register} {op : Op}

theorem Simulates.reenters_iff (simulates : Simulates band s r) {o : RO} {newPrice : Price}
    {newQty : Qty} : s.Reenters o newPrice newQty ↔ r.market.Reenters o newPrice newQty := by
  rcases simulates.tracks with ⟨cells, mirrors, -⟩
  have inBand : s.inBand newPrice ↔ r.market.inBand newPrice := mirrors.inBand_iff newPrice
  rw [Reenters, Market.Reenters, inBand]

theorem Simulates.wouldCross_iff (simulates : Simulates band s r) (side : Side) (price : Price) :
    s.wouldCross side price ↔ r.market.WouldCross side price := by
  rcases simulates.tracks with ⟨cells, mirrors, -⟩
  rw [mirrors.wouldCross_iff]
  exact ReferenceEngine.wouldCross_market simulates.sound.keyed side price

theorem Simulates.staysPassive (simulates : Simulates band s r)
    (stays : s.StaysPassive register op) : r.market.StaysPassive register op := by
  intro side px o member newPrice newQty isModify reenters postOnly
  have shows := simulates.shows
  rw [← shows.levels] at member
  have clear := stays side px o member newPrice newQty isModify
    (simulates.reenters_iff.mpr reenters) postOnly
  rw [simulates.wouldCross_iff, shows.halted] at clear
  exact clear

theorem Simulates.keepsPeak (simulates : Simulates band s r) (keeps : s.KeepsPeak register op) :
    r.market.KeepsPeak register op := by
  intro side px o member newPrice newQty isModify reenters plain d display
  rw [← simulates.shows.levels] at member
  exact keeps side px o member newPrice newQty isModify (simulates.reenters_iff.mpr reenters)
    plain d display

theorem Simulates.orderQty_eq (simulates : Simulates band s r) (id : OrderId) :
    s.orderQty id = 0 ∨
      ∃ side px, ∃ o ∈ r.market.levels side px, o.id = id ∧ s.orderQty id = o.qty := by
  rcases simulates.tracks with ⟨cells, mirrors, -⟩
  unfold orderQty MatchingEngine.lookup
  cases found : s.mem.lookup id with
  | none => exact .inl rfl
  | some ptr =>
      rcases (mirrors.heap.filed.table id ptr).mp found with ⟨book, i, o, member, rfl⟩
      have node := (mirrors.heap.filed.holds book i ptr o member).node
      have inLevel {side : Side} (isBook : book = side.book) :
          o ∈ r.market.levels side (band.min + i) := by
        subst isBook
        have snd := List.mem_map_of_mem (f := Prod.snd) member
        rw [mirrors.resting] at snd
        exact snd
      dsimp only
      rw [node]
      cases book with
      | bids => exact .inr ⟨.buy, _, o, inLevel rfl, rfl, rfl⟩
      | asks => exact .inr ⟨.sell, _, o, inLevel rfl, rfl, rfl⟩
      | stopBids => exact .inl rfl
      | stopAsks => exact .inl rfl

end simulation

/-! ## PostOnly -/

/-- In a run that enters no PostOnly order again where it would cross, no trade outside
an auction has a PostOnly order for its taker. -/
theorem journal_passive (band : Band) (expectedOrders : Nat) (ops : List Op)
    (abides : Abides Register.see StaysPassive (new band [] expectedOrders) .start ops) :
    ∃ log s, (new band [] expectedOrders : MatchingEngine Tape).journal ops = some (log, s) ∧
      Throughout Register.see Register.Passive .start log := by
  have begins {m : Market} {register : Register} {op : Op} (valid : m.Valid)
      (unaggressive : Unaggressive (m, .idle) register) (stays : m.StaysPassive register op)
      {ret : Ret} (first : List Event) (next : Market × Phase)
      (start : m.Begin op first next ret) : Unaggressive next (register.begun op ret first) ∧
        Throughout Register.see Register.Passive register (.called op ret :: first.map .seen) := by
    refine ⟨unaggressive.begin valid stays start, throughout_of_forall ?_⟩
    intro register entry member
    rcases List.mem_cons.mp member with rfl | seen
    · trivial
    · rcases List.mem_map.mp seen with ⟨event, isEvent, rfl⟩
      cases event with
      | trade trade => exact absurd isEvent start.not_trade
      | _ => trivial
  have kept : ∀ state events next register, Unaggressive state register →
      Step state events next → Unaggressive next register ∧
        ∀ entry ∈ events.map Entry.seen, register.Passive entry :=
    fun _ _ _ _ unaggressive step => ⟨unaggressive.step step, unaggressive.passive step⟩
  have start : Unaggressive ((ReferenceEngine.new band ([] : Tape)).market, .idle) .start := by
    rw [market_new]
    exact .new band
  rcases (simulates_new band [] expectedOrders).abides
    (fun m register => Unaggressive (m, .idle) register)
    (fun s r register op events m' ret simulates unaggressive stays performs =>
      Register.performs kept performs
        (begins simulates.sound.valid unaggressive (simulates.staysPassive stays)))
    start abides with ⟨log, s, r, run, -, good, -⟩
  exact ⟨log, s, run, good⟩

/-- A PostOnly bid that is moved up to a price below the offers. -/
theorem journal_passive_reprice :
    let band : Band := ⟨95, 105, by decide, by decide, by decide⟩
    let ops : List Op :=
      [.submitLimit .buy 97 5 .postOnly 0 .cancelTaker,
        .submitLimit .sell 100 3 .gtc 0 .cancelTaker, .modify 1 99 5,
        .submitLimit .sell 99 2 .gtc 0 .cancelTaker]
    ∃ log s, (new band [] 16 : MatchingEngine Tape).journal ops = some (log, s) ∧
      Throughout Register.see Register.Passive .start log := by
  intro band ops
  let clear (r : ReferenceEngine Tape) (_ : Register) : Op → Bool
    | .modify _ price _ => ¬ r.wouldCross .buy price ∧ ¬ r.wouldCross .sell price
    | _ => true
  have decides (s : MatchingEngine Tape) (r : ReferenceEngine Tape) (register : Register) (op : Op)
      (simulates : Simulates band s r) (passes : clear r register op = true) :
      s.StaysPassive register op := by
    rintro side px o member newPrice newQty rfl reenters postOnly
    right
    have apart := of_decide_eq_true passes
    have keyed := simulates.sound.keyed
    rw [simulates.wouldCross_iff, ← ReferenceEngine.wouldCross_market keyed]
    cases o.side with
    | buy => exact apart.1
    | sell => exact apart.2
  apply journal_passive
  exact (simulates_new band [] 16).abides_of decides (by decide +kernel)

/-- A PostOnly bid is moved up to an offer, and takes it. -/
theorem not_journal_passive :
    ¬ ∀ (band : Band) (expectedOrders : Nat) (ops : List Op) (log : List Entry)
      (s : MatchingEngine Tape), (new band [] expectedOrders).journal ops = some (log, s) →
        Throughout Register.see Register.Passive .start log := by
  intro claim
  let band : Band := ⟨95, 105, by decide, by decide, by decide⟩
  let ops : List Op :=
    [.submitLimit .buy 99 5 .postOnly 0 .cancelTaker,
      .submitLimit .sell 100 3 .gtc 0 .cancelTaker, .modify 1 100 5]
  rcases (simulates_new band [] 16).journal ops with ⟨log, s, r, run, ref, -⟩
  have seen : ((ReferenceEngine.new band ([] : Tape)).journal ops).map Prod.fst = some
      [.called (.submitLimit .buy 99 5 .postOnly 0 .cancelTaker) (.id 1),
        .seen (.accept 1 .buy 99 5), .seen (.rest 1 .buy 99 5),
        .called (.submitLimit .sell 100 3 .gtc 0 .cancelTaker) (.id 2),
        .seen (.accept 2 .sell 100 3), .seen (.rest 2 .sell 100 3),
        .called (.modify 1 100 5) (.ok true), .seen (.cancel 1), .seen (.accept 1 .buy 100 5),
        .seen (.trade ⟨1, 2, 100, 3, .buy⟩), .seen (.rest 1 .buy 100 2)] := by
    decide +kernel
  rw [ref, Option.map_some, Option.some_inj] at seen
  have good := claim band 16 ops log s run
  rw [show log = _ from seen] at good
  simp [Throughout, Register.see, Register.Passive, Register.PostOnly, Op.IsSubmit,
    Op.IsPostOnly, Register.start] at good

/-! ## Icebergs -/

/-- In a run that enters no iceberg again without its peak for more than its display,
no iceberg ever shows more. -/
theorem journal_discreet (band : Band) (expectedOrders : Nat) (ops : List Op)
    (abides : Abides Register.see KeepsPeak (new band [] expectedOrders) .start ops) :
    ∃ log s, (new band [] expectedOrders : MatchingEngine Tape).journal ops = some (log, s) ∧
      Throughout Register.see Register.Discreet .start log ∧
      ∀ id, ∀ d ∈ (log.foldl Register.see .start).display? id, s.orderQty id ≤ d := by
  have begins {m : Market} {register : Register} {op : Op} (valid : m.Valid)
      (hidden : Hidden (m, .idle) register) (keeps : m.KeepsPeak register op)
      {ret : Ret} (first : List Event) (next : Market × Phase)
      (start : m.Begin op first next ret) : Hidden next (register.begun op ret first) ∧
        Throughout Register.see Register.Discreet register (.called op ret :: first.map .seen) := by
    refine ⟨hidden.begin valid keeps start, throughout_of_forall ?_⟩
    intro register entry member
    rcases List.mem_cons.mp member with rfl | seen
    · trivial
    · rcases List.mem_map.mp seen with ⟨event, isEvent, rfl⟩
      cases event with
      | rest id side price displayed => exact absurd isEvent start.not_rest
      | _ => trivial
  have kept : ∀ state events next register, Hidden state register →
      Step state events next → Hidden next register ∧
        ∀ entry ∈ events.map Entry.seen, register.Discreet entry :=
    fun _ _ _ _ hidden step => ⟨hidden.step step, hidden.discreet step⟩
  have start : Hidden ((ReferenceEngine.new band ([] : Tape)).market, .idle) .start := by
    rw [market_new]
    exact .new band
  rcases (simulates_new band [] expectedOrders).abides
    (fun m register => Hidden (m, .idle) register)
    (fun s r register op events m' ret simulates hidden keeps performs =>
      Register.performs kept performs
        (begins simulates.sound.valid hidden (simulates.keepsPeak keeps)))
    start abides with ⟨log, s, r, run, simulates, good, hidden⟩
  refine ⟨log, s, run, good, fun id d display => ?_⟩
  rcases simulates.orderQty_eq id with zero | ⟨side, px, o, member, rfl, shown⟩
  · rw [zero]
    exact UInt64.zero_le
  · rw [shown]
    exact (hidden.resting side px o member d display).1

/-- An iceberg that rests in one clip is moved for less than its display. -/
theorem journal_discreet_reprice :
    let band : Band := ⟨95, 105, by decide, by decide, by decide⟩
    let ops : List Op :=
      [.submitIceberg .buy 99 3 5 .gtc 0 .cancelTaker, .modify 1 98 4,
        .submitIceberg .sell 101 9 2 .gtc 0 .cancelTaker, .submitMarket .buy 3 0 .cancelTaker]
    ∃ log s, (new band [] 16 : MatchingEngine Tape).journal ops = some (log, s) ∧
      Throughout Register.see Register.Discreet .start log ∧
      ∀ id, ∀ d ∈ (log.foldl Register.see .start).display? id, s.orderQty id ≤ d := by
  intro band ops
  let small (_ : ReferenceEngine Tape) (register : Register) : Op → Bool
    | .modify id _ qty => (register.display? id).all (qty ≤ ·)
    | _ => true
  have decides (s : MatchingEngine Tape) (r : ReferenceEngine Tape) (register : Register) (op : Op)
      (_ : Simulates band s r) (passes : small r register op = true) :
      s.KeepsPeak register op := by
    rintro side px o member newPrice newQty rfl reenters plain d display
    have within : (register.display? o.id).all (newQty ≤ ·) = true := passes
    rw [Option.mem_def.mp display] at within
    exact of_decide_eq_true within
  apply journal_discreet
  exact (simulates_new band [] 16).abides_of decides (by decide +kernel)

/-- An iceberg of 3 with display 5 rests without its peak, and shows 10 when it is
modified to 10. -/
theorem not_journal_discreet :
    ¬ ∀ (band : Band) (expectedOrders : Nat) (ops : List Op) (log : List Entry)
      (s : MatchingEngine Tape), (new band [] expectedOrders).journal ops = some (log, s) →
        Throughout Register.see Register.Discreet .start log ∧
          ∀ id, ∀ d ∈ (log.foldl Register.see .start).display? id, s.orderQty id ≤ d := by
  intro claim
  let band : Band := ⟨95, 105, by decide, by decide, by decide⟩
  let ops : List Op := [.submitIceberg .buy 99 3 5 .gtc 0 .cancelTaker, .modify 1 99 10]
  rcases (simulates_new band [] 16).journal ops with ⟨log, s, r, run, ref, -⟩
  have seen : ((ReferenceEngine.new band ([] : Tape)).journal ops).map Prod.fst = some
      [.called (.submitIceberg .buy 99 3 5 .gtc 0 .cancelTaker) (.id 1),
        .seen (.accept 1 .buy 99 3), .seen (.rest 1 .buy 99 3),
        .called (.modify 1 99 10) (.ok true), .seen (.cancel 1), .seen (.accept 1 .buy 99 10),
        .seen (.rest 1 .buy 99 10)] := by
    decide +kernel
  rw [ref, Option.map_some, Option.some_inj] at seen
  have good := (claim band 16 ops log s run).1
  rw [show log = _ from seen] at good
  simp [Throughout, Register.see, Register.Discreet, Register.display?, Op.IsSubmit,
    Op.display?, Register.start] at good

end MatchingEngine

end Matchbook
