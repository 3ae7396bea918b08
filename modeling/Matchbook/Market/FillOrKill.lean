import Matchbook.Market.Auction
import Matchbook.Market.Fills
import Matchbook.Market.Frame
import Matchbook.Market.Ladder

namespace Matchbook

open Transitions

/-! # Fill or kill

The scan of the levels and the matching of the orders agree: an order is admitted if the
other side offers as much as it wants, and then takes that much. -/

/-! ## The scan -/

theorem toNat_scanLevel {level : List RO} {start : Qty}
    (fits : start.toNat + queueTotal level < 2 ^ 64) :
    (level.foldl (fun sum o => sum + (o.qty + o.reserve)) start).toNat =
      start.toNat + queueTotal level := by
  induction level generalizing start with
  | nil => rfl
  | cons o level induction =>
      have total : queueTotal (o :: level) = o.qty.toNat + o.reserve.toNat + queueTotal level := by
        simp [queueTotal]
      rw [total] at fits ⊢
      have order : (o.qty + o.reserve).toNat = o.qty.toNat + o.reserve.toNat := by
        rw [UInt64.toNat_add, Nat.mod_eq_of_lt (by omega)]
      have next : (start + (o.qty + o.reserve)).toNat =
          start.toNat + (o.qty.toNat + o.reserve.toNat) := by
        rw [UInt64.toNat_add, order, Nat.mod_eq_of_lt (by omega)]
      rw [List.foldl_cons, induction (by omega), next]
      omega

namespace Market

variable {m : Market} {side maker : Side} {price : Price} {want : Qty}

def within (m : Market) (maker : Side) (price : Price) (prices : List Price) : Nat :=
  ((prices.filter fun px => maker.Reaches px price).map fun px =>
    queueTotal (m.levels maker px)).sum

/-- The scan falls short exactly if there is not enough. -/
theorem scan_lt_iff {prices : List Price} {start : Qty}
    (fits : start.toNat + m.within maker price prices < 2 ^ 64) :
    prices.foldl (fun sum px =>
      if maker.Reaches px price ∧ sum < want then
        (m.levels maker px).foldl (fun sum o => sum + (o.qty + o.reserve)) sum
      else sum) start < want ↔ start.toNat + m.within maker price prices < want.toNat := by
  induction prices generalizing start with
  | nil => simp [within, UInt64.lt_iff_toNat_lt]
  | cons px prices induction =>
      by_cases reaches : maker.Reaches px price
      · have total : m.within maker price (px :: prices) =
            queueTotal (m.levels maker px) + m.within maker price prices := by
          simp [within, reaches]
        rw [total] at fits ⊢
        rw [List.foldl_cons]
        by_cases short : start < want
        · have level : _ = start.toNat + queueTotal (m.levels maker px) :=
            toNat_scanLevel (Nat.lt_of_le_of_lt (by omega) fits)
          rw [if_pos ⟨reaches, short⟩, induction (by rw [level]; omega), level, Nat.add_assoc]
        · have enough := UInt64.le_iff_toNat_le.mp (UInt64.not_lt.mp short)
          rw [if_neg fun both => short both.2, induction (by omega)]
          omega
      · have total : m.within maker price (px :: prices) = m.within maker price prices := by
          simp [within, reaches]
        rw [total] at fits ⊢
        rw [List.foldl_cons, if_neg fun both => reaches both.1, induction fits]

theorem within_ladder (m : Market) (maker : Side) (price : Price) :
    m.within maker price (m.ladder maker) = m.offered maker price := by
  have nodup : ((m.ladder maker).filter fun px => maker.Reaches px price).Nodup := by
    apply List.Nodup.filter
    apply (m.ladder_sorted maker).imp
    rintro first second isWorse rfl
    exact maker.worse_irrefl _ isWorse
  rw [within, offered, ← List.sum_toFinset _ nodup]
  apply Finset.sum_congr
  · ext px
    simp [mem_ladder, mem_pricesBetween, inBand]
  · intro px _
    rfl

theorem fillable_lt_iff (want : Qty) (fits : m.offered side.opposite price < 2 ^ 64) :
    m.fillable side price want < want ↔ m.offered side.opposite price < want.toNat := by
  have total := m.within_ladder side.opposite price
  rw [fillable, scan_lt_iff (by simpa [total] using fits), total]
  simp

end Market

/-! ## The taker -/

/-- Of the order with that id, `q` is taken and nothing else becomes of it. -/
structure Takes (id : OrderId) (q : Nat) (events : List Event) : Prop where
  filled : Market.filled id events = q
  standing : .cancel id ∉ events
  takes : ∀ trade, .trade trade ∈ events → trade.maker ≠ id

section taking

variable {id : OrderId} {q q' : Nat} {first second events : List Event}

theorem takes_nil : Takes id 0 [] := ⟨rfl, List.not_mem_nil, nofun⟩

theorem Takes.append (left : Takes id q first) (right : Takes id q' second) :
    Takes id (q + q') (first ++ second) := by
  constructor
  case filled => rw [Market.filled, Market.tally_append, ← left.filled, ← right.filled]; rfl
  case standing =>
      rw [List.mem_append, not_or]
      exact ⟨left.standing, right.standing⟩
  case takes =>
      intro trade member
      rcases List.mem_append.mp member with before | after
      · exact left.takes trade before
      · exact right.takes trade after

theorem takes_unnamed (unnamed : ∀ event ∈ events, ¬ event.Names id) : Takes id 0 events where
  filled := Market.filled_eq_zero fun _ member same => unnamed _ member (.inl same)
  standing member := unnamed _ member rfl
  takes _ member same := unnamed _ member (.inr same)

end taking

structure Affords (m : Market) (t : Taker) (price : Price) : Prop where
  limit : t.limit = some price
  cancels : t.remainder = .cancel
  running : m.halted = false
  enough : t.qty.toNat ≤ m.offered t.maker price
  foreign : ∀ px, t.maker.Reaches px price → ∀ o ∈ m.levels t.maker px, ¬ t.Owns o

variable {m m' : Market} {t : Taker} {price : Price} {events : List Event}
  {next : Market × Phase}

theorem Affords.step (affords : Affords m t price) (valid : ValidState (m, .taking t))
    (step : Step (m, .taking t) events next) :
    (∃ m' t', next = (m', .taking t') ∧ t' = t.withQty t'.qty ∧ Affords m' t' price ∧
      ∃ q, Takes t.id q events ∧ t.qty.toNat = t'.qty.toNat + q) ∨
        (next = (m, .idle) ∧ events = [] ∧ t.qty = 0) := by
  have validM : m.Valid := valid.1
  have reaches {px : Price} (within : t.maker.Within px t.limit) : t.maker.Reaches px price := by
    rw [affords.limit] at within
    exact within
  have notOwn {px : Price} {o : RO} {rest : List RO} (meets : t.Meets m px o rest) : ¬ t.Owns o :=
    affords.foreign px (reaches meets.within) o (by simp [meets.head])
  have dry (left : t.qty ≠ 0) (blocked : t.Blocked m) : False := by
    rcases blocked with halted | none
    · rw [affords.running] at halted
      cases halted
    · have nothing : m.offered t.maker price = 0 := by
        by_contra some
        rcases validM.offered_ne_zero.mp some with ⟨px, occupied, inside⟩
        refine none px occupied ?_
        rw [affords.limit]
        exact inside
      have enough := affords.enough
      rw [nothing, Nat.le_zero] at enough
      exact left (UInt64.toNat_inj.mp enough)
  cases step with
  | @fill m t px o rest fill meets other amount =>
      have within := reaches meets.within
      have atHead : o ∈ m.levels t.maker px := by simp [meets.head]
      have shape := validM.shape _ _ o atHead
      have fits : fill ≤ o.total := by
        have shown := shape.qty_le_total
        grind
      have lost := validM.offered_consume (s := t.maker) (p := price) px meets.head fits
      rw [if_pos ⟨rfl, within⟩] at lost
      have taken := toNat_fill amount
      have notSelf : o.id ≠ t.id := fun same =>
        valid.2.fresh (same ▸ Market.isOpen_of_mem atHead)
      refine .inl ⟨_, _, rfl, rfl, ⟨affords.limit, affords.cancels, affords.running, ?_, ?_⟩,
        fill.toNat, ?_, taken⟩
      · have enough := affords.enough
        have same : Market.offered { m.setLevel t.maker px (consume px fill (o :: rest)).1 with
          last := some px } t.maker price =
            (m.setLevel t.maker px (consume px fill (o :: rest)).1).offered t.maker price := rfl
        rw [Taker.withQty_qty, Taker.withQty_maker, same]
        omega
      · intro px' inside o' member own
        rcases Market.shrinks_consume px fill meets.head t.maker px' o' member with
          ⟨before, present, continues⟩
        exact affords.foreign px' inside before present ⟨own.1, continues.owner ▸ own.2⟩
      · constructor
        case filled => rw [Market.filled, Market.tally_trade, Market.tally_consume, if_pos rfl]; rfl
        case standing =>
            intro member
            rcases List.mem_cons.mp member with same | clip
            · cases same
            · rcases mem_consume_events clip with ⟨o, -, same, -⟩
              cases same
        case takes =>
            intro trade member
            rcases List.mem_cons.mp member with same | clip
            · cases same
              exact notSelf
            · rcases mem_consume_events clip with ⟨o, -, same, -⟩
              cases same
  | cancelMaker meets own policy => exact absurd own (notOwn meets)
  | cancelTaker meets own policy => exact absurd own (notOwn meets)
  | cancelBoth meets own policy => exact absurd own (notOwn meets)
  | filled done => exact .inr ⟨rfl, rfl, done⟩
  | rest left blocked rests => exact (dry left blocked).elim
  | cancelRemainder left blocked cancels => exact (dry left blocked).elim
  | discard left blocked discards => exact (dry left blocked).elim

theorem Affords.run (affords : Affords m t price) (valid : ValidState (m, .taking t))
    (run : Run Step (m, .taking t) events (m', .idle)) :
    Takes t.id t.qty.toNat events ∧ ¬ m'.IsOpen t.id := by
  have kept : ∀ state new next seen,
      ((∃ m₁ t', state = (m₁, .taking t') ∧ t' = t.withQty t'.qty ∧ Affords m₁ t' price ∧
        ValidState state ∧ ∃ q, Takes t.id q seen ∧ t.qty.toNat = t'.qty.toNat + q) ∨
          (Gone t.id state ∧ Takes t.id t.qty.toNat seen)) → Step state new next →
      ((∃ m₁ t', next = (m₁, .taking t') ∧ t' = t.withQty t'.qty ∧ Affords m₁ t' price ∧
        ValidState next ∧ ∃ q, Takes t.id q (seen ++ new) ∧ t.qty.toNat = t'.qty.toNat + q) ∨
          (Gone t.id next ∧ Takes t.id t.qty.toNat (seen ++ new))) := by
    rintro state new next seen (⟨m₁, t', rfl, same, affords', valid', q, taken, left⟩ |
      ⟨gone, taken⟩) step
    · have sameId : t'.id = t.id := by rw [same]; rfl
      rcases affords'.step valid' step with ⟨m₂, t'', rfl, same', affords'', q', taken', left'⟩ |
        ⟨rfl, rfl, done⟩
      · refine .inl ⟨m₂, t'', rfl, ?_, affords'', Step.valid valid' step, q + q', ?_, by omega⟩
        · rw [same', same]
          rfl
        · rw [sameId] at taken'
          exact taken.append taken'
      · rw [done] at left
        refine .inr ⟨⟨?_, ?_⟩, ?_⟩
        · rw [← sameId]
          exact valid'.2.fresh
        · rintro t'' (taking | stopped) <;> contradiction
        · rw [List.append_nil]
          simpa [left] using taken
    · rcases step.gone gone with ⟨gone', unnamed⟩
      exact .inr ⟨gone', taken.append (takes_unnamed unnamed)⟩
  have start := run.recorded kept
    (.inl ⟨m, t, rfl, rfl, affords, valid, 0, takes_nil, rfl⟩)
  rcases start with ⟨m₁, t', same, -⟩ | ⟨gone, taken⟩
  · cases same
  · exact ⟨taken, gone.closed⟩

/-! ## The submission -/

namespace Market

variable {op : Op} {ret : Ret} {side : Side} {qty peak : Qty} {owner : OwnerId} {stp : StpPolicy}

theorem Performs.rejected (settled : m.Settled) (submit : op.IsSubmit) (bad : m.Rejects op)
    (performs : m.Performs op events m' ret) :
    events = [.reject invalidOrderId] ∧ m' = m ∧ ret = op.rejection := by
  cases performs with
  | intro start steps settled' answers =>
      rcases start.submit_cases submit with ⟨-, same, answer⟩ | ⟨good, -⟩
      · cases same
        rcases settled.still steps with ⟨rfl, same⟩
        cases same
        exact ⟨rfl, rfl, answer⟩
      · exact absurd bad good

def Foreign (m : Market) (maker : Side) (price : Price) (owner : OwnerId) : Prop :=
  owner = 0 ∨ ∀ px, maker.Reaches px price → ∀ o ∈ m.levels maker px, o.owner ≠ owner

/-- An order that passes the entry checks is filled whole or killed whole. -/
theorem Performs.fillOrKill (valid : m.Valid) (settled : m.Settled) (running : m.halted = false)
    (entry : op.Limit side price qty .fok owner stp peak) (inside : m.inBand price)
    (nonzero : qty ≠ 0) (fits : m.offered side.opposite price < 2 ^ 64)
    (performs : m.Performs op events m' ret) :
    ret = .id m.nextId ∧
      (qty.toNat ≤ m.offered side.opposite price → m.Foreign side.opposite price owner →
        Takes m.nextId qty.toNat events ∧ ¬ m'.IsOpen m.nextId) ∧
      (m.offered side.opposite price < qty.toNat →
        events = [.accept m.nextId side price qty, .cancel m.nextId] ∧
          m' = { m with nextId := m.nextId + 1 }) := by
  have accepted : ¬ m.Rejects op := by
    cases entry with
    | limit => simp [Rejects, inside, nonzero]
    | iceberg shown => simp [Rejects, inside, nonzero, shown]
  have short := m.fillable_lt_iff qty fits
  cases performs with
  | intro start steps settled' answers =>
      rcases start.submit_cases (entry.isSubmit) with ⟨bad, -⟩ | ⟨-, same, answer⟩
      · exact absurd bad accepted
      · have validNext := start.valid valid
        have id : ret = .id m.nextId := by
          rcases answer with ⟨side', qty', owner', stp', same⟩ | id
          · cases same
            cases entry
          · exact id
        rw [entering_limit entry, entering] at same
        split at same
        case isTrue refused =>
          cases same
          have dry : m.offered side.opposite price < qty.toNat := by
            rcases refused with halted | less
            · rw [running] at halted
              cases halted
            · exact short.mp less
          have settledNext : { m with nextId := m.nextId + 1 }.Settled := settled
          rcases settledNext.still steps with ⟨rfl, last⟩
          cases last
          exact ⟨id, fun enough => absurd enough (Nat.not_le.mpr dry), fun _ => ⟨rfl, rfl⟩⟩
        case isFalse admitted =>
          cases same
          have enough : qty.toNat ≤ m.offered side.opposite price :=
            Nat.not_lt.mp fun less => admitted (.inr (short.mpr less))
          refine ⟨id, fun _ foreign => ?_, fun dry => absurd enough (Nat.not_le.mpr dry)⟩
          have affords : Affords { m with nextId := m.nextId + 1 }
              (.ofLimit m.nextId side price qty .fok owner stp peak) price := by
            have cancels : (Taker.ofLimit m.nextId side price qty .fok owner stp peak).remainder =
                .cancel := by simp [Taker.ofLimit]
            refine ⟨rfl, cancels, running, enough, fun px reaches o member own => ?_⟩
            rcases foreign with free | notOwn
            · exact own.1 free
            · exact notOwn px reaches o member own.2
          rcases affords.run validNext steps with ⟨takes, gone⟩
          have accepted : Takes m.nextId 0 [.accept m.nextId side price qty] := by
            apply takes_unnamed
            intro event member names
            cases List.mem_singleton.mp member
            cases names
          refine ⟨?_, gone⟩
          have whole := accepted.append takes
          rw [Nat.zero_add] at whole
          exact whole

end Market

end Matchbook
