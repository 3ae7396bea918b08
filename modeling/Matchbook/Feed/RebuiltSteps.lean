import Matchbook.Engine.Uncrossed
import Matchbook.Feed.CrossPrint
import Matchbook.Feed.Rebuilt

namespace Matchbook

open Transitions

/-! # The rebuilt book, step by step

The publisher adds two kinds of orders to the consumer's book: what a
taker leaves, which is clear of the other side, and the next clip of an order with a reserve,
which is not if a call phase left the order standing in the overlap. In an auction that clip
is announced at the clearing price, wherever the order is. -/

def RO.remains (o : RO) (f : Qty) : Option RO :=
  if (o.consumed f).qty = 0 then none else some (o.consumed f)

def RO.Renews (o : RO) (f : Qty) : Prop := (o.consumed f).qty = 0 ∧ 0 < (o.consumed f).reserve

namespace RO

variable {o o' : RO} {f : Qty}

theorem id_of_remains (remains : o' ∈ o.remains f) : o'.id = o.id := by
  rw [RO.remains] at remains
  split at remains
  · cases remains
  · cases remains
    rfl

theorem remains_qty {part : Qty} (displayed : part = if f < o.qty then f else o.qty) :
    (o.remains f).map RO.qty = if o.qty - part = 0 then none else some (o.qty - part) := by
  have left : (o.consumed f).qty = o.qty - part := by rw [displayed]; rfl
  rw [RO.remains, left]
  split
  · rfl
  · rw [Option.map_some, left]

end RO

namespace Market

variable {m m' : Market} {side : Side} {px price : Price} {level front back : List RO} {o : RO}

def ReservesClear (m : Market) : Prop :=
  ∀ side px, ∀ o ∈ m.levels side px, o.reserve ≠ 0 → ¬ m.WouldCross side px

def Clear (m : Market) : Prop := m.halted = true ∨ m.ReservesClear

def Misleads (m : Market) (side : Side) (px announced : Price) (o : RO) (f : Qty) : Prop :=
  o.Renews f ∧ (announced ≠ px ∨ (m.halted = false ∧ m.WouldCross side px))

inductive Exposed : Market × Phase → Prop
  | taker {m t px o rest fill} (meets : t.Meets m px o rest) (other : ¬ t.Owns o)
      (amount : fill = if t.qty < o.qty then t.qty else o.qty)
      (misleads : m.Misleads t.maker px px o fill) : Exposed (m, .taking t)
  | bid {m clearing bpx apx b a bids asks f} (bestBid : m.Best .buy bpx)
      (bestAsk : m.Best .sell apx) (bidHead : m.levels .buy bpx = b :: bids)
      (askHead : m.levels .sell apx = a :: asks) (bidReaches : clearing ≤ bpx)
      (askReaches : apx ≤ clearing)
      (amount : f = if b.total < a.total then b.total else a.total)
      (misleads : (m.setLevel .sell apx ((a.remains f).toList ++ asks)).Misleads .buy bpx clearing
        b f) : Exposed (m, .crossing clearing)
  | ask {m clearing bpx apx b a bids asks f} (bestBid : m.Best .buy bpx)
      (bestAsk : m.Best .sell apx) (bidHead : m.levels .buy bpx = b :: bids)
      (askHead : m.levels .sell apx = a :: asks) (bidReaches : clearing ≤ bpx)
      (askReaches : apx ≤ clearing)
      (amount : f = if b.total < a.total then b.total else a.total)
      (misleads : (m.setLevel .buy bpx (consume clearing f (b :: bids)).1).Misleads .sell apx
        clearing a f) : Exposed (m, .crossing clearing)

def Shields (m : Market) (op : Op) : Prop :=
  ∀ events next ret labels state, m.Begin op events next ret → Run Step next labels state →
    ¬ Exposed state

def Backs (m m' : Market) : Prop :=
  ∀ side px, ∀ o' ∈ m'.levels side px, o'.reserve ≠ 0 → ∃ o ∈ m.levels side px, o.reserve ≠ 0

theorem WouldCross.of_thins (crosses : m'.WouldCross side px) (thins : m.Thins m') :
    m.WouldCross side px :=
  crosses.imp fun p meets => ⟨thins side.opposite p meets.1, meets.2⟩

theorem Clear.thin (clear : Clear m) (halted : m'.halted = m.halted) (thins : m.Thins m')
    (backs : m.Backs m') : Clear m' := by
  rcases clear with inCall | apart
  · exact .inl (halted.trans inCall)
  · right
    intro side px o' member reserve crosses
    rcases backs side px o' member reserve with ⟨o, present, hidden⟩
    exact apart side px o present hidden (crosses.of_thins thins)

theorem backs_setLevel
    (backed : ∀ o' ∈ level, o'.reserve ≠ 0 → ∃ o ∈ m.levels side px, o.reserve ≠ 0) :
    m.Backs (m.setLevel side px level) := by
  intro s p o' member reserve
  rw [setLevel_levels] at member
  split at member
  case isTrue same =>
    rw [same.1, same.2]
    exact backed o' member reserve
  case isFalse => exact ⟨o', member, reserve⟩

theorem Backs.trans {m'' : Market} (first : m.Backs m') (second : m'.Backs m'') : m.Backs m'' := by
  intro side px o'' member reserve
  rcases second side px o'' member reserve with ⟨o', member', reserve'⟩
  exact first side px o' member' reserve'

theorem backs_sublist (sub : level.Sublist (m.levels side px)) :
    m.Backs (m.setLevel side px level) :=
  backs_setLevel fun o' member reserve => ⟨o', sub.subset member, reserve⟩

theorem reserve_of_consumed {f : Qty} (shape : o.Shape) (within : f ≤ o.total)
    (left : (o.consumed f).reserve ≠ 0) : o.reserve ≠ 0 := by
  intro none
  have reserve := shape.consumed_reserve within
  rw [none] at reserve
  exact left (UInt64.toNat_inj.mp (reserve.trans (Nat.zero_sub _)))

theorem backs_consume {announced : Price} {f : Qty} {rest : List RO}
    (head : m.levels side px = o :: rest) (shape : o.Shape) (within : f ≤ o.total) :
    m.Backs (m.setLevel side px (consume announced f (o :: rest)).1) := by
  apply backs_setLevel
  intro o' member reserve
  rw [head]
  rcases mem_consume member with behind | ⟨-, rfl⟩ | ⟨hidden, rfl⟩
  · exact ⟨o', List.mem_cons_of_mem o behind, reserve⟩
  · exact ⟨o, List.mem_cons_self, reserve_of_consumed shape within reserve⟩
  · exact ⟨o, List.mem_cons_self,
      reserve_of_consumed shape within (UInt64.pos_iff_ne_zero.mp hidden)⟩

/-- A pair of an auction only draws from the reserves. -/
theorem backs_cross {clearing bpx apx : Price} {bid ask : RO} {bids asks : List RO} {f : Qty}
    (valid : m.Valid) (bidHead : m.levels .buy bpx = bid :: bids)
    (askHead : m.levels .sell apx = ask :: asks)
    (amount : f = if bid.total < ask.total then bid.total else ask.total) :
    m.Backs ((m.setLevel .buy bpx (consume clearing f (bid :: bids)).1).setLevel .sell apx
      (consume clearing f (ask :: asks)).1) := by
  rcases le_total_of_min amount with ⟨bidWithin, askWithin⟩
  have bidThere : bid ∈ m.levels .buy bpx := by simp [bidHead]
  have askThere : ask ∈ m.levels .sell apx := by simp [askHead]
  have askHead' : (m.setLevel .buy bpx (consume clearing f (bid :: bids)).1).levels .sell apx =
      ask :: asks := by
    rw [setLevel_levels_side _ _ _ _ _ _ (by decide), askHead]
  exact (backs_consume bidHead (valid.shape _ _ bid bidThere) bidWithin).trans
    (backs_consume askHead' (valid.shape _ _ ask askThere) askWithin)

theorem setLevel_comm {side' : Side} {px' : Price} {level' : List RO} (differ : side ≠ side') :
    (m.setLevel side px level).setLevel side' px' level' =
      (m.setLevel side' px' level').setLevel side px level := by
  simp only [Market.setLevel, Function.update_of_ne differ, Function.update_of_ne differ.symm]
  rw [Function.update_comm differ]

theorem Valid.takeHead {f : Qty} {rest : List RO} (valid : m.Valid)
    (head : m.levels side px = o :: rest) (within : f ≤ o.total) :
    (m.setLevel side px ((o.remains f).toList ++ rest)).Valid := by
  rw [RO.remains]
  split
  case isTrue => exact valid.removeHead head
  case isFalse left =>
      have filled := valid.fillHead px head within
      rw [consume, if_neg fun both => left both.1, if_neg left] at filled
      exact filled

theorem Uncrossed.not_wouldCross (uncrossed : m.Uncrossed) (here : m.levels side px ≠ []) :
    ¬ m.WouldCross side px := by
  rintro ⟨p, occupied, reaches⟩
  cases side with
  | buy => exact Int.not_le.mpr (uncrossed px p here occupied) reaches
  | sell => exact Int.not_le.mpr (uncrossed p px occupied here) reaches

theorem Uncrossed.reservesClear (uncrossed : m.Uncrossed) : m.ReservesClear :=
  fun _ _ _ member _ => uncrossed.not_wouldCross (List.ne_nil_of_mem member)

end Market

open Market

theorem Market.Clear.rest {m : Market} {t : Taker} {price : Price} {o : RO} (clear : Clear m)
    (blocked : t.Blocked m) (limit : t.limit = some price) :
    Clear (m.setLevel t.side price (m.levels t.side price ++ [o])) := by
  rcases clear with inCall | apart
  · exact .inl inCall
  rcases blocked with inCall | away
  · exact .inl inCall
  rw [limit] at away
  right
  have opposite : t.side.opposite ≠ t.side := by cases t.side <;> exact Side.noConfusion
  -- The new level meets nothing, and what is opposite to it is where it was.
  have unmet : ¬ m.WouldCross t.side price := by
    rintro ⟨p, occupied, reaches⟩
    exact away p occupied reaches
  intro side px o' member reserve crosses
  rcases crosses with ⟨p, occupied, reaches⟩
  rw [setLevel_levels] at member occupied
  by_cases same : side = t.side
  · subst same
    rw [if_neg fun both => opposite both.1] at occupied
    split at member
    case isTrue here => exact unmet ⟨p, occupied, here.2 ▸ reaches⟩
    case isFalse => exact apart _ px o' member reserve ⟨p, occupied, reaches⟩
  · have other : side = t.side.opposite := by
      cases side <;> cases h : t.side <;> simp_all [Side.opposite]
    subst other
    rw [if_neg fun both => opposite both.1] at member
    split at occupied
    case isTrue here =>
      have occupied' : m.levels t.side.opposite px ≠ [] := List.ne_nil_of_mem member
      apply unmet
      refine ⟨px, occupied', ?_⟩
      rw [here.2] at reaches
      cases side : t.side <;> rw [side] at reaches <;> exact reaches
    case isFalse => exact apart _ px o' member reserve ⟨p, occupied, reaches⟩

section clear

variable {state next : Market × Phase} {events : List Event}

theorem Step.clear (step : Step state events next) (valid : ValidState state)
    (clear : Clear state.1) : Clear next.1 := by
  have validM : state.1.Valid := valid.1
  cases step with
  | @fill m t px o rest fill meets other amount =>
      have atHead : o ∈ m.levels t.maker px := by simp [meets.head]
      have shape := validM.shape _ _ o atHead
      have shown := shape.qty_le_total
      have within : fill ≤ o.total := by grind
      apply clear.thin
      · rfl
      · exact thins_setLevel _ (by simp [meets.head])
      · exact backs_consume meets.head shape within
  | @cancelMaker m t px o rest meets own policy =>
      apply clear.thin
      · rfl
      · exact thins_setLevel _ (by simp [meets.head])
      · exact backs_sublist (meets.head ▸ List.sublist_cons_self o rest)
  | @cancelBoth m t px o rest meets own policy =>
      apply clear.thin
      · rfl
      · exact thins_setLevel _ (by simp [meets.head])
      · exact backs_sublist (meets.head ▸ List.sublist_cons_self o rest)
  | @rest m t price peak left blocked rests =>
      exact clear.rest blocked (valid.2.rests price peak rests).2
  | @cross m clearing bpx apx b a bids asks f bestBid bestAsk bidHead askHead low high amount =>
      have askHead' : (m.setLevel .buy bpx (consume clearing f (b :: bids)).1).levels .sell apx =
          a :: asks := by
        rw [setLevel_levels_side _ _ _ _ _ _ (by decide), askHead]
      apply clear.thin
      · rfl
      · exact (thins_setLevel _ bestBid.occupied).trans
          (thins_setLevel _ (askHead' ▸ List.cons_ne_nil a asks))
      · exact backs_cross validM bidHead askHead amount
  | cancelTaker => exact clear
  | killed => exact clear
  | stoppedMarket => exact clear
  | filled => exact clear
  | cancelRemainder => exact clear
  | discard => exact clear
  | fire => exact clear
  | crossed => exact clear

theorem Market.Begin.clear {m : Market} {op : Op} {ret : Ret} (start : m.Begin op events next ret)
    (clear : Clear m) (resumes : op = .resume → m.ReservesClear) : Clear next.1 := by
  cases start with
  | @cancel op side px front o back cancels place =>
      apply clear.thin
      · rfl
      · exact thins_setLevel _ (by simp [place])
      · exact backs_sublist (place ▸ (List.sublist_cons_self o back).append_left front)
  | @erase op side px front o back delta reduces place all =>
      apply clear.thin
      · rfl
      · exact thins_setLevel _ (by simp [place])
      · exact backs_sublist (place ▸ (List.sublist_cons_self o back).append_left front)
  | @replace side px front o back newPrice newQty place nonzero inside moved =>
      apply clear.thin
      · rfl
      · exact thins_setLevel _ (by simp [place])
      · exact backs_sublist (place ▸ (List.sublist_cons_self o back).append_left front)
  | @reduce op side px front o back delta reduces place less =>
      apply clear.thin
      · rfl
      · exact thins_setLevel _ (by simp [place])
      · apply backs_setLevel
        intro o' member reserve
        rw [place]
        rcases List.mem_append.mp member with before | now
        · exact ⟨o', by simp [before], reserve⟩
        · rcases List.mem_cons.mp now with rfl | after
          · refine ⟨o, by simp, fun none => reserve ?_⟩
            rw [RO.reduced, none, if_neg (by simp), UInt64.sub_self]
          · exact ⟨o', by simp [after], reserve⟩
  | halt => exact .inl rfl
  | resume => exact .inr (resumes rfl)
  | reject => exact clear
  | refuse => exact clear
  | enter => exact clear
  | market => exact clear
  | trigger => exact clear
  | park => exact clear
  | decline => exact clear
  | cancelStop => exact clear
  | flat => exact clear
  | uncross => exact clear

theorem Market.Clear.not_exposed (clear : Clear state.1) (valid : ValidState state)
    (continuous : state.2.continuous = true) : ¬ Exposed state := by
  intro exposed
  cases exposed with
  | @taker m t px o rest fill meets other amount misleads =>
      rcases misleads with ⟨renews, elsewhere | ⟨running, crosses⟩⟩
      · exact elsewhere rfl
      have member : o ∈ m.levels t.maker px := meets.head ▸ List.mem_cons_self
      have shape := valid.1.shape _ _ o member
      have shown := shape.qty_le_total
      have within : fill ≤ o.total := by grind
      have reserve := reserve_of_consumed shape within (UInt64.pos_iff_ne_zero.mp renews.2)
      rcases clear with inCall | apart
      · exact Bool.false_ne_true (running.symm.trans inCall)
      · exact apart t.maker px o member reserve crosses
  | bid => exact Bool.false_ne_true continuous
  | ask => exact Bool.false_ne_true continuous

theorem Run.clear (run : Run Step state events next) (valid : ValidState state)
    (clear : Clear state.1) : Clear next.1 := by
  have kept : ∀ state events next, ValidState state ∧ Clear state.1 → Step state events next →
      ValidState next ∧ Clear next.1 :=
    fun _ _ _ good step => ⟨step.valid good.1, step.clear good.1 good.2⟩
  exact (run.invariant kept ⟨valid, clear⟩).2

theorem Market.Performs.clear {m m' : Market} {op : Op} {ret : Ret}
    (performs : m.Performs op events m' ret) (valid : m.Valid) (clear : Clear m)
    (resumes : op = .resume → m.ReservesClear) : Clear m' := by
  cases performs with
  | intro start steps => exact Run.clear steps (start.valid valid) (start.clear clear resumes)

theorem Market.Clear.shields {m : Market} {op : Op} (clear : Clear m) (valid : m.Valid)
    (calm : op ≠ .uncross) (resumes : op = .resume → m.ReservesClear) : m.Shields op := by
  intro events next ret labels state start run
  have validNext := start.valid valid
  have clearState := Run.clear run validNext (start.clear clear resumes)
  have phase := run.invariant (fun _ _ _ before step => Step.continuous step before)
    (start.continuous calm)
  exact clearState.not_exposed (Run.valid run validNext) phase

theorem Market.Bare.not_renews {m : Market} {side : Side} {px : Price} {o : RO} {f : Qty}
    (bare : m.Bare) (valid : m.Valid) (member : o ∈ m.levels side px) (within : f ≤ o.total) :
    ¬ o.Renews f := by
  intro renews
  have shape := valid.shape side px o member
  have reserve := reserve_of_consumed shape within (UInt64.pos_iff_ne_zero.mp renews.2)
  exact reserve (shape.plain (bare side px o member))

theorem Market.Bare.not_exposed (bare : state.1.Bare) (valid : state.1.Valid) :
    ¬ Exposed state := by
  intro exposed
  cases exposed with
  | @taker m t px o rest fill meets other amount misleads =>
      have member : o ∈ m.levels t.maker px := meets.head ▸ List.mem_cons_self
      have shown := (valid.shape _ _ o member).qty_le_total
      have within : fill ≤ o.total := by grind
      exact bare.not_renews valid member within misleads.1
  | @bid m clearing bpx apx b a bids asks f bestBid bestAsk bidHead askHead low high amount
      misleads =>
      have member : b ∈ m.levels .buy bpx := bidHead ▸ List.mem_cons_self
      exact bare.not_renews valid member (le_total_of_min amount).1 misleads.1
  | @ask m clearing bpx apx b a bids asks f bestBid bestAsk bidHead askHead low high amount
      misleads =>
      have member : a ∈ m.levels .sell apx := askHead ▸ List.mem_cons_self
      exact bare.not_renews valid member (le_total_of_min amount).2 misleads.1

theorem Market.Bare.shields {m : Market} {op : Op} (bare : m.Bare) (valid : m.Valid)
    (shows : ¬ op.Hides) : m.Shields op := by
  intro events next ret labels state start run
  rcases start.bare bare shows with ⟨bare₁, phase⟩
  exact (Run.bare run bare₁ phase).not_exposed (Run.valid run (start.valid valid)).1

end clear

namespace Itch

namespace Sink

theorem nextRef_execCross (sink : Sink) (id : OrderId) (fill : Qty) (px : Price) :
    (sink.execCross id fill px).nextRef = sink.nextRef := by
  rw [execCross]
  cases sink.slot id with
  | none => rfl
  | some r =>
      dsimp only
      generalize (if fill < r.displayed then fill else r.displayed) = part
      split <;> rfl

theorem nextRef_on_le (sink : Sink) (event : Event) :
    sink.nextRef ≤ (Handler.on sink event).nextRef := by
  cases event with
  | accept => exact Nat.le_refl _
  | reject => exact Nat.le_refl _
  | trade t =>
      show sink.nextRef ≤ (sink.evTrade t).nextRef
      rw [evTrade]
      split
      · rw [nextRef_execCross, nextRef_execCross]
      · cases sink.slot t.maker <;> exact Nat.le_refl _
  | cancel id =>
      show sink.nextRef ≤ (sink.evCancel id).nextRef
      rw [evCancel]
      split <;> exact Nat.le_refl _
  | rest => exact Nat.le_succ _

theorem nextRef_onAll_le (sink : Sink) (events : List Event) :
    sink.nextRef ≤ (Handler.onAll sink events).nextRef := by
  induction events generalizing sink with
  | nil => exact Nat.le_refl _
  | cons event events induction => exact Nat.le_trans (sink.nextRef_on_le event) (induction _)

end Sink

def Leads (stock : Stock) (sink : Sink) (b : BookBuilder) (e : MatchingEngine Tape) (sink' : Sink)
    (m' : Market) : Prop :=
  sink'.nextRef ≤ 2 ^ 64 → ∃ more b' e' copy', sink'.out = sink.out ++ more ∧
    b.readAll e (bodies stock more) = some (b', e') ∧ Silent e e' ∧ Rebuilds sink' m' b' e' copy'

section leads

variable {stock : Stock} {sink sink₁ sink' : Sink} {m m₁ m' : Market} {b : BookBuilder}
  {e : MatchingEngine Tape} {copy : Market} {side : Side} {px : Price} {front back rest : List RO}
  {o : RO} {f : Qty} {message : Publication}

theorem Leads.trans (first : Leads stock sink b e sink₁ m₁)
    (grows : sink₁.nextRef ≤ sink'.nextRef)
    (second : ∀ b₁ e₁ copy₁, Rebuilds sink₁ m₁ b₁ e₁ copy₁ → Leads stock sink₁ b₁ e₁ sink' m') :
    Leads stock sink b e sink' m' := by
  intro wide
  rcases first (Nat.le_trans grows wide) with ⟨more, b₁, e₁, copy₁, out, read, silent, rebuilds₁⟩
  rcases second b₁ e₁ copy₁ rebuilds₁ wide with
    ⟨later, b', e', copy', out', read', silent', rebuilds'⟩
  refine ⟨more ++ later, b', e', copy', ?_, ?_, silent.trans silent', rebuilds'⟩
  · rw [out', out, List.append_assoc]
  · rw [bodies, List.map_append]
    exact (BookBuilder.readAll_append read).trans read'

theorem Leads.congr (leads : Leads stock sink b e sink' m₁) (levels : m'.levels = m₁.levels)
    (min : m'.min = m₁.min) (max : m'.max = m₁.max) (halted : m'.halted = m₁.halted) :
    Leads stock sink b e sink' m' := by
  intro wide
  rcases leads wide with ⟨more, b', e', copy', out, read, silent, rebuilds⟩
  exact ⟨more, b', e', copy', out, read, silent, rebuilds.congr levels min max halted⟩

/-- One message. -/
theorem leads_of_read (out : sink'.out = sink.out ++ [message])
    (read : sink'.nextRef ≤ 2 ^ 64 → ∃ b' e' copy',
      b.read e (message.encoding stock).body = some (b', e') ∧ Silent e e' ∧
        Rebuilds sink' m' b' e' copy') :
    Leads stock sink b e sink' m' := by
  intro wide
  rcases read wide with ⟨b', e', copy', read, silent, rebuilds⟩
  exact ⟨[message], b', e', copy', out, (BookBuilder.readAll_single _).trans read, silent, rebuilds⟩

section rebuilds

variable (rebuilds : Rebuilds sink m b e copy)
include rebuilds

theorem Rebuilds.leads : Leads stock sink b e sink m := fun _ =>
  ⟨[], b, e, copy, (List.append_nil _).symm, rfl, silent_of_eq rfl, rebuilds⟩

theorem Rebuilds.flags (number : Nat) (cross saw : Bool) :
    Rebuilds { sink with matchNumber := number, inCross := cross, sawBookEvent := saw } m b e
      copy :=
  rebuilds.setSink rfl fun earlier _ tells => ⟨earlier, tells.flags number cross saw⟩

theorem Rebuilds.slot (member : o ∈ m.levels side px) :
    sink.slot o.id = some (sink.refAt o.id) := if_pos (rebuilds.shown member).1

/-! ## Events -/

theorem Rebuilds.evRest (fresh : ¬ m.IsOpen o.id) (nonzero : o.qty ≠ 0) (small : o.qty < 2 ^ 32)
    (inside : m.inBand px) (fits : 0 ≤ px ∧ px < 2 ^ 32)
    (clear : m.halted = true ∨ ¬ m.WouldCross side px) :
    Leads stock sink b e (sink.evRest o.id side px o.qty)
      (m.setLevel side px (m.levels side px ++ [o])) :=
  leads_of_read rfl fun wide => rebuilds.add fresh nonzero small inside fits clear wide sink.seq

theorem Rebuilds.execCross (valid : m.Valid) (head : m.levels side px = o :: rest) (some : f ≠ 0)
    (within : f ≤ o.total) (small : o.total < 2 ^ 32) (announced : Price) :
    Leads stock sink b e (sink.execCross o.id f announced)
      (m.setLevel side px ((o.remains f).toList ++ rest)) := by
  have member : o ∈ m.levels side px := by simp [head]
  have displayed := (rebuilds.shown member).2.1
  have positive := (valid.shape side px o member).positive
  have part : (if f < o.qty then f else o.qty) ≤ o.qty := by grind
  have nonzero : (if f < o.qty then f else o.qty) ≠ 0 := by grind
  have fits : (if f < o.qty then f else o.qty) < 2 ^ 32 := by grind
  rw [Sink.execCross, rebuilds.slot member]
  simp only [displayed]
  rw [if_neg nonzero]
  apply leads_of_read rfl
  intro wide
  have place : m.levels side px = [] ++ o :: rest := head
  exact ⟨b, rebuilds.draw valid place part fits (fun _ => RO.id_of_remains) (RO.remains_qty rfl)
    rfl rfl rfl rfl⟩

theorem Rebuilds.execCross_hidden {id : OrderId} (closed : ¬ m.Rests id) (announced : Price) :
    sink.execCross id f announced = sink := by
  rcases rebuilds.tells with ⟨earlier, screen, tells, onScreen⟩
  rw [Sink.execCross, tells.slot_none (onScreen.hides closed)]

/-- A fill of a taker that is not displayed. -/
theorem Rebuilds.evTrade (valid : m.Valid) (head : m.levels side px = o :: rest) {t : Trade}
    (maker : t.maker = o.id) (taker : ¬ m.Rests t.taker) (some : t.qty ≠ 0) (within : t.qty ≤ o.qty)
    (small : o.total < 2 ^ 32) :
    Leads stock sink b e (sink.evTrade t)
      (m.setLevel side px ((o.remains t.qty).toList ++ rest)) := by
  have member : o ∈ m.levels side px := by simp [head]
  have shown := (valid.shape side px o member).qty_le_total
  have displayed := (rebuilds.shown member).2.1
  rw [Sink.evTrade]
  split
  case isTrue =>
      rw [rebuilds.execCross_hidden taker, maker]
      exact rebuilds.execCross valid head some (UInt64.le_trans within shown) small t.price
  case isFalse =>
      have part : (if t.qty < o.qty then t.qty else o.qty) = t.qty := by grind
      have fits : t.qty < 2 ^ 32 := by grind
      rw [maker, rebuilds.slot member]
      simp only [displayed, part]
      apply leads_of_read rfl
      intro wide
      have place : m.levels side px = [] ++ o :: rest := head
      exact ⟨b, rebuilds.draw valid place within fits (fun _ => RO.id_of_remains)
        (RO.remains_qty part.symm) rfl rfl rfl rfl⟩

theorem Rebuilds.evCancel (valid : m.Valid) (place : m.levels side px = front ++ o :: back) :
    Leads stock sink b e (sink.evCancel o.id) (m.setLevel side px (front ++ back)) := by
  have member : o ∈ m.levels side px := by simp [place]
  have flagged := rebuilds.flags sink.matchNumber sink.inCross true
  rw [Sink.evCancel, flagged.slot member]
  apply leads_of_read rfl
  intro wide
  exact flagged.delete valid place wide rfl rfl rfl rfl

theorem Rebuilds.evCancel_hidden {id : OrderId} (closed : ¬ m.Rests id) :
    Leads stock sink b e (sink.evCancel id) m := by
  have flagged := rebuilds.flags sink.matchNumber sink.inCross true
  have hidden : ({ sink with sawBookEvent := true } : Sink).slot id = none := by
    rcases flagged.tells with ⟨earlier, screen, tells, onScreen⟩
    exact tells.slot_none (onScreen.hides closed)
  rw [Sink.evCancel, hidden]
  exact flagged.leads

end rebuilds

/-- The next clip of an order whose display is used up, if it is announced where it is. -/
theorem Rebuilds.clip (valid : m.Valid) (head : m.levels side px = o :: rest)
    (rebuilds : Rebuilds sink (m.setLevel side px ((o.remains f).toList ++ rest)) b e copy)
    (within : f ≤ o.total) (small : o.total < 2 ^ 32) (narrow : 0 ≤ m.min ∧ m.max < 2 ^ 32)
    {announced : Price} (honest : ¬ m.Misleads side px announced o f) :
    Leads stock sink b e (Handler.onAll sink (consume announced f (o :: rest)).2)
      (m.setLevel side px (consume announced f (o :: rest)).1) := by
  have member : o ∈ m.levels side px := by simp [head]
  have shape := valid.shape side px o member
  rcases consume_cases announced f o rest with ⟨left, equal⟩ | ⟨out, spent, equal⟩ |
    ⟨out, hidden, equal⟩
  · rw [RO.remains, if_neg left] at rebuilds
    rw [equal]
    exact rebuilds.leads
  · rw [RO.remains, if_pos out] at rebuilds
    rw [equal]
    exact rebuilds.leads
  · rw [RO.remains, if_pos out] at rebuilds
    have renews : o.Renews f := ⟨out, hidden⟩
    have truthful : announced = px := by
      by_contra elsewhere
      exact honest ⟨renews, .inl elsewhere⟩
    rw [equal, truthful, (valid.home side px o member).1]
    have rebuilds : Rebuilds sink (m.setLevel side px rest) b e copy := rebuilds
    have shape' := shape.replenished within hidden
    have inside : m.inBand px := valid.inside side px (by simp [head])
    have fresh : ¬ (m.setLevel side px rest).IsOpen (o.consumed f).replenished.id :=
      valid.not_isOpen_remove (show m.levels side px = [] ++ o :: rest from head)
    have less : (o.consumed f).replenished.qty < 2 ^ 32 :=
      UInt64.lt_of_le_of_lt (shape.clip_le_total within) small
    have clear' : (m.setLevel side px rest).halted = true ∨
        ¬ (m.setLevel side px rest).WouldCross side px := by
      cases running : m.halted with
      | true => exact .inl running
      | false =>
          right
          intro crosses
          have before := crosses.of_thins (thins_setLevel rest (by simp [head]))
          exact honest ⟨renews, .inr ⟨running, before⟩⟩
    have added : Leads stock sink b e _ _ :=
      rebuilds.evRest fresh (UInt64.pos_iff_ne_zero.mp shape'.positive) less inside
        ⟨Int.le_trans narrow.1 inside.1, Int.lt_of_le_of_lt inside.2 narrow.2⟩ clear'
    rw [setLevel_levels_self, setLevel_setLevel] at added
    exact added

section cross

variable {bpx apx clearing : Price} {bid ask : RO} {bids asks : List RO}

/-- A pair of an auction: the two executions come first, and then the clips. -/
theorem Rebuilds.cross (rebuilds : Rebuilds sink m b e copy) (valid : m.Valid)
    (capped : m.Capped (.below (2 ^ 32))) (narrow : 0 ≤ m.min ∧ m.max < 2 ^ 32)
    (auction : sink.inCross = true) (bidHead : m.levels .buy bpx = bid :: bids)
    (askHead : m.levels .sell apx = ask :: asks)
    (amount : f = if bid.total < ask.total then bid.total else ask.total)
    (bidHonest : ¬ (m.setLevel .sell apx ((ask.remains f).toList ++ asks)).Misleads .buy bpx
      clearing bid f)
    (askHonest : ¬ (m.setLevel .buy bpx (consume clearing f (bid :: bids)).1).Misleads .sell apx
      clearing ask f) :
    Leads stock sink b e
      (Handler.onAll sink (.trade ⟨bid.id, ask.id, clearing, f, .buy⟩ ::
        ((consume clearing f (bid :: bids)).2 ++ (consume clearing f (ask :: asks)).2)))
      ((m.setLevel .buy bpx (consume clearing f (bid :: bids)).1).setLevel .sell apx
        (consume clearing f (ask :: asks)).1) := by
  rcases le_total_of_min amount with ⟨bidWithin, askWithin⟩
  have bidIn : bid ∈ m.levels .buy bpx := by simp [bidHead]
  have askIn : ask ∈ m.levels .sell apx := by simp [askHead]
  have bidSmall : bid.total < 2 ^ 32 := capped.resting _ _ bid bidIn
  have askSmall : ask.total < 2 ^ 32 := capped.resting _ _ ask askIn
  have some : f ≠ 0 := by
    have bidTotal := UInt64.lt_of_lt_of_le (valid.shape _ _ bid bidIn).positive
      (valid.shape _ _ bid bidIn).qty_le_total
    have askTotal := UInt64.lt_of_lt_of_le (valid.shape _ _ ask askIn).positive
      (valid.shape _ _ ask askIn).qty_le_total
    grind
  -- The market with the display of one side taken and the other side as it was, or done.
  let bidTaken := m.setLevel .buy bpx ((bid.remains f).toList ++ bids)
  let askTaken := m.setLevel .sell apx ((ask.remains f).toList ++ asks)
  let bidDone := m.setLevel .buy bpx (consume clearing f (bid :: bids)).1
  have askHead₁ : bidTaken.levels .sell apx = ask :: asks := by
    rw [setLevel_levels_side _ _ _ _ _ _ (by decide), askHead]
  have bidHead₂ : askTaken.levels .buy bpx = bid :: bids := by
    rw [setLevel_levels_side _ _ _ _ _ _ (by decide), bidHead]
  have askHead₃ : bidDone.levels .sell apx = ask :: asks := by
    rw [setLevel_levels_side _ _ _ _ _ _ (by decide), askHead]
  have executed : Leads stock sink b e
      ((sink.execCross bid.id f clearing).execCross ask.id f clearing)
      (bidTaken.setLevel .sell apx ((ask.remains f).toList ++ asks)) :=
    (rebuilds.execCross valid bidHead some bidWithin bidSmall clearing).trans
      (Nat.le_of_eq (Sink.nextRef_execCross ..).symm) fun b₁ e₁ copy₁ rebuilds₁ =>
        rebuilds₁.execCross (valid.takeHead bidHead bidWithin) askHead₁ some askWithin askSmall
          clearing
  have bidClip := executed.trans (Sink.nextRef_onAll_le _ (consume clearing f (bid :: bids)).2)
    fun b₁ e₁ copy₁ rebuilds₁ => by
      rw [setLevel_comm (by decide)] at rebuilds₁
      exact rebuilds₁.clip (valid.takeHead askHead askWithin) bidHead₂ bidWithin bidSmall narrow
        bidHonest
  have askClip := bidClip.trans (Sink.nextRef_onAll_le _ (consume clearing f (ask :: asks)).2)
    fun b₁ e₁ copy₁ rebuilds₁ => by
      rw [setLevel_comm (by decide)] at rebuilds₁
      exact rebuilds₁.clip (valid.fillHead clearing bidHead bidWithin) askHead₃ askWithin askSmall
        narrow askHonest
  have trade : sink.evTrade ⟨bid.id, ask.id, clearing, f, .buy⟩ =
      (sink.execCross bid.id f clearing).execCross ask.id f clearing := by
    rw [Sink.evTrade, if_pos auction]
  rw [← trade, ← Handler.onAll_append] at askClip
  exact askClip

end cross

/-! ## Steps -/

structure Fits (state : Market × Phase) : Prop where
  valid : ValidState state
  capped : state.1.Capped (.below (2 ^ 32))
  phase : state.2.Capped (.below (2 ^ 32))
  narrow : 0 ≤ state.1.min ∧ state.1.max < 2 ^ 32

variable {state next : Market × Phase} {events : List Event}

theorem Fits.step (fits : Fits state) (step : Step state events next) : Fits next where
  valid := step.valid fits.valid
  capped := (step.capped fits.valid fits.capped fits.phase).1
  phase := (step.capped fits.valid fits.capped fits.phase).2
  narrow := by
    have narrow := fits.narrow
    cases step <;> exact narrow

theorem Fits.run (fits : Fits state) (run : Run Step state events next) : Fits next :=
  run.invariant (fun _ _ _ before step => before.step step) fits

theorem Rebuilds.step (rebuilds : Rebuilds sink state.1 b e copy) (fits : Fits state)
    (mode : state.2.continuous = false → sink.inCross = true) (shielded : ¬ Exposed state)
    (step : Step state events next) :
    Leads stock sink b e (Handler.onAll sink events) next.1 := by
  have validM : state.1.Valid := fits.valid.1
  cases step with
  | @fill m t px o rest fill meets other amount =>
      have atHead : o ∈ m.levels t.maker px := by simp [meets.head]
      have shape := validM.shape _ _ o atHead
      have shown : fill ≤ o.qty := by grind
      have within := UInt64.le_trans shown shape.qty_le_total
      have small : o.total < 2 ^ 32 := fits.capped.resting _ _ o atHead
      have honest : ¬ m.Misleads t.maker px px o fill := fun misleads =>
        shielded (.taker meets other amount misleads)
      have hungry := meets.hungry
      have positive := shape.positive
      have some : fill ≠ 0 := by grind
      let trade : Trade := ⟨t.id, o.id, px, fill, t.side⟩
      have traded : Leads stock sink b e (sink.evTrade trade)
          (m.setLevel t.maker px ((o.remains fill).toList ++ rest)) :=
        rebuilds.evTrade validM meets.head rfl (fun rests => fits.valid.2.fresh rests.isOpen) some
          shown small
      have whole := traded.trans (Sink.nextRef_onAll_le _ _) fun b₁ e₁ copy₁ rebuilds₁ =>
        rebuilds₁.clip validM meets.head within small fits.narrow honest
      exact whole.congr rfl rfl rfl rfl
  | @cancelMaker m t px o rest meets own policy =>
      have place : m.levels t.maker px = [] ++ o :: rest := meets.head
      exact rebuilds.evCancel validM place
  | @cancelBoth m t px o rest meets own policy =>
      have place : m.levels t.maker px = [] ++ o :: rest := meets.head
      exact rebuilds.evCancel validM place
  | @killed m t announced =>
      exact rebuilds.evCancel_hidden fun rests => fits.valid.2.fresh rests.isOpen
  | @cancelRemainder m t left blocked cancels =>
      exact rebuilds.evCancel_hidden fun rests => fits.valid.2.fresh rests.isOpen
  | @rest m t price peak left blocked rests =>
      have taker : t.Valid m := fits.valid.2
      have phase : t.qty < 2 ^ 32 := fits.phase
      rcases taker.rests price peak rests with ⟨inside, limit⟩
      have clear : m.halted = true ∨ ¬ m.WouldCross t.side price := by
        refine blocked.imp id fun away => ?_
        rintro ⟨p, occupied, reaches⟩
        rw [limit] at away
        exact away p occupied reaches
      have fresh : ¬ m.IsOpen (t.resting price peak).id := by
        rw [Taker.resting_id]
        exact taker.fresh
      have positive := (Taker.resting_shape left : (t.resting price peak).Shape).positive
      have narrow := fits.narrow
      have added : Leads stock sink b e _ _ :=
        rebuilds.evRest fresh (UInt64.pos_iff_ne_zero.mp positive)
          (UInt64.lt_of_le_of_lt (Taker.resting_qty_le price peak) phase) inside
          ⟨Int.le_trans narrow.1 inside.1, Int.lt_of_le_of_lt inside.2 narrow.2⟩ clear
      rw [Taker.resting_id] at added
      exact added
  | cancelTaker => exact rebuilds.leads
  | stoppedMarket => exact rebuilds.leads
  | filled => exact rebuilds.leads
  | discard => exact rebuilds.leads
  | fire => exact rebuilds.leads.congr rfl rfl rfl rfl
  | @cross m clearing bpx apx b a bids asks f bestBid bestAsk bidHead askHead low high amount =>
      have bid : ¬ _ := fun misleads =>
        shielded (.bid bestBid bestAsk bidHead askHead low high amount misleads)
      have ask : ¬ _ := fun misleads =>
        shielded (.ask bestBid bestAsk bidHead askHead low high amount misleads)
      have crossed : Leads stock sink _ e _ _ :=
        rebuilds.cross validM fits.capped fits.narrow (mode rfl) bidHead askHead amount bid ask
      exact crossed.congr rfl rfl rfl rfl
  | crossed => exact rebuilds.leads

/-- What a run hands out leads the consumer to the book at its end. -/
theorem Rebuilds.run (rebuilds : Rebuilds sink state.1 b e copy) (fits : Fits state)
    (mode : state.2.continuous = false → sink.inCross = true)
    (shielded : ∀ labels middle, Run Step state labels middle → ¬ Exposed middle)
    (run : Run Step state events next) :
    Leads stock sink b e (Handler.onAll sink events) next.1 := by
  induction run with
  | refl => exact rebuilds.leads
  | @snoc before now middle final run last induction =>
      have mode' : middle.2.continuous = false → sink.inCross = true := by
        intro crossing
        cases phase : state.2.continuous with
        | false => exact mode phase
        | true =>
            have still := run.invariant (fun _ _ _ earlier step => Step.continuous step earlier)
              phase
            exact absurd (still.symm.trans crossing) Bool.noConfusion
      rw [Handler.onAll_append]
      apply induction.trans (Sink.nextRef_onAll_le _ _)
      intro b₁ e₁ copy₁ rebuilds₁
      exact rebuilds₁.step (fits.run run)
        (fun crossing => (Sink.onAll_inCross _ _).trans (mode' crossing)) (shielded _ _ run) last

end leads

end Itch

end Matchbook
