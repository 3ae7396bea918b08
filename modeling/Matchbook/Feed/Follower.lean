import Matchbook.Feed.BookBuilder
import Matchbook.Feed.ItchRoundTrip
import Matchbook.Feed.Shadow
import Matchbook.Market.Determinism
import Matchbook.Market.Withdrawals

namespace Matchbook

open Transitions

/-! # A book that follows a feed

The engine of a consumer is told of displayed orders only. Nothing in it is hidden, and
every call has one outcome. -/

namespace Market

def Bare (m : Market) : Prop := ∀ side px, ∀ o ∈ m.levels side px, o.peak = 0

structure Plain (m : Market) : Prop where
  shown : m.Bare
  unparked : m.stops = []

def adding (m : Market) (side : Side) (price : Price) (qty : Qty) : RO :=
  { id := m.nextId, side, price, qty, owner := 0, stp := .cancelTaker }

def add (m : Market) (side : Side) (price : Price) (qty : Qty) : Market :=
  { m with nextId := m.nextId + 1 }.setLevel side price
    (m.levels side price ++ [m.adding side price qty])

variable {m : Market} {side : Side} {px price : Price} {qty delta : Qty} {front back : List RO}
  {o : RO}

theorem Plain.settled (plain : m.Plain) : m.Settled :=
  .inr fun o parked => absurd parked (by rw [plain.unparked]; exact List.not_mem_nil)

theorem Bare.setLevel {level : List RO} (bare : m.Bare) (shown : ∀ o ∈ level, o.peak = 0) :
    (m.setLevel side px level).Bare := by
  intro s p o member
  rw [setLevel_levels] at member
  split at member
  · exact shown o member
  · exact bare s p o member

theorem Bare.sublist {level : List RO} (bare : m.Bare)
    (sub : level.Sublist (m.levels side px)) : (m.setLevel side px level).Bare :=
  bare.setLevel fun o member => bare side px o (sub.subset member)

theorem Plain.setLevel {level : List RO} (plain : m.Plain) (shown : ∀ o ∈ level, o.peak = 0) :
    (m.setLevel side px level).Plain := ⟨plain.shown.setLevel shown, plain.unparked⟩

theorem Plain.remove (plain : m.Plain) (place : m.levels side px = front ++ o :: back) :
    (m.setLevel side px (front ++ back)).Plain := by
  apply plain.setLevel
  intro other member
  apply plain.shown side px
  rw [place]
  simp only [List.mem_append, List.mem_cons] at member ⊢
  exact member.imp_right .inr

theorem Plain.replace {o' : RO} (plain : m.Plain) (place : m.levels side px = front ++ o :: back)
    (shown : o'.peak = 0) : (m.setLevel side px (front ++ o' :: back)).Plain := by
  apply plain.setLevel
  intro other member
  rcases List.mem_append.mp member with before | now
  · exact plain.shown side px other (by simp [place, before])
  · rcases List.mem_cons.mp now with rfl | after
    · exact shown
    · exact plain.shown side px other (by simp [place, after])

theorem Plain.add (plain : m.Plain) : (m.add side price qty).Plain := by
  have issued : { m with nextId := m.nextId + 1 }.Plain := ⟨plain.shown, plain.unparked⟩
  apply issued.setLevel
  intro o member
  rcases List.mem_append.mp member with before | now
  · exact plain.shown side price o before
  · rw [List.mem_singleton.mp now]
    rfl

theorem Valid.reserve_of_plain (valid : m.Valid) (plain : m.Plain) (member : o ∈ m.levels side px) :
    o.reserve = 0 := (valid.shape side px o member).plain (plain.shown side px o member)

end Market

/-! ## Without icebergs -/

def Op.Hides : Op → Prop
  | .submitIceberg .. => True
  | _ => False

def Op.Parks : Op → Prop
  | .submitStop .. | .submitStopLimit .. => True
  | _ => False

def Phase.Bare : Phase → Prop
  | .taking t => ∀ price peak, t.remainder = .rest price peak → peak = 0
  | _ => True

section bare

variable {m m' : Market} {op : Op} {ret : Ret} {state next : Market × Phase} {events : List Event}

theorem Market.Bare.consume {side : Side} {px announced : Price} {o : RO} {rest : List RO} {f : Qty}
    (bare : m.Bare) (head : m.levels side px = o :: rest) :
    (m.setLevel side px (consume announced f (o :: rest)).1).Bare := by
  apply bare.setLevel
  intro other member
  rcases mem_consume member with behind | ⟨-, rfl⟩ | ⟨-, rfl⟩
  · exact bare side px other (head ▸ List.mem_cons_of_mem o behind)
  · exact bare side px o (head ▸ List.mem_cons_self)
  · exact bare side px o (head ▸ List.mem_cons_self)

theorem RO.fired_bare (o : RO) : (Phase.taking o.fired).Bare := by
  intro price peak rests
  rw [RO.fired] at rests
  split at rests
  · cases rests
  · cases rests
    rfl

theorem Step.bare (step : Step state events next) (bare : state.1.Bare) (phase : state.2.Bare) :
    next.1.Bare ∧ next.2.Bare := by
  cases step with
  | fill meets => exact ⟨bare.consume meets.head, phase⟩
  | cancelMaker meets => exact ⟨bare.sublist (meets.head ▸ List.sublist_cons_self ..), phase⟩
  | cancelBoth meets => exact ⟨bare.sublist (meets.head ▸ List.sublist_cons_self ..), trivial⟩
  | @rest m t price peak left blocked rests =>
      refine ⟨bare.setLevel fun o member => ?_, trivial⟩
      rcases List.mem_append.mp member with before | now
      · exact bare t.side price o before
      · rw [List.mem_singleton.mp now, phase price peak rests]
        rfl
  | @fire m front o back next => exact ⟨bare, o.fired_bare⟩
  | @cross m clearing bpx apx b a bids asks f bestBid bestAsk bidHead askHead low high amount =>
      have askHead' : (m.setLevel .buy bpx (consume clearing f (b :: bids)).1).levels .sell apx =
          a :: asks := by
        rw [Market.setLevel_levels_side _ _ _ _ _ _ (by decide), askHead]
      have bid : (m.setLevel .buy bpx (consume clearing f (b :: bids)).1).Bare :=
        bare.consume bidHead
      exact ⟨bid.consume askHead', trivial⟩
  | cancelTaker => exact ⟨bare, trivial⟩
  | killed => exact ⟨bare, trivial⟩
  | stoppedMarket => exact ⟨bare, trivial⟩
  | filled => exact ⟨bare, trivial⟩
  | cancelRemainder => exact ⟨bare, trivial⟩
  | discard => exact ⟨bare, trivial⟩
  | crossed => exact ⟨bare, trivial⟩

theorem Run.bare (run : Run Step state events next) (bare : state.1.Bare) (phase : state.2.Bare) :
    next.1.Bare := by
  have kept : ∀ state events next, state.1.Bare ∧ state.2.Bare → Step state events next →
      next.1.Bare ∧ next.2.Bare := fun _ _ _ before step => step.bare before.1 before.2
  exact (run.invariant kept ⟨bare, phase⟩).1

theorem Taker.ofLimit_bare {id : OrderId} {side : Side} {price : Price} {qty : Qty}
    {tif : TimeInForce} {owner : OwnerId} {stp : StpPolicy} {peak : Qty} (none : peak = 0) :
    (Phase.taking (.ofLimit id side price qty tif owner stp peak)).Bare := by
  intro price' peak' rests
  simp only [Taker.ofLimit] at rests
  split at rests
  · cases rests
  · cases rests
    exact none

theorem Op.Limit.bare {side : Side} {price : Price} {qty : Qty} {tif : TimeInForce}
    {owner : OwnerId} {stp : StpPolicy} {peak : Qty}
    (entry : op.Limit side price qty tif owner stp peak) (shows : ¬ op.Hides) : peak = 0 := by
  cases entry with
  | limit => rfl
  | iceberg => exact absurd trivial shows

theorem Market.Begin.bare (start : m.Begin op events next ret) (bare : m.Bare)
    (shows : ¬ op.Hides) : next.1.Bare ∧ next.2.Bare := by
  cases start with
  | enter entry => exact ⟨bare, Taker.ofLimit_bare (entry.bare shows)⟩
  | market => exact ⟨bare, fun _ _ rests => Remainder.noConfusion rests⟩
  | @trigger op o entry => exact ⟨bare, o.fired_bare⟩
  | @cancel op side px front o back cancels place =>
      exact ⟨bare.sublist (place ▸ (List.sublist_cons_self o back).append_left front), trivial⟩
  | @erase op side px front o back delta reduces place =>
      exact ⟨bare.sublist (place ▸ (List.sublist_cons_self o back).append_left front), trivial⟩
  | @reduce op side px front o back delta reduces place =>
      refine ⟨bare.setLevel fun other member => ?_, trivial⟩
      rcases List.mem_append.mp member with before | now
      · exact bare side px other (by simp [place, before])
      · rcases List.mem_cons.mp now with rfl | after
        · exact bare side px o (by simp [place])
        · exact bare side px other (by simp [place, after])
  | @replace side px front o back newPrice newQty place =>
      exact ⟨bare.sublist (place ▸ (List.sublist_cons_self o back).append_left front),
        Taker.ofLimit_bare (bare side px o (by simp [place]))⟩
  | reject => exact ⟨bare, trivial⟩
  | refuse => exact ⟨bare, trivial⟩
  | park => exact ⟨bare, trivial⟩
  | decline => exact ⟨bare, trivial⟩
  | cancelStop => exact ⟨bare, trivial⟩
  | halt => exact ⟨bare, trivial⟩
  | resume => exact ⟨bare, trivial⟩
  | flat => exact ⟨bare, trivial⟩
  | uncross => exact ⟨bare, trivial⟩

theorem Market.Performs.bare (performs : m.Performs op events m' ret) (bare : m.Bare)
    (shows : ¬ op.Hides) : m'.Bare := by
  cases performs with
  | intro start steps =>
      rcases start.bare bare shows with ⟨bare₁, phase⟩
      exact Run.bare steps bare₁ phase

theorem Step.unparked (step : Step state events next) (unparked : state.1.stops = []) :
    next.1.stops = [] := by
  cases step with
  | @fire m front o back next =>
      have none : front ++ o :: back = [] := next.parked.symm.trans unparked
      simp at none
  | _ => exact unparked

theorem Market.Begin.unparked (start : m.Begin op events next ret) (unparked : m.stops = [])
    (passes : ¬ op.Parks) : next.1.stops = [] := by
  cases start with
  | park entry => cases entry <;> exact absurd trivial passes
  | @cancelStop op front o back cancels place =>
      have none : front ++ o :: back = [] := place.symm.trans unparked
      simp at none
  | _ => exact unparked

theorem Market.Performs.plain (performs : m.Performs op events m' ret) (plain : m.Plain)
    (shows : ¬ op.Hides) (passes : ¬ op.Parks) : m'.Plain := by
  refine ⟨performs.bare plain.shown shows, ?_⟩
  cases performs with
  | intro start steps =>
      have kept : ∀ state events next, state.1.stops = [] → Step state events next →
          next.1.stops = [] := fun _ _ _ before step => step.unparked before
      exact steps.invariant kept (start.unparked plain.unparked passes)

theorem Market.Performs.band (performs : m.Performs op events m' ret) :
    m'.min = m.min ∧ m'.max = m.max := by
  cases performs with
  | @intro first events m₁ phase _ _ start steps =>
      have begins : m₁.min = m.min ∧ m₁.max = m.max := by
        cases start <;> exact ⟨rfl, rfl⟩
      have kept : ∀ state events next, state.1.min = m.min ∧ state.1.max = m.max →
          Step state events next → next.1.min = m.min ∧ next.1.max = m.max := by
        intro state events next before step
        cases step <;> exact before
      exact steps.invariant kept begins

end bare

namespace Market

variable {m : Market} {side : Side} {px price : Price} {qty delta : Qty} {front back : List RO}
  {o : RO}

/-! ## Outcomes -/

/-- An add that does not meet the other side rests. -/
theorem Plain.performs_add (plain : m.Plain) (inside : m.inBand price) (nonzero : qty ≠ 0)
    (clear : m.halted = true ∨ ¬ m.WouldCross side price) :
    m.Performs (.submitLimit side price qty .gtc 0 .cancelTaker)
      [.accept m.nextId side price qty, .rest m.nextId side price qty]
      (m.add side price qty) (.id m.nextId) := by
  let t := Taker.ofLimit m.nextId side price qty .gtc 0 .cancelTaker 0
  let m₁ : Market := { m with nextId := m.nextId + 1 }
  have start : m.Begin (.submitLimit side price qty .gtc 0 .cancelTaker)
      [.accept m.nextId side price qty] (m₁, .taking t) (.id m.nextId) :=
    .enter .limit nonzero inside id
  have blocked : t.Blocked m₁ :=
    clear.imp id fun apart px occupied reaches => apart ⟨px, occupied, reaches⟩
  have whole : t.resting price 0 = m.adding side price qty := rfl
  have step : Step (m₁, .taking t) [.rest m.nextId side price qty]
      (m.add side price qty, .idle) := by
    have rest : Step (m₁, .taking t) [.rest t.id t.side price (t.resting price 0).qty]
        (m₁.setLevel t.side price (m₁.levels t.side price ++ [t.resting price 0]), .idle) :=
      .rest nonzero blocked rfl
    rwa [whole] at rest
  exact .intro start (.single step) plain.add.settled trivial

theorem Plain.performs_cancel (plain : m.Plain) (place : m.levels side px = front ++ o :: back) :
    m.Performs (.cancel o.id) [.cancel o.id] (m.setLevel side px (front ++ back)) (.ok true) := by
  have start : m.Begin (.cancel o.id) [.cancel o.id]
      (m.setLevel side px (front ++ back), .idle) (.ok true) := .cancel .cancel place
  have performs := Performs.intro start .refl (plain.remove place).settled trivial
  exact performs

theorem Plain.performs_erase (plain : m.Plain) (place : m.levels side px = front ++ o :: back)
    (all : o.total ≤ delta) :
    m.Performs (.reduce o.id delta) [] (m.setLevel side px (front ++ back)) (.ok true) := by
  have start : m.Begin (.reduce o.id delta) []
      (m.setLevel side px (front ++ back), .idle) (.ok true) := .erase .reduce place all
  have performs := Performs.intro start .refl (plain.remove place).settled trivial
  exact performs

theorem Plain.performs_reduce (plain : m.Plain) (place : m.levels side px = front ++ o :: back)
    (some : delta < o.total) :
    m.Performs (.reduce o.id delta) [] (m.setLevel side px (front ++ o.reduced delta :: back))
      (.ok true) := by
  have member : o ∈ m.levels side px := by simp [place]
  have start : m.Begin (.reduce o.id delta) []
      (m.setLevel side px (front ++ o.reduced delta :: back), .idle) (.ok true) :=
    .reduce .reduce place some
  have settled :=
    (plain.replace place (plain.shown side px o member : (o.reduced delta).peak = 0)).settled
  have performs := Performs.intro start .refl settled trivial
  exact performs

theorem Begin.action {op : Op} {events : List Event} {next : Market × Phase} {ret : Ret}
    (start : m.Begin op events next ret) (action : op = .halt ∨ op = .resume) :
    events = [] ∧ next = ({ m with halted := op.haltedAfter m.halted }, .idle) := by
  cases start with
  | halt => exact ⟨rfl, rfl⟩
  | resume => exact ⟨rfl, rfl⟩
  | reject submit => rcases action with rfl | rfl <;> exact submit.elim
  | refuse entry => rcases action with rfl | rfl <;> cases entry
  | enter entry => rcases action with rfl | rfl <;> cases entry
  | trigger entry => rcases action with rfl | rfl <;> cases entry
  | park entry => rcases action with rfl | rfl <;> cases entry
  | decline target => rcases action with rfl | rfl <;> cases target
  | cancel cancels => rcases action with rfl | rfl <;> cases cancels
  | cancelStop cancels => rcases action with rfl | rfl <;> cases cancels
  | erase reduces => rcases action with rfl | rfl <;> cases reduces
  | reduce reduces => rcases action with rfl | rfl <;> cases reduces
  | market => rcases action with same | same <;> cases same
  | replace => rcases action with same | same <;> cases same
  | flat => rcases action with same | same <;> cases same
  | uncross => rcases action with same | same <;> cases same

theorem Plain.performs_action {op : Op} {events : List Event} {m' : Market} {ret : Ret}
    (plain : m.Plain) (action : op = .halt ∨ op = .resume)
    (performs : m.Performs op events m' ret) :
    events = [] ∧ m' = { m with halted := op.haltedAfter m.halted } := by
  have still : { m with halted := op.haltedAfter m.halted }.Plain := ⟨plain.shown, plain.unparked⟩
  cases performs with
  | intro start steps =>
      rcases start.action action with ⟨rfl, same⟩
      cases same
      rcases still.settled.still steps with ⟨rfl, same⟩
      cases same
      exact ⟨rfl, rfl⟩

end Market

/-! ## Calls -/

namespace MatchingEngine

open Market

variable {H : Type} [Handler H] {s s' : MatchingEngine H} {m m' : Market} {op : Op}
  {ret ret₀ : Ret}
  {events events₀ : List Event} {side : Side} {px price : Price} {qty delta : Qty}
  {front back : List RO} {o : RO}

theorem Holds.outcome (holds : s.Holds m) (did : s.Did m op s' m' ret events)
    (continuous : Continuous op) {m₀ : Market} (performs : m.Performs op events₀ m₀ ret₀) :
    s'.Holds m₀ ∧ s'.h = Handler.onAll s.h events₀ ∧ ret = ret₀ := by
  rcases did.performs.deterministic holds.valid continuous performs with ⟨rfl, rfl, rfl⟩
  exact ⟨did.holds, did.told, rfl⟩

section calls

variable (holds : s.Holds m) (plain : m.Plain)
include holds plain

theorem Holds.adds (inside : m.inBand price) (nonzero : qty ≠ 0)
    (clear : m.halted = true ∨ ¬ m.WouldCross side price) :
    ∃ s', s.submitLimit side price qty .gtc 0 .cancelTaker = some (s', m.nextId) ∧
      s'.Holds (m.add side price qty) ∧
      s'.h = Handler.onAll s.h
        [.accept m.nextId side price qty, .rest m.nextId side price qty] := by
  rcases holds.submitLimit side price qty .gtc 0 .cancelTaker with ⟨s', id, m', events, called, did⟩
  rcases holds.outcome did trivial (plain.performs_add inside nonzero clear) with
    ⟨holds', told, answer⟩
  cases answer
  exact ⟨s', called, holds', told⟩

theorem Holds.withdraws (place : m.levels side px = front ++ o :: back) :
    ∃ s', s.cancel o.id = some (s', true) ∧ s'.Holds (m.setLevel side px (front ++ back)) ∧
      s'.h = Handler.onAll s.h [.cancel o.id] := by
  rcases holds.cancel o.id with ⟨s', ok, m', events, called, did⟩
  rcases holds.outcome did trivial (plain.performs_cancel place) with ⟨holds', told, answer⟩
  cases answer
  exact ⟨s', called, holds', told⟩

theorem Holds.erases (place : m.levels side px = front ++ o :: back) (all : o.qty ≤ delta) :
    ∃ s', s.reduce o.id delta = some (s', true) ∧
      s'.Holds (m.setLevel side px (front ++ back)) ∧ s'.h = s.h := by
  have member : o ∈ m.levels side px := by simp [place]
  have total : o.total = o.qty := by
    rw [RO.total, holds.valid.reserve_of_plain plain member, UInt64.add_zero]
  rcases holds.reduce o.id delta with ⟨s', ok, m', events, called, did⟩
  rcases holds.outcome did trivial (plain.performs_erase place (total ▸ all)) with
    ⟨holds', told, answer⟩
  cases answer
  exact ⟨s', called, holds', told⟩

theorem Holds.shrinks (place : m.levels side px = front ++ o :: back) (less : delta < o.qty) :
    ∃ s', s.reduce o.id delta = some (s', true) ∧
      s'.Holds (m.setLevel side px (front ++ { o with qty := o.qty - delta } :: back)) ∧
      s'.h = s.h := by
  have member : o ∈ m.levels side px := by simp [place]
  have none := holds.valid.reserve_of_plain plain member
  have total : o.total = o.qty := by rw [RO.total, none, UInt64.add_zero]
  have left : o.reduced delta = { o with qty := o.qty - delta } := by
    rw [RO.reduced, none, if_neg (by simp), UInt64.sub_zero, UInt64.sub_zero]
  rcases holds.reduce o.id delta with ⟨s', ok, m', events, called, did⟩
  rcases holds.outcome did trivial (plain.performs_reduce place (total ▸ less)) with
    ⟨holds', told, answer⟩
  cases answer
  rw [left] at holds'
  exact ⟨s', called, holds', told⟩

theorem Holds.halts : ∃ s', s.halt = some s' ∧ s'.Holds { m with halted := true } ∧
    s'.h = s.h := by
  rcases holds.step .halt with ⟨s', ret, m', events, stepped, did⟩
  rcases plain.performs_action (.inl rfl) did.performs with ⟨rfl, rfl⟩
  exact ⟨s', by rw [MatchingEngine.halt, stepped]; rfl, did.holds, did.told⟩

theorem Holds.resumes : ∃ s', s.resume = some s' ∧ s'.Holds { m with halted := false } ∧
    s'.h = s.h := by
  rcases holds.step .resume with ⟨s', ret, m', events, stepped, did⟩
  rcases plain.performs_action (.inr rfl) did.performs with ⟨rfl, rfl⟩
  exact ⟨s', by rw [MatchingEngine.resume, stepped]; rfl, did.holds, did.told⟩

end calls

theorem Holds.visitOrders {H : Type} {s : MatchingEngine H} {m : Market} (holds : s.Holds m)
    (side : Side) : s.visitOrders side =
      some ((m.ladder side).flatMap fun px => (m.levels side px).map visited) := by
  rcases holds with ⟨band, r, simulates, rfl⟩
  rcases simulates.tracks with ⟨cells, mirrors, -⟩
  have occupied (prices : List Price) :
      (((prices.filter fun px => r.level side px ≠ []).map (r.rung side)).flatMap
        fun entry => entry.2.map visited) =
      prices.flatMap fun px => (r.level side px).map visited := by
    induction prices with
    | nil => rfl
    | cons px prices induction =>
        rw [List.flatMap_cons, ← induction]
        by_cases empty : r.level side px = []
        · rw [List.filter_cons_of_neg (by simp [empty]), empty, List.map_nil, List.nil_append]
        · rw [List.filter_cons_of_pos (by simp [empty]), List.map_cons, List.flatMap_cons]
          rfl
  rw [mirrors.visitOrders_eq simulates.sound.valid side,
    ReferenceEngine.levels_eq simulates.sound.valid simulates.sound.keyed side, occupied]
  rfl

end MatchingEngine

/-! ## Reading -/

namespace Itch

/-- What was handed out, as it goes over the wire. -/
def bodies (stock : Stock) (published : List Publication) : List (List UInt8) :=
  published.map fun message => (message.encoding stock).body

namespace BookBuilder

variable {H : Type} [Handler H]

def read (b : BookBuilder) (e : MatchingEngine H) (body : List UInt8) :
    Option (BookBuilder × MatchingEngine H) :=
  match parse body {} with
  | none => some (b, e)
  | some m => b.apply e m

def readAll (b : BookBuilder) (e : MatchingEngine H) :
    List (List UInt8) → Option (BookBuilder × MatchingEngine H)
  | [] => some (b, e)
  | body :: rest => do
      let (b, e) ← b.read e body
      b.readAll e rest

variable {b b' : BookBuilder} {e e' : MatchingEngine H} {stock : Stock} {message : Publication}
  {ref : Nat} {part : Qty} {id : OrderId}

theorem readAll_append {first second : List (List UInt8)}
    (begins : b.readAll e first = some (b', e')) :
    b.readAll e (first ++ second) = b'.readAll e' second := by
  induction first generalizing b e with
  | nil =>
      cases begins
      rfl
  | cons body first induction =>
      rw [readAll] at begins
      rw [List.cons_append, readAll]
      cases now : b.read e body with
      | none =>
          rw [now] at begins
          cases begins
      | some next =>
          rw [now] at begins
          exact induction begins

theorem readAll_single (body : List UInt8) : b.readAll e [body] = b.read e body := by
  rw [readAll]
  cases b.read e body <;> rfl

theorem read_body : b.read e (message.encoding stock).body =
    match (message.encoding stock).parsed {} with
    | none => some (b, e)
    | some m => b.apply e m := by
  rw [read, (Encoding.parsesBack _ _).whole]

theorem toUInt64_toUInt32 (small : part < 2 ^ 32) : part.toUInt32.toUInt64 = part := by
  apply UInt64.toNat_inj.mp
  rw [UInt32.toNat_toUInt64, UInt64.toNat_toUInt32]
  exact Nat.mod_eq_of_lt (UInt64.lt_iff_toNat_lt.mp small)

theorem read_drawn (drawn : message.posting = some (.drawn ref part.toNat)) (small : part < 2 ^ 32)
    (known : b.refmap (UInt64.ofNat ref) = some id) :
    b.read e (message.encoding stock).body = (e.reduce id part).map fun (e, kept) =>
      (if kept then b else { b with refmap := b.refmap.erase (UInt64.ofNat ref) }, e) := by
  have same {q : Qty} (amount : q.toNat = part.toNat) : q.toUInt32.toUInt64 = part := by
    rw [UInt64.toNat_inj.mp amount]
    exact toUInt64_toUInt32 small
  rw [read_body]
  cases message with
  | execute seq ref' q number =>
      simp only [Publication.posting, Option.some.injEq, NumberedAccounts.Posting.drawn.injEq]
        at drawn
      rcases drawn with ⟨rfl, amount⟩
      simp only [Publication.encoding, Encoding.parsed, apply, known, same amount]
      cases e.reduce id part <;> rfl
  | executePx seq ref' q number price =>
      simp only [Publication.posting, Option.some.injEq, NumberedAccounts.Posting.drawn.injEq]
        at drawn
      rcases drawn with ⟨rfl, amount⟩
      simp only [Publication.encoding, Encoding.parsed, apply, known, same amount]
      cases e.reduce id part <;> rfl
  | cancel seq ref' q =>
      simp only [Publication.posting, Option.some.injEq, NumberedAccounts.Posting.drawn.injEq]
        at drawn
      rcases drawn with ⟨rfl, amount⟩
      simp only [Publication.encoding, Encoding.parsed, apply, known, same amount]
      cases e.reduce id part <;> rfl
  | _ => cases drawn

theorem read_closed (closed : message.posting = some (.closed ref))
    (known : b.refmap (UInt64.ofNat ref) = some id) :
    b.read e (message.encoding stock).body = (e.cancel id).map fun (e, _) =>
      ({ b with refmap := b.refmap.erase (UInt64.ofNat ref) }, e) := by
  rw [read_body]
  cases message with
  | delete seq ref' =>
      simp only [Publication.posting, Option.some.injEq, NumberedAccounts.Posting.closed.injEq]
        at closed
      subst closed
      simp only [Publication.encoding, Encoding.parsed, apply, known]
      cases e.cancel id <;> rfl
  | _ => cases closed

theorem read_add {seq : Nat} {side : Side} {price : Price} (small : part < 2 ^ 32)
    (fits : 0 ≤ price ∧ price < 2 ^ 32) :
    b.read e ((Publication.add seq ref side part price).encoding stock).body =
      (e.submitLimit side price part .gtc 0 .cancelTaker).map fun (e, id) =>
        (if id ≠ invalidOrderId then { b with refmap := b.refmap.insert (UInt64.ofNat ref) id }
          else b, e) := by
  have sided : (if (if side = .buy then 'B'.toUInt8 else 'S'.toUInt8) = 'B'.toUInt8 then Side.buy
      else .sell) = side := by
    cases side <;> rfl
  have priced := toNat_ofInt fits.1 fits.2
  rw [read_body]
  simp only [Publication.encoding, Encoding.parsed, apply, sided, priced, toUInt64_toUInt32 small]
  cases e.submitLimit side price part .gtc 0 .cancelTaker <;> rfl

theorem read_action {seq : Nat} {state : UInt8} :
    b.read e ((Publication.action seq state).encoding stock).body =
      if state = 'H'.toUInt8 then e.halt.map fun e => (b, e)
      else if state = 'T'.toUInt8 then e.resume.map fun e => (b, e)
      else some (b, e) := by
  rw [read_body]
  simp only [Publication.encoding, Encoding.parsed, apply]
  split
  · cases e.halt <;> rfl
  · split
    · cases e.resume <;> rfl
    · rfl

theorem read_cross {seq number : Nat} {total : Qty} {price : Price} :
    b.read e ((Publication.cross seq total price number).encoding stock).body = some (b, e) := by
  rw [read_body]
  rfl

end BookBuilder

end Itch

end Matchbook
