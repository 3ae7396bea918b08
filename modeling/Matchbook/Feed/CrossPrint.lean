import Matchbook.Feed.ExactShadow

namespace Matchbook

namespace Itch

/-! # The cross print

An uncross is published pair by pair and closes with one print. The stops that the clearing
price arms fire inside the same call, and the publisher takes their fills for pairs of the
auction. -/

/-! ## Messages of a cross -/

def closings (messages : List Publication) : List (UInt64 × UInt32) :=
  messages.filterMap fun
    | .cross _ total price _ => some (total, UInt32.ofInt price)
    | _ => none

def crossPrices (messages : List Publication) : List UInt32 :=
  messages.filterMap fun
    | .executePx _ _ _ _ price => some (UInt32.ofInt price)
    | _ => none

namespace Publisher

def afterAuction (p : Publisher) : Sink :=
  Handler.onAll (p.opened .uncross).sink p.engine.tellsAuction

/-- What an uncross from `p` to `p'` publishes is what it did: one closing print with the
volume and the price of the auction, and an execution of its own for every fill after it. -/
structure Truthful (p p' : Publisher) : Prop where
  cross : ∃ messages volume price, p'.sink.out = p.sink.out ++ messages ∧
    closings messages = [(volume, price)] ∧
    volume.toNat = Market.printed p.engine.tellsAuction ∧
    (∀ t, .trade t ∈ p.engine.tellsAuction → t.price = (price.toNat : Int)) ∧
    ∀ px ∈ crossPrices messages, px = price
  continuous : ∀ before t after, p.engine.tellsPump = before ++ .trade t :: after →
    ∃ r seq number, (Handler.onAll p.afterAuction before).slot t.maker = some r ∧
      (Handler.on (Handler.onAll p.afterAuction before) (.trade t)).out =
        (Handler.onAll p.afterAuction before).out ++ [.execute seq r.ref t.qty number]

/-- No stop fires into a fill, and the auction fits the fields of its print. -/
structure Undisturbed (p : Publisher) : Prop where
  quiet : ∀ t, .trade t ∉ p.engine.tellsPump
  volume : Market.printed p.engine.tellsAuction < 2 ^ 64
  price : ∀ t, .trade t ∈ p.engine.tellsAuction → 0 ≤ t.price ∧ t.price < 2 ^ 32

end Publisher

/-! ## What the sink publishes in a cross -/

def Publication.InCross (events : List Event) : Publication → Prop
  | .execute .. => False
  | .executePx _ _ _ _ price => ∃ t, .trade t ∈ events ∧ t.price = price
  | .cross .. => False
  | _ => True

theorem Publication.InCross.mono {events more : List Event} {message : Publication}
    (inCross : message.InCross events) (inside : events ⊆ more) : message.InCross more := by
  cases message with
  | executePx =>
      rcases inCross with ⟨t, member, same⟩
      exact ⟨t, inside member, same⟩
  | execute => exact inCross
  | cross => exact inCross
  | _ => trivial

section messages

variable {out : List Publication} {events : List Event} {message : Publication}

theorem inCross_nothing : ∃ more, out = out ++ more ∧
    ∀ message ∈ more, message.InCross events := ⟨[], (List.append_nil out).symm, by simp⟩

theorem inCross_one (inCross : message.InCross events) : ∃ more, out ++ [message] = out ++ more ∧
    ∀ message ∈ more, message.InCross events := ⟨[message], rfl, by simpa using inCross⟩

end messages

namespace Sink

variable {sink : Sink}

theorem execCross_out (id : OrderId) (t : Trade) : ∃ more,
    (sink.execCross id t.qty t.price).out = sink.out ++ more ∧
      ∀ message ∈ more, message.InCross [.trade t] := by
  rw [execCross]
  cases sink.slot id with
  | none => exact inCross_nothing
  | some r =>
      dsimp only
      generalize (if t.qty < r.displayed then t.qty else r.displayed) = part
      split
      · exact inCross_nothing
      · exact inCross_one ⟨t, List.mem_cons_self, rfl⟩

theorem on_inCross_out (cross : sink.inCross = true) (event : Event) : ∃ more,
    (Handler.on sink event).out = sink.out ++ more ∧
      ∀ message ∈ more, message.InCross [event] := by
  cases event with
  | accept => exact inCross_nothing
  | reject => exact inCross_nothing
  | trade t =>
      show ∃ more, (sink.evTrade t).out = _ ∧ _
      rw [evTrade, if_pos cross]
      rcases sink.execCross_out t.taker t with ⟨first, taker, inCross⟩
      rcases (sink.execCross t.taker t.qty t.price).execCross_out t.maker t with
        ⟨second, maker, inCross'⟩
      refine ⟨first ++ second, by rw [maker, taker, List.append_assoc], ?_⟩
      intro message member
      rcases List.mem_append.mp member with old | new
      · exact inCross message old
      · exact inCross' message new
  | cancel id =>
      show ∃ more, (sink.evCancel id).out = _ ∧ _
      rw [evCancel]
      split
      · exact inCross_nothing
      · exact inCross_one trivial
  | rest => exact inCross_one trivial

theorem onAll_inCross_out (cross : sink.inCross = true) (events : List Event) : ∃ more,
    (Handler.onAll sink events).out = sink.out ++ more ∧
      ∀ message ∈ more, message.InCross events := by
  induction events generalizing sink with
  | nil => exact inCross_nothing
  | cons event events induction =>
      rcases sink.on_inCross_out cross event with ⟨now, out, inCross⟩
      rcases induction ((on_inCross event).trans cross) with ⟨later, out', inCross'⟩
      have both : (Handler.onAll sink (event :: events)).out = sink.out ++ (now ++ later) := by
        rw [← List.append_assoc, ← out]
        exact out'
      refine ⟨now ++ later, both, ?_⟩
      intro message member
      rcases List.mem_append.mp member with old | new
      · exact (inCross message old).mono (by simp)
      · exact (inCross' message new).mono (List.subset_cons_self event events)

theorem onAll_inCross (sink : Sink) (events : List Event) :
    (Handler.onAll sink events).inCross = sink.inCross := by
  induction events generalizing sink with
  | nil => rfl
  | cons event events induction => exact (induction _).trans (on_inCross event)

end Sink

theorem closings_inCross {events : List Event} {messages : List Publication}
    (inCross : ∀ message ∈ messages, message.InCross events) : closings messages = [] := by
  apply List.filterMap_eq_nil_iff.mpr
  intro message member
  cases message with
  | cross => exact (inCross _ member).elim
  | _ => rfl

theorem crossPrices_inCross {events : List Event} {messages : List Publication} {px : UInt32}
    (inCross : ∀ message ∈ messages, message.InCross events) (member : px ∈ crossPrices messages) :
    ∃ t, .trade t ∈ events ∧ px = UInt32.ofInt t.price := by
  rcases List.mem_filterMap.mp member with ⟨message, present, price⟩
  cases message with
  | executePx =>
      rcases inCross _ present with ⟨t, traded, same⟩
      cases price
      exact ⟨t, traded, by rw [same]⟩
  | _ => cases price

namespace Publisher

/-! ## When the print is truthful -/

variable {p p' : Publisher} {earlier : List Publication} {m : Market} {screen : Screen}
  {total : Qty}

theorem Truthful.undisturbed (truthful : p.Truthful p') : p.Undisturbed := by
  rcases truthful.cross with ⟨messages, volume, price, -, -, sum, priced, -⟩
  constructor
  case quiet =>
      intro t member
      rcases List.append_of_mem member with ⟨before, after, pump⟩
      rcases truthful.continuous before t after pump with ⟨r, seq, number, -, out⟩
      let sink := Handler.onAll p.afterAuction before
      have cross : sink.inCross = true := by
        rw [Sink.onAll_inCross, afterAuction, Sink.onAll_inCross]
        rfl
      rcases sink.on_inCross_out cross (.trade t) with ⟨more, out', inCross⟩
      have same : more = [.execute seq r.ref t.qty number] :=
        List.append_cancel_left (out'.symm.trans out)
      rw [same] at inCross
      exact inCross _ List.mem_cons_self
  case volume =>
      rw [← sum]
      exact volume.toNat_lt
  case price =>
      intro t member
      rw [priced t member]
      have small := price.toNat_lt
      exact ⟨Int.natCast_nonneg _, by exact_mod_cast small⟩

theorem uncross_eq (p : Publisher) :
    p.uncross = ((p.opened .uncross).engine.uncross).map fun (engine, total) =>
      (p.closed engine .uncross (.qty total), total) := by
  show ((p.opened .uncross).engine.uncross).bind _ = _
  cases (p.opened .uncross).engine.uncross <;> rfl

theorem Tracks.truthful (tracks : p.Tracks earlier m screen) (undisturbed : p.Undisturbed)
    (traded : Market.printed p.engine.tellsAuction ≠ 0) (called : p.uncross = some (p', total)) :
    p.Truthful p' := by
  have holds : (p.opened .uncross).engine.Holds m := (tracks.opened .uncross).1
  rcases holds.uncrossed with ⟨engine, m', crossed, parts, -⟩
  rcases parts.pumped with ⟨m₁, crosses, run⟩
  have crosses : m.Crosses p.engine.tellsAuction m₁ crossed := crosses
  have run : Transitions.Run Step (m₁, .idle) p.engine.tellsPump (m', .idle) := run
  have volume : crossed.toNat = Market.printed p.engine.tellsAuction := by
    rw [crosses.counted, UInt64.toNat_ofNat', Nat.mod_eq_of_lt undisturbed.volume]
  have positive : 0 < crossed := by
    rw [UInt64.lt_iff_toNat_lt, volume]
    exact Nat.pos_of_ne_zero traded
  rcases crosses.priced with ⟨clearing, priced⟩
  rcases Market.exists_trade traded with ⟨t, member⟩
  have last : engine.lastPx = clearing :=
    parts.holds.lastPx ((Step.run_last run undisturbed.quiet).trans (priced t member).2)
  have fits := undisturbed.price t member
  rw [(priced t member).1] at fits
  have after : p' = (({ engine } : Publisher).setSink { engine.h with inCross := false }).emitCross
      crossed := by
    rw [uncross_eq, parts.called, Option.map_some] at called
    have same : p.closed engine .uncross (.qty crossed) = p' :=
      congrArg Prod.fst (Option.some.inj called)
    rw [← same, Publisher.closed, if_pos positive]
  have cross : (p.opened .uncross).sink.inCross = true := rfl
  rcases Sink.onAll_inCross_out cross (p.engine.tellsAuction ++ p.engine.tellsPump) with
    ⟨more, out, inCross⟩
  constructor
  case cross =>
      refine ⟨more ++ [.cross engine.h.seq crossed engine.lastPx (engine.h.matchNumber + 1)],
        crossed, UInt32.ofInt clearing, ?_, ?_, volume, ?_, ?_⟩
      · have told : engine.h.out = p.sink.out ++ more := (congrArg Sink.out parts.told).trans out
        rw [after, ← List.append_assoc, ← told]
        rfl
      · rw [closings, List.filterMap_append, ← closings, closings_inCross inCross, last]
        rfl
      · intro t member
        rw [toNat_ofInt fits.1 fits.2]
        exact (priced t member).1
      · intro px member
        rw [crossPrices, List.filterMap_append, ← crossPrices] at member
        rcases List.mem_append.mp member with executed | closing
        · rcases crossPrices_inCross inCross executed with ⟨t, traded, rfl⟩
          rcases List.mem_append.mp traded with paired | fired
          · rw [(priced t paired).1]
          · exact absurd fired (undisturbed.quiet t)
        · cases closing
  case continuous =>
      intro before t after pump
      exact absurd (pump ▸ List.mem_append_right before List.mem_cons_self)
        (undisturbed.quiet t)

theorem Tracks.pump_of_halted (tracks : p.Tracks earlier m screen)
    (halted : p.engine.halted = true) : p.engine.tellsPump = [] := by
  rcases tracks.holds with ⟨band, r, simulates, market⟩
  have stopped : m.halted = true := by
    rw [← market]
    exact simulates.shows.halted.symm.trans halted
  rcases tracks.holds.uncrossed with ⟨engine, m', crossed, parts, -⟩
  rcases parts.pumped with ⟨m₁, crosses, run⟩
  exact crosses.quiet stopped run

theorem Tracks.truthful_iff (tracks : p.Tracks earlier m screen)
    (traded : Market.printed p.engine.tellsAuction ≠ 0) (called : p.uncross = some (p', total)) :
    p.Truthful p' ↔ p.Undisturbed :=
  ⟨Truthful.undisturbed, fun undisturbed => tracks.truthful undisturbed traded called⟩

theorem Tracks.uncross (tracks : p.Tracks earlier m screen) :
    ∃ p' total, p.uncross = some (p', total) := by
  have holds : (p.opened .uncross).engine.Holds m := (tracks.opened .uncross).1
  rcases holds.uncross with ⟨engine, m', crossed, cross, pump, parts⟩
  exact ⟨p.closed engine .uncross (.qty crossed), crossed, by rw [uncross_eq, parts.called]; rfl⟩

/-- After every session in which an uncross executes something, what it publishes is truthful
if and only if nothing disturbs it. -/
theorem run_uncross_truthful_iff (band : Band) (stock : List UInt8) (expectedOrders : Nat)
    (calls : List Call) :
    ∃ p taken p' total, (new band stock expectedOrders).run calls = some (p, taken) ∧
      p.uncross = some (p', total) ∧
      (0 < Market.printed p.engine.tellsAuction → (p.Truthful p' ↔ p.Undisturbed)) := by
  rcases (tracks_new band stock expectedOrders).run calls with ⟨p, taken, m, screen, run, tracks, -⟩
  rcases tracks.uncross with ⟨p', total, called⟩
  refine ⟨p, taken, p', total, run, called, fun traded => ?_⟩
  exact tracks.truthful_iff (Nat.ne_of_gt traded) called

/-- An auction of a halted book is published as it was. -/
theorem run_uncross_halted :
    let band : Band := ⟨95, 105, by decide, by decide, by decide⟩
    let calls : List Call :=
      [.op .halt, .op (.submitLimit .buy 101 5 .gtc 1 .cancelTaker),
        .op (.submitLimit .sell 100 5 .gtc 2 .cancelTaker)]
    ∃ p taken p' total, (new band [] 4).run calls = some (p, taken) ∧
      p.uncross = some (p', total) ∧ p.Truthful p' := by
  intro band calls
  rcases run_uncross_truthful_iff band [] 4 calls with ⟨p, taken, p', total, run, called, exact⟩
  have told : ((new band [] 4).run calls).map
      (fun result => (result.1.engine.tellsAuction, result.1.engine.tellsPump)) =
      some ([.trade ⟨1, 2, 100, 5, .buy⟩], []) := by decide +kernel
  rw [run, Option.map_some, Option.some.injEq, Prod.mk.injEq] at told
  rcases told with ⟨auction, pump⟩
  refine ⟨p, taken, p', total, run, called, (exact ?_).mpr ⟨?_, ?_, ?_⟩⟩
  · rw [auction]
    decide
  · rw [pump]
    exact fun t member => absurd member List.not_mem_nil
  · rw [auction]
    decide
  · intro t member
    rw [auction] at member
    cases List.mem_singleton.mp member
    decide

/-- A buy stop armed by the clearing price 100 takes three at 103: its fill is published as a
pair of the auction, and the closing print carries its price. -/
theorem not_uncross_truthful :
    let band : Band := ⟨95, 105, by decide, by decide, by decide⟩
    let calls : List Call :=
      [.op .halt, .op (.submitLimit .buy 101 5 .gtc 1 .cancelTaker),
        .op (.submitLimit .sell 100 5 .gtc 2 .cancelTaker),
        .op (.submitLimit .sell 103 3 .gtc 3 .cancelTaker),
        .op (.submitStop .buy 100 3 4 .cancelTaker), .op .resume, .drain]
    ∃ p taken p' total, (new band [] 4).run calls = some (p, taken) ∧
      p.uncross = some (p', total) ∧ Market.printed p.engine.tellsAuction = 5 ∧
      p'.sink.out = [.executePx 6 1 5 1 100, .executePx 7 2 5 2 100, .executePx 8 3 3 3 103,
        .cross 9 5 103 4] ∧ ¬ p.Truthful p' := by
  intro band calls
  rcases (tracks_new band [] 4).run calls with ⟨p, taken, m, screen, run, tracks, -⟩
  rcases tracks.uncross with ⟨p', total, called⟩
  have told : (((new band [] 4).run calls).bind fun result => result.1.uncross.map fun next =>
      (result.1.engine.tellsAuction, result.1.engine.tellsPump, next.1.sink.out)) =
      some ([.trade ⟨1, 2, 100, 5, .buy⟩], [.trade ⟨4, 3, 103, 3, .buy⟩],
        [.executePx 6 1 5 1 100, .executePx 7 2 5 2 100, .executePx 8 3 3 3 103,
          .cross 9 5 103 4]) := by decide +kernel
  rw [run, Option.bind_some, called, Option.map_some, Option.some.injEq, Prod.mk.injEq,
    Prod.mk.injEq] at told
  rcases told with ⟨auction, pump, out⟩
  refine ⟨p, taken, p', total, run, called, by rw [auction]; decide, out, fun truthful => ?_⟩
  exact truthful.undisturbed.quiet ⟨4, 3, 103, 3, .buy⟩ (by rw [pump]; exact List.mem_cons_self)

end Publisher

end Itch

end Matchbook
