import Matchbook.Engine.Handlers
import Matchbook.Market.Withdrawals

namespace Matchbook

open BoundedLoop Transitions

/-! # The two parts of an uncross

First the pairs of the auction at one price, while nothing else moves, and then what the
stops do that the last price has armed. -/

variable {H : Type} [Handler H]

namespace ReferenceEngine

variable {r r₁ : ReferenceEngine H} {clearing : Price} {crossed : Qty}

theorem crossRound_leave {state result : ReferenceEngine H × Qty}
    (leaves : crossRound clearing state = some (.leave result)) : result = state := by
  rcases state with ⟨r, crossed⟩
  simp only [crossRound] at leaves
  split at leaves
  · split at leaves
    · split at leaves <;> cases leaves
    · cases leaves
      rfl
  · cases leaves
    rfl

theorem loop_crossing {result : ReferenceEngine H × Qty} {bound : Nat} (valid : r.market.Valid)
    (keyed : r.Keyed) (run : loop (crossRound clearing) bound (r, 0) = some result) :
    r.Crossing clearing result (.crossing clearing) := by
  refine loop_invariant (fun state => r.Crossing clearing state (.crossing clearing))
    (fun result => r.Crossing clearing result (.crossing clearing)) ?_ ?_ (.refl r clearing keyed)
    run
  · rintro ⟨r', crossed⟩ next crossing goes
    have valid' := (crossing.took.valid ⟨valid, trivial⟩).1
    rcases crossRound_spec valid' crossing with ⟨next', goes', crossing', -⟩ | ⟨result', leaves, -⟩
    · rw [goes] at goes'
      cases goes'
      exact crossing'
    · rw [goes] at leaves
      cases leaves
  · intro state result' crossing leaves
    rw [crossRound_leave leaves]
    exact crossing

theorem doUncross_crossing (valid : r.market.Valid) (keyed : r.Keyed)
    (run : r.doUncross = some (r₁, crossed)) :
    (r₁ = r ∧ crossed = 0) ∨
      ∃ clearing, r.Crossing clearing (r₁, crossed) (.crossing clearing) := by
  unfold doUncross at run
  split at run
  · rename_i hi lo bestBid bestAsk
    split at run
    · cases run
      exact .inl ⟨rfl, rfl⟩
    · dsimp only at run
      split at run
      · cases run
        exact .inl ⟨rfl, rfl⟩
      · exact .inr ⟨_, loop_crossing valid keyed run⟩
  · cases run
    exact .inl ⟨rfl, rfl⟩

end ReferenceEngine

inductive Market.Crosses (m : Market) : List Event → Market → Qty → Prop
  | still : m.Crosses [] m 0
  | crossed {clearing events m'}
      (run : Run Step (m, .crossing clearing) events (m', .crossing clearing)) :
      m.Crosses events m' (UInt64.ofNat (Market.printed events))

section prices

omit [Handler H]

variable {m m' : Market} {clearing : Price} {events : List Event} {state next : Market × Phase}
  {crossed : Qty}

theorem Step.run_priced (run : Run Step (m, .crossing clearing) events next) :
    ∀ p, next.2 = .crossing p → p = clearing ∧
      ∀ t, .trade t ∈ events → t.price = clearing ∧ next.1.last = some clearing := by
  induction run with
  | refl =>
      intro p same
      cases same
      exact ⟨rfl, fun t member => absurd member List.not_mem_nil⟩
  | snoc run last induction =>
      intro p same
      cases last with
      | @cross m₀ clearing' bpx apx b a bids asks f bestBid bestAsk bidHead askHead low high =>
          cases same
          rcases induction p rfl with ⟨rfl, before⟩
          refine ⟨rfl, fun t member => ⟨?_, rfl⟩⟩
          rcases List.mem_append.mp member with old | new
          · exact (before t old).1
          · rcases List.mem_cons.mp new with same | clip
            · cases same
              rfl
            · rcases List.mem_append.mp clip with bidClip | askClip
              · rcases mem_consume_events bidClip with ⟨o, -, same, -⟩
                cases same
              · rcases mem_consume_events askClip with ⟨o, -, same, -⟩
                cases same
      | _ => cases same

theorem Market.Crosses.priced (crosses : m.Crosses events m' crossed) :
    ∃ clearing, ∀ t, .trade t ∈ events → t.price = clearing ∧ m'.last = some clearing := by
  cases crosses with
  | still => exact ⟨0, fun t member => absurd member List.not_mem_nil⟩
  | @crossed clearing _ _ run => exact ⟨clearing, (Step.run_priced run clearing rfl).2⟩

theorem Market.Crosses.counted (crosses : m.Crosses events m' crossed) :
    crossed = UInt64.ofNat (Market.printed events) := by
  cases crosses with
  | still => rfl
  | crossed run => rfl

theorem Market.Crosses.halted (crosses : m.Crosses events m' crossed) : m'.halted = m.halted := by
  cases crosses with
  | still => rfl
  | crossed run => exact Market.Step.run_halted run

theorem Market.Crosses.quiet (crosses : m.Crosses events m' crossed) (halted : m.halted = true)
    {pump : List Event} (run : Run Step (m', .idle) pump next) : pump = [] := by
  have settled : m'.Settled := .inl (crosses.halted.trans halted)
  exact (settled.still run).1

theorem Step.run_last (run : Run Step state events next) (untraded : ∀ t, .trade t ∉ events) :
    next.1.last = state.1.last := by
  induction run with
  | refl => rfl
  | @snoc old new middle next run last induction =>
      have before := induction fun t member => untraded t (List.mem_append_left _ member)
      have now (t : Trade) : .trade t ∉ new := fun member =>
        untraded t (List.mem_append_right _ member)
      rw [← before]
      cases last with
      | fill => exact absurd List.mem_cons_self (now _)
      | cross => exact absurd List.mem_cons_self (now _)
      | _ => rfl

theorem Market.exists_trade (some : Market.printed events ≠ 0) : ∃ t, .trade t ∈ events := by
  by_contra none
  apply some
  apply List.sum_eq_zero
  intro q member
  rcases List.mem_map.mp member with ⟨event, present, rfl⟩
  cases event with
  | trade t => exact absurd ⟨t, present⟩ none
  | _ => rfl

end prices

namespace MatchingEngine

variable {s : MatchingEngine H} {m : Market}

omit [Handler H] in
theorem Holds.lastPx {px : Price} (holds : s.Holds m) (last : m.last = some px) :
    s.lastPx = px := by
  rcases holds with ⟨band, r, simulates, rfl⟩
  have same := simulates.shows.last.trans last
  split at same
  · exact Option.some.inj same
  · cases same

structure CrossThenPump (s : MatchingEngine H) (m : Market) (s' : MatchingEngine H) (m' : Market)
    (crossed : Qty) (cross pump : List Event) : Prop where
  auction : ∃ s₁, s.doUncross = some (s₁, crossed) ∧ s₁.h = Handler.onAll s.h cross
  called : s.uncross = some (s', crossed)
  told : s'.h = Handler.onAll s.h (cross ++ pump)
  holds : s'.Holds m'
  pumped : ∃ m₁, m.Crosses cross m₁ crossed ∧ Run Step (m₁, .idle) pump (m', .idle)

theorem Holds.uncross (holds : s.Holds m) :
    ∃ s' m' crossed cross pump, s.CrossThenPump m s' m' crossed cross pump := by
  rcases holds with ⟨band, r, simulates, rfl⟩
  rcases simulates.sound with ⟨valid, keyed, settled⟩
  rcases ReferenceEngine.doUncross_spec valid keyed with ⟨r₁, crossed, body, -⟩
  rcases doUncross_lockstep simulates.tracks valid keyed body with
    ⟨s₁, fast, tracks₁, valid₁, keyed₁⟩
  rcases ReferenceEngine.pump_spec valid₁ keyed₁ with ⟨r', pump, took, keyed', settled'⟩
  rcases took with ⟨pumped, run, handled'⟩
  rcases run_lockstep fast ⟨r₁, tracks₁, valid₁, keyed₁, pump⟩ with ⟨s', called, tracks'⟩
  have valid' : r'.market.Valid := (Run.valid run ⟨valid₁, trivial⟩).1
  rcases simulates.tracks with ⟨cells, mirrors, -⟩
  rcases tracks₁ with ⟨cells₁, mirrors₁, -⟩
  rcases id tracks' with ⟨cells', mirrors', -⟩
  have auction : ∃ cross, r₁.h = Handler.onAll r.h cross ∧
      r.market.Crosses cross r₁.market crossed := by
    rcases ReferenceEngine.doUncross_crossing valid keyed body with
      ⟨rfl, rfl⟩ | ⟨clearing, crossing⟩
    · exact ⟨[], rfl, .still⟩
    · rcases crossing.run with ⟨cross, run, handled, amount⟩
      have amount : crossed = UInt64.ofNat (Market.printed cross) := amount
      rw [amount]
      exact ⟨cross, handled, .crossed run⟩
  rcases auction with ⟨cross, handled, crosses⟩
  refine ⟨s', r'.market, crossed, cross, pumped, ⟨s₁, fast, ?_⟩, called, ?_,
    ⟨band, r', ⟨tracks', valid', keyed', settled'⟩, rfl⟩, r₁.market, crosses, run⟩
  · rw [mirrors₁.h, handled, mirrors.h]
  · rw [mirrors'.h, handled', handled, mirrors.h, Handler.onAll_append]

/-! ## What is told -/

omit [Handler H] in
theorem Holds.mapHandler {H' : Type} (f : H → H') (holds : s.Holds m) :
    (s.mapHandler f).Holds m := by
  rcases holds with ⟨band, r, ⟨⟨cells, mirrors, flags⟩, valid, keyed, settled⟩, rfl⟩
  let r' : ReferenceEngine H' := { r with h := f r.h }
  have mirrors' : Mirrors band.min (Band.levels band) (s.mapHandler f) cells r' := by
    rcases mirrors
    constructor <;> first | assumption | exact congrArg f ‹_›
  exact ⟨band, r', ⟨⟨cells, mirrors', flags⟩, valid, keyed, settled⟩, rfl⟩

def recorder {H : Type} (s : MatchingEngine H) : MatchingEngine Tape := s.mapHandler fun _ => []

def tells {H : Type} (s : MatchingEngine H) (op : Op) : List Event :=
  match s.recorder.step op with
  | some (s', _) => s'.h
  | none => []

/-- What it tells in an auction alone. -/
def tellsAuction {H : Type} (s : MatchingEngine H) : List Event :=
  match s.recorder.doUncross with
  | some (s', _) => s'.h
  | none => []

def tellsPump {H : Type} (s : MatchingEngine H) : List Event :=
  (s.tells .uncross).drop s.tellsAuction.length

theorem commutes_playback (h : H) : Handler.Commutes (Handler.onAll h : Tape → H) :=
  fun tape event => Handler.onAll_concat h tape event

omit [Handler H] in
theorem recorder_mapHandler [Handler H] (s : MatchingEngine H) :
    s.recorder.mapHandler (Handler.onAll s.h) = s := rfl

theorem Holds.did (holds : s.Holds m) (op : Op) :
    ∃ s' ret m', s.step op = some (s', ret) ∧ s.Did m op s' m' ret (s.tells op) := by
  have recorded : s.recorder.Holds m := holds.mapHandler _
  rcases recorded.step op with ⟨t, ret, m', events, called, did⟩
  have tape : t.h = events := did.told.trans (Handler.onAll_tape [] events)
  have told : s.tells op = t.h := by rw [tells, called]
  have played := mapHandler_step (commutes_playback s.h) s.recorder op
  rw [recorder_mapHandler, called] at played
  refine ⟨t.mapHandler (Handler.onAll s.h), ret, m', played, did.holds.mapHandler _, ?_, ?_⟩
  · rw [told, tape]
    exact did.performs
  · rw [told]
    rfl

theorem Holds.uncrossed (holds : s.Holds m) :
    ∃ s' m' crossed, s.CrossThenPump m s' m' crossed s.tellsAuction s.tellsPump ∧
      s.tells .uncross = s.tellsAuction ++ s.tellsPump := by
  have recorded : s.recorder.Holds m := holds.mapHandler _
  rcases recorded.uncross with ⟨t', m', crossed, cross, pump, parts⟩
  rcases parts with ⟨⟨t, auction, heard⟩, called, told, holds', pumped⟩
  have tape : t.h = cross := heard.trans (Handler.onAll_tape [] cross)
  have tape' : t'.h = cross ++ pump := told.trans (Handler.onAll_tape [] _)
  have crossTold : s.tellsAuction = cross := by
    rw [tellsAuction, auction]
    exact tape
  have allTold : s.tells .uncross = cross ++ pump := by
    have step : s.recorder.step .uncross = s.recorder.uncross.map (·.map id .qty) := rfl
    rw [tells, step, called]
    exact tape'
  have playedAuction := mapHandler_doUncross (commutes_playback s.h) s.recorder
  have playedAll := mapHandler_run (commutes_playback s.h) s.recorder (·.doUncross) (·.doUncross)
    playedAuction
  rw [recorder_mapHandler] at playedAuction playedAll
  have pumpTold : s.tellsPump = pump := by
    rw [tellsPump, allTold, crossTold, List.drop_left]
  refine ⟨t'.mapHandler (Handler.onAll s.h), m', crossed, ?_, by rw [crossTold, pumpTold, allTold]⟩
  rw [crossTold, pumpTold]
  constructor
  case auction =>
      refine ⟨t.mapHandler (Handler.onAll s.h), ?_, ?_⟩
      · rw [playedAuction, auction]
        rfl
      · rw [mapHandler_h, tape]
  case called =>
      have played : s.uncross = s.recorder.uncross.map (mapResult (Handler.onAll s.h)) := playedAll
      rw [played, called]
      rfl
  case told => rw [mapHandler_h, tape']
  case holds => exact holds'.mapHandler _
  case pumped => exact pumped

end MatchingEngine

end Matchbook
