import Matchbook.Market.PostOnly

namespace Matchbook

open Transitions

/-! # What an iceberg shows

The peak is kept with an order that rests with a hidden reserve. A remainder that
fits in one clip rests as an ordinary order, without its peak. -/

def Op.display? : Op → Option Qty
  | .submitIceberg _ _ _ display _ _ _ => some display
  | _ => none

namespace Register

def display? (register : Register) (id : OrderId) : Option Qty :=
  (register.entry id).bind Op.display?

/-- No more than the display comes to rest of an iceberg. -/
def Discreet (register : Register) : Entry → Prop
  | .seen (.rest id _ _ displayed) => ∀ d ∈ register.display? id, displayed ≤ d
  | _ => True

end Register

def Market.KeepsPeak (m : Market) (register : Register) (op : Op) : Prop :=
  ∀ side px, ∀ o ∈ m.levels side px, ∀ newPrice newQty, op = .modify o.id newPrice newQty →
    m.Reenters o newPrice newQty → o.peak = 0 → ∀ d ∈ register.display? o.id, newQty ≤ d

open Market

structure Hidden (state : Market × Phase) (register : Register) : Prop where
  resting : ∀ side px, ∀ o ∈ state.1.levels side px, ∀ d ∈ register.display? o.id,
    o.qty ≤ d ∧ o.peak ≤ d
  parked : ∀ o ∈ state.1.stops, register.display? o.id = none
  taking : ∀ t, state.2 = .taking t → ∀ d ∈ register.display? t.id, ∀ price peak,
    t.remainder = .rest price peak → peak ≤ d ∧ (peak = 0 → t.qty ≤ d)

theorem Taker.resting_shows {t : Taker} {price : Price} {peak d : Qty} (peakLe : peak ≤ d)
    (plain : peak = 0 → t.qty ≤ d) :
    (t.resting price peak).qty ≤ d ∧ (t.resting price peak).peak ≤ d := by
  unfold Taker.resting
  split
  · exact ⟨peakLe, peakLe⟩
  · rename_i noReserve
    refine ⟨?_, UInt64.zero_le⟩
    by_cases zero : peak = 0
    · exact plain zero
    · have fits : ¬ peak < t.qty := fun less => noReserve ⟨zero, less⟩
      exact UInt64.le_trans (UInt64.not_lt.mp fits) peakLe

namespace Hidden

variable {state next : Market × Phase} {register : Register}

theorem new (band : Band) : Hidden (Market.new band, .idle) .start where
  resting _ _ _ member := absurd member List.not_mem_nil
  parked _ member := absurd member List.not_mem_nil
  taking _ taking := nomatch taking

theorem continues {o o' : RO} {d : Qty} (continues : o.Continues o')
    (shows : o.qty ≤ d ∧ o.peak ≤ d) : o'.qty ≤ d ∧ o'.peak ≤ d := by
  rw [continues.peak]
  refine ⟨?_, shows.2⟩
  rcases continues.shown with less | clip
  · exact UInt64.le_trans less shows.1
  · exact UInt64.le_trans clip shows.2

theorem step {events : List Event} (hidden : Hidden state register)
    (step : Step state events next) : Hidden next register := by
  constructor
  case resting =>
      intro side px o' member d display
      rcases step.resting_origin member with ⟨o, before, same⟩ |
        ⟨t, price, peak, taking, rests, rfl, -⟩
      · rw [same.id] at display
        exact continues same (hidden.resting side px o before d display)
      · rw [Taker.resting_id] at display
        have bounds := hidden.taking t taking d display price peak rests
        exact Taker.resting_shows bounds.1 bounds.2
  case parked => exact fun o member => hidden.parked o (step.stops_origin.subset member)
  case taking =>
      intro t' taking d display price peak rests
      cases step with
      | @fill m t px o rest fill meets other amount =>
          cases taking
          have bounds := hidden.taking t rfl d display price peak rests
          refine ⟨bounds.1, fun zero => UInt64.le_trans (RO.sub_le_of_le ?_) (bounds.2 zero)⟩
          rw [amount]
          split
          · exact UInt64.le_refl _
          · rename_i notLess
            exact UInt64.not_lt.mp notLess
      | cancelMaker meets own policy =>
          cases taking
          exact hidden.taking _ rfl d display price peak rests
      | @fire m front o back next =>
          cases taking
          have parked : o ∈ m.stops := by simp [next.parked]
          rw [RO.fired_id, hidden.parked o parked] at display
          cases display
      | _ => cases taking

theorem discreet {events : List Event} (hidden : Hidden state register)
    (step : Step state events next) :
    ∀ entry ∈ events.map Entry.seen, register.Discreet entry := by
  intro entry member
  rcases List.mem_map.mp member with ⟨event, isEvent, rfl⟩
  cases event with
  | rest id side price displayed =>
      intro d display
      have clip {maker : Side} {px announced : Price} {f : Qty}
          (isClip : .rest id side price displayed ∈
            (consume announced f (state.1.levels maker px)).2) : displayed ≤ d := by
        rcases mem_consume_events isClip with ⟨o, before, same, -⟩
        cases same
        have bounds := hidden.resting maker px o before d display
        exact UInt64.le_trans RO.clip_le_peak bounds.2
      cases step with
      | fill meets other amount =>
          rcases List.mem_cons.mp isEvent with same | isClip
          · cases same
          · rw [← meets.head] at isClip
            exact clip isClip
      | cross bestBid bestAsk bidHead askHead low high amount =>
          rcases List.mem_cons.mp isEvent with same | isClip
          · cases same
          rcases List.mem_append.mp isClip with isClip | isClip
          · rw [← bidHead] at isClip
            exact clip isClip
          · rw [← askHead] at isClip
            exact clip isClip
      | @rest m t price peak left blocked rests =>
          cases List.mem_singleton.mp isEvent
          have bounds := hidden.taking t rfl d display _ _ rests
          exact (Taker.resting_shows bounds.1 bounds.2).1
      | _ => simp at isEvent
  | _ => trivial

theorem begin {m : Market} {op : Op} {ret : Ret} {events : List Event} (valid : m.Valid)
    (hidden : Hidden (m, .idle) register) (keeps : m.KeepsPeak register op)
    (start : m.Begin op events next ret) : Hidden next (register.begun op ret events) := by
  have old {id : OrderId} (isOpen : m.IsOpen id) :
      (register.begun op ret events).display? id = register.display? id := by
    have ne : id ≠ m.nextId := by
      rintro rfl
      exact valid.fresh isOpen
    rw [Register.display?, Register.begun_entry start register ne]
    rfl
  have resting : ∀ side px, ∀ o ∈ next.1.levels side px,
      ∀ d ∈ (register.begun op ret events).display? o.id, o.qty ≤ d ∧ o.peak ≤ d := by
    intro side px o' member d display
    rcases start.shrinks side px o' member with ⟨o, before, same⟩
    rw [same.id, old (isOpen_of_mem before)] at display
    exact continues same (hidden.resting side px o before d display)
  have parked : ∀ o ∈ m.stops, (register.begun op ret events).display? o.id = none :=
    fun o member => (old (isOpen_of_stop member)).trans (hidden.parked o member)
  have fresh {side : Side} {price : Price} {qty : Qty} (submit : op.IsSubmit)
      (accepts : events = [.accept m.nextId side price qty]) :
      (register.begun op ret events).display? m.nextId = op.display? := by
    rw [accepts, Register.display?, Register.begun_issued submit [] (by simp)]
    rfl
  cases start with
  | @enter op side price qty tif owner stp peak entry nonzero inside admitted =>
      refine ⟨resting, parked, ?_⟩
      intro t taking d display price' peak' rests
      cases taking
      have submit : op.IsSubmit := by cases entry <;> trivial
      have shown : op.display? = some d := (fresh submit rfl).symm.trans display
      have isPeak : peak' = peak := by
        unfold Taker.ofLimit at rests
        dsimp only at rests
        split at rests
        · contradiction
        · cases rests
          rfl
      cases entry with
      | limit => cases shown
      | iceberg isShown =>
          cases shown
          rw [isPeak]
          exact ⟨UInt64.le_refl _, fun zero => absurd zero isShown⟩
  | market running =>
      refine ⟨resting, parked, ?_⟩
      intro t taking d display price' peak' rests
      cases taking
      cases rests
  | @trigger op o entry nonzero inside limit running armed =>
      refine ⟨resting, parked, ?_⟩
      intro t taking d display price' peak' rests
      cases taking
      have submit : op.IsSubmit := by cases entry <;> trivial
      rw [RO.fired_id, entry.id_eq] at display
      have shown : op.display? = some d := (fresh submit rfl).symm.trans display
      cases entry <;> cases shown
  | @park op o entry nonzero inside limit waits =>
      refine ⟨resting, ?_, fun _ taking => nomatch taking⟩
      intro other member
      rcases List.mem_append.mp member with before | new
      · exact parked other before
      · have submit : op.IsSubmit := by cases entry <;> trivial
        rw [List.mem_singleton.mp new, entry.id_eq, fresh submit rfl]
        cases entry <;> rfl
  | @replace side px front o back newPrice newQty place nonzero inside moved =>
      refine ⟨resting, parked, ?_⟩
      intro t taking d display price' peak' rests
      cases taking
      cases rests
      have member : o ∈ m.levels side px := by simp [place]
      have display : d ∈ register.display? o.id := (old (isOpen_of_mem member)).symm.trans display
      have bounds := hidden.resting side px o member d display
      refine ⟨bounds.2, fun plain => ?_⟩
      exact keeps side px o member newPrice newQty rfl ⟨nonzero, inside, moved⟩ plain d display
  | cancelStop cancels place =>
      refine ⟨resting, fun o member => parked o ?_, fun _ taking => nomatch taking⟩
      rw [place]
      exact ((List.sublist_cons_self _ _).append_left _).subset member
  | _ => exact ⟨resting, parked, fun _ taking => nomatch taking⟩

end Hidden

end Matchbook
