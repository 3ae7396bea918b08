import Matchbook.Feed.BookRoundTrip

namespace Matchbook

/-! # The snapshot

A late joiner gets the displayed book order by order, under the references of the live stream
and in priority order. Order by order it comes into the joiner's book. -/

namespace Market

abbrev Stand := Side × Price × RO

def enter (m : Market) (entry : Stand) : Market :=
  m.setLevel entry.1 entry.2.1 (m.levels entry.1 entry.2.1 ++ [entry.2.2])

def enterAll (m : Market) (entries : List Stand) : Market := entries.foldl enter m

def entries (m : Market) (side : Side) : List Stand :=
  (m.ladder side).flatMap fun px => (m.levels side px).map fun o => (side, px, o)

variable {m m' : Market} {side s : Side} {px p : Price} {o : RO} {entry : Stand}
  {queue : List Stand}

def Stand.At (s : Side) (p : Price) (entry : Stand) : Prop := entry.1 = s ∧ entry.2.1 = p

instance : DecidablePred (Stand.At s p) := fun entry =>
  inferInstanceAs (Decidable (entry.1 = s ∧ entry.2.1 = p))

theorem enterAll_levels (m : Market) (queue : List Stand) (s : Side) (p : Price) :
    (m.enterAll queue).levels s p =
      m.levels s p ++ (queue.filter (Stand.At s p ·)).map (·.2.2) := by
  induction queue generalizing m with
  | nil => simp [enterAll]
  | cons entry queue induction =>
      have later := induction (m.enter entry)
      rw [enterAll, List.foldl_cons] at *
      rw [later, enter, setLevel_levels]
      by_cases here : entry.At s p
      · rw [List.filter_cons_of_pos (by simpa using here), if_pos ⟨here.1.symm, here.2.symm⟩,
          here.1, here.2]
        simp
      · rw [List.filter_cons_of_neg (by simpa using here),
          if_neg fun same => here ⟨same.1.symm, same.2.symm⟩]

theorem enterAll_kept (m : Market) (queue : List Stand) :
    (m.enterAll queue).min = m.min ∧ (m.enterAll queue).max = m.max ∧
      (m.enterAll queue).halted = m.halted := by
  induction queue generalizing m with
  | nil => exact ⟨rfl, rfl, rfl⟩
  | cons entry queue induction => exact induction (m.enter entry)

theorem mem_entries : entry ∈ m.entries side ↔
    entry.1 = side ∧ m.inBand entry.2.1 ∧ entry.2.2 ∈ m.levels side entry.2.1 := by
  rcases entry with ⟨s, p, o⟩
  simp only [entries, List.mem_flatMap, mem_ladder, List.mem_map, Prod.mk.injEq]
  constructor
  · rintro ⟨px, inside, o', member, rfl, rfl, rfl⟩
    exact ⟨rfl, inside, member⟩
  · rintro ⟨rfl, inside, member⟩
    exact ⟨p, inside, o, member, rfl, rfl, rfl⟩

theorem ladder_nodup (m : Market) (side : Side) : (m.ladder side).Nodup := by
  apply (m.ladder_sorted side).imp
  rintro px other worse rfl
  exact side.worse_irrefl px worse

theorem flatMap_one {α : Type} {prices : List Price} (distinct : prices.Nodup)
    (found : Price → List α) (p : Price) :
    (prices.flatMap fun px => if px = p then found px else []) =
      if p ∈ prices then found p else [] := by
  induction prices with
  | nil => rfl
  | cons px prices induction =>
      rcases List.nodup_cons.mp distinct with ⟨new, distinct'⟩
      rw [List.flatMap_cons, induction distinct']
      by_cases here : px = p
      · subst here
        simp [new]
      · have other : p ≠ px := fun same => here same.symm
        simp [here, other]

theorem entries_at (valid : m.Valid) (side s : Side) (p : Price) :
    ((m.entries side).filter (Stand.At s p ·)).map (·.2.2) =
      if s = side then m.levels s p else [] := by
  have level (px : Price) :
      (((m.levels side px).map fun o => (side, px, o)).filter (Stand.At s p ·)).map (·.2.2) =
        if px = p then (if s = side then m.levels s px else []) else [] := by
    by_cases sides : s = side
    · subst sides
      by_cases here : px = p
      · have all : ((m.levels s px).map fun o => ((s, px, o) : Stand)).filter (Stand.At s p ·) =
            (m.levels s px).map fun o => (s, px, o) := by
          rw [List.filter_eq_self]
          intro entry member
          rcases List.mem_map.mp member with ⟨o, -, rfl⟩
          exact decide_eq_true ⟨rfl, here⟩
        rw [all, if_pos here, if_pos rfl, List.map_map]
        exact List.map_id _
      · rw [if_neg here, List.map_eq_nil_iff, List.filter_eq_nil_iff]
        intro entry member
        rcases List.mem_map.mp member with ⟨o, -, rfl⟩
        exact fun at' => here (of_decide_eq_true at').2
    · rw [if_neg sides, ite_self, List.map_eq_nil_iff, List.filter_eq_nil_iff]
      intro entry member
      rcases List.mem_map.mp member with ⟨o, -, rfl⟩
      exact fun at' => sides (of_decide_eq_true at').1.symm
  rw [entries, List.filter_flatMap, List.map_flatMap]
  simp only [level]
  rw [flatMap_one (m.ladder_nodup side)]
  split
  case isTrue => rfl
  case isFalse outside =>
    rw [mem_ladder] at outside
    split
    · by_contra occupied
      exact outside (valid.inside s p fun empty => occupied empty.symm)
    · rfl

theorem entries_apart (valid : m.Valid) :
    (m.entries .buy ++ m.entries .sell).Pairwise fun x y => x.2.2.id ≠ y.2.2.id := by
  have side (side : Side) : (m.entries side).Pairwise fun x y => x.2.2.id ≠ y.2.2.id := by
    rw [entries, List.pairwise_flatMap]
    constructor
    · intro px _
      rw [List.pairwise_map]
      exact List.pairwise_map.mp (valid.distinct side px)
    · apply (m.ladder_nodup side).imp
      rintro px other differ _ first _ second
      rcases List.mem_map.mp first with ⟨o, member, rfl⟩
      rcases List.mem_map.mp second with ⟨o', member', rfl⟩
      exact fun same => differ (valid.place side px side other o member o' member' same).2
  rw [List.pairwise_append]
  refine ⟨side .buy, side .sell, fun x first y second same => ?_⟩
  have bid := (mem_entries.mp first).2.2
  have ask := (mem_entries.mp second).2.2
  exact Side.noConfusion (valid.place .buy x.2.1 .sell y.2.1 x.2.2 bid y.2.2 ask same).1

theorem enterAll_entries (valid : m.Valid) (empty : ∀ s p, m'.levels s p = []) :
    (m'.enterAll (m.entries .buy ++ m.entries .sell)).levels = m.levels := by
  funext s p
  rw [enterAll_levels, empty, List.nil_append, List.filter_append, List.map_append,
    entries_at valid, entries_at valid]
  cases s <;> simp

end Market

namespace Itch

open Market

namespace Publisher

def snapshotAdd (sink : Sink) (visited : OrderId × Side × Price × Qty) : Publication :=
  .add 0 (sink.refAt visited.1).ref visited.2.1 visited.2.2.2 visited.2.2.1

def snapshot (p : Publisher) : Option (List Publication × Nat) := do
  let bids ← p.engine.visitOrders .buy
  let asks ← p.engine.visitOrders .sell
  let halted := if p.engine.halted then [.action 0 'H'.toUInt8] else []
  some (halted ++ (bids ++ asks).map (snapshotAdd p.sink), p.sink.seq)

end Publisher

open Publisher

section joins

variable {sink : Sink} {m m₀ : Market} {b : BookBuilder} {e : MatchingEngine Tape} {copy : Market}
  {stock : Stock} {earlier : List Publication} {screen : Screen} {entry : Stand}
  {queue : List Stand}

def standAdd (sink : Sink) (stand : Stand) : Publication :=
  .add 0 (sink.refAt stand.2.2.id).ref stand.1 stand.2.2.qty stand.2.1

structure Joins (m₀ m : Market) (queue : List Stand) : Prop where
  within : ∀ s p, ∀ o ∈ m₀.levels s p, o ∈ m.levels s p
  members : ∀ entry ∈ queue, entry.2.2 ∈ m.levels entry.1 entry.2.1
  fresh : ∀ entry ∈ queue, ∀ s p, ∀ o ∈ m₀.levels s p, o.id ≠ entry.2.2.id
  apart : queue.Pairwise fun x y => x.2.2.id ≠ y.2.2.id

theorem Joins.enter (joins : Joins m₀ m (entry :: queue)) : Joins (m₀.enter entry) m queue := by
  rcases List.pairwise_cons.mp joins.apart with ⟨differs, apart⟩
  have placed (s : Side) (p : Price) (o : RO) (member : o ∈ (m₀.enter entry).levels s p) :
      o ∈ m₀.levels s p ∨ (s = entry.1 ∧ p = entry.2.1 ∧ o = entry.2.2) := by
    rw [Market.enter, setLevel_levels] at member
    split at member
    case isTrue here =>
        rw [here.1, here.2]
        rcases List.mem_append.mp member with before | new
        · exact .inl before
        · exact .inr ⟨rfl, rfl, List.mem_singleton.mp new⟩
    case isFalse => exact .inl member
  constructor
  case within =>
      intro s p o member
      rcases placed s p o member with before | ⟨rfl, rfl, rfl⟩
      · exact joins.within s p o before
      · exact joins.members entry List.mem_cons_self
  case members => exact fun other member => joins.members other (List.mem_cons_of_mem _ member)
  case fresh =>
      intro other member s p o present
      rcases placed s p o present with before | ⟨-, -, rfl⟩
      · exact joins.fresh other (List.mem_cons_of_mem _ member) s p o before
      · exact differs other member
  case apart => exact apart

/-- The joiner reads the orders one by one, and none of them trades. -/
theorem Copies.enterAll (copies : Copies sink m₀ b e copy) (joins : Joins m₀ m queue)
    (kept : m₀.min = m.min ∧ m₀.max = m.max ∧ m₀.halted = m.halted) (fits : Fits (m, .idle))
    (settled : m.halted = true ∨ m.Uncrossed) (tells : sink.Tells earlier screen)
    (onScreen : m.OnScreen screen) (wide : sink.nextRef ≤ 2 ^ 64) :
    ∃ b' e' copy', b.readAll e (bodies stock (queue.map (standAdd sink))) = some (b', e') ∧
      Silent e e' ∧ Copies sink (m₀.enterAll queue) b' e' copy' := by
  induction queue generalizing m₀ b e copy with
  | nil => exact ⟨b, e, copy, rfl, silent_of_eq rfl, copies⟩
  | cons entry queue induction =>
      rcases entry with ⟨side, px, o⟩
      have valid := fits.valid.1
      have member : o ∈ m.levels side px := joins.members (side, px, o) List.mem_cons_self
      have shape := valid.shape side px o member
      have small : o.qty < 2 ^ 32 :=
        UInt64.lt_of_le_of_lt shape.qty_le_total (fits.capped.resting side px o member)
      have inside : m.inBand px := valid.inside side px (List.ne_nil_of_mem member)
      have inside₀ : m₀.inBand px := by
        rw [inBand, kept.1, kept.2.1]
        exact inside
      have narrow : 0 ≤ px ∧ px < 2 ^ 32 :=
        ⟨Int.le_trans fits.narrow.1 inside.1, Int.lt_of_le_of_lt inside.2 fits.narrow.2⟩
      have clear : m₀.halted = true ∨ ¬ m₀.WouldCross side px := by
        rw [kept.2.2]
        refine settled.imp id fun uncrossed crosses => ?_
        apply uncrossed.not_wouldCross (List.ne_nil_of_mem member)
        exact crosses.imp fun p meets => ⟨fun empty => meets.1 (List.eq_nil_iff_forall_not_mem.mpr
          fun other present => List.not_mem_nil (empty ▸ joins.within _ _ other present)), meets.2⟩
      have others (s : Side) (p : Price) (other : RO) (present : other ∈ m₀.levels s p) :
          sink.refAt other.id = sink.refAt other.id ∧
            UInt64.ofNat (sink.refAt other.id).ref ≠ UInt64.ofNat (sink.refAt o.id).ref :=
        ⟨rfl, fun same => joins.fresh (side, px, o) List.mem_cons_self s p other present
          (apart_of_tells tells onScreen wide (joins.within s p other present) member same)⟩
      have entered : ∃ b₁ e₁ copy₁,
          b.read e ((standAdd sink (side, px, o)).encoding stock).body = some (b₁, e₁) ∧
            Silent e e₁ ∧ Copies sink (m₀.enter (side, px, o)) b₁ e₁ copy₁ :=
        copies.enter (UInt64.pos_iff_ne_zero.mp shape.positive) small inside₀ narrow clear rfl
          others 0
      rcases entered with ⟨b₁, e₁, copy₁, read, silent, copies₁⟩
      rcases induction copies₁ joins.enter kept with ⟨b', e', copy', rest, silent', copies'⟩
      refine ⟨b', e', copy', ?_, silent.trans silent', copies'⟩
      rw [List.map_cons, bodies, List.map_cons, BookBuilder.readAll, read]
      exact rest

theorem map_snapshotAdd (valid : m.Valid) (side : Side) :
    ((m.ladder side).flatMap fun px => (m.levels side px).map MatchingEngine.visited).map
        (snapshotAdd sink) =
      (m.entries side).map (standAdd sink) := by
  rw [entries, List.map_flatMap, List.map_flatMap]
  congr 1
  funext px
  rw [List.map_map, List.map_map, List.map_inj_left]
  intro o member
  rcases valid.home side px o member with ⟨rfl, rfl⟩
  rfl

end joins

namespace Publisher

variable {p : Publisher} {m : Market} {earlier : List Publication} {screen : Screen}

theorem snapshot_eq (holds : p.engine.Holds m) : p.snapshot =
    some ((if p.engine.halted then [.action 0 'H'.toUInt8] else []) ++
      (m.entries .buy ++ m.entries .sell).map (standAdd p.sink), p.sink.seq) := by
  rw [snapshot, holds.visitOrders, holds.visitOrders]
  simp only [Option.bind_eq_bind, Option.bind_some, List.map_append, map_snapshotAdd holds.valid]

/-- The snapshot leads a new engine to the displayed book. -/
theorem Tracks.snapshot (tracks : p.Tracks earlier m screen) {band : Band}
    (session : Session band p earlier m) (stock : Stock) (expectedOrders : Nat)
    (settled : p.engine.halted = true ∨ p.engine.Uncrossed) (wide : p.sink.nextRef ≤ 2 ^ 64) :
    ∃ messages, p.snapshot = some (messages, p.sink.seq) ∧
      ∃ b e, BookBuilder.readAll {} (.new band ([] : Tape) expectedOrders)
          (bodies stock messages) = some (b, e) ∧
        p.SameBook b e ∧ e.halted = p.engine.halted ∧ ∀ t, .trade t ∉ e.h := by
  have holds := tracks.holds
  have valid := holds.valid
  refine ⟨_, snapshot_eq holds, ?_⟩
  have settled' : m.halted = true ∨ m.Uncrossed := by
    rw [← holds.shows.halted, ← holds.uncrossed_iff]
    exact settled
  have started : ∃ m₀ b e copy, BookBuilder.readAll {} (.new band ([] : Tape) expectedOrders)
        (bodies stock (if p.engine.halted then [.action 0 'H'.toUInt8] else [])) = some (b, e) ∧
      Silent (.new band ([] : Tape) expectedOrders) e ∧ Copies p.sink m₀ b e copy ∧
      (∀ s px, m₀.levels s px = []) ∧
      m₀.min = m.min ∧ m₀.max = m.max ∧ m₀.halted = m.halted := by
    have new := copies_new band expectedOrders p.sink
    cases halted : p.engine.halted with
    | false =>
        exact ⟨_, _, _, _, rfl, silent_of_eq rfl, new, fun _ _ => rfl, session.band.1.symm,
          session.band.2.symm, halted.symm.trans holds.shows.halted⟩
    | true =>
        have acted : ∃ e copy, BookBuilder.read {} (.new band ([] : Tape) expectedOrders)
            ((Publication.action 0 'H'.toUInt8).encoding stock).body = some ({}, e) ∧
            Silent (.new band ([] : Tape) expectedOrders) e ∧
              Copies p.sink { Market.new band with halted := true } {} e copy :=
          new.act 'H'.toUInt8 true rfl 0
        rcases acted with ⟨e, copy, read, silent, copies⟩
        exact ⟨_, _, e, copy, (BookBuilder.readAll_single _).trans read, silent, copies,
          fun _ _ => rfl, session.band.1.symm, session.band.2.symm,
          halted.symm.trans holds.shows.halted⟩
  rcases started with ⟨m₀, b₀, e₀, copy₀, read₀, silent₀, copies₀, empty, kept⟩
  have joins : Joins m₀ m (m.entries .buy ++ m.entries .sell) := by
    constructor
    case within => exact fun s px o member => absurd (empty s px ▸ member) List.not_mem_nil
    case members =>
        intro stand member
        rcases List.mem_append.mp member with bid | ask
        · have found := mem_entries.mp bid
          exact found.1.symm ▸ found.2.2
        · have found := mem_entries.mp ask
          exact found.1.symm ▸ found.2.2
    case fresh => exact fun _ _ s px o member => absurd (empty s px ▸ member) List.not_mem_nil
    case apart => exact entries_apart valid
  rcases copies₀.enterAll joins kept session.fits settled' tracks.tells tracks.onScreen wide with
    ⟨b, e, copy, read, silent, copies⟩
  have rebuilt : Copies p.sink m b e copy := by
    have final := enterAll_kept m₀ (m.entries .buy ++ m.entries .sell)
    have levels := enterAll_entries valid empty
    refine ⟨copies.holds, copies.plain, ?_, ?_, ?_⟩
    · rw [← levels]
      exact copies.levels
    · rw [← kept.1, ← kept.2.1, ← final.1, ← final.2.1]
      exact copies.band
    · rw [← kept.2.2, ← final.2.2]
      exact copies.halted
  refine ⟨b, e, ?_, ?_, ?_, ?_⟩
  · rw [bodies, List.map_append]
    exact (BookBuilder.readAll_append read₀).trans read
  · intro side px
    rw [holds.shows.levels, rebuilt.holds.shows.levels]
    exact rebuilt.levels side px
  · rw [holds.shows.halted, rebuilt.holds.shows.halted]
    exact rebuilt.halted
  · exact fun t traded => List.not_mem_nil (silent₀ t (silent t traded))

end Publisher

end Itch

end Matchbook
