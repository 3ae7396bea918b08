import Matchbook.Engine.Calls
import Matchbook.Ouch.Codec

namespace Matchbook

/-! # The session gateway

One session in front of one engine. The sink of the engine holds what the events of
a message are turned into. -/

namespace Ouch

inductive Mode
  | idle
  | enter
  | replace
  | cancel
deriving DecidableEq, Repr

/-! ## The sink -/

structure Session where
  /-- The token of each engine id. -/
  tokenOf : Array (List UInt8)
  /-- Outbound messages since they were taken last, oldest first. -/
  out : List (List UInt8)
  matchSeq : UInt64
  mode : Mode
  pendingToken : List UInt8
  enteredId : OrderId
  replaceId : OrderId

namespace Session

def emit (session : Session) (m : List UInt8) : Session :=
  { session with out := session.out ++ [m] }

/-- `token_of_[id]`, with the empty token beyond its end. -/
def tokenStr (session : Session) (id : OrderId) : List UInt8 := session.tokenOf.getD id []

def folds (session : Session) (id : OrderId) : Bool :=
  session.mode = .replace ∧ id = session.replaceId

def evAccept (session : Session) (id : OrderId) (side : Side) (price : Price) (qty : Qty) :
    Session :=
  if session.folds id then session
  else if session.mode ≠ .enter then session
  else
    let tokenOf := session.tokenOf ++ Array.replicate (id + 1 - session.tokenOf.size) []
    { session with
      enteredId := id
      tokenOf := tokenOf.setIfInBounds id session.pendingToken }.emit
        (encodeAccepted session.pendingToken id side qty.toUInt32 price)

def evTrade (session : Session) (t : Trade) : Session :=
  let number := session.matchSeq + 1
  let session := { session with matchSeq := number }
  let taker := encodeExecuted (session.tokenStr t.taker) t.qty.toUInt32 t.price number
  let maker := encodeExecuted (session.tokenStr t.maker) t.qty.toUInt32 t.price number
  (session.emit taker).emit maker

def cancelReason (session : Session) (id : OrderId) : UInt8 :=
  if session.mode = .cancel then userRequested
  else if session.mode = .enter ∧ id = session.enteredId then killedOnEntry
  else selfTrade

def evCancel (session : Session) (id : OrderId) : Session :=
  if session.folds id then session
  else session.emit (encodeCanceled (session.tokenStr id) (session.cancelReason id))

def evReject (session : Session) : Session :=
  if session.mode ≠ .enter then session
  else session.emit (encodeRejected session.pendingToken validation)

instance : Handler Session where
  on session
    | .accept id side price qty => session.evAccept id side price qty
    | .trade t => session.evTrade t
    | .cancel id => session.evCancel id
    | .reject _ => session.evReject
    | .rest .. => session

end Session

/-! ## The gateway -/

structure Gateway where
  engine : MatchingEngine Session
  /-- The order of each token, with 0 for a burned one. -/
  byToken : List UInt8 → Option OrderId

namespace Gateway

def new (band : Band) (expectedOrders : Nat) : Gateway where
  engine := .new band
    { tokenOf := #[[]]
      out := []
      matchSeq := 0
      mode := .idle
      pendingToken := []
      enteredId := invalidOrderId
      replaceId := invalidOrderId }
    expectedOrders
  byToken _ := none

abbrev session (g : Gateway) : Session := g.engine.h

def setSession (g : Gateway) (session : Session) : Gateway :=
  { g with engine := { g.engine with h := session } }

def setMode (g : Gateway) (mode : Mode) : Gateway := g.setSession { g.session with mode }

def emit (g : Gateway) (m : List UInt8) : Gateway := g.setSession (g.session.emit m)

def orderOf (g : Gateway) (token : List UInt8) : Option OrderId :=
  (g.byToken token).filter (· ≠ invalidOrderId)

/-! ### Inbound messages -/

def submit (g : Gateway) (side : Side) (qty : UInt32) (price : Price) (tif : TimeInForce)
    (display : UInt32) (owner : OwnerId) (stp : StpPolicy) :
    Option (MatchingEngine Session × OrderId) :=
  if display ≠ 0 ∧ display < qty then
    g.engine.submitIceberg side price qty.toUInt64 display.toUInt64 tif owner stp
  else g.engine.submitLimit side price qty.toUInt64 tif owner stp

def beginEnter (g : Gateway) (token : List UInt8) : Gateway :=
  g.setSession { g.session with
    mode := .enter
    pendingToken := token
    enteredId := invalidOrderId }

def handleEnter (g : Gateway) (token : List UInt8) (side : Side) (qty : UInt32) (price : Price)
    (tif : TimeInForce) (display : UInt32) (owner : OwnerId) (stp : StpPolicy) :
    Option Gateway :=
  -- Tokens are single-use: reuse is rejected before the engine is touched.
  if (g.byToken token).isSome then some (g.emit (encodeRejected token badToken))
  else do
    let (engine, id) ← (g.beginEnter token).submit side qty price tif display owner stp
    let g := { g with engine }.setMode .idle
    some (if id ≠ invalidOrderId then
        { g with byToken := Function.update g.byToken token (some id) } else g)

def handleCancel (g : Gateway) (token : List UInt8) : Option Gateway :=
  match g.orderOf token with
  | none => some (g.emit (encodeRejected token badToken))
  | some id => do
      let (engine, ok) ← (g.setMode .cancel).engine.cancel id
      let g := { g with engine }.setMode .idle
      -- Already filled away: the token is burned, the order long gone.
      some (if ok then g else g.emit (encodeRejected token badToken))

def bind (g : Gateway) (id : OrderId) (token : List UInt8) : Gateway :=
  g.setSession { g.session with tokenOf := g.session.tokenOf.setIfInBounds id token }

/-- The new token is bound before the engine is called, so that executions on re-entry
print under it. -/
def beginReplace (g : Gateway) (id : OrderId) (newToken : List UInt8) : Gateway :=
  let g := g.bind id newToken
  g.setSession { g.session with mode := .replace, replaceId := id }

def insertOut (g : Gateway) (pos : Nat) (m : List UInt8) : Gateway :=
  g.setSession { g.session with out := g.session.out.take pos ++ m :: g.session.out.drop pos }

def handleReplace (g : Gateway) (token newToken : List UInt8) (qty : UInt32) (price : Price) :
    Option Gateway :=
  match g.orderOf token with
  | none => some (g.emit (encodeRejected newToken badToken))
  | some id =>
      if (g.byToken newToken).isSome then some (g.emit (encodeRejected newToken badToken))
      else do
        let oldToken := g.session.tokenStr id
        let pos := g.session.out.length
        let (engine, ok) ← (g.beginReplace id newToken).engine.modify id price qty.toUInt64
        let g := { g with engine }.setMode .idle
        if ok then
          -- The old token dies with the replace.
          let byToken := Function.update g.byToken token (some invalidOrderId)
          let g := { g with byToken := Function.update byToken newToken (some id) }
          some (g.insertOut pos (encodeReplaced oldToken newToken id qty price))
        else some ((g.bind id oldToken).emit (encodeRejected newToken validation))

def onMessage (g : Gateway) (p : List UInt8) : Option (Gateway × Bool) :=
  match decodeIn p with
  | none => some (g, false)
  | some (.enter token side qty price tif display owner stp) =>
      (g.handleEnter token side qty price tif display owner stp).map (·, true)
  | some (.replace token newToken qty price) =>
      (g.handleReplace token newToken qty price).map (·, true)
  | some (.cancel token) => (g.handleCancel token).map (·, true)

def takeOut (g : Gateway) : Gateway × List (List UInt8) :=
  (g.setSession { g.session with out := [] }, g.session.out)

/-! ### Sessions -/

inductive Call
  | message (p : List UInt8)
  | takeOut

def step (g : Gateway) : Call → Option (Gateway × List (List UInt8))
  | .message p => (g.onMessage p).map fun (g, _) => (g, [])
  | .takeOut => some g.takeOut

def run (g : Gateway) : List Call → Option (Gateway × List (List UInt8))
  | [] => some (g, [])
  | call :: calls => do
      let (g, taken) ← g.step call
      let (g, later) ← g.run calls
      some (g, taken ++ later)

/-! ### What the engine is asked -/

variable {g : Gateway} {m : Market} {engine : MatchingEngine Session}

/-- An Enter reaches the engine as a limit order or as an iceberg. -/
theorem submit_did (holds : g.engine.Holds m) (side : Side) (qty : UInt32) (price : Price)
    (tif : TimeInForce) (display : UInt32) (owner : OwnerId) (stp : StpPolicy) :
    ∃ op peak engine id m' events, op.Limit side price qty.toUInt64 tif owner stp peak ∧
      (peak = if display ≠ 0 ∧ display < qty then display.toUInt64 else 0) ∧
      g.submit side qty price tif display owner stp = some (engine, id) ∧
      g.engine.Did m op engine m' (.id id) events := by
  unfold submit
  split
  case isTrue shown =>
    have peak : display.toUInt64 ≠ 0 := fun zero =>
      shown.1 (UInt32.toNat_inj.mp (by simpa using congrArg UInt64.toNat zero))
    rcases holds.submitIceberg side price qty.toUInt64 display.toUInt64 tif owner stp with
      ⟨engine, id, m', events, called, did⟩
    exact ⟨_, _, engine, id, m', events, .iceberg peak, rfl, called, did⟩
  case isFalse plain =>
    rcases holds.submitLimit side price qty.toUInt64 tif owner stp with
      ⟨engine, id, m', events, called, did⟩
    exact ⟨_, _, engine, id, m', events, .limit, rfl, called, did⟩

/-! ### What becomes of a message -/

def rested (engine : MatchingEngine Session) : MatchingEngine Session :=
  { engine with h := { engine.h with mode := .idle } }

theorem handleEnter_used {token : List UInt8} {side : Side} {qty : UInt32} {price : Price}
    {tif : TimeInForce} {display : UInt32} {owner : OwnerId} {stp : StpPolicy}
    (used : (g.byToken token).isSome = true) :
    g.handleEnter token side qty price tif display owner stp =
      some (g.emit (encodeRejected token badToken)) :=
  if_pos used

theorem handleEnter_submitted {token : List UInt8} {side : Side} {qty : UInt32} {price : Price}
    {tif : TimeInForce} {display : UInt32} {owner : OwnerId} {stp : StpPolicy} {id : OrderId}
    (unused : ¬ (g.byToken token).isSome = true)
    (submitted : (g.beginEnter token).submit side qty price tif display owner stp =
      some (engine, id)) :
    g.handleEnter token side qty price tif display owner stp =
      some { engine := rested engine
             byToken := if id ≠ invalidOrderId then Function.update g.byToken token (some id)
               else g.byToken } := by
  rw [handleEnter, if_neg unused, submitted]
  simp only [Option.bind_eq_bind, Option.bind_some]
  split <;> rfl

theorem handleCancel_unknown {token : List UInt8} (unknown : g.orderOf token = none) :
    g.handleCancel token = some (g.emit (encodeRejected token badToken)) := by
  rw [handleCancel, unknown]

theorem handleCancel_known {token : List UInt8} {id : OrderId} {ok : Bool}
    (known : g.orderOf token = some id)
    (cancelled : (g.setMode .cancel).engine.cancel id = some (engine, ok)) :
    g.handleCancel token =
      some (if ok then { g with engine := rested engine }
        else { g with engine := rested engine }.emit (encodeRejected token badToken)) := by
  rw [handleCancel, known]
  simp only [cancelled, Option.bind_eq_bind, Option.bind_some]
  rfl

theorem handleReplace_unknown {token newToken : List UInt8} {qty : UInt32} {price : Price}
    (unknown : g.orderOf token = none) :
    g.handleReplace token newToken qty price =
      some (g.emit (encodeRejected newToken badToken)) := by
  rw [handleReplace, unknown]

theorem handleReplace_used {token newToken : List UInt8} {qty : UInt32} {price : Price}
    {id : OrderId} (known : g.orderOf token = some id)
    (used : (g.byToken newToken).isSome = true) :
    g.handleReplace token newToken qty price =
      some (g.emit (encodeRejected newToken badToken)) := by
  rw [handleReplace, known]
  exact if_pos used

theorem handleReplace_modified {token newToken : List UInt8} {qty : UInt32} {price : Price}
    {id : OrderId} {ok : Bool} (known : g.orderOf token = some id)
    (unused : ¬ (g.byToken newToken).isSome = true)
    (modified : (g.beginReplace id newToken).engine.modify id price qty.toUInt64 =
      some (engine, ok)) :
    g.handleReplace token newToken qty price =
      some (if ok then
          { engine := rested engine
            byToken := Function.update (Function.update g.byToken token (some invalidOrderId))
              newToken (some id) : Gateway }.insertOut g.session.out.length
            (encodeReplaced (g.session.tokenStr id) newToken id qty price)
        else
          ({ g with engine := rested engine }.bind id (g.session.tokenStr id)).emit
            (encodeRejected newToken validation)) := by
  rw [handleReplace, known]
  simp only [if_neg unused, modified, Option.bind_eq_bind, Option.bind_some]
  cases ok <;> rfl

end Gateway

end Ouch

end Matchbook
