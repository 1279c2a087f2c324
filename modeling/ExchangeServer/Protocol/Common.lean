import Mathlib.Data.Int.Notation

/-!
# Types shared by all topics

The enumerations and the command envelope of the `protocol` crate. A 64-bit or
32-bit number of the source is an integer here; where its width matters, the
code that does the arithmetic says so.
-/

namespace Protocol

inductive Asset
  | USDC | USDT | SOL | ETH | BTC | PERP | HYP
  deriving DecidableEq

inductive Side
  | LONG | SHORT
  deriving DecidableEq

inductive PositionSide
  | LONG | SHORT | FLAT
  deriving DecidableEq

inductive OrderType
  | LIMIT | MARKET
  deriving DecidableEq

/-- Who sent a command, and the keys that identify the request and its retries. -/
structure CommandEnvelope where
  requestId : String
  idempotencyKey : String
  userId : ℤ
  replyPartition : ℤ
  deriving DecidableEq

/-- The text of an asset in `{:?}` format and on the wire. -/
def Asset.name : Asset → String
  | USDC => "USDC"
  | USDT => "USDT"
  | SOL => "SOL"
  | ETH => "ETH"
  | BTC => "BTC"
  | PERP => "PERP"
  | HYP => "HYP"

theorem Asset.name_injective {a b : Asset} (h : a.name = b.name) : a = b := by
  cases a <;> cases b <;> first | rfl | exact absurd h (by decide)

end Protocol
