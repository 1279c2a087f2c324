import ExchangeServer.Foundation.Json
import ExchangeServer.Protocol.Common

/-!
# The shared types on the wire

What `serde` derives for the types of `protocol::common`.
-/

namespace Protocol

def Asset.codec : Codec Asset :=
  .names Asset.name [.USDC, .USDT, .SOL, .ETH, .BTC, .PERP, .HYP]
    (fun asset => by cases asset <;> decide) fun _ _ => Asset.name_injective

def Side.name : Side → String
  | .LONG => "LONG"
  | .SHORT => "SHORT"

def Side.codec : Codec Side :=
  .names Side.name [.LONG, .SHORT] (fun side => by cases side <;> decide)
    fun a b h => by cases a <;> cases b <;> first | rfl | exact absurd h (by decide)

def PositionSide.name : PositionSide → String
  | .LONG => "LONG"
  | .SHORT => "SHORT"
  | .FLAT => "FLAT"

def PositionSide.codec : Codec PositionSide :=
  .names PositionSide.name [.LONG, .SHORT, .FLAT] (fun side => by cases side <;> decide)
    fun a b h => by cases a <;> cases b <;> first | rfl | exact absurd h (by decide)

def OrderType.name : OrderType → String
  | .LIMIT => "LIMIT"
  | .MARKET => "MARKET"

def OrderType.codec : Codec OrderType :=
  .names OrderType.name [.LIMIT, .MARKET] (fun orderType => by cases orderType <;> decide)
    fun a b h => by cases a <;> cases b <;> first | rfl | exact absurd h (by decide)

open FieldCodec in
def CommandEnvelope.codec : Codec CommandEnvelope :=
  Fields.start CommandEnvelope CommandEnvelope.mk
    |>.field "request_id" (·.requestId) (required .string)
    |>.field "idempotency_key" (·.idempotencyKey) (required .string)
    |>.field "user_id" (·.userId) (required .i64)
    |>.field "reply_partition" (·.replyPartition) (required .i32)
    |>.struct (by decide) fun _ => rfl

end Protocol
