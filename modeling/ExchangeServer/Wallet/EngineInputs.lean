import ExchangeServer.Wallet.Database

/-!
# Inputs for the engine

The outbox message that carries an engine command, keyed by market.
-/

namespace Wallet

open Protocol

def engineInputMarketId : EngineCommand → ℤ
  | .placeOrder command => command.marketId
  | .cancelOrder command => command.marketId
  | .liquidatePosition command => command.marketId
  | .markPriceUpdated command => command.marketId
  | .fundingRateUpdated command => command.marketId
  | .fundingSettlementTick command => command.marketId

def engineInputKey (input : EngineCommand) : String := toString (engineInputMarketId input)

def engineCommandOutboxMessage (topic dedupeKey : String) (command : EngineCommand) :
    NewWalletOutboxMessage where
  dedupeKey := dedupeKey
  topic := topic
  partition := none
  messageKey := engineInputKey command
  payloadType := "EngineCommand"
  payload := .engineCommand command

end Wallet
