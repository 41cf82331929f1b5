import Kungfu.Longfist.Enums

namespace Kungfu.Wingchun

open Kungfu.Common Kungfu.Longfist Kungfu.Longfist.Enums

structure TradingData (S : Schema) where
  instrumentId : Member S.fields ⟨Types.chars Types.instrumentIdLen, "instrument_id"⟩
  exchangeId : Member S.fields ⟨Types.chars Types.exchangeIdLen, "exchange_id"⟩
  instrumentType : Member S.fields ⟨Types.Enums.instrumentType, "instrument_type"⟩
  side : Member S.fields ⟨Types.Enums.side, "side"⟩
  offset : Member S.fields ⟨Types.Enums.offset, "offset"⟩

inductive TradingDataType where
  | orderInput | order | trade

def TradingDataType.schema : TradingDataType → Schema
  | .orderInput => Types.orderInput
  | .order => Types.order
  | .trade => Types.trade

def TradingDataType.members : (T : TradingDataType) → TradingData T.schema
  | .orderInput | .order | .trade =>
    ⟨.ofMem (by decide), .ofMem (by decide), .ofMem (by decide), .ofMem (by decide),
      .ofMem (by decide)⟩

def isShortable (t : Types.Enums.instrumentType.Val) : Bool :=
  !(t = InstrumentType.stock.toVal || t = InstrumentType.bond.toVal ||
    t = InstrumentType.fund.toVal || t = InstrumentType.techStock.toVal ||
    t = InstrumentType.index.toVal || t = InstrumentType.repo.toVal)

def isClosing (o : Types.Enums.offset.Val) : Bool :=
  o = Offset.close.toVal || o = Offset.closeToday.toVal || o = Offset.closeYesterday.toVal

/-- `get_direction`; the error is the text of the `wingchun_error`. -/
def getDirection (t : Types.Enums.instrumentType.Val) (s : Types.Enums.side.Val)
    (o : Types.Enums.offset.Val) : Except String Direction :=
  if s = Side.marginTrade.toVal then .ok .long
  else if s = Side.shortSell.toVal then .ok .short
  else if s = Side.repayMargin.toVal then .ok .long
  else if s = Side.repayStock.toVal then .ok .short
  else if s = Side.exec.toVal then .ok .long
  else if !isShortable t then .ok .long
  else if s = Side.buy.toVal ∧ o = Offset.open.toVal then .ok .long
  else if s = Side.sell.toVal ∧ isClosing o then .ok .long
  else if s = Side.sell.toVal ∧ o = Offset.open.toVal then .ok .short
  else if s = Side.buy.toVal ∧ isClosing o then .ok .short
  else .error ("get_direction error: invalid direction args " ++ toString t.toInt ++ " " ++
    toString s.toInt ++ " " ++ toString o.toInt)

end Kungfu.Wingchun
