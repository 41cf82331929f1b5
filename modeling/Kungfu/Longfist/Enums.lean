import Kungfu.Longfist.Types

namespace Kungfu.Longfist.Enums

open Kungfu.Common

inductive Mode where
  | live | data | replay | backtest
  deriving DecidableEq

def Mode.toVal : Mode → Types.Enums.mode.Val
  | .live => 0
  | .data => 1
  | .replay => 2
  | .backtest => 3

def getModeName (m : Types.Enums.mode.Val) : String :=
  if m = Mode.live.toVal then "live"
  else if m = Mode.data.toVal then "data"
  else if m = Mode.replay.toVal then "replay"
  else if m = Mode.backtest.toVal then "backtest"
  else "live"

def getModeByName (name : String) : Mode :=
  if name = "live" then .live
  else if name = "data" then .data
  else if name = "replay" then .replay
  else if name = "backtest" then .backtest
  else .live

inductive Category where
  | md | td | strategy | system
  deriving DecidableEq

def Category.toVal : Category → Types.Enums.category.Val
  | .md => 0
  | .td => 1
  | .strategy => 2
  | .system => 3

def getCategoryName (c : Types.Enums.category.Val) : String :=
  if c = Category.md.toVal then "md"
  else if c = Category.td.toVal then "td"
  else if c = Category.strategy.toVal then "strategy"
  else if c = Category.system.toVal then "system"
  else "system"

def getCategoryByName (name : String) : Category :=
  if name = "md" then .md
  else if name = "td" then .td
  else if name = "strategy" then .strategy
  else .system

inductive InstrumentType where
  | unknown | stock | future | bond | stockOption | techStock | fund | index | repo | warrant
  | iopt | crypto

inductive Side where
  | buy | sell | lock | unlock | exec | drop | purchase | redemption | split | merge
  | marginTrade | shortSell | repayMargin | repayStock | cashRepayMargin | stockRepayStock
  | surplusStockTransfer | guaranteeStockTransferIn | guaranteeStockTransferOut
  | unknown

inductive Offset where
  | «open» | close | closeToday | closeYesterday

inductive Direction where
  | long | short
  deriving DecidableEq

/-- Enumerators count from zero. -/
def InstrumentType.toVal (t : InstrumentType) : Types.Enums.instrumentType.Val :=
  .ofNat 8 t.ctorIdx

def Side.toVal : Side → Types.Enums.side.Val
  | .unknown => 99
  | s => .ofNat 8 s.ctorIdx

def Offset.toVal (o : Offset) : Types.Enums.offset.Val := .ofNat 8 o.ctorIdx

@[simp] theorem getModeByName_getModeName (m : Mode) : getModeByName (getModeName m.toVal) = m := by
  cases m <;> decide

@[simp] theorem getCategoryByName_getCategoryName (c : Category) :
    getCategoryByName (getCategoryName c.toVal) = c := by
  cases c <;> decide

theorem getModeName_injective : Function.Injective fun m : Mode => getModeName m.toVal :=
  Function.LeftInverse.injective getModeByName_getModeName

theorem getCategoryName_injective :
    Function.Injective fun c : Category => getCategoryName c.toVal :=
  Function.LeftInverse.injective getCategoryByName_getCategoryName

end Kungfu.Longfist.Enums
