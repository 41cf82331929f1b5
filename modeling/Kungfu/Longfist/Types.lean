import Kungfu.Common.Record

/-!
The record types of `longfist/types.h` and the type maps of `longfist/longfist.h`.
-/

namespace Kungfu.Longfist

open Kungfu.Common

namespace Types

abbrev bool : FieldType := .arithmetic .bool
abbrev int32 : FieldType := .arithmetic (.int .int32)
abbrev uint32 : FieldType := .arithmetic (.int .uint32)
abbrev int64 : FieldType := .arithmetic (.int .int64)
abbrev uint64 : FieldType := .arithmetic (.int .uint64)
abbrev double : FieldType := .arithmetic .double
abbrev string : FieldType := .string
abbrev chars (n : Nat) : FieldType := .chars n
abbrev array (t : Scalar) (n : Nat) : FieldType := .array t n

abbrev instrumentIdLen : Nat := 32
abbrev productIdLen : Nat := 128
abbrev dateLen : Nat := 9
abbrev exchangeIdLen : Nat := 16
abbrev traidngPhaseCodeLen : Nat := 8
abbrev errorMsgLen : Nat := 256

namespace Enums

abbrev basketOrderCalculationMode : FieldType := .enum .int8
abbrev basketOrderStatus : FieldType := .enum .int8
abbrev basketType : FieldType := .enum .int8
abbrev basketVolumeType : FieldType := .enum .int8
abbrev brokerState : FieldType := .enum .int8
abbrev bsFlag : FieldType := .enum .int8
abbrev commissionRateMode : FieldType := .enum .int8
abbrev currencyType : FieldType := .enum .int8
abbrev direction : FieldType := .enum .int8
abbrev execType : FieldType := .enum .int8
abbrev hedgeFlag : FieldType := .enum .int8
abbrev historyDataType : FieldType := .enum .int8
abbrev instrumentType : FieldType := .enum .int8
abbrev ledgerCategory : FieldType := .enum .int8
abbrev offset : FieldType := .enum .int8
abbrev orderActionFlag : FieldType := .enum .int8
abbrev orderStatus : FieldType := .enum .int8
abbrev priceLevel : FieldType := .enum .int8
abbrev priceType : FieldType := .enum .int8
abbrev side : FieldType := .enum .int8
abbrev strategyState : FieldType := .enum .int8
abbrev timeCondition : FieldType := .enum .int8
abbrev volumeCondition : FieldType := .enum .int8
abbrev category : FieldType := .enum .int8
abbrev mode : FieldType := .enum .int8

end Enums

def config : Schema where
  name := "Config"
  tag := 10005
  primaryKeys := ["location_uid"]
  timestampKey := none
  fields := [
    ⟨uint32, "location_uid"⟩,
    ⟨Enums.category, "category"⟩,
    ⟨string, "group"⟩,
    ⟨string, "name"⟩,
    ⟨Enums.mode, "mode"⟩,
    ⟨string, "value"⟩]

def riskSetting : Schema where
  name := "RiskSetting"
  tag := 10007
  primaryKeys := ["location_uid"]
  timestampKey := none
  fields := [
    ⟨uint32, "location_uid"⟩,
    ⟨Enums.category, "category"⟩,
    ⟨string, "group"⟩,
    ⟨string, "name"⟩,
    ⟨Enums.mode, "mode"⟩,
    ⟨string, "value"⟩]

def timeValue : Schema where
  name := "TimeValue"
  tag := 20000
  primaryKeys := ["update_time"]
  timestampKey := some "update_time"
  fields := [
    ⟨int64, "update_time"⟩,
    ⟨string, "tag_a"⟩,
    ⟨string, "tag_b"⟩,
    ⟨string, "tag_c"⟩,
    ⟨string, "value"⟩]

def timeKeyValue : Schema where
  name := "TimeKeyValue"
  tag := 20001
  primaryKeys := ["key"]
  timestampKey := some "update_time"
  fields := [
    ⟨int64, "update_time"⟩,
    ⟨string, "key"⟩,
    ⟨string, "tag_a"⟩,
    ⟨string, "tag_b"⟩,
    ⟨string, "tag_c"⟩,
    ⟨string, "value"⟩]

def strategyStateUpdate : Schema where
  name := "StrategyStateUpdate"
  tag := 20002
  primaryKeys := ["update_time"]
  timestampKey := some "update_time"
  fields := [
    ⟨Enums.strategyState, "state"⟩,
    ⟨int64, "update_time"⟩,
    ⟨string, "info_a"⟩,
    ⟨string, "info_b"⟩,
    ⟨string, "info_c"⟩,
    ⟨string, "value"⟩]

def commission : Schema where
  name := "Commission"
  tag := 10006
  primaryKeys := ["product_id", "exchange_id"]
  timestampKey := none
  fields := [
    ⟨chars productIdLen, "product_id"⟩,
    ⟨chars exchangeIdLen, "exchange_id"⟩,
    ⟨Enums.instrumentType, "instrument_type"⟩,
    ⟨Enums.commissionRateMode, "mode"⟩,
    ⟨double, "open_ratio"⟩,
    ⟨double, "close_ratio"⟩,
    ⟨double, "close_today_ratio"⟩,
    ⟨double, "min_commission"⟩]

def session : Schema where
  name := "Session"
  tag := 10010
  primaryKeys := ["location_uid", "begin_time"]
  timestampKey := some "begin_time"
  fields := [
    ⟨uint32, "location_uid"⟩,
    ⟨Enums.category, "category"⟩,
    ⟨Enums.mode, "mode"⟩,
    ⟨string, "group"⟩,
    ⟨string, "name"⟩,
    ⟨int64, "begin_time"⟩,
    ⟨int64, "update_time"⟩,
    ⟨int64, "end_time"⟩,
    ⟨uint32, "frame_count"⟩,
    ⟨uint64, "data_size"⟩]

def location : Schema where
  name := "Location"
  tag := 10026
  primaryKeys := ["location_uid"]
  timestampKey := none
  fields := [
    ⟨uint32, "location_uid"⟩,
    ⟨Enums.category, "category"⟩,
    ⟨Enums.mode, "mode"⟩,
    ⟨string, "group"⟩,
    ⟨string, "name"⟩]

def register : Schema where
  name := "Register"
  tag := 10011
  primaryKeys := ["location_uid"]
  timestampKey := none
  fields := [
    ⟨uint32, "location_uid"⟩,
    ⟨Enums.category, "category"⟩,
    ⟨Enums.mode, "mode"⟩,
    ⟨string, "group"⟩,
    ⟨string, "name"⟩,
    ⟨int32, "pid"⟩,
    ⟨int64, "last_active_time"⟩,
    ⟨int64, "checkin_time"⟩]

def deregister : Schema where
  name := "Deregister"
  tag := 10012
  primaryKeys := ["location_uid"]
  timestampKey := none
  fields := [
    ⟨uint32, "location_uid"⟩,
    ⟨Enums.category, "category"⟩,
    ⟨Enums.mode, "mode"⟩,
    ⟨string, "group"⟩,
    ⟨string, "name"⟩]

def cacheReset : Schema where
  name := "CacheReset"
  tag := 10013
  primaryKeys := ["msg_type"]
  timestampKey := none
  fields := [
    ⟨int32, "msg_type"⟩]

def brokerStateUpdate : Schema where
  name := "BrokerStateUpdate"
  tag := 10014
  primaryKeys := ["state"]
  timestampKey := none
  fields := [
    ⟨uint32, "location_uid"⟩,
    ⟨Enums.brokerState, "state"⟩]

def requestReadFrom : Schema where
  name := "RequestReadFrom"
  tag := 10021
  primaryKeys := ["source_id"]
  timestampKey := none
  fields := [
    ⟨uint32, "source_id"⟩,
    ⟨int64, "from_time"⟩]

def requestReadFromPublic : Schema where
  name := "RequestReadFromPublic"
  tag := 10022
  primaryKeys := ["source_id"]
  timestampKey := none
  fields := [
    ⟨uint32, "source_id"⟩,
    ⟨int64, "from_time"⟩]

def requestReadFromSync : Schema where
  name := "RequestReadFromSync"
  tag := 10031
  primaryKeys := ["source_id"]
  timestampKey := none
  fields := [
    ⟨uint32, "source_id"⟩,
    ⟨int64, "from_time"⟩]

def requestWriteTo : Schema where
  name := "RequestWriteTo"
  tag := 10023
  primaryKeys := ["dest_id"]
  timestampKey := none
  fields := [
    ⟨uint32, "dest_id"⟩]

def requestWriteToBand : Schema where
  name := "RequestWriteToBand"
  tag := 10032
  primaryKeys := ["location_uid"]
  timestampKey := none
  fields := [
    ⟨uint32, "location_uid"⟩,
    ⟨Enums.category, "category"⟩,
    ⟨Enums.mode, "mode"⟩,
    ⟨string, "group"⟩,
    ⟨string, "name"⟩]

def band : Schema where
  name := "Band"
  tag := 10033
  primaryKeys := ["source_id", "dest_id"]
  timestampKey := none
  fields := [
    ⟨uint32, "source_id"⟩,
    ⟨uint32, "dest_id"⟩]

def basket : Schema where
  name := "Basket"
  tag := 100040
  primaryKeys := ["id"]
  timestampKey := none
  fields := [
    ⟨uint32, "id"⟩,
    ⟨string, "name"⟩,
    ⟨Enums.basketVolumeType, "volume_type"⟩,
    ⟨int64, "total_amount"⟩,
    ⟨Enums.basketType, "type"⟩]

def basketInstrument : Schema where
  name := "BasketInstrument"
  tag := 100041
  primaryKeys := ["basket_uid", "instrument_id", "exchange_id"]
  timestampKey := none
  fields := [
    ⟨uint32, "basket_uid"⟩,
    ⟨chars instrumentIdLen, "instrument_id"⟩,
    ⟨chars exchangeIdLen, "exchange_id"⟩,
    ⟨Enums.instrumentType, "instrument_type"⟩,
    ⟨Enums.direction, "direction"⟩,
    ⟨int64, "volume"⟩,
    ⟨double, "rate"⟩]

def tradingDay : Schema where
  name := "TradingDay"
  tag := 10027
  primaryKeys := ["timestamp"]
  timestampKey := none
  fields := [
    ⟨int64, "timestamp"⟩]

def channel : Schema where
  name := "Channel"
  tag := 10028
  primaryKeys := ["source_id", "dest_id"]
  timestampKey := none
  fields := [
    ⟨uint32, "source_id"⟩,
    ⟨uint32, "dest_id"⟩]

def channelRequest : Schema where
  name := "ChannelRequest"
  tag := 10029
  primaryKeys := ["source_id", "dest_id"]
  timestampKey := none
  fields := [
    ⟨uint32, "source_id"⟩,
    ⟨uint32, "dest_id"⟩]

def timeRequest : Schema where
  name := "TimeRequest"
  tag := 10004
  primaryKeys := ["id"]
  timestampKey := none
  fields := [
    ⟨int32, "id"⟩,
    ⟨int64, "duration"⟩,
    ⟨int64, "repeat"⟩]

def timeReset : Schema where
  name := "TimeReset"
  tag := 10100
  primaryKeys := ["system_clock_count", "steady_clock_count"]
  timestampKey := none
  fields := [
    ⟨int64, "system_clock_count"⟩,
    ⟨int64, "steady_clock_count"⟩]

def instrument : Schema where
  name := "Instrument"
  tag := 209
  primaryKeys := ["instrument_id", "exchange_id"]
  timestampKey := none
  fields := [
    ⟨chars instrumentIdLen, "instrument_id"⟩,
    ⟨chars exchangeIdLen, "exchange_id"⟩,
    ⟨Enums.instrumentType, "instrument_type"⟩,
    ⟨array (.int .int8) productIdLen, "product_id"⟩,
    ⟨int32, "contract_multiplier"⟩,
    ⟨double, "price_tick"⟩,
    ⟨chars dateLen, "open_date"⟩,
    ⟨chars dateLen, "create_date"⟩,
    ⟨chars dateLen, "expire_date"⟩,
    ⟨int32, "delivery_year"⟩,
    ⟨int32, "delivery_month"⟩,
    ⟨bool, "is_trading"⟩,
    ⟨bool, "force_update_ratio"⟩,
    ⟨double, "long_margin_ratio"⟩,
    ⟨double, "short_margin_ratio"⟩,
    ⟨double, "conversion_rate"⟩,
    ⟨double, "exchange_rate"⟩,
    ⟨Enums.currencyType, "currency_type"⟩]

def instrumentKey : Schema where
  name := "InstrumentKey"
  tag := 210
  primaryKeys := ["key"]
  timestampKey := none
  fields := [
    ⟨uint32, "key"⟩,
    ⟨chars instrumentIdLen, "instrument_id"⟩,
    ⟨chars exchangeIdLen, "exchange_id"⟩,
    ⟨Enums.instrumentType, "instrument_type"⟩]

def quote : Schema where
  name := "Quote"
  tag := 101
  primaryKeys := ["instrument_id", "exchange_id"]
  timestampKey := none
  fields := [
    ⟨chars dateLen, "trading_day"⟩,
    ⟨int64, "data_time"⟩,
    ⟨chars instrumentIdLen, "instrument_id"⟩,
    ⟨chars exchangeIdLen, "exchange_id"⟩,
    ⟨Enums.instrumentType, "instrument_type"⟩,
    ⟨double, "pre_close_price"⟩,
    ⟨double, "pre_settlement_price"⟩,
    ⟨double, "last_price"⟩,
    ⟨int64, "volume"⟩,
    ⟨double, "turnover"⟩,
    ⟨double, "pre_open_interest"⟩,
    ⟨double, "open_interest"⟩,
    ⟨double, "open_price"⟩,
    ⟨double, "high_price"⟩,
    ⟨double, "low_price"⟩,
    ⟨double, "upper_limit_price"⟩,
    ⟨double, "lower_limit_price"⟩,
    ⟨double, "close_price"⟩,
    ⟨double, "settlement_price"⟩,
    ⟨double, "iopv"⟩,
    ⟨array .double 10, "bid_price"⟩,
    ⟨array .double 10, "ask_price"⟩,
    ⟨array (.int .int64) 10, "bid_volume"⟩,
    ⟨array (.int .int64) 10, "ask_volume"⟩,
    ⟨chars traidngPhaseCodeLen, "trading_phase_code"⟩]

def tree : Schema where
  name := "Tree"
  tag := 104
  primaryKeys := ["instrument_id", "exchange_id"]
  timestampKey := none
  fields := [
    ⟨chars dateLen, "trading_day"⟩,
    ⟨int64, "data_time"⟩,
    ⟨chars instrumentIdLen, "instrument_id"⟩,
    ⟨chars exchangeIdLen, "exchange_id"⟩,
    ⟨Enums.instrumentType, "instrument_type"⟩,
    ⟨int64, "trade_num"⟩,
    ⟨int64, "volume"⟩,
    ⟨double, "turnover"⟩,
    ⟨double, "bid_weighted_avg_price"⟩,
    ⟨int64, "total_bid_volume"⟩,
    ⟨double, "ask_weighted_avg_price"⟩,
    ⟨int64, "total_ask_volume"⟩,
    ⟨double, "pre_close_price"⟩,
    ⟨double, "last_price"⟩,
    ⟨double, "open_price"⟩,
    ⟨double, "high_price"⟩,
    ⟨double, "low_price"⟩,
    ⟨double, "upper_limit_price"⟩,
    ⟨double, "lower_limit_price"⟩,
    ⟨double, "close_price"⟩,
    ⟨int64, "bid_depth"⟩,
    ⟨int64, "ask_depth"⟩,
    ⟨array .double 10, "bid_price"⟩,
    ⟨array .double 10, "ask_price"⟩,
    ⟨array (.int .int64) 10, "bid_volume"⟩,
    ⟨array (.int .int64) 10, "ask_volume"⟩,
    ⟨chars traidngPhaseCodeLen, "trading_phase_code"⟩]

def entrust : Schema where
  name := "Entrust"
  tag := 102
  primaryKeys := ["instrument_id", "exchange_id"]
  timestampKey := some "data_time"
  fields := [
    ⟨chars dateLen, "trading_day"⟩,
    ⟨int64, "data_time"⟩,
    ⟨chars instrumentIdLen, "instrument_id"⟩,
    ⟨chars exchangeIdLen, "exchange_id"⟩,
    ⟨Enums.instrumentType, "instrument_type"⟩,
    ⟨double, "price"⟩,
    ⟨int64, "volume"⟩,
    ⟨Enums.side, "side"⟩,
    ⟨Enums.priceType, "price_type"⟩,
    ⟨int64, "main_seq"⟩,
    ⟨int64, "seq"⟩,
    ⟨int64, "orig_order_no"⟩,
    ⟨int64, "biz_index"⟩]

def transaction : Schema where
  name := "Transaction"
  tag := 103
  primaryKeys := ["instrument_id", "exchange_id"]
  timestampKey := some "data_time"
  fields := [
    ⟨chars dateLen, "trading_day"⟩,
    ⟨int64, "data_time"⟩,
    ⟨chars instrumentIdLen, "instrument_id"⟩,
    ⟨chars exchangeIdLen, "exchange_id"⟩,
    ⟨Enums.instrumentType, "instrument_type"⟩,
    ⟨double, "price"⟩,
    ⟨int64, "volume"⟩,
    ⟨int64, "bid_no"⟩,
    ⟨int64, "ask_no"⟩,
    ⟨Enums.execType, "exec_type"⟩,
    ⟨Enums.bsFlag, "bs_flag"⟩,
    ⟨int64, "main_seq"⟩,
    ⟨int64, "seq"⟩,
    ⟨int64, "biz_index"⟩]

def bar : Schema where
  name := "Bar"
  tag := 110
  primaryKeys := ["instrument_id", "exchange_id"]
  timestampKey := some "start_time"
  fields := [
    ⟨chars dateLen, "trading_day"⟩,
    ⟨chars instrumentIdLen, "instrument_id"⟩,
    ⟨chars exchangeIdLen, "exchange_id"⟩,
    ⟨Enums.instrumentType, "instrument_type"⟩,
    ⟨int64, "start_time"⟩,
    ⟨int64, "end_time"⟩,
    ⟨double, "open"⟩,
    ⟨double, "close"⟩,
    ⟨double, "low"⟩,
    ⟨double, "high"⟩,
    ⟨int64, "volume"⟩,
    ⟨int64, "start_volume"⟩,
    ⟨int32, "tick_count"⟩]

def blockMessage : Schema where
  name := "BlockMessage"
  tag := 207
  primaryKeys := ["block_id"]
  timestampKey := some "insert_time"
  fields := [
    ⟨uint64, "block_id"⟩,
    ⟨uint32, "opponent_seat"⟩,
    ⟨uint64, "match_number"⟩,
    ⟨bool, "is_specific"⟩,
    ⟨int64, "insert_time"⟩]

def orderInput : Schema where
  name := "OrderInput"
  tag := 201
  primaryKeys := ["order_id"]
  timestampKey := some "insert_time"
  fields := [
    ⟨uint64, "order_id"⟩,
    ⟨uint64, "parent_id"⟩,
    ⟨chars instrumentIdLen, "instrument_id"⟩,
    ⟨chars exchangeIdLen, "exchange_id"⟩,
    ⟨Enums.instrumentType, "instrument_type"⟩,
    ⟨double, "limit_price"⟩,
    ⟨double, "frozen_price"⟩,
    ⟨int64, "volume"⟩,
    ⟨bool, "is_swap"⟩,
    ⟨Enums.side, "side"⟩,
    ⟨Enums.offset, "offset"⟩,
    ⟨Enums.hedgeFlag, "hedge_flag"⟩,
    ⟨Enums.priceType, "price_type"⟩,
    ⟨Enums.volumeCondition, "volume_condition"⟩,
    ⟨Enums.timeCondition, "time_condition"⟩,
    ⟨uint64, "block_id"⟩,
    ⟨int64, "insert_time"⟩]

def orderAction : Schema where
  name := "OrderAction"
  tag := 202
  primaryKeys := ["order_action_id"]
  timestampKey := some "insert_time"
  fields := [
    ⟨uint64, "order_id"⟩,
    ⟨uint64, "order_action_id"⟩,
    ⟨Enums.orderActionFlag, "action_flag"⟩,
    ⟨double, "price"⟩,
    ⟨int64, "volume"⟩,
    ⟨int64, "insert_time"⟩]

def orderActionError : Schema where
  name := "OrderActionError"
  tag := 216
  primaryKeys := ["order_action_id"]
  timestampKey := some "insert_time"
  fields := [
    ⟨uint64, "order_id"⟩,
    ⟨uint64, "order_action_id"⟩,
    ⟨int32, "error_id"⟩,
    ⟨chars errorMsgLen, "error_msg"⟩,
    ⟨int64, "insert_time"⟩]

def order : Schema where
  name := "Order"
  tag := 203
  primaryKeys := ["order_id"]
  timestampKey := some "insert_time"
  fields := [
    ⟨uint64, "order_id"⟩,
    ⟨uint64, "external_id"⟩,
    ⟨uint64, "parent_id"⟩,
    ⟨int64, "insert_time"⟩,
    ⟨int64, "update_time"⟩,
    ⟨chars dateLen, "trading_day"⟩,
    ⟨chars instrumentIdLen, "instrument_id"⟩,
    ⟨chars exchangeIdLen, "exchange_id"⟩,
    ⟨Enums.instrumentType, "instrument_type"⟩,
    ⟨double, "limit_price"⟩,
    ⟨double, "frozen_price"⟩,
    ⟨int64, "volume"⟩,
    ⟨int64, "volume_left"⟩,
    ⟨double, "tax"⟩,
    ⟨double, "commission"⟩,
    ⟨Enums.orderStatus, "status"⟩,
    ⟨int32, "error_id"⟩,
    ⟨chars errorMsgLen, "error_msg"⟩,
    ⟨bool, "is_swap"⟩,
    ⟨Enums.side, "side"⟩,
    ⟨Enums.offset, "offset"⟩,
    ⟨Enums.hedgeFlag, "hedge_flag"⟩,
    ⟨Enums.priceType, "price_type"⟩,
    ⟨Enums.volumeCondition, "volume_condition"⟩,
    ⟨Enums.timeCondition, "time_condition"⟩]

def trade : Schema where
  name := "Trade"
  tag := 204
  primaryKeys := ["trade_id"]
  timestampKey := some "trade_time"
  fields := [
    ⟨uint64, "trade_id"⟩,
    ⟨uint64, "order_id"⟩,
    ⟨uint64, "external_id"⟩,
    ⟨int64, "trade_time"⟩,
    ⟨chars dateLen, "trading_day"⟩,
    ⟨chars instrumentIdLen, "instrument_id"⟩,
    ⟨chars exchangeIdLen, "exchange_id"⟩,
    ⟨Enums.instrumentType, "instrument_type"⟩,
    ⟨Enums.side, "side"⟩,
    ⟨Enums.offset, "offset"⟩,
    ⟨Enums.hedgeFlag, "hedge_flag"⟩,
    ⟨double, "price"⟩,
    ⟨int64, "volume"⟩,
    ⟨double, "tax"⟩,
    ⟨double, "commission"⟩]

def historyOrder : Schema where
  name := "HistoryOrder"
  tag := 212
  primaryKeys := ["order_id"]
  timestampKey := some "insert_time"
  fields := [
    ⟨uint64, "order_id"⟩,
    ⟨uint64, "external_id"⟩,
    ⟨int64, "insert_time"⟩,
    ⟨int64, "update_time"⟩,
    ⟨chars dateLen, "trading_day"⟩,
    ⟨chars instrumentIdLen, "instrument_id"⟩,
    ⟨chars exchangeIdLen, "exchange_id"⟩,
    ⟨bool, "is_last"⟩,
    ⟨Enums.historyDataType, "data_type"⟩,
    ⟨Enums.instrumentType, "instrument_type"⟩,
    ⟨double, "limit_price"⟩,
    ⟨double, "frozen_price"⟩,
    ⟨int64, "volume"⟩,
    ⟨int64, "volume_left"⟩,
    ⟨double, "tax"⟩,
    ⟨double, "commission"⟩,
    ⟨Enums.orderStatus, "status"⟩,
    ⟨int32, "error_id"⟩,
    ⟨chars errorMsgLen, "error_msg"⟩,
    ⟨bool, "is_swap"⟩,
    ⟨Enums.side, "side"⟩,
    ⟨Enums.offset, "offset"⟩,
    ⟨Enums.hedgeFlag, "hedge_flag"⟩,
    ⟨Enums.priceType, "price_type"⟩,
    ⟨Enums.volumeCondition, "volume_condition"⟩,
    ⟨Enums.timeCondition, "time_condition"⟩]

def historyTrade : Schema where
  name := "HistoryTrade"
  tag := 213
  primaryKeys := ["trade_id"]
  timestampKey := some "trade_time"
  fields := [
    ⟨uint64, "trade_id"⟩,
    ⟨uint64, "order_id"⟩,
    ⟨uint64, "external_id"⟩,
    ⟨int64, "trade_time"⟩,
    ⟨chars dateLen, "trading_day"⟩,
    ⟨chars instrumentIdLen, "instrument_id"⟩,
    ⟨chars exchangeIdLen, "exchange_id"⟩,
    ⟨bool, "is_last"⟩,
    ⟨Enums.historyDataType, "data_type"⟩,
    ⟨bool, "is_withdraw"⟩,
    ⟨Enums.instrumentType, "instrument_type"⟩,
    ⟨Enums.side, "side"⟩,
    ⟨Enums.offset, "offset"⟩,
    ⟨Enums.hedgeFlag, "hedge_flag"⟩,
    ⟨double, "price"⟩,
    ⟨int64, "volume"⟩,
    ⟨int64, "close_today_volume"⟩,
    ⟨double, "tax"⟩,
    ⟨double, "commission"⟩,
    ⟨int32, "error_id"⟩,
    ⟨chars errorMsgLen, "error_msg"⟩]

def asset : Schema where
  name := "Asset"
  tag := 206
  primaryKeys := ["holder_uid"]
  timestampKey := none
  fields := [
    ⟨int64, "update_time"⟩,
    ⟨chars dateLen, "trading_day"⟩,
    ⟨uint32, "holder_uid"⟩,
    ⟨Enums.ledgerCategory, "ledger_category"⟩,
    ⟨double, "initial_equity"⟩,
    ⟨double, "static_equity"⟩,
    ⟨double, "dynamic_equity"⟩,
    ⟨double, "realized_pnl"⟩,
    ⟨double, "unrealized_pnl"⟩,
    ⟨double, "avail"⟩,
    ⟨double, "market_value"⟩,
    ⟨double, "margin"⟩,
    ⟨double, "accumulated_fee"⟩,
    ⟨double, "intraday_fee"⟩,
    ⟨double, "frozen_cash"⟩,
    ⟨double, "frozen_margin"⟩,
    ⟨double, "frozen_fee"⟩,
    ⟨double, "position_pnl"⟩,
    ⟨double, "close_pnl"⟩]

def assetMargin : Schema where
  name := "AssetMargin"
  tag := 211
  primaryKeys := ["holder_uid"]
  timestampKey := none
  fields := [
    ⟨int64, "update_time"⟩,
    ⟨chars dateLen, "trading_day"⟩,
    ⟨uint32, "holder_uid"⟩,
    ⟨Enums.ledgerCategory, "ledger_category"⟩,
    ⟨double, "total_asset"⟩,
    ⟨double, "avail_margin"⟩,
    ⟨double, "cash_margin"⟩,
    ⟨double, "short_margin"⟩,
    ⟨double, "margin"⟩,
    ⟨double, "cash_debt"⟩,
    ⟨double, "short_cash"⟩,
    ⟨double, "short_market_value"⟩,
    ⟨double, "margin_market_value"⟩,
    ⟨double, "margin_interest"⟩,
    ⟨double, "settlement"⟩,
    ⟨double, "credit"⟩,
    ⟨double, "collateral_ratio"⟩]

def position : Schema where
  name := "Position"
  tag := 205
  primaryKeys := ["holder_uid", "instrument_id", "exchange_id", "direction"]
  timestampKey := none
  fields := [
    ⟨int64, "update_time"⟩,
    ⟨chars dateLen, "trading_day"⟩,
    ⟨chars instrumentIdLen, "instrument_id"⟩,
    ⟨Enums.instrumentType, "instrument_type"⟩,
    ⟨chars exchangeIdLen, "exchange_id"⟩,
    ⟨uint32, "holder_uid"⟩,
    ⟨Enums.ledgerCategory, "ledger_category"⟩,
    ⟨Enums.direction, "direction"⟩,
    ⟨int64, "volume"⟩,
    ⟨int64, "yesterday_volume"⟩,
    ⟨int64, "frozen_total"⟩,
    ⟨int64, "frozen_yesterday"⟩,
    ⟨double, "last_price"⟩,
    ⟨double, "avg_open_price"⟩,
    ⟨double, "position_cost_price"⟩,
    ⟨double, "close_price"⟩,
    ⟨double, "pre_close_price"⟩,
    ⟨double, "settlement_price"⟩,
    ⟨double, "pre_settlement_price"⟩,
    ⟨double, "margin"⟩,
    ⟨double, "position_pnl"⟩,
    ⟨double, "close_pnl"⟩,
    ⟨double, "realized_pnl"⟩,
    ⟨double, "unrealized_pnl"⟩]

def positionEnd : Schema where
  name := "PositionEnd"
  tag := 800
  primaryKeys := ["holder_uid"]
  timestampKey := none
  fields := [
    ⟨uint32, "holder_uid"⟩]

def orderStat : Schema where
  name := "OrderStat"
  tag := 215
  primaryKeys := ["order_id"]
  timestampKey := some "md_time"
  fields := [
    ⟨uint64, "order_id"⟩,
    ⟨int64, "md_time"⟩,
    ⟨int64, "input_time"⟩,
    ⟨int64, "insert_time"⟩,
    ⟨int64, "ack_time"⟩,
    ⟨int64, "trade_time"⟩,
    ⟨double, "total_price"⟩,
    ⟨double, "total_volume"⟩,
    ⟨double, "avg_price"⟩]

def basketOrder : Schema where
  name := "BasketOrder"
  tag := 220
  primaryKeys := ["order_id"]
  timestampKey := some "insert_time"
  fields := [
    ⟨uint64, "order_id"⟩,
    ⟨uint64, "parent_id"⟩,
    ⟨int64, "insert_time"⟩,
    ⟨int64, "update_time"⟩,
    ⟨Enums.side, "side"⟩,
    ⟨Enums.priceType, "price_type"⟩,
    ⟨Enums.priceLevel, "price_level"⟩,
    ⟨double, "price_offset"⟩,
    ⟨int64, "volume"⟩,
    ⟨int64, "volume_left"⟩,
    ⟨Enums.basketOrderStatus, "status"⟩,
    ⟨uint32, "source_id"⟩,
    ⟨uint32, "dest_id"⟩,
    ⟨Enums.basketOrderCalculationMode, "calculation_mode"⟩]

end Types

/-- The keys of `AllDataTypes`. -/
inductive DataType where
  | config | riskSetting | timeValue | timeKeyValue | strategyStateUpdate | commission | session
  | location | register | deregister | cacheReset | brokerStateUpdate | requestReadFrom
  | requestReadFromPublic | requestReadFromSync | requestWriteTo | requestWriteToBand | band
  | basket | basketInstrument | tradingDay | channel | channelRequest | timeRequest | timeReset
  | instrument | instrumentKey | quote | tree | entrust | transaction | bar | blockMessage
  | orderInput | orderAction | orderActionError | order | trade | historyOrder | historyTrade
  | asset | assetMargin | position | positionEnd | orderStat | basketOrder
  deriving DecidableEq

namespace DataType

def schema : DataType → Schema
  | .config => Types.config
  | .riskSetting => Types.riskSetting
  | .timeValue => Types.timeValue
  | .timeKeyValue => Types.timeKeyValue
  | .strategyStateUpdate => Types.strategyStateUpdate
  | .commission => Types.commission
  | .session => Types.session
  | .location => Types.location
  | .register => Types.register
  | .deregister => Types.deregister
  | .cacheReset => Types.cacheReset
  | .brokerStateUpdate => Types.brokerStateUpdate
  | .requestReadFrom => Types.requestReadFrom
  | .requestReadFromPublic => Types.requestReadFromPublic
  | .requestReadFromSync => Types.requestReadFromSync
  | .requestWriteTo => Types.requestWriteTo
  | .requestWriteToBand => Types.requestWriteToBand
  | .band => Types.band
  | .basket => Types.basket
  | .basketInstrument => Types.basketInstrument
  | .tradingDay => Types.tradingDay
  | .channel => Types.channel
  | .channelRequest => Types.channelRequest
  | .timeRequest => Types.timeRequest
  | .timeReset => Types.timeReset
  | .instrument => Types.instrument
  | .instrumentKey => Types.instrumentKey
  | .quote => Types.quote
  | .tree => Types.tree
  | .entrust => Types.entrust
  | .transaction => Types.transaction
  | .bar => Types.bar
  | .blockMessage => Types.blockMessage
  | .orderInput => Types.orderInput
  | .orderAction => Types.orderAction
  | .orderActionError => Types.orderActionError
  | .order => Types.order
  | .trade => Types.trade
  | .historyOrder => Types.historyOrder
  | .historyTrade => Types.historyTrade
  | .asset => Types.asset
  | .assetMargin => Types.assetMargin
  | .position => Types.position
  | .positionEnd => Types.positionEnd
  | .orderStat => Types.orderStat
  | .basketOrder => Types.basketOrder

theorem size_lt (T : DataType) : T.schema.size < 2 ^ 32 := by
  cases T <;> decide

end DataType

def stateDataTypes : List DataType := [
  .config, .riskSetting, .timeValue, .timeKeyValue, .strategyStateUpdate, .commission,
  .instrument, .basket, .basketInstrument, .quote, .tree, .orderAction, .blockMessage,
  .orderInput, .order, .trade, .asset, .assetMargin, .position, .orderStat, .basketOrder]

def tradingDataTypes : List DataType := [
  .blockMessage, .orderInput, .order, .trade, .orderStat, .basketOrder]

def profileDataTypes : List DataType := [
  .config, .riskSetting, .commission, .instrument, .location, .basket, .basketInstrument]

structure StateType where
  type : DataType
  mem : type ∈ stateDataTypes := by decide
  deriving DecidableEq

def StateType.schema (T : StateType) : Schema := T.type.schema

namespace StateType

def all : List StateType := stateDataTypes.attach.map fun T => ⟨T.1, T.2⟩

theorem mem_all (T : StateType) : T ∈ all :=
  List.mem_map.mpr ⟨⟨T.type, T.mem⟩, List.mem_attach .., rfl⟩

theorem nodup_all : all.Nodup := by decide

end StateType

structure TradingType where
  type : DataType
  mem : type ∈ tradingDataTypes := by decide
  deriving DecidableEq

def TradingType.schema (T : TradingType) : Schema := T.type.schema

theorem TradingType.sizeFixed (T : TradingType) : T.schema.sizeFixed = true := by
  have h : ∀ T ∈ tradingDataTypes, T.schema.sizeFixed = true := by decide
  exact h T.type T.mem

structure ProfileType where
  type : DataType
  mem : type ∈ profileDataTypes := by decide
  deriving DecidableEq

def ProfileType.schema (T : ProfileType) : Schema := T.type.schema

namespace ProfileType

def all : List ProfileType := profileDataTypes.attach.map fun T => ⟨T.1, T.2⟩

theorem mem_all (T : ProfileType) : T ∈ all :=
  List.mem_map.mpr ⟨⟨T.type, T.mem⟩, List.mem_attach .., rfl⟩

theorem nodup_all : all.Nodup := by decide

end ProfileType

end Kungfu.Longfist
