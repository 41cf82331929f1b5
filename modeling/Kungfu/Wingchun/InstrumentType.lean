import Kungfu.Lib.CString
import Kungfu.Longfist.Enums

namespace Kungfu.Wingchun

open Kungfu.Lib Kungfu.Common Kungfu.Longfist.Enums

deriving instance DecidableEq for InstrumentType

def literal (s : String) : Bytes := s.toUTF8.data.toList

def stringEquals (s1 s2 : Bytes) : Bool := CString.text s1 = CString.text s2

def stringEqualsN (s1 s2 : Bytes) (l : Nat) : Bool :=
  (CString.text s1).take l = (CString.text s2).take l

def startswith (str pre : Bytes) : Bool := pre.isPrefixOf str

namespace Exchange

def sse := "SSE"
def sze := "SZE"
def bse := "BSE"
def shfe := "SHFE"
def dce := "DCE"
def czce := "CZCE"
def cffex := "CFFEX"
def ine := "INE"
def binance := "BINANCE"
def hb := "HB"
def hk := "HK"
def hkFuture := "HKFUT"
def us := "US"
def usFuture := "USFUT"
def sgx := "SGX"
def sgxFuture := "SGXFUT"
def eur := "EUR"
def eurFuture := "EURFUT"
def lon := "LON"
def lonFuture := "LONFUT"
def aex := "AEX"
def aexFuture := "AEXFUT"
def aux := "AUX"
def auxFuture := "AUXFUT"
def hexs := "HEXS"
def hexsFuture := "HEXSFUT"
def idx := "IDX"
def idxFuture := "IDXFUT"
def korc := "KORC"
def lme := "LME"
def mys := "MYS"
def mysFuture := "MYSFUT"
def abb := "ABB"
def prx := "PRX"
def prxFuture := "PRXFUT"
def six := "SIX"
def sixFuture := "SIXFUT"
def tax := "TAX"
def taxFuture := "TAXFUT"
def jp := "JP"
def jpFuture := "JPFUT"
def tse := "TSE"
def tseFuture := "TSEFUT"
def xetra := "XETRA"

end Exchange

def isConvertibleBond (instrumentId exchangeId : Bytes) : Bool :=
  (stringEqualsN instrumentId (literal "123") 3 || stringEqualsN instrumentId (literal "128") 3 ||
    stringEqualsN instrumentId (literal "117") 3 || stringEqualsN instrumentId (literal "127") 3 ||
    stringEqualsN instrumentId (literal "125") 3 || stringEqualsN instrumentId (literal "126") 3) &&
    stringEquals exchangeId (literal Exchange.sze) ||
  (stringEqualsN instrumentId (literal "110") 3 || stringEqualsN instrumentId (literal "113") 3) &&
    stringEquals exchangeId (literal Exchange.sse)

def isRepo (instrumentId exchangeId : Bytes) : Bool :=
  stringEqualsN instrumentId (literal "204") 3 && stringEquals exchangeId (literal Exchange.sse) ||
  stringEqualsN instrumentId (literal "1318") 4 && stringEquals exchangeId (literal Exchange.sze)

def isSpace (c : UInt8) : Bool := c = 0x20 || 0x09 ≤ c && c ≤ 0x0d

def isDigit (c : UInt8) : Bool := 0x30 ≤ c && c ≤ 0x39

/-- `atoi`. Values out of the range of `int` are undefined in C. -/
def atoi (s : Bytes) : Int :=
  let digits (t : Bytes) : Int :=
    (t.takeWhile isDigit).foldl (fun n c => 10 * n + (c.toNat - 0x30)) 0
  match (CString.text s).dropWhile isSpace with
  | 0x2d :: t => -digits t
  | 0x2b :: t => digits t
  | t => digits t

structure HKCodeRule where
  beg : Int
  «end» : Int
  type : InstrumentType

def hkCodeTypeDef : List HKCodeRule := [
  ⟨1, 2799, .stock⟩,
  ⟨2800, 2849, .fund⟩,
  ⟨3000, 3199, .fund⟩,
  ⟨3400, 3499, .fund⟩,
  ⟨4000, 4199, .bond⟩,
  ⟨4200, 4299, .bond⟩,
  ⟨4300, 4329, .bond⟩,
  ⟨4400, 4599, .bond⟩,
  ⟨5000, 6029, .bond⟩,
  ⟨40000, 40999, .bond⟩,
  ⟨4600, 4699, .stock⟩,
  ⟨4700, 4799, .bond⟩,
  ⟨4800, 4999, .stock⟩,
  ⟨6200, 6299, .stock⟩,
  ⟨6300, 6399, .stock⟩,
  ⟨6750, 6799, .bond⟩,
  ⟨7200, 7399, .stock⟩,
  ⟨7500, 7599, .stock⟩,
  ⟨7800, 7999, .stock⟩,
  ⟨8000, 8999, .stock⟩,
  ⟨9000, 9199, .fund⟩,
  ⟨9400, 9499, .fund⟩,
  ⟨9800, 9849, .fund⟩,
  ⟨9200, 9399, .stock⟩,
  ⟨9500, 9599, .stock⟩,
  ⟨10000, 29999, .stockOption⟩,
  ⟨30000, 39999, .stock⟩,
  ⟨41000, 46999, .stock⟩,
  ⟨47000, 48999, .warrant⟩,
  ⟨49000, 49999, .stock⟩,
  ⟨50000, 69999, .warrant⟩,
  ⟨70000, 79999, .stock⟩,
  ⟨82800, 82849, .fund⟩,
  ⟨83000, 83199, .fund⟩,
  ⟨83400, 83499, .fund⟩,
  ⟨84300, 84329, .bond⟩,
  ⟨84400, 84599, .bond⟩,
  ⟨85000, 85743, .bond⟩,
  ⟨85901, 86029, .bond⟩,
  ⟨84600, 84699, .stock⟩,
  ⟨85744, 85900, .stock⟩,
  ⟨86600, 86799, .bond⟩,
  ⟨87000, 87099, .fund⟩,
  ⟨87200, 87399, .stock⟩,
  ⟨87500, 87599, .stock⟩,
  ⟨89000, 89999, .stockOption⟩,
  ⟨90000, 99999, .stock⟩]

def getInstrumentTypeByExchangeHk (instrumentId : Bytes) : InstrumentType :=
  let nId := atoi instrumentId
  match hkCodeTypeDef.find? fun rule => nId ≥ rule.beg && nId ≤ rule.end with
  | some rule => rule.type
  | none => .stock

def getInstrumentTypeSse (instrumentId : Bytes) : InstrumentType :=
  if instrumentId.length = 8 then .stockOption
  else if startswith instrumentId (literal "00") then .index
  else if startswith instrumentId (literal "0") then .bond
  else if startswith instrumentId (literal "1") then .bond
  else if startswith instrumentId (literal "2") then .repo
  else if startswith instrumentId (literal "5") then .fund
  else if startswith instrumentId (literal "688") || startswith instrumentId (literal "787") ||
      startswith instrumentId (literal "789") then .techStock
  else .stock

def getInstrumentTypeSze (instrumentId : Bytes) : InstrumentType :=
  if instrumentId.length = 8 then .stockOption
  else if startswith instrumentId (literal "15") || startswith instrumentId (literal "16") ||
      startswith instrumentId (literal "18") then .fund
  else if startswith instrumentId (literal "131") then .repo
  else if startswith instrumentId (literal "1") then .bond
  else .stock

def getInstrumentType (exchangeId instrumentId : Bytes) : InstrumentType :=
  let equals (exchange : String) : Bool := stringEquals exchangeId (literal exchange)
  if equals Exchange.sse then getInstrumentTypeSse instrumentId
  else if equals Exchange.sze then getInstrumentTypeSze instrumentId
  else if equals Exchange.bse then .stock
  else if equals Exchange.dce || equals Exchange.shfe || equals Exchange.cffex ||
      equals Exchange.czce || equals Exchange.ine then .future
  else if equals Exchange.binance || equals Exchange.hb then .crypto
  else if equals Exchange.hk then getInstrumentTypeByExchangeHk instrumentId
  else if equals Exchange.hkFuture || equals Exchange.usFuture || equals Exchange.sgxFuture ||
      equals Exchange.lonFuture || equals Exchange.aexFuture || equals Exchange.auxFuture ||
      equals Exchange.hexsFuture || equals Exchange.idxFuture || equals Exchange.korc ||
      equals Exchange.lme || equals Exchange.mysFuture || equals Exchange.abb ||
      equals Exchange.prxFuture || equals Exchange.sixFuture || equals Exchange.taxFuture ||
      equals Exchange.jpFuture || equals Exchange.tseFuture || equals Exchange.xetra ||
      equals Exchange.eurFuture then .future
  else if equals Exchange.us || equals Exchange.sgx || equals Exchange.lon ||
      equals Exchange.aex || equals Exchange.aux || equals Exchange.hexs || equals Exchange.idx ||
      equals Exchange.mys || equals Exchange.prx || equals Exchange.six || equals Exchange.tax ||
      equals Exchange.jp || equals Exchange.tse || equals Exchange.eur then .stock
  else .unknown

def knownPrefixes (exchangeId : Bytes) : List (Bytes × InstrumentType) :=
  if exchangeId = literal Exchange.sse then
    [(literal "204", .repo), (literal "110", .bond), (literal "113", .bond)]
  else if exchangeId = literal Exchange.sze then
    [(literal "1318", .repo), (literal "123", .bond), (literal "128", .bond),
      (literal "117", .bond), (literal "127", .bond), (literal "125", .bond),
      (literal "126", .bond)]
  else []

structure Agree (exchangeId instrumentId : Bytes) : Prop where
  repo : isRepo instrumentId exchangeId = true → getInstrumentType exchangeId instrumentId = .repo
  bond : isConvertibleBond instrumentId exchangeId = true →
    getInstrumentType exchangeId instrumentId = .bond

variable {exchangeId instrumentId s p q : Bytes} {t : InstrumentType}

theorem stringEquals_iff (h : 0 ∉ s) (hp : CString.text p = p) :
    stringEquals s p = true ↔ s = p := by
  rw [stringEquals, decide_eq_true_iff, CString.text_eq_self h, hp]

theorem stringEqualsN_iff (h : 0 ∉ s) (hp : CString.text p = p) {l : Nat} (hl : p.length = l) :
    stringEqualsN s p l = true ↔ p <+: s := by
  rw [stringEqualsN, decide_eq_true_iff, CString.text_eq_self h, hp, ← hl, List.take_length,
    List.prefix_iff_eq_take, eq_comm]

theorem startswith_of_isPrefix (h : p <+: s) (hlen : q.length ≤ p.length) :
    startswith s q = startswith p q := by
  rw [startswith, startswith, Bool.eq_iff_iff, List.isPrefixOf_iff_prefix,
    List.isPrefixOf_iff_prefix]
  exact ⟨fun hq => List.prefix_of_prefix_length_le hq h hlen, fun hq => hq.trans h⟩

theorem sse_ne_sze : literal Exchange.sse ≠ literal Exchange.sze := by decide

theorem isRepo_iff (he : 0 ∉ exchangeId) (hi : 0 ∉ instrumentId) :
    isRepo instrumentId exchangeId = true ↔
      ∃ p, (p, InstrumentType.repo) ∈ knownPrefixes exchangeId ∧ p <+: instrumentId := by
  simp (disch := decide) only [isRepo, Bool.or_eq_true, Bool.and_eq_true, stringEqualsN_iff hi,
    stringEquals_iff he, knownPrefixes]
  split
  next hsse => simp [hsse, sse_ne_sze]
  next hsse =>
    split
    next hsze => simp [hsze, sse_ne_sze.symm]
    next hsze => simp [hsse, hsze]

theorem isConvertibleBond_iff (he : 0 ∉ exchangeId) (hi : 0 ∉ instrumentId) :
    isConvertibleBond instrumentId exchangeId = true ↔
      ∃ p, (p, InstrumentType.bond) ∈ knownPrefixes exchangeId ∧ p <+: instrumentId := by
  simp (disch := decide) only [isConvertibleBond, Bool.or_eq_true, Bool.and_eq_true,
    stringEqualsN_iff hi, stringEquals_iff he, knownPrefixes]
  split
  next hsse => simp [hsse, sse_ne_sze]
  next hsse =>
    split
    next hsze => simp [hsze, sse_ne_sze.symm, or_assoc]
    next hsze => simp [hsse, hsze]

theorem getInstrumentTypeSse_of_isPrefix (h : p <+: s) (hlen : 3 ≤ p.length) (hp : p.length ≠ 8) :
    getInstrumentTypeSse s = if s.length = 8 then .stockOption else getInstrumentTypeSse p := by
  have starts (q : String) (hq : (literal q).length ≤ 3) :
      startswith s (literal q) = startswith p (literal q) :=
    startswith_of_isPrefix h (hq.trans hlen)
  simp only [getInstrumentTypeSse, if_neg hp, starts "00" (by decide), starts "0" (by decide),
    starts "1" (by decide), starts "2" (by decide), starts "5" (by decide),
    starts "688" (by decide), starts "787" (by decide), starts "789" (by decide)]

theorem getInstrumentTypeSze_of_isPrefix (h : p <+: s) (hlen : 3 ≤ p.length) (hp : p.length ≠ 8) :
    getInstrumentTypeSze s = if s.length = 8 then .stockOption else getInstrumentTypeSze p := by
  have starts (q : String) (hq : (literal q).length ≤ 3) :
      startswith s (literal q) = startswith p (literal q) :=
    startswith_of_isPrefix h (hq.trans hlen)
  simp only [getInstrumentTypeSze, if_neg hp, starts "15" (by decide), starts "16" (by decide),
    starts "18" (by decide), starts "131" (by decide), starts "1" (by decide)]

theorem getInstrumentType_sse (s : Bytes) :
    getInstrumentType (literal Exchange.sse) s = getInstrumentTypeSse s := by
  have h : stringEquals (literal Exchange.sse) (literal Exchange.sse) = true := by decide
  simp only [getInstrumentType, if_pos h]

theorem getInstrumentType_sze (s : Bytes) :
    getInstrumentType (literal Exchange.sze) s = getInstrumentTypeSze s := by
  have hsse : ¬ stringEquals (literal Exchange.sze) (literal Exchange.sse) = true := by decide
  have hsze : stringEquals (literal Exchange.sze) (literal Exchange.sze) = true := by decide
  simp only [getInstrumentType, if_neg hsse, if_pos hsze]

theorem knownPrefixes_spec (exchangeId : Bytes) : ∀ x ∈ knownPrefixes exchangeId,
    (x.2 = .repo ∨ x.2 = .bond) ∧ 3 ≤ x.1.length ∧ x.1.length ≠ 8 ∧
      getInstrumentType exchangeId x.1 = x.2 := by
  rw [knownPrefixes]
  split
  next he =>
    rw [he]
    decide
  next =>
    split
    next he =>
      rw [he]
      decide
    next => exact nofun

theorem getInstrumentType_of_mem (hp : (p, t) ∈ knownPrefixes exchangeId) (h : p <+: s) :
    getInstrumentType exchangeId s = if s.length = 8 then .stockOption else t := by
  obtain ⟨-, hlen, hshort, htype⟩ := knownPrefixes_spec exchangeId _ hp
  rw [knownPrefixes] at hp
  split at hp
  next he =>
    rw [he, getInstrumentType_sse] at htype ⊢
    rw [getInstrumentTypeSse_of_isPrefix h hlen hshort, htype]
  next =>
    split at hp
    next he =>
      rw [he, getInstrumentType_sze] at htype ⊢
      rw [getInstrumentTypeSze_of_isPrefix h hlen hshort, htype]
    next => cases hp

theorem agree_iff (exchangeId instrumentId : Bytes) (he : 0 ∉ exchangeId) (hi : 0 ∉ instrumentId) :
    Agree exchangeId instrumentId ↔
      ¬ (instrumentId.length = 8 ∧ ∃ x ∈ knownPrefixes exchangeId, x.1 <+: instrumentId) := by
  constructor
  · rintro h ⟨hlen, ⟨p, t⟩, hmem, hp⟩
    have htype := getInstrumentType_of_mem hmem hp
    rw [if_pos hlen] at htype
    obtain rfl | rfl := (knownPrefixes_spec exchangeId _ hmem).1
    · exact absurd ((h.repo ((isRepo_iff he hi).mpr ⟨p, hmem, hp⟩)).symm.trans htype) nofun
    · exact absurd ((h.bond ((isConvertibleBond_iff he hi).mpr ⟨p, hmem, hp⟩)).symm.trans htype)
        nofun
  · intro h
    have known {t : InstrumentType}
        (hx : ∃ p, (p, t) ∈ knownPrefixes exchangeId ∧ p <+: instrumentId) :
        getInstrumentType exchangeId instrumentId = t := by
      obtain ⟨p, hmem, hp⟩ := hx
      rw [getInstrumentType_of_mem hmem hp, if_neg fun hlen => h ⟨hlen, _, hmem, hp⟩]
    exact ⟨fun hr => known ((isRepo_iff he hi).mp hr),
      fun hb => known ((isConvertibleBond_iff he hi).mp hb)⟩

theorem agree_repo : Agree (literal "SSE") (literal "204001") :=
  (agree_iff (literal "SSE") (literal "204001") (by decide) (by decide)).mpr (by decide)

theorem not_agree_longRepo : ¬ ∀ exchangeId instrumentId : Bytes, 0 ∉ exchangeId →
    0 ∉ instrumentId → Agree exchangeId instrumentId := by
  intro h
  have hagree := h (literal "SSE") (literal "20400100") (by decide) (by decide)
  exact absurd (hagree.repo (by decide)) (by decide)

end Kungfu.Wingchun
