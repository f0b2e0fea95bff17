import UtxoMonitor.Cardano.PlutusData
import UtxoMonitor.Pools.ConstFn
import UtxoMonitor.Pools.Balance
import UtxoMonitor.Pools.Stable

/-! How the pools are read from the outputs of transactions. -/
namespace UtxoMonitor.Pools

open Lib LiquidityBook

/-! ### Outputs -/

/-- Amounts of 64 bits. -/
structure Value where
  coin : Nat
  /-- The tokens of every policy. -/
  multiasset : Std.ExtTreeMap Token Nat
  coin_lt : coin < 2 ^ 64
  amount_lt : ∀ (t : Token) (amount : Nat), multiasset[t]? = some amount → amount < 2 ^ 64

def Value.amountOf (value : Value) : AssetClass → Option Nat
  | .native => some value.coin
  | .token t => value.multiasset[t]?

theorem Value.amountOf_lt {value : Value} {asset : AssetClass} {amount : Nat}
    (h : value.amountOf asset = some amount) : amount < 2 ^ 64 := by
  cases asset with
  | native =>
    cases h
    exact value.coin_lt
  | token t => exact value.amount_lt t amount h

/-- ADA and some tokens. -/
def Value.ofTokens (coin : UInt64) (tokens : List (Token × UInt64)) : Value where
  coin := coin.toNat
  multiasset := tokens.foldr (fun token rest => rest.insert token.1 token.2.toNat) ∅
  coin_lt := coin.toNat_lt
  amount_lt t amount := by
    induction tokens with
    | nil =>
      intro h
      rw [List.foldr_nil, Std.ExtTreeMap.getElem?_empty] at h
      cases h
    | cons token tokens ih =>
      intro h
      rw [List.foldr_cons, Std.ExtTreeMap.getElem?_insert] at h
      split at h
      · cases h
        exact token.2.toNat_lt
      · exact ih h

inductive DatumOption where
  | hash (datumHash : RawBytes 32)
  | datum (datum : PlutusData)

def DatumOption.intoPd : DatumOption → Option PlutusData
  | hash _ => none
  | datum pd => some pd

/-- An output with its datum read. -/
structure TransactionOutput where
  address : Address
  value : Value
  datum : Option DatumOption

def TransactionOutput.intoPd (out : TransactionOutput) : Option PlutusData :=
  out.datum.bind DatumOption.intoPd

def paymentCred : Address → Option Credential
  | .base payment _ => some payment
  | .enterprise payment => some payment
  | .ptr payment => some payment
  | .reward payment => some payment
  | .byron => none

def stakingCred : Address → Option Credential
  | .base _ stake => some stake
  | _ => none

def scriptHashOf : Credential → Option ScriptHash
  | .script hash => some hash
  | .pubKey _ => none

def paymentScriptHash (addr : Address) : Option ScriptHash := (paymentCred addr).bind scriptHashOf

def stakePart (addr : Address) : Option ScriptHash := (stakingCred addr).bind scriptHashOf

/-! ### Deployed scripts -/

inductive ProtocolValidator where
  | constFnPoolV1
  | constFnPoolV2
  | constFnPoolFeeSwitch
  | constFnPoolFeeSwitchV2
  | constFnPoolFeeSwitchBiDirFee
  | royaltyPoolV1
  | royaltyPoolV1LedgerFixed
  | royaltyPoolV2
  | balanceFnPoolV1
  | balanceFnPoolV2
  | royaltyPoolDaoV1Request
  | royaltyPoolV1RoyaltyWithdrawRequest
  | royaltyPoolV2RoyaltyWithdrawRequest
  | stableFnPoolT2T
deriving DecidableEq

structure DeployedScriptInfo where
  scriptHash : ScriptHash
  marginalCost : ExUnits

structure PoolContext where
  deployed : ProtocolValidator → DeployedScriptInfo
  bounds : PoolValidation

/-- `test_address` -/
def testAddress (addr : Address) (info : DeployedScriptInfo) : Prop :=
  paymentScriptHash addr = some info.scriptHash

instance (addr : Address) (info : DeployedScriptInfo) : Decidable (testAddress addr info) :=
  inferInstanceAs (Decidable (_ = _))

/-- The first of some versions whose script an address pays to. -/
def verOfAddress {V : Type} (addr : Address) (ctx : PoolContext)
    (versions : List (ProtocolValidator × V)) : Option V :=
  (versions.find? fun version => testAddress addr (ctx.deployed version.1)).map Prod.snd

/-- Enough ADA for a pool of two tokens. -/
def sufficientLovelace (pair : Pair) (lov : Nat) (bounds : PoolValidation) : Prop :=
  pair.x.isNative ∨ pair.y.isNative ∨ bounds.minT2tLovelace ≤ lov

instance (pair : Pair) (lov : Nat) (bounds : PoolValidation) :
    Decidable (sufficientLovelace pair lov bounds) :=
  inferInstanceAs (Decidable (_ ∨ _))

/-- `PoolId::try_from` -/
def PoolId.tryFrom (asset : AssetClass) : Option PoolId := asset.intoToken

/-! ### Classic pools -/

def legacyFeeNumMultiplier : Nat := 100

structure LegacyCfmmPoolConfig where
  poolNft : AssetClass
  assetX : AssetClass
  assetY : AssetClass
  assetLq : AssetClass
  lpFeeNum : Nat
  lqLowerBound : Nat

def LegacyCfmmPoolConfig.tryFromPd (data : PlutusData) : Option LegacyCfmmPoolConfig := do
  let (_, fields) ← data.intoConstrPd
  return {
    poolNft := ← assetAt fields 0
    assetX := ← assetAt fields 1
    assetY := ← assetAt fields 2
    assetLq := ← assetAt fields 3
    lpFeeNum := ← u64At fields 4
    lqLowerBound := (u64At fields 6).getD 0 }

namespace ClassicPool

def scriptOf : ClassicPoolVer → ProtocolValidator
  | .v1 => .constFnPoolV1
  | .v2 => .constFnPoolV2

def verOf (addr : Address) (ctx : PoolContext) : Option ClassicPoolVer :=
  verOfAddress addr ctx [(.constFnPoolV1, .v1), (.constFnPoolV2, .v2)]

def ofConfig (ver : ClassicPoolVer) (conf : LegacyCfmmPoolConfig) (repr : TransactionOutput)
    (ctx : PoolContext) : Checked (Option ClassicPool) :=
  match repr.value.amountOf conf.assetLq, PoolId.tryFrom conf.poolNft,
    repr.value.amountOf conf.assetX, repr.value.amountOf conf.assetY with
  | some liquidityNeg, some id, some reservesX, some reservesY => do
    let liquidity ← Checked.sub maxLqCap liquidityNeg
    let lpFeeNum ← Checked.mul 64 conf.lpFeeNum legacyFeeNumMultiplier
    return some {
      id := id
      reservesX := reservesX
      reservesY := reservesY
      liquidity := liquidity
      assetX := conf.assetX
      assetY := conf.assetY
      assetLq := conf.assetLq
      lpFee := ⟨lpFeeNum, feeDen⟩
      lqLowerBound := conf.lqLowerBound
      ver := ver
      marginalCost := (ctx.deployed (scriptOf ver)).marginalCost
      bounds := ctx.bounds
      stakePartScriptHash := stakePart repr.address }
  | _, _, _, _ => return none

def tryFromLedger (repr : TransactionOutput) (ctx : PoolContext) : Checked (Option ClassicPool) :=
  match verOf repr.address ctx, repr.intoPd.bind LegacyCfmmPoolConfig.tryFromPd with
  | some ver, some conf => ofConfig ver conf repr ctx
  | _, _ => return none

end ClassicPool

/-! ### Pools with a treasury fee -/

structure FeeSwitchPoolConfig where
  poolNft : AssetClass
  assetX : AssetClass
  assetY : AssetClass
  assetLq : AssetClass
  lpFeeNum : Nat
  treasuryFeeNum : Nat
  treasuryX : Nat
  treasuryY : Nat
  lqLowerBound : Nat

def FeeSwitchPoolConfig.tryFromPd (data : PlutusData) : Option FeeSwitchPoolConfig := do
  let (_, fields) ← data.intoConstrPd
  return {
    poolNft := ← assetAt fields 0
    assetX := ← assetAt fields 1
    assetY := ← assetAt fields 2
    assetLq := ← assetAt fields 3
    lpFeeNum := ← u64At fields 4
    treasuryFeeNum := ← u64At fields 5
    treasuryX := ← u64At fields 6
    treasuryY := ← u64At fields 7
    lqLowerBound := (u64At fields 9).getD 0 }

structure FeeSwitchBidirectionalPoolConfig where
  poolNft : AssetClass
  assetX : AssetClass
  assetY : AssetClass
  assetLq : AssetClass
  lpFeeNumX : Nat
  lpFeeNumY : Nat
  treasuryFeeNum : Nat
  treasuryX : Nat
  treasuryY : Nat
  lqLowerBound : Nat

def FeeSwitchBidirectionalPoolConfig.tryFromPd (data : PlutusData) :
    Option FeeSwitchBidirectionalPoolConfig := do
  let (_, fields) ← data.intoConstrPd
  return {
    poolNft := ← assetAt fields 0
    assetX := ← assetAt fields 1
    assetY := ← assetAt fields 2
    assetLq := ← assetAt fields 3
    lpFeeNumX := ← u64At fields 4
    lpFeeNumY := ← u64At fields 5
    treasuryFeeNum := ← u64At fields 6
    treasuryX := ← u64At fields 7
    treasuryY := ← u64At fields 8
    lqLowerBound := (u64At fields 10).getD 0 }

/-- One fee, in both directions. -/
def FeeSwitchPoolConfig.bidirectional (conf : FeeSwitchPoolConfig) :
    FeeSwitchBidirectionalPoolConfig where
  poolNft := conf.poolNft
  assetX := conf.assetX
  assetY := conf.assetY
  assetLq := conf.assetLq
  lpFeeNumX := conf.lpFeeNum
  lpFeeNumY := conf.lpFeeNum
  treasuryFeeNum := conf.treasuryFeeNum
  treasuryX := conf.treasuryX
  treasuryY := conf.treasuryY
  lqLowerBound := conf.lqLowerBound

namespace FeeSwitchPool

def scriptOf : FeeSwitchPoolVer → ProtocolValidator
  | .v1 => .constFnPoolFeeSwitch
  | .v2 => .constFnPoolFeeSwitchV2
  | .biDirV1 => .constFnPoolFeeSwitchBiDirFee

def verOf (addr : Address) (ctx : PoolContext) : Option FeeSwitchPoolVer :=
  verOfAddress addr ctx [(.constFnPoolFeeSwitch, .v1), (.constFnPoolFeeSwitchV2, .v2),
    (.constFnPoolFeeSwitchBiDirFee, .biDirV1)]

def configOf (ver : FeeSwitchPoolVer) (pd : PlutusData) : Option FeeSwitchBidirectionalPoolConfig :=
  match ver with
  | .v1 | .v2 => (FeeSwitchPoolConfig.tryFromPd pd).map FeeSwitchPoolConfig.bidirectional
  | .biDirV1 => FeeSwitchBidirectionalPoolConfig.tryFromPd pd

def ofConfig (ver : FeeSwitchPoolVer) (conf : FeeSwitchBidirectionalPoolConfig)
    (repr : TransactionOutput) (ctx : PoolContext) : Checked (Option FeeSwitchPool) :=
  match repr.value.amountOf conf.assetLq, repr.value.amountOf conf.assetX,
    repr.value.amountOf conf.assetY with
  | some liquidityNeg, some reservesX, some reservesY => do
    let pureReservesX ← Checked.sub reservesX conf.treasuryX
    let pureReservesY ← Checked.sub reservesY conf.treasuryY
    if (0 < pureReservesX ∧ 0 < pureReservesY) ∧
        sufficientLovelace ⟨conf.assetX, conf.assetY⟩ repr.value.coin ctx.bounds ∧
        (conf.treasuryX < reservesX ∧ conf.treasuryY < reservesY) then
      match PoolId.tryFrom conf.poolNft with
      | some id => do
        let liquidity ← Checked.sub maxLqCap liquidityNeg
        return some {
          id := id
          reservesX := reservesX
          reservesY := reservesY
          liquidity := liquidity
          assetX := conf.assetX
          assetY := conf.assetY
          assetLq := conf.assetLq
          lpFeeX := ⟨conf.lpFeeNumX, feeDen⟩
          lpFeeY := ⟨conf.lpFeeNumY, feeDen⟩
          treasuryFee := ⟨conf.treasuryFeeNum, feeDen⟩
          treasuryX := conf.treasuryX
          treasuryY := conf.treasuryY
          lqLowerBound := conf.lqLowerBound
          ver := ver
          marginalCost := (ctx.deployed (scriptOf ver)).marginalCost
          bounds := ctx.bounds
          nonce := 0
          stakePartScriptHash := stakePart repr.address }
      | none => return none
    else return none
  | _, _, _ => return none

def tryFromLedger (repr : TransactionOutput) (ctx : PoolContext) :
    Checked (Option FeeSwitchPool) :=
  match verOf repr.address ctx, repr.intoPd with
  | some ver, some pd =>
    match configOf ver pd with
    | some conf => ofConfig ver conf repr ctx
    | none => return none
  | _, _ => return none

end FeeSwitchPool

/-! ### Pools with royalties -/

structure RoyaltyPoolConfig where
  poolNft : AssetClass
  assetX : AssetClass
  assetY : AssetClass
  assetLq : AssetClass
  lpFeeNum : Nat
  treasuryFeeNum : Nat
  royaltyFeeNum : Nat
  treasuryX : Nat
  treasuryY : Nat
  royaltyX : Nat
  royaltyY : Nat
  adminAddress : ScriptHash
  treasuryAddress : Bytes
  royaltyPubKey : Bytes
  nonce : Nat

def RoyaltyPoolConfig.tryFromPd (data : PlutusData) : Option RoyaltyPoolConfig := do
  let (_, fields) ← data.intoConstrPd
  return {
    adminAddress := ← (takeField fields 11).bind firstScriptHash
    poolNft := ← assetAt fields 0
    assetX := ← assetAt fields 1
    assetY := ← assetAt fields 2
    assetLq := ← assetAt fields 3
    lpFeeNum := ← u64At fields 4
    treasuryFeeNum := ← u64At fields 5
    royaltyFeeNum := ← u64At fields 6
    treasuryX := ← u64At fields 7
    treasuryY := ← u64At fields 8
    royaltyX := ← u64At fields 9
    royaltyY := ← u64At fields 10
    treasuryAddress := ← bytesAt fields 12
    royaltyPubKey := ← bytesAt fields 13
    nonce := ← u64At fields 14 }

structure RoyaltyPoolV2Config where
  poolNft : AssetClass
  assetX : AssetClass
  assetY : AssetClass
  assetLq : AssetClass
  lpFeeNum : Nat
  treasuryFeeNum : Nat
  firstRoyaltyFeeNum : Nat
  secondRoyaltyFeeNum : Nat
  treasuryX : Nat
  treasuryY : Nat
  firstRoyaltyX : Nat
  firstRoyaltyY : Nat
  secondRoyaltyX : Nat
  secondRoyaltyY : Nat
  adminAddress : ScriptHash
  treasuryAddress : Bytes
  firstRoyaltyPubKey : Bytes
  secondRoyaltyPubKey : Bytes
  nonce : Nat

def RoyaltyPoolV2Config.tryFromPd (data : PlutusData) : Option RoyaltyPoolV2Config := do
  let (_, fields) ← data.intoConstrPd
  return {
    adminAddress := ← (takeField fields 14).bind firstScriptHash
    poolNft := ← assetAt fields 0
    assetX := ← assetAt fields 1
    assetY := ← assetAt fields 2
    assetLq := ← assetAt fields 3
    lpFeeNum := ← u64At fields 4
    treasuryFeeNum := ← u64At fields 5
    firstRoyaltyFeeNum := ← u64At fields 6
    secondRoyaltyFeeNum := ← u64At fields 7
    treasuryX := ← u64At fields 8
    treasuryY := ← u64At fields 9
    firstRoyaltyX := ← u64At fields 10
    firstRoyaltyY := ← u64At fields 11
    secondRoyaltyX := ← u64At fields 12
    secondRoyaltyY := ← u64At fields 13
    treasuryAddress := ← bytesAt fields 15
    firstRoyaltyPubKey := ← bytesAt fields 16
    secondRoyaltyPubKey := ← bytesAt fields 17
    nonce := ← u64At fields 18 }

/-- One owner of royalties, and a second one that has none. -/
def RoyaltyPoolConfig.withSecond (conf : RoyaltyPoolConfig) : RoyaltyPoolV2Config where
  poolNft := conf.poolNft
  assetX := conf.assetX
  assetY := conf.assetY
  assetLq := conf.assetLq
  lpFeeNum := conf.lpFeeNum
  treasuryFeeNum := conf.treasuryFeeNum
  firstRoyaltyFeeNum := conf.royaltyFeeNum
  secondRoyaltyFeeNum := 0
  treasuryX := conf.treasuryX
  treasuryY := conf.treasuryY
  firstRoyaltyX := conf.royaltyX
  firstRoyaltyY := conf.royaltyY
  secondRoyaltyX := 0
  secondRoyaltyY := 0
  adminAddress := conf.adminAddress
  treasuryAddress := conf.treasuryAddress
  firstRoyaltyPubKey := conf.royaltyPubKey
  secondRoyaltyPubKey := List.replicate 32 0
  nonce := conf.nonce

namespace RoyaltyPool

def scriptOf : RoyaltyPoolVer → ProtocolValidator
  | .v1 => .royaltyPoolV1
  | .v1LedgerFixed => .royaltyPoolV1LedgerFixed
  | .v2 => .royaltyPoolV2

def verOf (addr : Address) (ctx : PoolContext) : Option RoyaltyPoolVer :=
  verOfAddress addr ctx [(.royaltyPoolV1, .v1), (.royaltyPoolV1LedgerFixed, .v1LedgerFixed),
    (.royaltyPoolV2, .v2)]

def configOf (ver : RoyaltyPoolVer) (pd : PlutusData) : Option RoyaltyPoolV2Config :=
  match ver with
  | .v1 | .v1LedgerFixed => (RoyaltyPoolConfig.tryFromPd pd).map RoyaltyPoolConfig.withSecond
  | .v2 => RoyaltyPoolV2Config.tryFromPd pd

/-- The denominator of the fee of a second owner. -/
def secondFeeDen : RoyaltyPoolVer → Nat
  | .v1 | .v1LedgerFixed => 100
  | .v2 => feeDen

/-- The pool of a datum that has passed the checks. -/
def build (ver : RoyaltyPoolVer) (conf : RoyaltyPoolV2Config) (repr : TransactionOutput)
    (ctx : PoolContext) (liquidityNeg reservesX reservesY : Nat) : Checked (Option RoyaltyPool) :=
  match PoolId.tryFrom conf.poolNft with
  | some id => do
    let liquidity ← Checked.sub maxLqCap liquidityNeg
    match RawBytes.fromRawBytes conf.treasuryAddress,
      RawBytes.fromRawBytes conf.firstRoyaltyPubKey,
      RawBytes.fromRawBytes conf.secondRoyaltyPubKey with
    | some treasuryAddress, some firstRoyaltyPubKey, some secondRoyaltyPubKey =>
      return some {
        id := id
        reservesX := reservesX
        reservesY := reservesY
        liquidity := liquidity
        assetX := conf.assetX
        assetY := conf.assetY
        assetLq := conf.assetLq
        lpFee := ⟨conf.lpFeeNum, feeDen⟩
        treasuryFee := ⟨conf.treasuryFeeNum, feeDen⟩
        firstRoyaltyFee := ⟨conf.firstRoyaltyFeeNum, feeDen⟩
        secondRoyaltyFee := ⟨conf.secondRoyaltyFeeNum, secondFeeDen ver⟩
        treasuryX := conf.treasuryX
        treasuryY := conf.treasuryY
        firstRoyaltyX := conf.firstRoyaltyX
        firstRoyaltyY := conf.firstRoyaltyY
        secondRoyaltyX := conf.secondRoyaltyX
        secondRoyaltyY := conf.secondRoyaltyY
        lqLowerBound := 0
        adminAddress := conf.adminAddress
        treasuryAddress := treasuryAddress
        firstRoyaltyPubKey := firstRoyaltyPubKey
        secondRoyaltyPubKey := secondRoyaltyPubKey
        ver := ver
        marginalCost := (ctx.deployed (scriptOf ver)).marginalCost
        bounds := ctx.bounds
        nonce := conf.nonce
        stakePartScriptHash := stakePart repr.address }
    | _, _, _ => return none
  | none => return none

def ofConfig (ver : RoyaltyPoolVer) (conf : RoyaltyPoolV2Config) (repr : TransactionOutput)
    (ctx : PoolContext) : Checked (Option RoyaltyPool) :=
  match repr.value.amountOf conf.assetLq, repr.value.amountOf conf.assetX,
    repr.value.amountOf conf.assetY with
  | some liquidityNeg, some reservesX, some reservesY => do
    let pureReservesX ← Checked.sub (← Checked.sub (← Checked.sub reservesX conf.treasuryX)
      conf.firstRoyaltyX) conf.secondRoyaltyX
    let pureReservesY ← Checked.sub (← Checked.sub (← Checked.sub reservesY conf.treasuryY)
      conf.firstRoyaltyY) conf.secondRoyaltyY
    let owedX ← Checked.add 64 (← Checked.add 64 conf.treasuryX conf.firstRoyaltyX)
      conf.secondRoyaltyX
    let owedY ← Checked.add 64 (← Checked.add 64 conf.treasuryY conf.firstRoyaltyY)
      conf.secondRoyaltyY
    if (0 < pureReservesX ∧ 0 < pureReservesY) ∧
        sufficientLovelace ⟨conf.assetX, conf.assetY⟩ repr.value.coin ctx.bounds ∧
        (owedX < reservesX ∧ owedY < reservesY) then
      build ver conf repr ctx liquidityNeg reservesX reservesY
    else return none
  | _, _, _ => return none

def tryFromLedger (repr : TransactionOutput) (ctx : PoolContext) : Checked (Option RoyaltyPool) :=
  match verOf repr.address ctx, repr.intoPd with
  | some ver, some pd =>
    match configOf ver pd with
    | some conf => ofConfig ver conf repr ctx
    | none => return none
  | _, _ => return none

end RoyaltyPool

/-! ### Balance pools -/

structure BalancePoolConfig where
  poolNft : AssetClass
  assetX : AssetClass
  assetY : AssetClass
  assetLq : AssetClass
  lpFeeNum : Nat
  treasuryFeeNum : Nat
  treasuryX : Nat
  treasuryY : Nat

def BalancePoolConfig.tryFromPd (data : PlutusData) : Option BalancePoolConfig := do
  let (_, fields) ← data.intoConstrPd
  return {
    poolNft := ← assetAt fields 0
    assetX := ← assetAt fields 1
    assetY := ← assetAt fields 2
    assetLq := ← assetAt fields 3
    lpFeeNum := ← u64At fields 4
    treasuryFeeNum := ← u64At fields 5
    treasuryX := ← u64At fields 6
    treasuryY := ← u64At fields 7 }

namespace BalancePool

def verOf (addr : Address) (ctx : PoolContext) : Option BalancePoolVer :=
  verOfAddress addr ctx [(.balanceFnPoolV1, .v1), (.balanceFnPoolV2, .v2)]

def ofConfig (ver : BalancePoolVer) (conf : BalancePoolConfig) (repr : TransactionOutput)
    (ctx : PoolContext) : Checked (Option BalancePool) :=
  match repr.value.amountOf conf.assetLq with
  | some liquidityNeg =>
    if sufficientLovelace ⟨conf.assetX, conf.assetY⟩ repr.value.coin ctx.bounds then
      match PoolId.tryFrom conf.poolNft, repr.value.amountOf conf.assetX,
        repr.value.amountOf conf.assetY with
      | some id, some reservesX, some reservesY => do
        let liquidity ← Checked.sub maxLqCap liquidityNeg
        return some {
          id := id
          reservesX := reservesX
          weightX := adaWeight
          reservesY := reservesY
          weightY := tokenWeight
          liquidity := liquidity
          assetX := conf.assetX
          assetY := conf.assetY
          assetLq := conf.assetLq
          lpFeeX := ⟨conf.lpFeeNum, feeDen⟩
          lpFeeY := ⟨conf.lpFeeNum, feeDen⟩
          treasuryFee := ⟨conf.treasuryFeeNum, feeDen⟩
          treasuryX := conf.treasuryX
          treasuryY := conf.treasuryY
          ver := ver
          -- The cost of the first version, whichever it is.
          marginalCost := (ctx.deployed .balanceFnPoolV1).marginalCost
          minPoolLovelace := ctx.bounds.minN2tLovelace }
      | _, _, _ => return none
    else return none
  | none => return none

def tryFromLedger (repr : TransactionOutput) (ctx : PoolContext) : Checked (Option BalancePool) :=
  match verOf repr.address ctx, repr.intoPd.bind BalancePoolConfig.tryFromPd with
  | some ver, some conf => ofConfig ver conf repr ctx
  | _, _ => return none

end BalancePool

/-! ### Stable pools -/

structure StablePoolT2TConfig where
  poolNft : AssetClass
  an2n : Nat
  assetX : AssetClass
  assetY : AssetClass
  multiplierX : Nat
  multiplierY : Nat
  assetLq : AssetClass
  lpFeeNum : Nat
  treasuryFeeNum : Nat
  treasuryX : Nat
  treasuryY : Nat

def StablePoolT2TConfig.tryFromPd (data : PlutusData) : Option StablePoolT2TConfig := do
  let (_, fields) ← data.intoConstrPd
  return {
    poolNft := ← assetAt fields 0
    an2n := ← u64At fields 1
    assetX := ← assetAt fields 2
    assetY := ← assetAt fields 3
    multiplierX := ← u64At fields 4
    multiplierY := ← u64At fields 5
    assetLq := ← assetAt fields 6
    lpFeeNum := ← u64At fields 9
    treasuryFeeNum := ← u64At fields 10
    treasuryX := ← u64At fields 13
    treasuryY := ← u64At fields 14 }

namespace StablePoolT2T

def verOf (addr : Address) (ctx : PoolContext) : Option StablePoolT2TVer :=
  verOfAddress addr ctx [(.stableFnPoolT2T, .v1)]

def ofConfig (ver : StablePoolT2TVer) (conf : StablePoolT2TConfig) (repr : TransactionOutput)
    (ctx : PoolContext) : Checked (Option StablePoolT2T) :=
  match repr.value.amountOf conf.assetLq, repr.value.amountOf conf.assetX,
    repr.value.amountOf conf.assetY with
  | some liquidityNeg, some reservesX, some reservesY =>
    if (conf.treasuryX < reservesX ∧ conf.treasuryY < reservesY) ∧
        sufficientLovelace ⟨conf.assetX, conf.assetY⟩ repr.value.coin ctx.bounds then
      match PoolId.tryFrom conf.poolNft with
      | some id => do
        let liquidity ← Checked.sub maxLqCap liquidityNeg
        return some {
          id := id
          an2n := conf.an2n
          reservesX := reservesX
          multiplierX := conf.multiplierX
          reservesY := reservesY
          multiplierY := conf.multiplierY
          liquidity := liquidity
          assetX := conf.assetX
          assetY := conf.assetY
          assetLq := conf.assetLq
          lpFeeX := ⟨conf.lpFeeNum, feeDen⟩
          lpFeeY := ⟨conf.lpFeeNum, feeDen⟩
          treasuryFee := ⟨conf.treasuryFeeNum, feeDen⟩
          treasuryX := conf.treasuryX
          treasuryY := conf.treasuryY
          ver := ver
          marginalCost := (ctx.deployed .stableFnPoolT2T).marginalCost }
      | none => return none
    else return none
  | _, _, _ => return none

def tryFromLedger (repr : TransactionOutput) (ctx : PoolContext) :
    Checked (Option StablePoolT2T) :=
  match verOf repr.address ctx, repr.intoPd.bind StablePoolT2TConfig.tryFromPd with
  | some ver, some conf => ofConfig ver conf repr ctx
  | _, _ => return none

end StablePoolT2T

end UtxoMonitor.Pools
