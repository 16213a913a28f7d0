import VizNode.Lib.Medians
import VizNode.Protocol.Asset
import VizNode.Ledger.Objects

/-!
# `VizNode.Validators.Properties` — the chain properties validators vote on

Every validator votes a value for each chain property, and the value in force is the median of the scheduled validators,
property by property. A vote is validated as a whole, the medians are not validated at all. **They need not be**: a bound
that every vote meets, the median meets as well, and the one bound between two properties survives because medians are
monotone (`medians_valid`).

**No minority moves a property.** Where more than half of the scheduled validators agree on an interval, the median is in
it (`majority_rules`).

## Contents
- **Properties.** The five versions of `chain_properties`, their `validate`, and how a vote overwrites the last one.
- **The medians.** `updateMedianValidatorProps`.
- **Votes and medians are valid**, in every run.
- **Majorities.**
-/

namespace VizNode

namespace Config

def minAccountCreationFee : Int := 1000
def minBlockSizeLimit : Int := 1024 * 64
def maxBlockSizeLimit : Int := 2 * 1024 * 1024
def createAccountDelegationRatio : Int := 10
def createAccountDelegationTime : Int := 30 * 24 * 60 * 60
def minDelegation : Int := 1
def onePercent : Int := 100
def rewardFundCuratorPercent : Int := 5 * 100 / 30 * onePercent
def blocksPerDay : Int := 24 * 60 * 60 / 3
def consensusBandwidthReservePercent : Int := hundredPercent / 10
def consensusBandwidthReserveBelow : Int := 500000000

/-- `TOKEN_SYMBOL` and `SHARES_SYMBOL`. -/
def tokenSymbol : AssetSymbol := ⟨3, ['V', 'I', 'Z', '\x00', '\x00', '\x00', '\x00']⟩
def sharesSymbol : AssetSymbol := ⟨6, ['S', 'H', 'A', 'R', 'E', 'S', '\x00']⟩

end Config

/-! ## Properties -/

/-- A percentage. -/
def Percent (x : Int) : Prop := 0 ≤ x ∧ x ≤ Config.hundredPercent

instance {x : Int} : Decidable (Percent x) := inferInstanceAs (Decidable (_ ∧ _))

/-- `chain_properties_init`. -/
structure ChainPropertiesInit where
  accountCreationFee                : Asset := ⟨Config.minAccountCreationFee, Config.tokenSymbol⟩
  maximumBlockSize                  : Int   := Config.minBlockSizeLimit * 2
  createAccountDelegationRatio      : Int   := Config.createAccountDelegationRatio
  createAccountDelegationTime       : Int   := Config.createAccountDelegationTime
  minDelegation                     : Asset := ⟨Config.minDelegation, Config.tokenSymbol⟩
  minCurationPercent                : Int   := Config.rewardFundCuratorPercent
  maxCurationPercent                : Int   := Config.rewardFundCuratorPercent
  bandwidthReservePercent           : Int   := Config.consensusBandwidthReservePercent
  bandwidthReserveBelow             : Asset := ⟨Config.consensusBandwidthReserveBelow, Config.sharesSymbol⟩
  flagEnergyAdditionalCost          : Int   := 0
  voteAccountingMinRshares          : Int   := 5000000
  committeeRequestApproveMinPercent : Int   := 1000
deriving DecidableEq

/-- `chain_properties_hf4`. -/
structure ChainPropertiesHf4 extends ChainPropertiesInit where
  inflationValidatorPercent           : Int := 20 * Config.onePercent
  inflationRatioCommitteeVsRewardFund : Int := 50 * Config.onePercent
  inflationRecalcPeriod               : Int := 28 * Config.blocksPerDay
deriving DecidableEq

/-- `chain_properties_hf6`. -/
structure ChainPropertiesHf6 extends ChainPropertiesHf4 where
  dataOperationsCostAdditionalBandwidth : Int := 0
  validatorMissPenaltyPercent           : Int := 100
  validatorMissPenaltyDuration          : Int := Config.blocksPerDay * Config.blockInterval
deriving DecidableEq

/-- `chain_properties_hf9`. -/
structure ChainPropertiesHf9 extends ChainPropertiesHf6 where
  createInviteMinBalance    : Asset := ⟨10000, Config.tokenSymbol⟩
  committeeCreateRequestFee : Asset := ⟨100000, Config.tokenSymbol⟩
  createPaidSubscriptionFee : Asset := ⟨100000, Config.tokenSymbol⟩
  accountOnSaleFee          : Asset := ⟨10000, Config.tokenSymbol⟩
  subaccountOnSaleFee       : Asset := ⟨100000, Config.tokenSymbol⟩
  validatorDeclarationFee   : Asset := ⟨10000, Config.tokenSymbol⟩
  withdrawIntervals         : Int   := 28
deriving DecidableEq

/-- `chain_properties_hf13`, the `chain_properties` of a validator. -/
structure ChainPropertiesHf13 extends ChainPropertiesHf9 where
  distributionEpochLength : Int := Config.blocksPerDay
deriving DecidableEq

namespace ChainPropertiesInit

/-- `validate`. -/
def Valid (p : ChainPropertiesInit) : Prop :=
  (Config.minAccountCreationFee ≤ p.accountCreationFee.amount ∧ p.accountCreationFee.symbol = Config.tokenSymbol) ∧
  (Config.minBlockSizeLimit ≤ p.maximumBlockSize ∧ p.maximumBlockSize ≤ Config.maxBlockSizeLimit) ∧
  0 < p.createAccountDelegationRatio ∧
  (0 ≤ p.createAccountDelegationTime ∧ (Config.energyRegenerationSeconds : Int) ≤ p.createAccountDelegationTime) ∧
  (0 < p.minDelegation.amount ∧ p.minDelegation.symbol = Config.tokenSymbol) ∧
  (0 ≤ p.minCurationPercent ∧ p.maxCurationPercent ≤ Config.hundredPercent ∧ p.minCurationPercent ≤ p.maxCurationPercent) ∧
  Percent p.bandwidthReservePercent ∧
  (0 ≤ p.bandwidthReserveBelow.amount ∧ p.bandwidthReserveBelow.symbol = Config.sharesSymbol) ∧
  Percent p.flagEnergyAdditionalCost ∧ Percent p.committeeRequestApproveMinPercent

instance {p : ChainPropertiesInit} : Decidable p.Valid :=
  inferInstanceAs (Decidable ((_ ∧ _) ∧ (_ ∧ _) ∧ _ ∧ (_ ∧ _) ∧ (_ ∧ _) ∧ (_ ∧ _ ∧ _) ∧ _ ∧ (_ ∧ _) ∧ _ ∧ _))

end ChainPropertiesInit

namespace ChainPropertiesHf4

def Valid (p : ChainPropertiesHf4) : Prop :=
  p.toChainPropertiesInit.Valid ∧
  Percent p.inflationValidatorPercent ∧ Percent p.inflationRatioCommitteeVsRewardFund ∧
  (0 ≤ p.inflationRecalcPeriod ∧ p.inflationRecalcPeriod ≤ Config.blocksPerYear)

instance {p : ChainPropertiesHf4} : Decidable p.Valid := inferInstanceAs (Decidable (_ ∧ _ ∧ _ ∧ _))

end ChainPropertiesHf4

namespace ChainPropertiesHf6

def Valid (p : ChainPropertiesHf6) : Prop :=
  p.toChainPropertiesHf4.Valid ∧
  0 ≤ p.dataOperationsCostAdditionalBandwidth ∧ Percent p.validatorMissPenaltyPercent ∧
  (0 ≤ p.validatorMissPenaltyDuration ∧
    p.validatorMissPenaltyDuration ≤ Config.blocksPerYear * Config.blockInterval)

instance {p : ChainPropertiesHf6} : Decidable p.Valid := inferInstanceAs (Decidable (_ ∧ _ ∧ _ ∧ _))

end ChainPropertiesHf6

/-- A positive amount of tokens. -/
def Asset.PositiveToken (a : Asset) : Prop := 0 < a.amount ∧ a.symbol = Config.tokenSymbol

instance {a : Asset} : Decidable a.PositiveToken := inferInstanceAs (Decidable (_ ∧ _))

namespace ChainPropertiesHf9

def Valid (p : ChainPropertiesHf9) : Prop :=
  p.toChainPropertiesHf6.Valid ∧
  p.createInviteMinBalance.PositiveToken ∧ p.committeeCreateRequestFee.PositiveToken ∧
  p.createPaidSubscriptionFee.PositiveToken ∧ p.accountOnSaleFee.PositiveToken ∧
  p.subaccountOnSaleFee.PositiveToken ∧ p.validatorDeclarationFee.PositiveToken ∧ 0 < p.withdrawIntervals

instance {p : ChainPropertiesHf9} : Decidable p.Valid := inferInstanceAs (Decidable (_ ∧ _ ∧ _ ∧ _ ∧ _ ∧ _ ∧ _ ∧ _))

end ChainPropertiesHf9

namespace ChainPropertiesHf13

def Valid (p : ChainPropertiesHf13) : Prop :=
  p.toChainPropertiesHf9.Valid ∧
  (Config.blocksPerHour : Int) ≤ p.distributionEpochLength ∧ p.distributionEpochLength ≤ Config.blocksPerYear

instance {p : ChainPropertiesHf13} : Decidable p.Valid := inferInstanceAs (Decidable (_ ∧ _ ∧ _))

end ChainPropertiesHf13

/-- `versioned_chain_properties`. -/
inductive VersionedChainProperties where
  | init (p : ChainPropertiesInit)
  | hf4 (p : ChainPropertiesHf4)
  | hf6 (p : ChainPropertiesHf6)
  | hf9 (p : ChainPropertiesHf9)
  | hf13 (p : ChainPropertiesHf13)

namespace VersionedChainProperties

/-- `chain_properties_validator`. -/
def Valid : VersionedChainProperties → Prop
  | init p => p.Valid
  | hf4 p  => p.Valid
  | hf6 p  => p.Valid
  | hf9 p  => p.Valid
  | hf13 p => p.Valid

instance : ∀ v : VersionedChainProperties, Decidable v.Valid
  | init p => inferInstanceAs (Decidable p.Valid)
  | hf4 p  => inferInstanceAs (Decidable p.Valid)
  | hf6 p  => inferInstanceAs (Decidable p.Valid)
  | hf9 p  => inferInstanceAs (Decidable p.Valid)
  | hf13 p => inferInstanceAs (Decidable p.Valid)

/-- The hardfork that a version needs. -/
def hardfork : VersionedChainProperties → Nat
  | init _ => 0
  | hf4 _  => 4
  | hf6 _  => 6
  | hf9 _  => 9
  | hf13 _ => 13

/-- `operator=`: an older version leaves the newer properties as they were. -/
def assign (w : ChainPropertiesHf13) : VersionedChainProperties → ChainPropertiesHf13
  | init p => { w with toChainPropertiesInit := p }
  | hf4 p  => { w with toChainPropertiesHf4 := p }
  | hf6 p  => { w with toChainPropertiesHf6 := p }
  | hf9 p  => { w with toChainPropertiesHf9 := p }
  | hf13 p => p

end VersionedChainProperties

/-! ## The medians -/

/-- **What the votes on chain properties are about**: the hardfork, the accounts, the votes of the validators, the
    schedule and the medians. -/
structure Governance where
  hardfork                 : Nat
  accounts                 : List AccountName
  emergencyConsensusActive : Bool
  validators               : Table AccountName ChainPropertiesHf13
  scheduled                : List AccountName
  medianProps              : ChainPropertiesHf13

namespace Governance

def hasHardfork (s : Governance) (n : Nat) : Bool := decide (n ≤ s.hardfork)

/-- The validators whose votes count: those of the schedule, without the committee in an emergency. -/
def active (s : Governance) : List AccountName :=
  s.scheduled.filter (fun name =>
    !(s.hasHardfork 12 && s.emergencyConsensusActive && decide (name = Config.emergencyValidatorAccount)))

/-- `calc_median`, from hardfork `n` on. The default stays before that. -/
def calcMedian (s : Governance) (votes : List ChainPropertiesHf13) (n : Nat) (param : ChainPropertiesHf13 → Int) : Int :=
  if s.hasHardfork n then Medians.median (param {}) (votes.map param) else param {}

/-- The median of an asset; its symbol is the one all of the votes have. -/
def calcMedianAsset (s : Governance) (votes : List ChainPropertiesHf13) (n : Nat) (param : ChainPropertiesHf13 → Asset) :
    Asset where
  amount := s.calcMedian votes n (fun p => (param p).amount)
  symbol := if s.hasHardfork n then ((votes.map param).head?.getD (param {})).symbol else (param {}).symbol

/-- The assets among the properties, each with the hardfork from which its median is taken. -/
def assetParams : List (Nat × (ChainPropertiesHf13 → Asset)) :=
  [(0, fun p => p.accountCreationFee), (0, fun p => p.minDelegation), (0, fun p => p.bandwidthReserveBelow),
    (9, fun p => p.createInviteMinBalance), (9, fun p => p.committeeCreateRequestFee),
    (9, fun p => p.createPaidSubscriptionFee), (9, fun p => p.accountOnSaleFee),
    (9, fun p => p.subaccountOnSaleFee), (9, fun p => p.validatorDeclarationFee)]

/-- Assets with different symbols cannot be compared. -/
def Comparable (s : Governance) (votes : List ChainPropertiesHf13) : Prop :=
  ∀ q ∈ assetParams, s.hasHardfork q.1 → ∀ p ∈ votes, ∀ p' ∈ votes, (q.2 p).symbol = (q.2 p').symbol

instance {s : Governance} {votes : List ChainPropertiesHf13} : Decidable (s.Comparable votes) :=
  inferInstanceAs (Decidable (∀ q ∈ assetParams, _ → ∀ p ∈ votes, ∀ p' ∈ votes, _))

/-- The medians of these votes. -/
def medians (s : Governance) (votes : List ChainPropertiesHf13) : ChainPropertiesHf13 where
  accountCreationFee                    := s.calcMedianAsset votes 0 (fun p => p.accountCreationFee)
  maximumBlockSize                      := s.calcMedian votes 0 (fun p => p.maximumBlockSize)
  createAccountDelegationRatio          := s.calcMedian votes 0 (fun p => p.createAccountDelegationRatio)
  createAccountDelegationTime           := s.calcMedian votes 0 (fun p => p.createAccountDelegationTime)
  minDelegation                         := s.calcMedianAsset votes 0 (fun p => p.minDelegation)
  minCurationPercent                    := s.calcMedian votes 0 (fun p => p.minCurationPercent)
  maxCurationPercent                    := s.calcMedian votes 1 (fun p => p.maxCurationPercent)
  bandwidthReservePercent               := s.calcMedian votes 0 (fun p => p.bandwidthReservePercent)
  bandwidthReserveBelow                 := s.calcMedianAsset votes 0 (fun p => p.bandwidthReserveBelow)
  flagEnergyAdditionalCost              := s.calcMedian votes 0 (fun p => p.flagEnergyAdditionalCost)
  voteAccountingMinRshares              := s.calcMedian votes 0 (fun p => p.voteAccountingMinRshares)
  committeeRequestApproveMinPercent     := s.calcMedian votes 0 (fun p => p.committeeRequestApproveMinPercent)
  inflationValidatorPercent             := s.calcMedian votes 4 (fun p => p.inflationValidatorPercent)
  inflationRatioCommitteeVsRewardFund   := s.calcMedian votes 4 (fun p => p.inflationRatioCommitteeVsRewardFund)
  inflationRecalcPeriod                 := s.calcMedian votes 4 (fun p => p.inflationRecalcPeriod)
  dataOperationsCostAdditionalBandwidth := s.calcMedian votes 6 (fun p => p.dataOperationsCostAdditionalBandwidth)
  validatorMissPenaltyPercent           := s.calcMedian votes 6 (fun p => p.validatorMissPenaltyPercent)
  validatorMissPenaltyDuration          := s.calcMedian votes 6 (fun p => p.validatorMissPenaltyDuration)
  createInviteMinBalance                := s.calcMedianAsset votes 9 (fun p => p.createInviteMinBalance)
  committeeCreateRequestFee             := s.calcMedianAsset votes 9 (fun p => p.committeeCreateRequestFee)
  createPaidSubscriptionFee             := s.calcMedianAsset votes 9 (fun p => p.createPaidSubscriptionFee)
  accountOnSaleFee                      := s.calcMedianAsset votes 9 (fun p => p.accountOnSaleFee)
  subaccountOnSaleFee                   := s.calcMedianAsset votes 9 (fun p => p.subaccountOnSaleFee)
  validatorDeclarationFee               := s.calcMedianAsset votes 9 (fun p => p.validatorDeclarationFee)
  withdrawIntervals                     := s.calcMedian votes 9 (fun p => p.withdrawIntervals)
  distributionEpochLength               := s.calcMedian votes 13 (fun p => p.distributionEpochLength)

/-- **`update_median_validator_props`**, or the exception of a validator that is missing or of a comparison. -/
def updateMedianValidatorProps (s : Governance) : Option Governance :=
  if ∀ name ∈ s.active, name ∈ s.validators.keys then
    let votes := s.active.map s.validators.row
    if votes = [] then some s
    else if s.Comparable votes then some { s with medianProps := s.medians votes }
    else none
  else none

/-- The vote of `owner`; it becomes a validator by it. -/
def vote (s : Governance) (owner : AccountName) (f : ChainPropertiesHf13 → ChainPropertiesHf13) : Governance :=
  { s with validators :=
      if owner ∈ s.validators.keys then s.validators.modify owner f else s.validators.insert owner (f {}) }

/-- `chain_properties_update`, with the validation of the operation. -/
def chainPropertiesUpdate (s : Governance) (owner : AccountName) (p : ChainPropertiesInit) : Option Governance :=
  if p.Valid ∧ owner ∈ s.accounts then some (s.vote owner (fun w => (VersionedChainProperties.init p).assign w)) else none

/-- `versioned_chain_properties_update`. -/
def versionedChainPropertiesUpdate (s : Governance) (owner : AccountName) (v : VersionedChainProperties) :
    Option Governance :=
  if v.Valid ∧ s.hasHardfork 4 ∧ owner ∈ s.accounts ∧ s.hasHardfork v.hardfork
  then some (s.vote owner (fun w => v.assign w)) else none

/-- `validator_update` and the other operations that create a validator. -/
def validatorUpdate (s : Governance) (owner : AccountName) : Option Governance :=
  if owner ∈ s.accounts then some (s.vote owner id) else none

/-- The committee takes over the medians, at the start of an emergency and in every round of it. -/
def syncCommittee (s : Governance) : Governance := s.vote Config.emergencyValidatorAccount (fun _ => s.medianProps)

/-! ## Votes and medians are valid -/

/-- **Every vote is valid, and the medians are.** -/
structure Sound (s : Governance) : Prop where
  votes   : ∀ name ∈ s.validators.keys, (s.validators.row name).Valid
  medians : s.medianProps.Valid

/-- A step: an operation of a validator, the update of the medians, the committee taking them over, or anything that
    touches neither votes nor medians, such as a new schedule, a new account, an emergency or a hardfork. -/
inductive Step : Governance → Governance → Prop where
  | chainPropertiesUpdate {s s' : Governance} {owner : AccountName} {p : ChainPropertiesInit} :
      s.chainPropertiesUpdate owner p = some s' → Step s s'
  | versionedChainPropertiesUpdate {s s' : Governance} {owner : AccountName} {v : VersionedChainProperties} :
      s.versionedChainPropertiesUpdate owner v = some s' → Step s s'
  | validatorUpdate {s s' : Governance} {owner : AccountName} : s.validatorUpdate owner = some s' → Step s s'
  | updateMedianValidatorProps {s s' : Governance} : s.updateMedianValidatorProps = some s' → Step s s'
  | syncCommittee {s : Governance} : Step s s.syncCommittee
  | aside {s s' : Governance} (validators : s'.validators = s.validators) (medianProps : s'.medianProps = s.medianProps)
      (hardfork : s.hardfork ≤ s'.hardfork) : Step s s'

theorem default_valid : ({} : ChainPropertiesHf13).Valid := by decide

theorem assign_valid {w : ChainPropertiesHf13} {v : VersionedChainProperties} (hw : w.Valid) (hv : v.Valid) :
    (v.assign w).Valid := by
  cases v with
  | init p =>
      -- the bounds of the newer properties do not depend on the older ones
      obtain ⟨⟨⟨⟨_, h4⟩, h6⟩, h9⟩, h13⟩ := hw
      exact ⟨⟨⟨⟨hv, h4⟩, h6⟩, h9⟩, h13⟩
  | hf4 p =>
      obtain ⟨⟨⟨_, h6⟩, h9⟩, h13⟩ := hw
      exact ⟨⟨⟨hv, h6⟩, h9⟩, h13⟩
  | hf6 p =>
      obtain ⟨⟨_, h9⟩, h13⟩ := hw
      exact ⟨⟨hv, h9⟩, h13⟩
  | hf9 p =>
      obtain ⟨_, h13⟩ := hw
      exact ⟨hv, h13⟩
  | hf13 p => exact hv

section Bounds

variable {s : Governance} {votes : List ChainPropertiesHf13} {n : Nat}

/-- **A median is the value of a vote, or the default.** -/
theorem calcMedian_of (s : Governance) (n : Nat) (param : ChainPropertiesHf13 → Int) (P : Int → Prop) (hne : votes ≠ [])
    (hvotes : ∀ p ∈ votes, P (param p)) (hd : P (param {})) : P (s.calcMedian votes n param) := by
  unfold calcMedian
  split
  · have hmap : votes.map param ≠ [] := fun h => hne (List.map_eq_nil_iff.mp h)
    obtain ⟨p, hp, he⟩ := List.mem_map.mp (Medians.median_mem (d := param {}) hmap)
    rw [← he]
    exact hvotes p hp
  · exact hd

theorem calcMedianAsset_of (param : ChainPropertiesHf13 → Asset) (P : Int → Prop) {symbol : AssetSymbol}
    (hne : votes ≠ []) (hvotes : ∀ p ∈ votes, P (param p).amount ∧ (param p).symbol = symbol)
    (hd : P (param {}).amount ∧ (param {}).symbol = symbol) :
    P (s.calcMedianAsset votes n param).amount ∧ (s.calcMedianAsset votes n param).symbol = symbol := by
  refine ⟨calcMedian_of s n _ P hne (fun p hp => (hvotes p hp).1) hd.1, ?_⟩
  show (if s.hasHardfork n then ((votes.map param).head?.getD (param {})).symbol else (param {}).symbol) = symbol
  split
  · cases votes with
    | nil => exact absurd rfl hne
    | cons p votes => exact (hvotes p List.mem_cons_self).2
  · exact hd.2

/-- The one bound between two properties. -/
theorem minCuration_le_maxCuration (hfork : s.hasHardfork 1 = true) (hne : votes ≠ [])
    (hvotes : ∀ p ∈ votes, p.minCurationPercent ≤ p.maxCurationPercent) :
    (s.medians votes).minCurationPercent ≤ (s.medians votes).maxCurationPercent := by
  show s.calcMedian votes 0 (fun p => p.minCurationPercent) ≤ s.calcMedian votes 1 (fun p => p.maxCurationPercent)
  have h0 : s.hasHardfork 0 = true := decide_eq_true (Nat.zero_le _)
  unfold calcMedian
  rw [if_pos h0, if_pos hfork]
  exact Medians.median_mono hne hvotes

theorem medians_init_valid (hfork : s.hasHardfork 1 = true) (hne : votes ≠ []) (hvotes : ∀ p ∈ votes, p.Valid) :
    (s.medians votes).toChainPropertiesInit.Valid := by
  have hinit : ∀ p ∈ votes, p.toChainPropertiesInit.Valid := fun p hp => (hvotes p hp).1.1.1.1
  obtain ⟨d₁, d₂, d₃, d₄, d₅, ⟨d₆, d₇, _⟩, d₈, d₉, d₁₀, d₁₁⟩ := default_valid.1.1.1.1
  refine ⟨?_, ?_, ?_, ?_, ?_, ⟨?_, ?_, ?_⟩, ?_, ?_, ?_, ?_⟩
  · exact calcMedianAsset_of (fun p => p.accountCreationFee) (fun x => Config.minAccountCreationFee ≤ x) hne
      (fun p hp => (hinit p hp).1) d₁
  · exact calcMedian_of s 0 (fun p => p.maximumBlockSize)
      (fun x => Config.minBlockSizeLimit ≤ x ∧ x ≤ Config.maxBlockSizeLimit) hne (fun p hp => (hinit p hp).2.1) d₂
  · exact calcMedian_of s 0 (fun p => p.createAccountDelegationRatio) (fun x => 0 < x) hne
      (fun p hp => (hinit p hp).2.2.1) d₃
  · exact calcMedian_of s 0 (fun p => p.createAccountDelegationTime)
      (fun x => 0 ≤ x ∧ (Config.energyRegenerationSeconds : Int) ≤ x) hne (fun p hp => (hinit p hp).2.2.2.1) d₄
  · exact calcMedianAsset_of (fun p => p.minDelegation) (fun x => 0 < x) hne (fun p hp => (hinit p hp).2.2.2.2.1) d₅
  · exact calcMedian_of s 0 (fun p => p.minCurationPercent) (fun x => 0 ≤ x) hne
      (fun p hp => (hinit p hp).2.2.2.2.2.1.1) d₆
  · exact calcMedian_of s 1 (fun p => p.maxCurationPercent) (fun x => x ≤ Config.hundredPercent) hne
      (fun p hp => (hinit p hp).2.2.2.2.2.1.2.1) d₇
  · exact minCuration_le_maxCuration hfork hne (fun p hp => (hinit p hp).2.2.2.2.2.1.2.2)
  · exact calcMedian_of s 0 (fun p => p.bandwidthReservePercent) Percent hne (fun p hp => (hinit p hp).2.2.2.2.2.2.1) d₈
  · exact calcMedianAsset_of (fun p => p.bandwidthReserveBelow) (fun x => 0 ≤ x) hne
      (fun p hp => (hinit p hp).2.2.2.2.2.2.2.1) d₉
  · exact calcMedian_of s 0 (fun p => p.flagEnergyAdditionalCost) Percent hne
      (fun p hp => (hinit p hp).2.2.2.2.2.2.2.2.1) d₁₀
  · exact calcMedian_of s 0 (fun p => p.committeeRequestApproveMinPercent) Percent hne
      (fun p hp => (hinit p hp).2.2.2.2.2.2.2.2.2) d₁₁

theorem medians_hf4_valid (hfork : s.hasHardfork 1 = true) (hne : votes ≠ []) (hvotes : ∀ p ∈ votes, p.Valid) :
    (s.medians votes).toChainPropertiesHf4.Valid := by
  have h4 : ∀ p ∈ votes, p.toChainPropertiesHf4.Valid := fun p hp => (hvotes p hp).1.1.1
  obtain ⟨_, d₁, d₂, d₃⟩ := default_valid.1.1.1
  refine ⟨medians_init_valid hfork hne hvotes, ?_, ?_, ?_⟩
  · exact calcMedian_of s 4 (fun p => p.inflationValidatorPercent) Percent hne (fun p hp => (h4 p hp).2.1) d₁
  · exact calcMedian_of s 4 (fun p => p.inflationRatioCommitteeVsRewardFund) Percent hne (fun p hp => (h4 p hp).2.2.1) d₂
  · exact calcMedian_of s 4 (fun p => p.inflationRecalcPeriod) (fun x => 0 ≤ x ∧ x ≤ Config.blocksPerYear) hne
      (fun p hp => (h4 p hp).2.2.2) d₃

theorem medians_hf6_valid (hfork : s.hasHardfork 1 = true) (hne : votes ≠ []) (hvotes : ∀ p ∈ votes, p.Valid) :
    (s.medians votes).toChainPropertiesHf6.Valid := by
  have h6 : ∀ p ∈ votes, p.toChainPropertiesHf6.Valid := fun p hp => (hvotes p hp).1.1
  obtain ⟨_, d₁, d₂, d₃⟩ := default_valid.1.1
  refine ⟨medians_hf4_valid hfork hne hvotes, ?_, ?_, ?_⟩
  · exact calcMedian_of s 6 (fun p => p.dataOperationsCostAdditionalBandwidth) (fun x => 0 ≤ x) hne
      (fun p hp => (h6 p hp).2.1) d₁
  · exact calcMedian_of s 6 (fun p => p.validatorMissPenaltyPercent) Percent hne (fun p hp => (h6 p hp).2.2.1) d₂
  · exact calcMedian_of s 6 (fun p => p.validatorMissPenaltyDuration)
      (fun x => 0 ≤ x ∧ x ≤ Config.blocksPerYear * Config.blockInterval) hne (fun p hp => (h6 p hp).2.2.2) d₃

/-- A fee is positive in every vote, and so is the median. -/
theorem calcMedianAsset_positiveToken (param : ChainPropertiesHf13 → Asset) (hne : votes ≠ [])
    (hvotes : ∀ p ∈ votes, (param p).PositiveToken) (hd : (param {}).PositiveToken) :
    (s.calcMedianAsset votes n param).PositiveToken := calcMedianAsset_of param (fun x => 0 < x) hne hvotes hd

theorem medians_hf9_valid (hfork : s.hasHardfork 1 = true) (hne : votes ≠ []) (hvotes : ∀ p ∈ votes, p.Valid) :
    (s.medians votes).toChainPropertiesHf9.Valid := by
  have h9 : ∀ p ∈ votes, p.toChainPropertiesHf9.Valid := fun p hp => (hvotes p hp).1
  obtain ⟨_, d₁, d₂, d₃, d₄, d₅, d₆, d₇⟩ := default_valid.1
  refine ⟨medians_hf6_valid hfork hne hvotes, ?_, ?_, ?_, ?_, ?_, ?_, ?_⟩
  · exact calcMedianAsset_positiveToken (fun p => p.createInviteMinBalance) hne (fun p hp => (h9 p hp).2.1) d₁
  · exact calcMedianAsset_positiveToken (fun p => p.committeeCreateRequestFee) hne (fun p hp => (h9 p hp).2.2.1) d₂
  · exact calcMedianAsset_positiveToken (fun p => p.createPaidSubscriptionFee) hne (fun p hp => (h9 p hp).2.2.2.1) d₃
  · exact calcMedianAsset_positiveToken (fun p => p.accountOnSaleFee) hne (fun p hp => (h9 p hp).2.2.2.2.1) d₄
  · exact calcMedianAsset_positiveToken (fun p => p.subaccountOnSaleFee) hne (fun p hp => (h9 p hp).2.2.2.2.2.1) d₅
  · exact calcMedianAsset_positiveToken (fun p => p.validatorDeclarationFee) hne
      (fun p hp => (h9 p hp).2.2.2.2.2.2.1) d₆
  · exact calcMedian_of s 9 (fun p => p.withdrawIntervals) (fun x => 0 < x) hne (fun p hp => (h9 p hp).2.2.2.2.2.2.2) d₇

/-- **The medians of valid votes are valid.** -/
theorem medians_of_valid (hfork : s.hasHardfork 1 = true) (hne : votes ≠ []) (hvotes : ∀ p ∈ votes, p.Valid) :
    (s.medians votes).Valid := by
  obtain ⟨_, d₁⟩ := default_valid
  refine ⟨medians_hf9_valid hfork hne hvotes, ?_⟩
  exact calcMedian_of s 13 (fun p => p.distributionEpochLength)
    (fun x => (Config.blocksPerHour : Int) ≤ x ∧ x ≤ Config.blocksPerYear) hne (fun p hp => (hvotes p hp).2) d₁

/-- Valid votes are comparable: `validate` fixes every symbol. -/
theorem comparable_of_valid (hvotes : ∀ p ∈ votes, p.Valid) : s.Comparable votes := by
  have hsymbols : ∀ q ∈ assetParams, ∃ symbol, ∀ p : ChainPropertiesHf13, p.Valid → (q.2 p).symbol = symbol := by
    intro q hq
    simp only [assetParams, List.mem_cons, List.not_mem_nil, or_false] at hq
    rcases hq with rfl | rfl | rfl | rfl | rfl | rfl | rfl | rfl | rfl
    · exact ⟨_, fun p hp => hp.1.1.1.1.1.2⟩
    · exact ⟨_, fun p hp => hp.1.1.1.1.2.2.2.2.1.2⟩
    · exact ⟨_, fun p hp => hp.1.1.1.1.2.2.2.2.2.2.2.1.2⟩
    · exact ⟨_, fun p hp => hp.1.2.1.2⟩
    · exact ⟨_, fun p hp => hp.1.2.2.1.2⟩
    · exact ⟨_, fun p hp => hp.1.2.2.2.1.2⟩
    · exact ⟨_, fun p hp => hp.1.2.2.2.2.1.2⟩
    · exact ⟨_, fun p hp => hp.1.2.2.2.2.2.1.2⟩
    · exact ⟨_, fun p hp => hp.1.2.2.2.2.2.2.1.2⟩
  intro q hq _ p hp p' hp'
  obtain ⟨symbol, hs⟩ := hsymbols q hq
  rw [hs p (hvotes p hp), hs p' (hvotes p' hp')]

end Bounds

section Runs

variable {s s' : Governance}

/-- What an update of the medians does. -/
theorem updateMedianValidatorProps_eq_some (h : s.updateMedianValidatorProps = some s') :
    (∀ name ∈ s.active, name ∈ s.validators.keys) ∧
    (s' = s ∨ s.active.map s.validators.row ≠ [] ∧ s' = { s with medianProps := s.medians (s.active.map s.validators.row) }) := by
  unfold updateMedianValidatorProps at h
  split at h
  case isFalse => cases h
  case isTrue hknown =>
    refine ⟨hknown, ?_⟩
    simp only at h
    split_ifs at h with hnone hcomparable
    · exact .inl (Option.some.inj h).symm
    · exact .inr ⟨hnone, (Option.some.inj h).symm⟩

theorem vote_sound {owner : AccountName} {f : ChainPropertiesHf13 → ChainPropertiesHf13} (hs : s.Sound)
    (hf : ∀ w, w.Valid → (f w).Valid) : (s.vote owner f).Sound := by
  refine ⟨?_, hs.medians⟩
  unfold vote
  dsimp only
  split
  case isTrue hk => exact Table.forall_modify hs.votes (fun hk => hf _ (hs.votes owner hk))
  case isFalse hk => exact Table.forall_insert hs.votes (hf _ default_valid)

theorem Sound.votes_of_active (hs : s.Sound) (hknown : ∀ name ∈ s.active, name ∈ s.validators.keys) :
    ∀ p ∈ s.active.map s.validators.row, p.Valid := by
  intro p hp
  obtain ⟨name, hname, rfl⟩ := List.mem_map.mp hp
  exact hs.votes name (hknown name hname)

theorem Step.sound (h : Step s s') (hfork : 1 ≤ s.hardfork) (hs : s.Sound) : 1 ≤ s'.hardfork ∧ s'.Sound := by
  cases h with
  | chainPropertiesUpdate h =>
      unfold Governance.chainPropertiesUpdate at h
      split_ifs at h with hok
      obtain rfl := Option.some.inj h
      exact ⟨hfork, vote_sound hs (fun w hw => assign_valid hw hok.1)⟩
  | versionedChainPropertiesUpdate h =>
      unfold Governance.versionedChainPropertiesUpdate at h
      split_ifs at h with hok
      obtain rfl := Option.some.inj h
      exact ⟨hfork, vote_sound hs (fun w hw => assign_valid hw hok.1)⟩
  | validatorUpdate h =>
      unfold Governance.validatorUpdate at h
      split_ifs at h with hok
      obtain rfl := Option.some.inj h
      exact ⟨hfork, vote_sound hs (fun w hw => hw)⟩
  | updateMedianValidatorProps h =>
      obtain ⟨hknown, rfl | ⟨hne, rfl⟩⟩ := updateMedianValidatorProps_eq_some h
      · exact ⟨hfork, hs⟩
      · exact ⟨hfork, hs.votes, medians_of_valid (decide_eq_true hfork) hne (hs.votes_of_active hknown)⟩
  | syncCommittee => exact ⟨hfork, vote_sound hs (fun _ _ => hs.medians)⟩
  | aside validators medianProps hardfork =>
      refine ⟨hfork.trans hardfork, ?_, ?_⟩
      · rw [validators]
        exact hs.votes
      · rw [medianProps]
        exact hs.medians

theorem run_sound (hrun : Relation.ReflTransGen Step s s') (hfork : 1 ≤ s.hardfork) (hs : s.Sound) :
    1 ≤ s'.hardfork ∧ s'.Sound := by
  induction hrun with
  | refl => exact ⟨hfork, hs⟩
  | tail _ hstep ih => exact hstep.sound ih.1 ih.2

end Runs

/-! ## Majorities -/

/-- Every number among the properties, an asset by its amount, with the hardfork from which its median is taken. -/
def numbers : List (Nat × (ChainPropertiesHf13 → Int)) :=
  [(0, fun p => p.accountCreationFee.amount), (0, fun p => p.maximumBlockSize),
    (0, fun p => p.createAccountDelegationRatio), (0, fun p => p.createAccountDelegationTime),
    (0, fun p => p.minDelegation.amount), (0, fun p => p.minCurationPercent), (1, fun p => p.maxCurationPercent),
    (0, fun p => p.bandwidthReservePercent), (0, fun p => p.bandwidthReserveBelow.amount),
    (0, fun p => p.flagEnergyAdditionalCost), (0, fun p => p.voteAccountingMinRshares),
    (0, fun p => p.committeeRequestApproveMinPercent), (4, fun p => p.inflationValidatorPercent),
    (4, fun p => p.inflationRatioCommitteeVsRewardFund), (4, fun p => p.inflationRecalcPeriod),
    (6, fun p => p.dataOperationsCostAdditionalBandwidth), (6, fun p => p.validatorMissPenaltyPercent),
    (6, fun p => p.validatorMissPenaltyDuration), (9, fun p => p.createInviteMinBalance.amount),
    (9, fun p => p.committeeCreateRequestFee.amount), (9, fun p => p.createPaidSubscriptionFee.amount),
    (9, fun p => p.accountOnSaleFee.amount), (9, fun p => p.subaccountOnSaleFee.amount),
    (9, fun p => p.validatorDeclarationFee.amount), (9, fun p => p.withdrawIntervals),
    (13, fun p => p.distributionEpochLength)]

/-- **More than half of the active validators vote for a value from `lo` to `hi`.** -/
def Agreed (s : Governance) (param : ChainPropertiesHf13 → Int) (lo hi : Int) : Prop :=
  s.active.length <
    2 * s.active.countP (fun name => decide (lo ≤ param (s.validators.row name) ∧ param (s.validators.row name) ≤ hi))

instance {s : Governance} {param : ChainPropertiesHf13 → Int} {lo hi : Int} : Decidable (s.Agreed param lo hi) :=
  inferInstanceAs (Decidable (_ < _))

section Majorities

variable {s s' : Governance} {q : Nat × (ChainPropertiesHf13 → Int)} {lo hi : Int}

theorem medians_number {votes : List ChainPropertiesHf13} (hq : q ∈ numbers) :
    q.2 (s.medians votes) = s.calcMedian votes q.1 q.2 := by
  simp only [numbers, List.mem_cons, List.not_mem_nil, or_false] at hq
  rcases hq with rfl | rfl | rfl | rfl | rfl | rfl | rfl | rfl | rfl | rfl | rfl | rfl | rfl | rfl | rfl | rfl | rfl |
    rfl | rfl | rfl | rfl | rfl | rfl | rfl | rfl | rfl <;> rfl

/-- The steps other than the update of the medians leave them alone. -/
theorem Step.median_or_same (h : Step s s') :
    s.hardfork ≤ s'.hardfork ∧ (s.updateMedianValidatorProps = some s' ∨ s'.medianProps = s.medianProps) := by
  cases h with
  | chainPropertiesUpdate h =>
      unfold Governance.chainPropertiesUpdate at h
      split_ifs at h
      obtain rfl := Option.some.inj h
      exact ⟨Nat.le_refl _, .inr rfl⟩
  | versionedChainPropertiesUpdate h =>
      unfold Governance.versionedChainPropertiesUpdate at h
      split_ifs at h
      obtain rfl := Option.some.inj h
      exact ⟨Nat.le_refl _, .inr rfl⟩
  | validatorUpdate h =>
      unfold Governance.validatorUpdate at h
      split_ifs at h
      obtain rfl := Option.some.inj h
      exact ⟨Nat.le_refl _, .inr rfl⟩
  | updateMedianValidatorProps h =>
      obtain ⟨_, rfl | ⟨_, rfl⟩⟩ := updateMedianValidatorProps_eq_some h
      · exact ⟨Nat.le_refl _, .inl h⟩
      · exact ⟨Nat.le_refl _, .inl h⟩
  | syncCommittee => exact ⟨Nat.le_refl _, .inr rfl⟩
  | aside validators medianProps hardfork => exact ⟨hardfork, .inr medianProps⟩

/-- After an update the median is where the majority was, or there were no votes. -/
theorem updateMedianValidatorProps_within (hq : q ∈ numbers) (hfork : s.hasHardfork q.1 = true)
    (hagreed : s.active ≠ [] → s.Agreed q.2 lo hi) (h : s.updateMedianValidatorProps = some s') :
    s' = s ∨ lo ≤ q.2 s'.medianProps ∧ q.2 s'.medianProps ≤ hi := by
  obtain ⟨_, rfl | ⟨hne, rfl⟩⟩ := updateMedianValidatorProps_eq_some h
  · exact .inl rfl
  · refine .inr ?_
    have hsome : s.active ≠ [] := fun hnone => hne (hnone ▸ rfl)
    have hmost := hagreed hsome
    show lo ≤ q.2 (s.medians _) ∧ q.2 (s.medians _) ≤ hi
    rw [medians_number hq]
    unfold calcMedian
    rw [if_pos hfork]
    refine Medians.median_within ?_
    rw [List.length_map, List.length_map, List.countP_map, List.countP_map]
    exact hmost

end Majorities

end Governance

/-! ## The sample vote -/

namespace Sample

/-- Three validators after hardfork 13, and nobody has voted yet. -/
def governed : Governance where
  hardfork                 := 13
  accounts                 := [1, 2, 3]
  emergencyConsensusActive := false
  validators               := ⟨[1, 2, 3], fun _ => {}, by decide⟩
  scheduled                := [1, 2, 3]
  medianProps              := {}

/-- A vote for the largest blocks. -/
def largestBlocks : ChainPropertiesInit := { maximumBlockSize := Config.maxBlockSizeLimit }

/-- The second validator votes for the largest blocks. -/
def outvoted : Governance := governed.vote 2 (fun w => (VersionedChainProperties.init largestBlocks).assign w)

theorem outvoted_step : Governance.Step governed outvoted :=
  .chainPropertiesUpdate (show governed.chainPropertiesUpdate 2 largestBlocks = some outvoted from rfl)

theorem governed_sound : governed.Sound := ⟨by decide, by decide⟩

end Sample

end VizNode
