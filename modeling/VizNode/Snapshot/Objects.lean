import VizNode.Protocol
import VizNode.Lib.Table

/-!
# `VizNode.Snapshot.Objects` — the objects of a snapshot

A snapshot holds the objects of the chain state, type by type, each as a list of named members. **Three lists of
members meet here**: those an object has, those that are written when it is exported, and those that are read when
it is imported. A member that is missing in one of the last two is left as the constructor of the object made it.

## Contents
- **Types and members.** `ObjectType`, `Member`, and the three lists `slots`, `exported`, `imported`.
- **Export.** `serializeState`.
- **Import.** `loadSnapshot`: the clearing pass, the sections, the healing pass, and the head as irreversible block.
-/

namespace VizNode

namespace Snapshot

/-! ## Types and members -/

/-- The value of a member: a number (amounts, times, ids and flags are numbers), or the text of anything else. -/
inductive Value where
  | int (n : Int)
  | text (s : String)
deriving DecidableEq

/-- The object types of the chain, in the order of export and import. -/
inductive ObjectType where
  | dynamicGlobalProperty | validatorSchedule | hardforkProperty | account | accountAuthority | validator
  | validatorVote | blockSummary | content | contentVote | validatorConfirmation | transaction | vestingDelegation
  | vestingDelegationExpiration | fixVestingDelegation | withdrawVestingRoute | escrow | proposal
  | requiredApproval | committeeRequest | committeeVote | invite | awardSharesExpire | paidSubscription
  | paidSubscribe | validatorPenaltyExpire | contentType | accountMetadata | masterAuthorityHistory
  | accountRecoveryRequest | changeRecoveryAccountRequest
deriving DecidableEq

/-- The names of members. -/
inductive Member where
  | absRshares | account | accountOfferPrice | accountOnAuction | accountOnSale | accountOnSaleStartTime
  | accountSeller | accountToRecover | active | agent | agentApproved | amount | author | authorRewards | autoRenewal
  | autoVest | availableActiveApprovals | availableKeyApprovals | availableMasterApprovals
  | availableRegularApprovals | averageBandwidth | averageBlockSize | awardedRshares | balance
  | bandwidthReserveCandidates | benefactorAwards | beneficiaries | beneficiaryPayoutValue | blockId | blockNum
  | body | cashoutTime | children | childrenRshares | claimTime | claimedBalance | committeeFund | committeeRequests
  | conclusionPayoutAmount | conclusionTime | consensusCurationPercent | content | contentCount | countedVotes
  | createTime | created | creator | curationPercent | curationRewards | curatorPayoutValue | currentAslot
  | currentBid | currentBidder | currentBidderKey | currentHardforkVersion | currentReserveRatio | currentRun
  | currentShuffledValidators | currentShuffledValidatorsValidations | currentSupply | currentValidator
  | currentVirtualTime | customSequence | customSequenceBlockNum | delegatedVestingShares | delegatee | delegator
  | depth | disputed | duration | effectiveOn | emergencyConsensusActive | emergencyConsensusStartBlock | endTime
  | energy | escrowExpiration | escrowId | expiration | expirationTime | expires | fromAccount | from_ | genesisTime
  | hardforkTimeVote | hardforkVersionVote | headBlockId | headBlockNumber | inflationCalcBlockNum | inflationRatio
  | inflationValidatorPercent | inviteKey | inviteSecret | jsonMetadata | lastAccountRecovery | lastAccountUpdate
  | lastAslot | lastBandwidthUpdate | lastBid | lastConfirmedBlockNum | lastHardfork | lastIrreversibleBlockId
  | lastIrreversibleBlockNum | lastIrreversibleBlockRefNum | lastIrreversibleBlockRefPrefix | lastMasterUpdate
  | lastPayout | lastPayoutTime | lastPost | lastRootPost | lastSupportedBlockNum | lastUpdate | lastValidTime
  | lastVoteTime | lastWork | level | levels | lifetimeBandwidth | majorityVersion | master | maxVirtualBandwidth
  | maximumBlockSize | medianProps | memo | memoKey | minDelegationTime | name | netRshares | netVotes
  | newMasterAuthority | nextHardfork | nextHardforkTime | nextShuffleBlockNum | nextTime | nextVestingWithdrawal
  | numChanges | numScheduledValidators | owner | packedTrx | parentAuthor | parentPermlink | participationCount
  | payoutAmount | payoutTime | payoutValue | penaltyPercent | pendingFee | pendingStakeholderReward | percent
  | period | permlink | postingRewards | previousMasterAuthority | processedHardforks | proposal
  | proposedOperations | props | proxiedVsfVotes | proxy | ratificationDeadline | receivedVestingShares | receiver
  | receiverAwards | recentSlotsFilled | recoveryAccount | referrer | regular | remainPayoutAmount | requestId
  | requiredActiveApprovals | requiredAmountMax | requiredAmountMin | requiredMasterApprovals
  | requiredRegularApprovals | reservedBalance | reviewPeriodTime | rootContent | rshares | runningVersion
  | schedule | sharesPayoutValue | sharingRate | signingKey | startTime | status | subaccountOfferPrice
  | subaccountOnSale | subaccountSeller | subcontentCount | subscriber | targetBuyer | time | title | to | toAccount
  | toApproved | toWithdraw | tokenBalance | totalMissed | totalRewardFund | totalRewardShares | totalVestingFund
  | totalVestingShares | totalVoteWeight | trxId | updateTime | url | valid | validator | validatorsVoteWeight
  | validatorsVotedFor | vestingShares | vestingWithdrawRate | virtualLastUpdate | virtualPosition
  | virtualScheduledTime | voteCount | voteCreatedBlock | votePercent | voteRegenerationPerDay | voteRshares | voter
  | votes | votesCount | weight | withdrawRoutes | withdrawn | worker
deriving DecidableEq

/-- A member of an object with what the constructor leaves in it. -/
structure Slot where
  member  : Member
  initial : Value

/-- Members that start as zero. -/
def ints (ms : List Member) : List Slot := ms.map (⟨·, .int 0⟩)

/-- Members that start empty. -/
def texts (ms : List Member) : List Slot := ms.map (⟨·, .text ""⟩)

/-- **The members of an object**, besides its id. -/
def ObjectType.slots : ObjectType → List Slot
  | .dynamicGlobalProperty =>
      texts [.headBlockId, .currentValidator, .lastIrreversibleBlockId] ++
      ints [
        .headBlockNumber, .genesisTime, .time, .committeeFund, .committeeRequests, .currentSupply,
        .totalVestingFund, .totalVestingShares, .totalRewardFund, .totalRewardShares, .inflationCalcBlockNum,
        .inflationValidatorPercent, .inflationRatio, .averageBlockSize, .maximumBlockSize, .currentAslot,
        .recentSlotsFilled, .participationCount, .lastIrreversibleBlockNum, .lastIrreversibleBlockRefNum,
        .lastIrreversibleBlockRefPrefix, .maxVirtualBandwidth, .emergencyConsensusActive,
        .emergencyConsensusStartBlock] ++
      [⟨.currentReserveRatio, .int 1⟩, ⟨.voteRegenerationPerDay, .int 1⟩, ⟨.bandwidthReserveCandidates, .int 1⟩]
  | .validatorSchedule =>
      texts [.currentShuffledValidators, .medianProps, .majorityVersion] ++
      ints [.currentVirtualTime] ++
      [⟨.nextShuffleBlockNum, .int 1⟩, ⟨.numScheduledValidators, .int 1⟩]
  | .hardforkProperty =>
      texts [.processedHardforks, .currentHardforkVersion, .nextHardfork] ++
      ints [.lastHardfork, .nextHardforkTime]
  | .account =>
      texts [
        .name, .memoKey, .proxy, .referrer, .recoveryAccount, .proxiedVsfVotes, .accountSeller, .targetBuyer,
        .currentBidder, .currentBidderKey, .subaccountSeller] ++
      ints [
        .lastAccountUpdate, .created, .lastAccountRecovery, .subcontentCount, .voteCount, .contentCount,
        .awardedRshares, .customSequence, .customSequenceBlockNum, .lastVoteTime, .balance, .curationRewards,
        .postingRewards, .receiverAwards, .benefactorAwards, .vestingShares, .delegatedVestingShares,
        .receivedVestingShares, .vestingWithdrawRate, .withdrawn, .toWithdraw, .withdrawRoutes,
        .validatorsVotedFor, .validatorsVoteWeight, .lastRootPost, .lastPost, .averageBandwidth,
        .lifetimeBandwidth, .lastBandwidthUpdate, .accountOfferPrice, .accountOnSale, .accountOnSaleStartTime,
        .reservedBalance, .accountOnAuction, .currentBid, .lastBid, .subaccountOfferPrice, .subaccountOnSale] ++
      [⟨.energy, .int 10000⟩, ⟨.nextVestingWithdrawal, .int (2 ^ 32 - 1)⟩, ⟨.valid, .int 1⟩]
  | .accountAuthority => texts [.account, .master, .active, .regular] ++ ints [.lastMasterUpdate]
  | .validator =>
      texts [.owner, .url, .signingKey, .props, .lastWork, .runningVersion, .hardforkVersionVote] ++
      ints [
        .created, .totalMissed, .lastAslot, .lastConfirmedBlockNum, .currentRun, .lastSupportedBlockNum, .votes,
        .penaltyPercent, .countedVotes, .schedule, .virtualLastUpdate, .virtualPosition, .sharingRate,
        .pendingStakeholderReward, .hardforkTimeVote] ++
      [⟨.virtualScheduledTime, .int (2 ^ 128 - 1)⟩]
  | .validatorVote => ints [.validator, .account, .voteCreatedBlock]
  | .blockSummary => texts [.blockId]
  | .content =>
      texts [.parentAuthor, .parentPermlink, .author, .permlink, .beneficiaries] ++
      ints [
        .lastUpdate, .created, .active, .lastPayout, .depth, .children, .childrenRshares, .netRshares,
        .absRshares, .voteRshares, .cashoutTime, .totalVoteWeight, .curationPercent, .consensusCurationPercent,
        .payoutValue, .sharesPayoutValue, .curatorPayoutValue, .beneficiaryPayoutValue, .authorRewards,
        .netVotes, .rootContent]
  | .contentVote => ints [.voter, .content, .weight, .rshares, .votePercent, .lastUpdate, .numChanges]
  | .validatorConfirmation =>
      texts [.blockId, .currentShuffledValidators, .currentShuffledValidatorsValidations] ++
      ints [.blockNum]
  | .transaction => texts [.packedTrx, .trxId] ++ ints [.expiration]
  | .vestingDelegation => texts [.delegator, .delegatee] ++ ints [.vestingShares, .minDelegationTime]
  | .vestingDelegationExpiration => texts [.delegator] ++ ints [.vestingShares, .expiration]
  | .fixVestingDelegation => texts [.delegator, .delegatee] ++ ints [.vestingShares]
  | .withdrawVestingRoute => ints [.fromAccount, .toAccount, .percent, .autoVest]
  | .escrow =>
      texts [.from_, .to, .agent] ++
      ints [
        .ratificationDeadline, .escrowExpiration, .tokenBalance, .pendingFee, .toApproved, .agentApproved,
        .disputed] ++
      [⟨.escrowId, .int 20⟩]
  | .proposal =>
      texts [
        .author, .title, .memo, .reviewPeriodTime, .proposedOperations, .requiredActiveApprovals,
        .availableActiveApprovals, .requiredMasterApprovals, .availableMasterApprovals,
        .requiredRegularApprovals, .availableRegularApprovals, .availableKeyApprovals] ++
      ints [.expirationTime]
  | .requiredApproval => texts [.account] ++ ints [.proposal]
  | .committeeRequest =>
      texts [.url, .creator, .worker] ++
      ints [
        .requestId, .requiredAmountMin, .requiredAmountMax, .startTime, .duration, .endTime, .status,
        .votesCount, .conclusionTime, .conclusionPayoutAmount, .payoutAmount, .remainPayoutAmount,
        .lastPayoutTime, .payoutTime]
  | .committeeVote => texts [.voter] ++ ints [.requestId, .votePercent, .lastUpdate]
  | .invite =>
      texts [.creator, .receiver, .inviteKey, .inviteSecret] ++
      ints [.balance, .claimedBalance, .createTime, .claimTime, .status]
  | .awardSharesExpire => ints [.expires, .rshares]
  | .paidSubscription => texts [.creator, .url] ++ ints [.levels, .amount, .period, .updateTime]
  | .paidSubscribe =>
      texts [.subscriber, .creator] ++
      ints [.level, .amount, .period, .startTime, .nextTime, .endTime, .active, .autoRenewal]
  | .validatorPenaltyExpire => texts [.validator] ++ ints [.penaltyPercent, .expires]
  | .contentType => texts [.title, .body, .jsonMetadata] ++ ints [.content]
  | .accountMetadata => texts [.account, .jsonMetadata]
  | .masterAuthorityHistory => texts [.account, .previousMasterAuthority] ++ ints [.lastValidTime]
  | .accountRecoveryRequest => texts [.accountToRecover, .newMasterAuthority] ++ ints [.expires]
  | .changeRecoveryAccountRequest => texts [.accountToRecover, .recoveryAccount] ++ ints [.effectiveOn]

/-- **The members that are exported**: the `FC_REFLECT` list of the type, and for proposals the names of the custom
    export. The id is exported with every object. -/
def ObjectType.exported : ObjectType → List Member
  | .dynamicGlobalProperty => [
        .headBlockNumber, .headBlockId, .genesisTime, .time, .currentValidator, .committeeFund,
        .committeeRequests, .currentSupply, .totalVestingFund, .totalVestingShares, .totalRewardFund,
        .totalRewardShares, .averageBlockSize, .maximumBlockSize, .currentAslot, .recentSlotsFilled,
        .participationCount, .lastIrreversibleBlockNum, .lastIrreversibleBlockId, .lastIrreversibleBlockRefNum,
        .lastIrreversibleBlockRefPrefix, .maxVirtualBandwidth, .currentReserveRatio, .voteRegenerationPerDay,
        .bandwidthReserveCandidates, .inflationCalcBlockNum, .inflationValidatorPercent, .inflationRatio,
        .emergencyConsensusActive, .emergencyConsensusStartBlock]
  | .validatorSchedule => [
        .currentVirtualTime, .nextShuffleBlockNum, .currentShuffledValidators, .numScheduledValidators,
        .medianProps, .majorityVersion]
  | .hardforkProperty => [.processedHardforks, .lastHardfork, .currentHardforkVersion, .nextHardfork, .nextHardforkTime]
  | .account => [
        .name, .memoKey, .proxy, .referrer, .lastAccountUpdate, .created, .recoveryAccount, .lastAccountRecovery,
        .subcontentCount, .voteCount, .contentCount, .awardedRshares, .customSequence, .customSequenceBlockNum,
        .energy, .lastVoteTime, .balance, .vestingShares, .delegatedVestingShares, .receivedVestingShares,
        .vestingWithdrawRate, .nextVestingWithdrawal, .withdrawn, .toWithdraw, .withdrawRoutes, .curationRewards,
        .postingRewards, .proxiedVsfVotes, .validatorsVotedFor, .lastRootPost, .lastPost, .averageBandwidth,
        .lifetimeBandwidth, .lastBandwidthUpdate, .valid, .accountSeller, .accountOfferPrice, .accountOnSale,
        .accountOnSaleStartTime, .reservedBalance, .targetBuyer, .accountOnAuction, .currentBid, .currentBidder,
        .currentBidderKey, .lastBid, .subaccountSeller, .subaccountOfferPrice, .subaccountOnSale]
  | .accountAuthority => [.account, .master, .active, .regular, .lastMasterUpdate]
  | .validator => [
        .owner, .created, .url, .votes, .penaltyPercent, .countedVotes, .schedule, .virtualLastUpdate,
        .virtualPosition, .virtualScheduledTime, .totalMissed, .lastAslot, .lastConfirmedBlockNum, .currentRun,
        .lastSupportedBlockNum, .signingKey, .props, .lastWork, .runningVersion, .hardforkVersionVote,
        .hardforkTimeVote, .sharingRate, .pendingStakeholderReward]
  | .validatorVote => [.validator, .account, .voteCreatedBlock]
  | .blockSummary => [.blockId]
  | .content => [
        .parentAuthor, .parentPermlink, .author, .permlink, .lastUpdate, .created, .active, .lastPayout, .depth,
        .children, .childrenRshares, .netRshares, .absRshares, .voteRshares, .cashoutTime, .totalVoteWeight,
        .curationPercent, .consensusCurationPercent, .payoutValue, .sharesPayoutValue, .curatorPayoutValue,
        .beneficiaryPayoutValue, .authorRewards, .netVotes, .rootContent, .beneficiaries]
  | .contentVote => [.voter, .content, .weight, .rshares, .votePercent, .lastUpdate, .numChanges]
  | .validatorConfirmation => [.blockNum, .blockId, .currentShuffledValidators, .currentShuffledValidatorsValidations]
  | .transaction => [.packedTrx, .trxId, .expiration]
  | .vestingDelegation => [.delegator, .delegatee, .vestingShares, .minDelegationTime]
  | .vestingDelegationExpiration => [.delegator, .vestingShares, .expiration]
  | .fixVestingDelegation => [.delegator, .delegatee, .vestingShares]
  | .withdrawVestingRoute => [.fromAccount, .toAccount, .percent, .autoVest]
  | .escrow => [
        .escrowId, .from_, .to, .agent, .ratificationDeadline, .escrowExpiration, .tokenBalance, .pendingFee,
        .toApproved, .agentApproved, .disputed]
  | .proposal => [
        .author, .title, .memo, .expirationTime, .reviewPeriodTime, .proposedOperations,
        .requiredActiveApprovals, .availableActiveApprovals, .requiredMasterApprovals, .availableMasterApprovals,
        .requiredRegularApprovals, .availableRegularApprovals, .availableKeyApprovals]
  | .requiredApproval => [.account, .proposal]
  | .committeeRequest => [
        .requestId, .url, .creator, .worker, .requiredAmountMin, .requiredAmountMax, .startTime, .duration,
        .endTime, .status, .votesCount, .conclusionTime, .conclusionPayoutAmount, .payoutAmount,
        .remainPayoutAmount, .lastPayoutTime, .payoutTime]
  | .committeeVote => [.requestId, .voter, .votePercent, .lastUpdate]
  | .invite => [
        .creator, .receiver, .inviteKey, .inviteSecret, .balance, .claimedBalance, .createTime, .claimTime,
        .status]
  | .awardSharesExpire => [.expires, .rshares]
  | .paidSubscription => [.creator, .levels, .amount, .period, .url, .updateTime]
  | .paidSubscribe => [
        .subscriber, .creator, .level, .amount, .period, .startTime, .nextTime, .endTime, .active, .autoRenewal]
  | .validatorPenaltyExpire => [.validator, .penaltyPercent, .expires]
  | .contentType => [.content, .title, .body, .jsonMetadata]
  | .accountMetadata => [.account, .jsonMetadata]
  | .masterAuthorityHistory => [.account, .previousMasterAuthority, .lastValidTime]
  | .accountRecoveryRequest => [.accountToRecover, .newMasterAuthority, .expires]
  | .changeRecoveryAccountRequest => [.accountToRecover, .recoveryAccount, .effectiveOn]

/-- How an importer reads one member: it must be there, it is left alone if it is not, or it becomes zero then. -/
inductive Field where
  | required (m : Member)
  | optional (m : Member)
  | defaulted (m : Member)
deriving DecidableEq

def required (ms : List Member) : List Field := ms.map .required
def optional (ms : List Member) : List Field := ms.map .optional
def defaulted (ms : List Member) : List Field := ms.map .defaulted

/-- **The members that are imported**, field by field as the `import_` function of the type copies them. -/
def ObjectType.imported : ObjectType → List Field
  | .dynamicGlobalProperty =>
      required [
        .headBlockNumber, .headBlockId, .genesisTime, .time, .currentValidator, .committeeFund,
        .committeeRequests, .currentSupply, .totalVestingFund, .totalVestingShares, .totalRewardFund,
        .totalRewardShares, .averageBlockSize, .maximumBlockSize, .currentAslot, .recentSlotsFilled,
        .participationCount, .lastIrreversibleBlockNum, .lastIrreversibleBlockId, .lastIrreversibleBlockRefNum,
        .lastIrreversibleBlockRefPrefix, .maxVirtualBandwidth, .currentReserveRatio, .voteRegenerationPerDay,
        .bandwidthReserveCandidates, .inflationCalcBlockNum, .inflationValidatorPercent, .inflationRatio] ++
      defaulted [.emergencyConsensusActive, .emergencyConsensusStartBlock]
  | .hardforkProperty =>
      required [.processedHardforks, .lastHardfork, .currentHardforkVersion, .nextHardfork, .nextHardforkTime]
  | .accountAuthority => required [.account, .master, .active, .regular, .lastMasterUpdate]
  | .validator =>
      required [
        .owner, .created, .url, .totalMissed, .lastAslot, .lastConfirmedBlockNum, .currentRun,
        .lastSupportedBlockNum, .signingKey, .props, .votes, .penaltyPercent, .countedVotes, .schedule,
        .virtualLastUpdate, .virtualPosition, .virtualScheduledTime, .lastWork, .runningVersion,
        .hardforkVersionVote, .hardforkTimeVote] ++
      optional [.sharingRate, .pendingStakeholderReward]
  | .validatorVote => required [.account] ++ optional [.validator, .voteCreatedBlock]
  | .blockSummary => required [.blockId]
  | .content =>
      required [
        .parentAuthor, .parentPermlink, .author, .permlink, .lastUpdate, .created, .active, .lastPayout, .depth,
        .children, .childrenRshares, .netRshares, .absRshares, .voteRshares, .cashoutTime, .totalVoteWeight,
        .curationPercent, .consensusCurationPercent, .payoutValue, .sharesPayoutValue, .curatorPayoutValue,
        .beneficiaryPayoutValue, .authorRewards, .netVotes, .rootContent, .beneficiaries]
  | .contentVote => required [.voter, .content, .weight, .rshares, .votePercent, .lastUpdate, .numChanges]
  | .transaction => required [.packedTrx, .trxId, .expiration]
  | .proposal =>
      required [
        .author, .title, .memo, .expirationTime, .proposedOperations, .requiredActiveApprovals,
        .availableActiveApprovals, .requiredMasterApprovals, .availableMasterApprovals,
        .requiredRegularApprovals, .availableRegularApprovals, .availableKeyApprovals] ++
      optional [.reviewPeriodTime]
  | .committeeRequest =>
      required [
        .requestId, .url, .creator, .worker, .requiredAmountMin, .requiredAmountMax, .startTime, .duration,
        .endTime, .status, .votesCount, .conclusionTime, .conclusionPayoutAmount, .payoutAmount,
        .remainPayoutAmount, .lastPayoutTime, .payoutTime]
  | .invite =>
      required [
        .creator, .receiver, .inviteKey, .inviteSecret, .balance, .claimedBalance, .createTime, .claimTime,
        .status]
  | .paidSubscription => required [.creator, .url, .levels, .amount, .period, .updateTime]
  | .validatorPenaltyExpire => required [.penaltyPercent, .expires] ++ optional [.validator]
  | .contentType => required [.content, .title, .body, .jsonMetadata]
  | .accountMetadata => required [.account, .jsonMetadata]
  | .masterAuthorityHistory => required [.account, .previousMasterAuthority, .lastValidTime]
  | .accountRecoveryRequest => required [.accountToRecover, .newMasterAuthority, .expires]
  -- `fc::from_variant`: whatever member the type is reflected with
  | t => optional t.exported

/-- Every type has exactly one object, or as many as there are. -/
def ObjectType.isSingleton : ObjectType → Bool
  | .dynamicGlobalProperty | .validatorSchedule | .hardforkProperty => true
  | _ => false

/-- The types in the order of their sections. -/
def ObjectType.all : List ObjectType := [
  .dynamicGlobalProperty, .validatorSchedule, .hardforkProperty, .account, .accountAuthority, .validator,
  .validatorVote, .blockSummary, .content, .contentVote, .validatorConfirmation, .transaction, .vestingDelegation,
  .vestingDelegationExpiration, .fixVestingDelegation, .withdrawVestingRoute, .escrow, .proposal, .requiredApproval,
  .committeeRequest, .committeeVote, .invite, .awardSharesExpire, .paidSubscription, .paidSubscribe,
  .validatorPenaltyExpire, .contentType, .accountMetadata, .masterAuthorityHistory, .accountRecoveryRequest,
  .changeRecoveryAccountRequest]

/-! ## Export -/

/-- An object: a value for each of its members. -/
abbrev Row := Member → Value

/-- The objects of the chain state, a table for each type. -/
abbrev Objects := ObjectType → Table Nat Row

/-- **The conversion of members to variants**, with the one that takes it back. -/
structure Conversion (Variant : Type) where
  toVariant   : Value → Variant
  fromVariant : Variant → Option Value
  inverse     : ∀ x, fromVariant (toVariant x) = some x

/-- An exported object. -/
structure ObjectVariant (Variant : Type) where
  id      : Nat
  members : List (Member × Variant)

/-- The state section of a snapshot. -/
abbrev State (Variant : Type) := ObjectType → Option (List (ObjectVariant Variant))

section Operations

variable {Variant : Type} (C : Conversion Variant)

/-- `fc::to_variant`. -/
def exportObject (t : ObjectType) (table : Table Nat Row) (id : Nat) : ObjectVariant Variant :=
  { id := id, members := t.exported.map fun m => (m, C.toVariant (table.row id m)) }

/-- The transactions of the index that are not pending. -/
def confirmedIds (pending : List Value) (table : Table Nat Row) : List Nat :=
  table.keys.filter fun id => decide (table.row id .trxId ∉ pending)

/-- **`serialize_state`**: every index, and of the transactions those that are not pending. -/
def serializeState (pending : List Value) (objects : Objects) : State Variant := fun t =>
  let ids := if t = .transaction then confirmedIds pending (objects t) else (objects t).keys
  some (ids.map (exportObject C t (objects t)))

/-! ## Import -/

inductive ImportError where
  | keyNotFound
  | badCast
  | wrongCount
  | noObject
  | duplicateId
deriving DecidableEq

/-- A member is set from a variant. -/
def setMember (row : Row) (m : Member) (x : Variant) : Except ImportError Row :=
  match C.fromVariant x with
  | none   => .error .badCast
  | some v => .ok (Function.update row m v)

/-- One member is read. -/
def readField (members : List (Member × Variant)) (row : Row) : Field → Except ImportError Row
  | .required m  =>
      match members.lookup m with
      | none   => .error .keyNotFound
      | some x => setMember C row m x
  | .optional m  =>
      match members.lookup m with
      | none   => .ok row
      | some x => setMember C row m x
  | .defaulted m =>
      match members.lookup m with
      | none   => .ok (Function.update row m (.int 0))
      | some x => setMember C row m x

/-- The members are read one after the other. -/
def readObject (t : ObjectType) (v : ObjectVariant Variant) (row : Row) : Except ImportError Row :=
  t.imported.foldlM (readField C v.members) row

/-- What the constructor makes. -/
def initialRow (t : ObjectType) : Row := fun m =>
  match t.slots.find? fun s => decide (s.member = m) with
  | some s => s.initial
  | none   => .int 0

/-- The one object of a type is modified. -/
def importSingleton (t : ObjectType) (vs : List (ObjectVariant Variant)) (table : Table Nat Row) :
    Except ImportError (Table Nat Row) :=
  match vs with
  | [v] =>
      match table.keys with
      | []     => .error .noObject
      | k :: _ => do
          let row ← readObject C t v (table.row k)
          return table.modify k fun _ => row
  | _   => .error .wrongCount

/-- An object is created with the id it was exported with. A block summary that is there is modified instead. -/
def importObject (t : ObjectType) (table : Table Nat Row) (v : ObjectVariant Variant) :
    Except ImportError (Table Nat Row) :=
  if v.id ∈ table.keys then
    if t = .blockSummary then do
      let row ← readObject C t v (table.row v.id)
      return table.modify v.id fun _ => row
    else .error .duplicateId
  else do
    let row ← readObject C t v (initialRow t)
    return table.insert v.id row

/-- The table of a section. -/
def importTable (t : ObjectType) (vs : List (ObjectVariant Variant)) (table : Table Nat Row) :
    Except ImportError (Table Nat Row) :=
  if t.isSingleton then importSingleton C t vs table else vs.foldlM (importObject C t) table

/-- A section, if the snapshot has it. -/
def importSection (state : State Variant) (objects : Objects) (t : ObjectType) : Except ImportError Objects :=
  match state t with
  | none    => .ok objects
  | some vs => do
      let table ← importTable C t vs (objects t)
      return Function.update objects t table

end Operations

/-- The clearing pass: every object is removed, except the three that there is one of. -/
def clearObjects (objects : Objects) : Objects := fun t =>
  if t.isSingleton then objects t else (objects t).keys.foldl Table.erase (objects t)

/-- The number is positive. -/
def Value.positive : Value → Bool
  | .int n  => decide (0 < n)
  | .text _ => false

/-- A validator has a penalty, and no object that takes it back. -/
def Orphaned (records : Table Nat Row) (row : Row) : Prop :=
  (row .penaltyPercent).positive = true ∧ ∀ id ∈ records.keys, records.row id .validator ≠ row .owner

instance (records : Table Nat Row) (row : Row) : Decidable (Orphaned records row) :=
  inferInstanceAs (Decidable (_ ∧ _))

/-- The penalty is reset, and the votes count in full. -/
def heal (records : Table Nat Row) (row : Row) : Row :=
  if Orphaned records row then
    Function.update (Function.update row .penaltyPercent (.int 0)) .countedVotes (row .votes)
  else row

/-- The healing pass. -/
def selfHeal (objects : Objects) : Objects :=
  Function.update objects .validator ((objects .validator).mapRows (heal (objects .validatorPenaltyExpire)))

/-- The head becomes the last irreversible block, of unknown id. -/
def promoteHead (objects : Objects) : Objects :=
  Function.update objects .dynamicGlobalProperty ((objects .dynamicGlobalProperty).mapRows fun row =>
    let row := Function.update row .lastIrreversibleBlockNum (row .headBlockNumber)
    let row := Function.update row .lastIrreversibleBlockId (.text "")
    let row := Function.update row .lastIrreversibleBlockRefNum (.int 0)
    Function.update row .lastIrreversibleBlockRefPrefix (.int 0))

/-- **`load_snapshot`**, behind the checks of the header. -/
def loadSnapshot {Variant : Type} (C : Conversion Variant) (state : State Variant) (objects : Objects) :
    Except ImportError Objects := do
  let imported ← ObjectType.all.foldlM (importSection C state) (clearObjects objects)
  return promoteHead (selfHeal imported)

end Snapshot

end VizNode
