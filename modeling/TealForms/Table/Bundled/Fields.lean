import TealForms.Table

set_option autoImplicit false

namespace TealForms.Table.Bundled

def transactionFields : List Field := [
  ⟨"Sender", .address, none, 0⟩, ⟨"Fee", .uint64, none, 1⟩, ⟨"FirstValid", .uint64, none, 2⟩,
  ⟨"FirstValidTime", .uint64, none, 3⟩, ⟨"LastValid", .uint64, none, 4⟩, ⟨"Note", .bytes, none, 5⟩,
  ⟨"Lease", .bytes, none, 6⟩, ⟨"Receiver", .address, none, 7⟩, ⟨"Amount", .uint64, none, 8⟩,
  ⟨"CloseRemainderTo", .address, none, 9⟩, ⟨"VotePK", .bytes, none, 10⟩, ⟨"SelectionPK", .bytes, none, 11⟩,
  ⟨"VoteFirst", .uint64, none, 12⟩, ⟨"VoteLast", .uint64, none, 13⟩, ⟨"VoteKeyDilution", .uint64, none, 14⟩,
  ⟨"Type", .bytes, none, 15⟩, ⟨"TypeEnum", .uint64, none, 16⟩, ⟨"XferAsset", .uint64, none, 17⟩,
  ⟨"AssetAmount", .uint64, none, 18⟩, ⟨"AssetSender", .address, none, 19⟩,
  ⟨"AssetReceiver", .address, none, 20⟩, ⟨"AssetCloseTo", .address, none, 21⟩,
  ⟨"GroupIndex", .uint64, none, 22⟩, ⟨"TxID", .bytes, none, 23⟩, ⟨"ApplicationID", .uint64, none, 24⟩,
  ⟨"OnCompletion", .uint64, none, 25⟩, ⟨"ApplicationArgs", .bytes, none, 26⟩, ⟨"NumAppArgs", .uint64, none, 27⟩,
  ⟨"Accounts", .address, none, 28⟩, ⟨"NumAccounts", .uint64, none, 29⟩, ⟨"ApprovalProgram", .bytes, none, 30⟩,
  ⟨"ClearStateProgram", .bytes, none, 31⟩, ⟨"RekeyTo", .address, none, 32⟩, ⟨"ConfigAsset", .uint64, none, 33⟩,
  ⟨"ConfigAssetTotal", .uint64, none, 34⟩, ⟨"ConfigAssetDecimals", .uint64, none, 35⟩,
  ⟨"ConfigAssetDefaultFrozen", .bool, none, 36⟩, ⟨"ConfigAssetUnitName", .bytes, none, 37⟩,
  ⟨"ConfigAssetName", .bytes, none, 38⟩, ⟨"ConfigAssetURL", .bytes, none, 39⟩,
  ⟨"ConfigAssetMetadataHash", .bytes, none, 40⟩, ⟨"ConfigAssetManager", .address, none, 41⟩,
  ⟨"ConfigAssetReserve", .address, none, 42⟩, ⟨"ConfigAssetFreeze", .address, none, 43⟩,
  ⟨"ConfigAssetClawback", .address, none, 44⟩, ⟨"FreezeAsset", .uint64, none, 45⟩,
  ⟨"FreezeAssetAccount", .address, none, 46⟩, ⟨"FreezeAssetFrozen", .bool, none, 47⟩,
  ⟨"Assets", .uint64, none, 48⟩, ⟨"NumAssets", .uint64, none, 49⟩, ⟨"Applications", .uint64, none, 50⟩,
  ⟨"NumApplications", .uint64, none, 51⟩, ⟨"GlobalNumUint", .uint64, none, 52⟩,
  ⟨"GlobalNumByteSlice", .uint64, none, 53⟩, ⟨"LocalNumUint", .uint64, none, 54⟩,
  ⟨"LocalNumByteSlice", .uint64, none, 55⟩, ⟨"ExtraProgramPages", .uint64, none, 56⟩,
  ⟨"Nonparticipation", .bool, none, 57⟩, ⟨"Logs", .bytes, none, 58⟩, ⟨"NumLogs", .uint64, none, 59⟩,
  ⟨"CreatedAssetID", .uint64, none, 60⟩, ⟨"CreatedApplicationID", .uint64, none, 61⟩,
  ⟨"LastLog", .bytes, none, 62⟩, ⟨"StateProofPK", .bytes, none, 63⟩, ⟨"ApprovalProgramPages", .bytes, none, 64⟩,
  ⟨"NumApprovalProgramPages", .uint64, none, 65⟩, ⟨"ClearStateProgramPages", .bytes, none, 66⟩,
  ⟨"NumClearStateProgramPages", .uint64, none, 67⟩]

def globalFields : List Field := [
  ⟨"MinTxnFee", .uint64, none, 0⟩, ⟨"MinBalance", .uint64, none, 1⟩, ⟨"MaxTxnLife", .uint64, none, 2⟩,
  ⟨"ZeroAddress", .address, none, 3⟩, ⟨"GroupSize", .uint64, none, 4⟩, ⟨"LogicSigVersion", .uint64, none, 5⟩,
  ⟨"Round", .uint64, none, 6⟩, ⟨"LatestTimestamp", .uint64, none, 7⟩,
  ⟨"CurrentApplicationID", .uint64, none, 8⟩, ⟨"CreatorAddress", .address, none, 9⟩,
  ⟨"CurrentApplicationAddress", .address, none, 10⟩, ⟨"GroupID", .bytes, none, 11⟩,
  ⟨"OpcodeBudget", .uint64, none, 12⟩, ⟨"CallerApplicationID", .uint64, none, 13⟩,
  ⟨"CallerApplicationAddress", .address, none, 14⟩]

def assetHolding : List Field := [
  ⟨"AssetBalance", .uint64, none, 0⟩, ⟨"AssetFrozen", .bool, none, 1⟩]

def assetParameters : List Field := [
  ⟨"AssetTotal", .uint64, none, 0⟩, ⟨"AssetDecimals", .uint64, none, 1⟩, ⟨"AssetDefaultFrozen", .bool, none, 2⟩,
  ⟨"AssetUnitName", .bytes, none, 3⟩, ⟨"AssetName", .bytes, none, 4⟩, ⟨"AssetURL", .bytes, none, 5⟩,
  ⟨"AssetMetadataHash", .bytes, none, 6⟩, ⟨"AssetManager", .address, none, 7⟩,
  ⟨"AssetReserve", .address, none, 8⟩, ⟨"AssetFreeze", .address, none, 9⟩,
  ⟨"AssetClawback", .address, none, 10⟩, ⟨"AssetCreator", .address, none, 11⟩]

def applicationParameters : List Field := [
  ⟨"AppApprovalProgram", .bytes, none, 0⟩, ⟨"AppClearStateProgram", .bytes, none, 1⟩,
  ⟨"AppGlobalNumUint", .uint64, none, 2⟩, ⟨"AppGlobalNumByteSlice", .uint64, none, 3⟩,
  ⟨"AppLocalNumUint", .uint64, none, 4⟩, ⟨"AppLocalNumByteSlice", .uint64, none, 5⟩,
  ⟨"AppExtraProgramPages", .uint64, none, 6⟩, ⟨"AppCreator", .address, none, 7⟩,
  ⟨"AppAddress", .address, none, 8⟩]

def accountParameters : List Field := [
  ⟨"AcctBalance", .uint64, none, 0⟩, ⟨"AcctMinBalance", .uint64, none, 1⟩, ⟨"AcctAuthAddr", .address, none, 2⟩]

def base64Encodings : List Field := [
  ⟨"URLEncoding", .any, none, 0⟩, ⟨"StdEncoding", .any, none, 1⟩]

def jsonTypes : List Field := [
  ⟨"JSONString", .bytes, none, 0⟩, ⟨"JSONUint64", .uint64, none, 1⟩, ⟨"JSONObject", .bytes, none, 2⟩]

def fieldGroups : List (String × List Field) := [
  ("txn", transactionFields), ("global", globalFields), ("asset_holding", assetHolding),
  ("asset_params", assetParameters), ("app_params", applicationParameters), ("acct_params", accountParameters),
  ("base64", base64Encodings), ("json_ref", jsonTypes)]

end TealForms.Table.Bundled
