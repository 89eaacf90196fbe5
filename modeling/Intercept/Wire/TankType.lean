import Intercept.Wire.CodecError

/-!
# Intercept.Wire.TankType

The closed set of tank packet sub-types. A sub-type's wire code is its
position in the list `TankType.all`, and its name is what interests call it by.
-/

namespace Intercept

/-- Sub-type of a tank packet. -/
inductive TankType where
  | state
  | callFunction
  | updateStatus
  | tileChangeRequest
  | sendMapData
  | sendTileUpdateData
  | sendTileUpdateDataMultiple
  | tileActivateRequest
  | tileApplyDamage
  | sendInventoryState
  | itemActivateRequest
  | itemActivateObjectRequest
  | sendTileTreeState
  | modifyItemInventory
  | itemChangeObject
  | sendLock
  | sendItemDatabaseData
  | sendParticleEffect
  | setIconState
  | itemEffect
  | setCharacterState
  | pingReply
  | pingRequest
  | gotPunched
  | appCheckResponse
  | appIntegrityFail
  | disconnect
  | battleJoin
  | battleEvent
  | useDoor
  | sendParental
  | goneFishin
  | steam
  | petBattle
  | npc
  | special
  | sendParticleEffectV2
  | activateArrowToItem
  | selectTileIndex
  | sendPlayerTributeData
  | ftueSetItemToQuickInventory
  | pveNpc
  | pvpCardBattle
  | pveApplyPlayerDamage
  | pveNpcPositionUpdate
  | setExtraMods
  | onStepTileMod
deriving DecidableEq, Repr

namespace TankType

/-- Every sub-type, in the order of the wire codes. -/
def all : List TankType := [
  .state, .callFunction, .updateStatus, .tileChangeRequest, .sendMapData, .sendTileUpdateData,
  .sendTileUpdateDataMultiple, .tileActivateRequest, .tileApplyDamage, .sendInventoryState,
  .itemActivateRequest, .itemActivateObjectRequest, .sendTileTreeState, .modifyItemInventory,
  .itemChangeObject, .sendLock, .sendItemDatabaseData, .sendParticleEffect, .setIconState,
  .itemEffect, .setCharacterState, .pingReply, .pingRequest, .gotPunched, .appCheckResponse,
  .appIntegrityFail, .disconnect, .battleJoin, .battleEvent, .useDoor, .sendParental, .goneFishin,
  .steam, .petBattle, .npc, .special, .sendParticleEffectV2, .activateArrowToItem,
  .selectTileIndex, .sendPlayerTributeData, .ftueSetItemToQuickInventory, .pveNpc, .pvpCardBattle,
  .pveApplyPlayerDamage, .pveNpcPositionUpdate, .setExtraMods, .onStepTileMod]

/-- The name of a sub-type. -/
def name : TankType → String
  | .state => "STATE"
  | .callFunction => "CALL_FUNCTION"
  | .updateStatus => "UPDATE_STATUS"
  | .tileChangeRequest => "TILE_CHANGE_REQUEST"
  | .sendMapData => "SEND_MAP_DATA"
  | .sendTileUpdateData => "SEND_TILE_UPDATE_DATA"
  | .sendTileUpdateDataMultiple => "SEND_TILE_UPDATE_DATA_MULTIPLE"
  | .tileActivateRequest => "TILE_ACTIVATE_REQUEST"
  | .tileApplyDamage => "TILE_APPLY_DAMAGE"
  | .sendInventoryState => "SEND_INVENTORY_STATE"
  | .itemActivateRequest => "ITEM_ACTIVATE_REQUEST"
  | .itemActivateObjectRequest => "ITEM_ACTIVATE_OBJECT_REQUEST"
  | .sendTileTreeState => "SEND_TILE_TREE_STATE"
  | .modifyItemInventory => "MODIFY_ITEM_INVENTORY"
  | .itemChangeObject => "ITEM_CHANGE_OBJECT"
  | .sendLock => "SEND_LOCK"
  | .sendItemDatabaseData => "SEND_ITEM_DATABASE_DATA"
  | .sendParticleEffect => "SEND_PARTICLE_EFFECT"
  | .setIconState => "SET_ICON_STATE"
  | .itemEffect => "ITEM_EFFECT"
  | .setCharacterState => "SET_CHARACTER_STATE"
  | .pingReply => "PING_REPLY"
  | .pingRequest => "PING_REQUEST"
  | .gotPunched => "GOT_PUNCHED"
  | .appCheckResponse => "APP_CHECK_RESPONSE"
  | .appIntegrityFail => "APP_INTEGRITY_FAIL"
  | .disconnect => "DISCONNECT"
  | .battleJoin => "BATTLE_JOIN"
  | .battleEvent => "BATTLE_EVENT"
  | .useDoor => "USE_DOOR"
  | .sendParental => "SEND_PARENTAL"
  | .goneFishin => "GONE_FISHIN"
  | .steam => "STEAM"
  | .petBattle => "PET_BATTLE"
  | .npc => "NPC"
  | .special => "SPECIAL"
  | .sendParticleEffectV2 => "SEND_PARTICLE_EFFECT_V2"
  | .activateArrowToItem => "ACTIVATE_ARROW_TO_ITEM"
  | .selectTileIndex => "SELECT_TILE_INDEX"
  | .sendPlayerTributeData => "SEND_PLAYER_TRIBUTE_DATA"
  | .ftueSetItemToQuickInventory => "FTUE_SET_ITEM_TO_QUICK_INVENTORY"
  | .pveNpc => "PVE_NPC"
  | .pvpCardBattle => "PVP_CARD_BATTLE"
  | .pveApplyPlayerDamage => "PVE_APPLY_PLAYER_DAMAGE"
  | .pveNpcPositionUpdate => "PVE_NPC_POSITION_UPDATE"
  | .setExtraMods => "SET_EXTRA_MODS"
  | .onStepTileMod => "ON_STEP_TILE_MOD"

/-- The wire code of a sub-type. -/
def code (t : TankType) : UInt8 := UInt8.ofNat t.ctorIdx

/-- The sub-type with this wire code. -/
def ofCode? (c : UInt8) : Option TankType := all[c.toNat]?

/-- The sub-type with this name. -/
def ofName? (s : String) : Option TankType := all.find? (·.name = s)

theorem ofCode?_code (t : TankType) : ofCode? t.code = some t := by cases t <;> rfl

theorem ofCode?_isSome_iff (c : UInt8) : (ofCode? c).isSome ↔ c.toNat ≤ 46 := by
  simp [ofCode?, all]; omega

end TankType

end Intercept
