import UserSettings.Values
import Mathlib.Data.List.Nodup

/-!
# Setting records and the settings list

The record of a setting and the list of all registered settings. Buffers
have the registered size by their type. The two assertions of the add
function are what keeps identifiers and keys distinct, so the list carries
both facts; every later change goes through an update that cannot rename a
record. Allocation is not modelled: a failed one stops at an assertion.
-/

namespace UserSettings.Settings

open Bytes Values

/-- Error number of the C library: no such entry. -/
abbrev eNoEnt : ℤ := 2
/-- Input or output error. -/
abbrev eIo : ℤ := 5
/-- A command could not be executed. -/
abbrev eNoExec : ℤ := 8
/-- Not enough space. -/
abbrev eNoMem : ℤ := 12
/-- Invalid argument. -/
abbrev eInval : ℤ := 22
/-- Protocol error. -/
abbrev eProto : ℤ := 71
/-- The value was already set. -/
abbrev eAlready : ℤ := 120
/-- Not supported. -/
abbrev eNotSup : ℤ := 134

/-- Ways in which a run leaves the behaviour that C defines for it. -/
inductive Fault where
  /-- A failing assertion. -/
  | assertion
  /-- An access behind the end of an array. -/
  | overrun
  /-- A string function called on a null pointer. -/
  | nullPointer
  deriving DecidableEq

/-- Type of a user setting, in the order of the C enumeration. -/
inductive UserSettingType where
  | bool | u8 | u16 | u32 | u64 | i8 | i16 | i32 | i64 | str | bytes
  deriving DecidableEq

/-- The number of the type in the C enumeration. -/
def UserSettingType.toNat : UserSettingType → ℕ
  | .bool => 0
  | .u8 => 1
  | .u16 => 2
  | .u32 => 3
  | .u64 => 4
  | .i8 => 5
  | .i16 => 6
  | .i32 => 7
  | .i64 => 8
  | .str => 9
  | .bytes => 10

/-- Size in bytes of a type with a known fixed size; the other two types
stop at an assertion. -/
def prvTypeToSize : UserSettingType → Option ℕ
  | .bool | .u8 | .i8 => some 1
  | .u16 | .i16 => some 2
  | .u32 | .i32 => some 4
  | .u64 | .i64 => some 8
  | .str | .bytes => none

/-- True for the signed integer types. -/
def UserSettingType.isSigned : UserSettingType → Bool
  | .i8 | .i16 | .i32 | .i64 => true
  | .bool | .u8 | .u16 | .u32 | .u64 | .str | .bytes => false

/-- The integer read through a pointer to a type of some size. -/
def readAs (type : UserSettingType) (size : ℕ) (data : Mem) : ℤ :=
  loadInteger type.isSigned size data

/-- A function pointer to an on_change callback. Which function it is does
not matter here; what a callback does is a choice of the environment. -/
abbrev OnChangePtr := ℕ

/-- A validate callback: identifier, key, data pointer and length. -/
abbrev ValidateFn := UInt16 → CString → Mem → ℕ → Bool

/-- Internal representation of a user setting. -/
structure UserSetting where
  /-- The identifier, an alternative to the key. -/
  id : UInt16
  /-- The key, under which the setting is stored. -/
  key : CString
  /-- The type of the setting. -/
  type : UserSettingType
  /-- Maximum size in bytes. -/
  maxSize : ℕ
  /-- Space for the value. -/
  data : Buffer maxSize
  /-- The length in bytes of the data in use. -/
  dataLen : ℕ
  /-- True if the setting was set or loaded. -/
  isSet : Bool
  /-- Space for the default value. -/
  defaultData : Buffer maxSize
  /-- The length in bytes of the default data. -/
  defaultDataLen : ℕ
  /-- True if a default value has been provided. -/
  defaultIsSet : Bool
  /-- True when the setting data was changed since the flag was cleared. -/
  hasChangedRecently : Bool
  /-- On change callback of this setting, if any. -/
  onChangeCb : Option OnChangePtr
  /-- Validate callback of this setting, if any. -/
  validateCb : Option ValidateFn

namespace UserSetting

/-- The record as the add function initializes it. -/
def fresh (id : UInt16) (key : CString) (type : UserSettingType) (size : ℕ) : UserSetting :=
  ⟨id,key,type,size,Buffer.zero size,0,false,Buffer.zero size,0,false,false,none,none⟩

/-- The stored value: the part of the data in use. -/
def value (s : UserSetting) : List UInt8 := s.data.bytes.take s.dataLen

/-- The default value: the part of the default data in use. -/
def defaultValue (s : UserSetting) : List UInt8 := s.defaultData.bytes.take s.defaultDataLen

/-- The verdict of the validate callback; without one everything is valid. -/
def validates (s : UserSetting) (data : Mem) (len : ℕ) : Bool :=
  match s.validateCb with
  | none => true
  | some validate => validate s.id s.key data len

end UserSetting

/-- The pointer and length a getter returns: the value, else the default. -/
def prvUserSettingGet (s : UserSetting) : Option (Mem×ℕ) :=
  if s.isSet then some (s.data.mem,s.dataLen)
  else if s.defaultIsSet then some (s.defaultData.mem,s.defaultDataLen)
  else none

/-- The pointer and length of the default value. -/
def prvUserSettingGetDefault (s : UserSetting) : Option (Mem×ℕ) :=
  if s.defaultIsSet then some (s.defaultData.mem,s.defaultDataLen) else none

/-- A change of a record that keeps its identity. -/
structure Update where
  /-- The changed record. -/
  apply : UserSetting → UserSetting
  /-- The identifier stays. -/
  id_apply : ∀ s,(apply s).id=s.id
  /-- The key stays. -/
  key_apply : ∀ s,(apply s).key=s.key

/-- The list of settings in registration order. -/
structure SettingsList where
  /-- The registered records. -/
  items : List UserSetting
  /-- Identifiers are pairwise distinct. -/
  idsNodup : (items.map UserSetting.id).Nodup
  /-- Keys are pairwise distinct. -/
  keysNodup : (items.map UserSetting.key).Nodup

/-- Initialize the list. -/
def userSettingsListInit : SettingsList := ⟨[],List.nodup_nil,List.nodup_nil⟩

/-- Search the list by key. -/
def userSettingsListGetByKey (list : SettingsList) (key : CString) : Option UserSetting :=
  list.items.find? fun s => key=s.key

/-- Search the list by identifier. -/
def userSettingsListGetById (list : SettingsList) (id : UInt16) : Option UserSetting :=
  list.items.find? fun s => id=s.id

/-- A key that is found belongs to a listed record. -/
theorem getByKey_some {list : SettingsList} {key : CString} {s : UserSetting}
    (h : userSettingsListGetByKey list key=some s) : s∈list.items ∧ s.key=key := by
  have hp := List.find?_some (p:=fun s : UserSetting => decide (key=s.key)) h
  exact ⟨List.mem_of_find?_eq_some h,(of_decide_eq_true hp).symm⟩

/-- An identifier that is found belongs to a listed record. -/
theorem getById_some {list : SettingsList} {id : UInt16} {s : UserSetting}
    (h : userSettingsListGetById list id=some s) : s∈list.items ∧ s.id=id := by
  have hp := List.find?_some (p:=fun s : UserSetting => decide (id=s.id)) h
  exact ⟨List.mem_of_find?_eq_some h,(of_decide_eq_true hp).symm⟩

/-- A search over distinct names finds every listed record. -/
theorem find?_of_nodup {α β : Type} [DecidableEq β] {f : α → β} {items : List α} {a : α}
    (hn : (items.map f).Nodup) (ha : a∈items) :
    items.find? (fun b => decide (f a=f b))=some a := by
  induction items with
  | nil => cases ha
  | cons head tail ih =>
    simp only [List.map_cons,List.nodup_cons] at hn
    rcases List.mem_cons.mp ha with rfl|ht
    · simp
    · have hne : f a≠f head := fun h => hn.1 (h ▸ List.mem_map_of_mem ht)
      rw [List.find?_cons_of_neg (by simpa using hne)]
      exact ih hn.2 ht

/-- Every listed record is the one found under its key. -/
theorem getByKey_of_mem {list : SettingsList} {s : UserSetting} (h : s∈list.items) :
    userSettingsListGetByKey list s.key=some s :=
  find?_of_nodup list.keysNodup h

/-- Every listed record is the one found under its identifier. -/
theorem getById_of_mem {list : SettingsList} {s : UserSetting} (h : s∈list.items) :
    userSettingsListGetById list s.id=some s :=
  find?_of_nodup list.idsNodup h

/-- Append a record to names that do not contain its own. -/
theorem nodup_append_of_find?_none {β : Type} [DecidableEq β] {f : UserSetting → β}
    {items : List UserSetting} {s : UserSetting} (hn : (items.map f).Nodup)
    (h : items.find? (fun b => decide (f s=f b))=none) : ((items++[s]).map f).Nodup := by
  rw [List.map_append,List.map_singleton]
  refine List.nodup_append.mpr ⟨hn,List.nodup_singleton _,?_⟩
  rintro x hx y hy rfl
  obtain ⟨b,hb,rfl⟩ := List.mem_map.mp hx
  rw [List.mem_singleton] at hy
  have hf := List.find?_eq_none.mp h b hb
  simp [hy] at hf

/-- Add a cleared record after asserting that identifier and key are new. -/
def prvUserSettingsListAdd (list : SettingsList) (id : UInt16) (key : CString)
    (type : UserSettingType) (size : ℕ) : Except Fault SettingsList :=
  if h : userSettingsListGetById list id=none ∧ userSettingsListGetByKey list key=none then
    .ok ⟨list.items++[UserSetting.fresh id key type size],
      nodup_append_of_find?_none (f:=UserSetting.id) list.idsNodup h.1,
      nodup_append_of_find?_none (f:=UserSetting.key) list.keysNodup h.2⟩
  else .error .assertion

/-- Add a setting whose size follows from its type. -/
def userSettingsListAddFixedSize (list : SettingsList) (id : UInt16) (key : CString)
    (type : UserSettingType) : Except Fault SettingsList :=
  match prvTypeToSize type with
  | none => .error .assertion
  | some size => prvUserSettingsListAdd list id key type size

/-- Add a string or bytes setting of a given size. -/
def userSettingsListAddVariableSize (list : SettingsList) (id : UInt16) (key : CString)
    (type : UserSettingType) (size : ℕ) : Except Fault SettingsList :=
  if type=.str ∨ type=.bytes then prvUserSettingsListAdd list id key type size
  else .error .assertion

/-- Change the record a pointer to the record with this key refers to. -/
def SettingsList.modify (list : SettingsList) (key : CString) (u : Update) : SettingsList where
  items := list.items.map fun s => if s.key=key then u.apply s else s
  idsNodup := by
    have h : (fun s : UserSetting => (if s.key=key then u.apply s else s).id)=UserSetting.id := by
      funext s
      split
      · exact u.id_apply s
      · rfl
    rw [List.map_map,Function.comp_def,h]
    exact list.idsNodup
  keysNodup := by
    have h : (fun s : UserSetting => (if s.key=key then u.apply s else s).key)=UserSetting.key := by
      funext s
      split
      · exact u.key_apply s
      · rfl
    rw [List.map_map,Function.comp_def,h]
    exact list.keysNodup

/-- The changed record is found in place of the old one, all others as before. -/
theorem getByKey_modify (list : SettingsList) (key other : CString) (u : Update) :
    userSettingsListGetByKey (list.modify key u) other=
      if other=key then (userSettingsListGetByKey list other).map u.apply
      else userSettingsListGetByKey list other := by
  have hp : (fun s : UserSetting => decide (other=s.key)) ∘
      (fun s => if s.key=key then u.apply s else s)=fun s => decide (other=s.key) := by
    funext s
    simp only [Function.comp_apply]
    split
    · rw [u.key_apply]
    · rfl
  unfold userSettingsListGetByKey SettingsList.modify
  simp only [List.find?_map,hp]
  cases hf : list.items.find? (fun s => decide (other=s.key)) with
  | none => simp
  | some s =>
    have hk : other=s.key := by simpa using List.find?_some hf
    by_cases h : other=key
    · rw [if_pos h,Option.map_some,Option.map_some,if_pos (hk ▸ h)]
    · rw [if_neg h,Option.map_some,if_neg (fun e => h (hk.trans e))]

/-- The changed record is found under its key. -/
theorem getByKey_modify_self {list : SettingsList} {key : CString} {s : UserSetting} (u : Update)
    (h : userSettingsListGetByKey list key=some s) :
    userSettingsListGetByKey (list.modify key u) key=some (u.apply s) := by
  rw [getByKey_modify,if_pos rfl,h,Option.map_some]

/-- Records with another key are found unchanged. -/
theorem getByKey_modify_ne {list : SettingsList} {key other : CString} (u : Update)
    (h : other≠key) : userSettingsListGetByKey (list.modify key u) other=
      userSettingsListGetByKey list other := by
  rw [getByKey_modify,if_neg h]

end UserSettings.Settings
