import UserSettings.Storage

/-!
# The settings store

The module state, the three handlers, the setters, restore, the changed
flag, load and the public functions, as the C code computes them. Writing
goes twice: through the subsystem to the handler, which fills RAM, and to
persistent storage, and the data of the caller is read for each of the two
writes. The result of every storage call and what an on_change callback does
are choices of the environment. A callback may set settings; the calls it
makes, and those the callbacks of these calls make, form a finite tree.
-/

namespace UserSettings.Store

open Bytes Settings Storage

/-- How a public function names a setting. -/
inductive Target where
  /-- By key. -/
  | key (key : CString)
  /-- By identifier. -/
  | id (id : UInt16)

/-- Which of the two registered callbacks is called. -/
inductive CallbackKind where
  /-- The callback for all settings. -/
  | global
  /-- The callback of the changed setting. -/
  | own
  deriving DecidableEq

/-- One call of an on_change callback. -/
structure Event where
  /-- The callback that is called. -/
  kind : CallbackKind
  /-- The identifier it is given. -/
  id : UInt16
  /-- The key it is given. -/
  key : CString
  /-- The bytes that a getter shows it at that moment. -/
  shown : Option (List UInt8)
  deriving DecidableEq

/-- State of the module and of persistent storage. -/
structure World where
  /-- The registered settings with their values in RAM. -/
  list : SettingsList
  /-- Persistent entries. -/
  nvs : Entries
  /-- The callback for changes of all settings, if any. -/
  globalOnChangeCb : Option OnChangePtr
  /-- True after user_settings_init. -/
  isInited : Bool
  /-- True after user_settings_load. -/
  isLoaded : Bool
  /-- Number of settings_save_one calls so far. -/
  saves : ℕ
  /-- The on_change calls so far, in order. -/
  trace : List Event

/-- What the memory behind a pointer holds in each state. A getter returns a
pointer into the module, and callbacks run while a call is under way, so that
it need not hold the same at the end of a call as at its beginning. -/
abbrev Pointer := World → Mem

/-- One user_settings_set_* call made by an on_change callback, with the
calls that the global and the own callback make when it notifies them. -/
inductive Reaction where
  | set (target : Target) (data : Pointer) (len : ℕ) (onGlobal onOwn : List Reaction)

/-- What the code does not decide itself. -/
structure Env where
  /-- Result of each settings_save_one call, zero for success. -/
  saveResult : ℕ → ℤ
  /-- CONFIG_USER_SETTINGS_DEFAULT_OVERWRITE. -/
  defaultOverwrite : Bool
  /-- Plain char is signed on this platform. -/
  charIsSigned : Bool
  /-- What the callback notified at each position of the trace does. -/
  react : ℕ → List Reaction

namespace World

/-- The record with this key. -/
def getByKey (w : World) (key : CString) : Option UserSetting :=
  userSettingsListGetByKey w.list key

/-- The record named by a target. -/
def find (w : World) : Target → Option UserSetting
  | .key key => userSettingsListGetByKey w.list key
  | .id id => userSettingsListGetById w.list id

/-- The present content of the record behind a pointer. Records are never
removed or renamed, so the key stands for the pointer. -/
def deref (w : World) (s : UserSetting) : UserSetting := (w.getByKey s.key).getD s

/-- Change the record with this key. -/
def modify (w : World) (key : CString) (u : Update) : World := {w with list := w.list.modify key u}

/-- The call of a callback is recorded with what it can read. -/
def notify (w : World) (kind : CallbackKind) (s : UserSetting) : World :=
  let shown := (prvUserSettingGet (w.deref s)).map fun p => bytesAt p.1 p.2
  {w with trace := w.trace++[⟨kind,s.id,s.key,shown⟩]}

end World

/-- The effects of the two callbacks. -/
structure Callbacks where
  /-- What the global callback does. -/
  global : World → World
  /-- What the callback of the setting does. -/
  own : World → World

/-- The read value becomes the value of the setting. -/
def storeValue (bytes : List UInt8) : Update where
  apply := fun s =>
    { s with
      data := s.data.write bytes
      dataLen := bytes.length
      isSet := true }
  id_apply := fun _ => rfl
  key_apply := fun _ => rfl

/-- The read value becomes the default value of the setting. -/
def storeDefault (bytes : List UInt8) : Update where
  apply := fun s =>
    { s with
      defaultData := s.defaultData.write bytes
      defaultDataLen := bytes.length
      defaultIsSet := true }
  id_apply := fun _ => rfl
  key_apply := fun _ => rfl

/-- The read byte becomes the changed flag of the setting. -/
def storeFlag (flag : Bool) : Update where
  apply := fun s => {s with hasChangedRecently := flag}
  id_apply := fun _ => rfl
  key_apply := fun _ => rfl

/-- Handler of the default subtree. -/
def prvDefaultSetCb (w : World) (key : CString) (len : ℕ) (readCb : ReadCb) : World×ℤ :=
  match userSettingsListGetByKey w.list key with
  | none => (w,-eNoEnt)
  | some s =>
    if s.maxSize<len then (w,-eInval)
    else
      match readCb.read s.maxSize with
      | .error rc => (w,rc)
      | .ok bytes => if bytes=[] then (w,0) else (w.modify key (storeDefault bytes),0)

/-- The global callback is called if there is one and settings are loaded. -/
def notifyGlobal (cb : Callbacks) (w : World) (s : UserSetting) : World :=
  if w.globalOnChangeCb.isSome && w.isLoaded then cb.global (w.notify .global s) else w

/-- The callback of the setting is called if there is one and settings are loaded. -/
def notifyOwn (cb : Callbacks) (w : World) (s : UserSetting) : World :=
  if s.onChangeCb.isSome && w.isLoaded then cb.own (w.notify .own s) else w

/-- Handler of the value subtree. -/
def prvValueSetCb (cb : Callbacks) (w : World) (key : CString) (len : ℕ) (readCb : ReadCb) :
    World×ℤ :=
  match userSettingsListGetByKey w.list key with
  | none => (w,-eNoEnt)
  | some s =>
    if s.maxSize<len then (w,-eInval)
    else
      match readCb.read s.maxSize with
      | .error rc => (w,rc)
      | .ok bytes =>
        if bytes=[] then (w,0)
        else (notifyOwn cb (notifyGlobal cb (w.modify key (storeValue bytes)) s) s,0)

/-- Handler of the changed subtree. -/
def prvChangedFlagSetCb (w : World) (key : CString) (_len : ℕ) (readCb : ReadCb) : World×ℤ :=
  match userSettingsListGetByKey w.list key with
  | none => (w,-eNoEnt)
  | some _ =>
    match readCb.read 1 with
    | .error rc => (w,rc)
    | .ok [] => (w,0)
    | .ok (byte::_) => (w.modify key (storeFlag (byte≠0)),0)

/-- The handler registered for each subtree by user_settings_init. -/
def hSet (cb : Callbacks) (w : World) (subtree : Subtree) (key : CString) (len : ℕ)
    (readCb : ReadCb) : World×ℤ :=
  match subtree with
  | .default => prvDefaultSetCb w key len readCb
  | .value => prvValueSetCb cb w key len readCb
  | .changed => prvChangedFlagSetCb w key len readCb

/-- Call the handler a name is routed to with the given bytes. -/
def settingsRuntimeSet (cb : Callbacks) (w : World) (name : CString) (data : Mem) (len : ℕ) :
    World×ℤ :=
  match settingsParseAndLookup name with
  | none => (w,-eInval)
  | some (subtree,key) => hSet cb w subtree key len (settingsRuntimeReadCb data len)

/-- Store bytes persistently; a failing call leaves the entry as it was. -/
def settingsSaveOne (env : Env) (w : World) (name : CString) (data : Mem) (len : ℕ) : World×ℤ :=
  let err := env.saveResult w.saves
  if err=0 then ({w with nvs := w.nvs.save name (bytesAt data len), saves := w.saves+1},0)
  else ({w with saves := w.saves+1},err)

/-- The two writes that end each setter: to RAM through the handler, then to
persistent storage. The pointer is read for each of them, after the handler and
its callbacks the second time. Either failure is reported as an input or output
error. -/
def runtimeSetAndSave (env : Env) (cb : Callbacks) (w : World) (subtree : Subtree) (key : CString)
    (data : Pointer) (len : ℕ) : World×ℤ :=
  let set := settingsRuntimeSet cb w (keyWithPrefix subtree key) (data w) len
  if set.2≠0 then (set.1,-eIo)
  else
    let saved := settingsSaveOne env set.1 (keyWithPrefix subtree key) (data set.1) len
    if saved.2≠0 then (saved.1,-eIo) else (saved.1,0)

/-- Set the default value of a setting. No callback runs while the data is used. -/
def prvUserSettingsSetDefault (env : Env) (cb : Callbacks) (w : World) (s : UserSetting)
    (data : Mem) (len : ℕ) : World×ℤ :=
  if len=s.defaultDataLen ∧
      bytesAt data s.defaultDataLen=bytesAt s.defaultData.mem s.defaultDataLen then (w,0)
  else if !env.defaultOverwrite && s.defaultIsSet then (w,-eAlready)
  else if s.maxSize<len then (w,-eNoMem)
  else if !s.validates data len then (w,-eInval)
  else runtimeSetAndSave env cb w .default s.key (fun _ => data) len

/-- The byte of a C bool. -/
def boolByte (flag : Bool) : UInt8 := if flag then 1 else 0

/-- Persistently set the changed recently flag of a setting. -/
def prvSetChangedRecentlyFlag (env : Env) (cb : Callbacks) (w : World) (s : UserSetting)
    (hasChangedRecently : Bool) : World×ℤ :=
  if hasChangedRecently=s.hasChangedRecently then (w,0)
  else runtimeSetAndSave env cb w .changed s.key (fun _ => memOf [boolByte hasChangedRecently]) 1

/-- Set the value of a setting to what a pointer of the caller points to. -/
def prvUserSettingsSetFrom (env : Env) (cb : Callbacks) (w : World) (s : UserSetting)
    (data : Pointer) (len : ℕ) : World×ℤ :=
  if s.maxSize<len then (w,-eNoMem)
  else if bytesAt s.data.mem len=bytesAt (data w) len ∧ len=s.dataLen then (w,0)
  else if !s.validates (data w) len then (w,-eInval)
  else
    let stored := runtimeSetAndSave env cb w .value s.key data len
    if stored.2≠0 then stored
    else
      let marked := prvSetChangedRecentlyFlag env cb stored.1 (stored.1.deref s) true
      if marked.2≠0 then (marked.1,-eIo) else (marked.1,0)

/-- Set the value of a setting to data that nothing changes during the call. -/
def prvUserSettingsSet (env : Env) (cb : Callbacks) (w : World) (s : UserSetting) (data : Mem)
    (len : ℕ) : World×ℤ := prvUserSettingsSetFrom env cb w s (fun _ => data) len

/-- Set a setting that has a value to its default. The pointer that is passed
on points to the default value of the record, which no set call touches. -/
def prvSettingsRestore (env : Env) (cb : Callbacks) (w : World) (s : UserSetting) : World :=
  if s.isSet then (prvUserSettingsSet env cb w s s.defaultData.mem s.defaultDataLen).1 else w

mutual

/-- One call made by a callback. A call that names no setting would stop at
an assertion and is left out. -/
def Reaction.exec (env : Env) : Reaction → World → World
  | .set target data len onGlobal onOwn,w =>
    match w.find target with
    | none => w
    | some s =>
      (prvUserSettingsSetFrom env ⟨Reaction.execAll env onGlobal,Reaction.execAll env onOwn⟩
        w s data len).1

/-- The calls made by a callback, one after another. -/
def Reaction.execAll (env : Env) : List Reaction → World → World
  | [],w => w
  | reaction::rest,w => Reaction.execAll env rest (Reaction.exec env reaction w)

end

/-- The callbacks as they react to being notified by the application's calls. -/
def Env.callbacks (env : Env) : Callbacks where
  global := fun w => Reaction.execAll env (env.react w.trace.length) w
  own := fun w => Reaction.execAll env (env.react w.trace.length) w

/-- The opening of the public functions: settings are loaded and the named
setting exists; both are asserted. -/
def withSetting {β : Type} (w : World) (target : Target) (f : UserSetting → β) : Except Fault β :=
  if w.isLoaded then
    match w.find target with
    | none => .error .assertion
    | some s => .ok (f s)
  else .error .assertion

/-- Set a value to what a pointer points to, by key or by identifier. -/
def userSettingsSetFrom (env : Env) (w : World) (target : Target) (data : Pointer) (len : ℕ) :
    Except Fault (World×ℤ) :=
  withSetting w target fun s => prvUserSettingsSetFrom env env.callbacks w s data len

/-- Set a value to data that nothing changes during the call. -/
def userSettingsSet (env : Env) (w : World) (target : Target) (data : Mem) (len : ℕ) :
    Except Fault (World×ℤ) :=
  withSetting w target fun s => prvUserSettingsSet env env.callbacks w s data len

/-- Set a value by key. -/
def userSettingsSetWithKey (env : Env) (w : World) (key : CString) :=
  userSettingsSet env w (.key key)

/-- Set a value by identifier. -/
def userSettingsSetWithId (env : Env) (w : World) (id : UInt16) := userSettingsSet env w (.id id)

/-- Set a default value, by key or by identifier. -/
def userSettingsSetDefault (env : Env) (w : World) (target : Target) (data : Mem) (len : ℕ) :
    Except Fault (World×ℤ) :=
  withSetting w target fun s => prvUserSettingsSetDefault env env.callbacks w s data len

/-- Set a default value by key. -/
def userSettingsSetDefaultWithKey (env : Env) (w : World) (key : CString) :=
  userSettingsSetDefault env w (.key key)

/-- Set a default value by identifier. -/
def userSettingsSetDefaultWithId (env : Env) (w : World) (id : UInt16) :=
  userSettingsSetDefault env w (.id id)

/-- Restore one setting, by key or by identifier. The result is always zero. -/
def userSettingsRestoreDefault (env : Env) (w : World) (target : Target) :
    Except Fault (World×ℤ) :=
  withSetting w target fun s => (prvSettingsRestore env env.callbacks w s,0)

/-- Visit all records in registration order, each as it is when its turn comes. -/
def forEachSetting (f : World → UserSetting → World) (w : World) : World :=
  w.list.items.foldl (fun w s => f w (w.deref s)) w

/-- Restore all settings. -/
def userSettingsRestoreDefaults (env : Env) (w : World) : Except Fault World :=
  if w.isLoaded then .ok (forEachSetting (prvSettingsRestore env env.callbacks) w)
  else .error .assertion

/-- Mark a setting as changed. -/
def userSettingsSetChanged (env : Env) (w : World) (target : Target) : Except Fault World :=
  withSetting w target fun s => (prvSetChangedRecentlyFlag env env.callbacks w s true).1

/-- Mark a setting as changed by key. -/
def userSettingsSetChangedWithKey (env : Env) (w : World) (key : CString) :=
  userSettingsSetChanged env w (.key key)

/-- Clear the changed flag of a setting, by key or by identifier. -/
def userSettingsClearChangedOne (env : Env) (w : World) (target : Target) : Except Fault World :=
  withSetting w target fun s => (prvSetChangedRecentlyFlag env env.callbacks w s false).1

/-- Clear all changed flags. -/
def userSettingsClearChanged (env : Env) (w : World) : Except Fault World :=
  if w.isLoaded then
    .ok (forEachSetting (fun w s => (prvSetChangedRecentlyFlag env env.callbacks w s false).1) w)
  else .error .assertion

/-- Check that a setting exists. -/
def userSettingsExists (w : World) (target : Target) : Except Fault Bool :=
  if w.isLoaded then .ok (w.find target).isSome else .error .assertion

/-- The value a getter returns: pointer and length. -/
def userSettingsGet (w : World) (target : Target) : Except Fault (Option (Mem×ℕ)) :=
  withSetting w target prvUserSettingGet

/-- The default value a getter returns: pointer and length. -/
def userSettingsGetDefault (w : World) (target : Target) : Except Fault (Option (Mem×ℕ)) :=
  withSetting w target prvUserSettingGetDefault

/-- The type of a setting by key. -/
def userSettingsGetTypeWithKey (w : World) (key : CString) : Except Fault UserSettingType :=
  withSetting w (.key key) UserSetting.type

/-- The identifier of the setting with a key. -/
def userSettingsKeyToId (w : World) (key : CString) : Except Fault UInt16 :=
  withSetting w (.key key) UserSetting.id

/-- The key of the setting with an identifier. -/
def userSettingsIdToKey (w : World) (id : UInt16) : Except Fault CString :=
  withSetting w (.id id) UserSetting.key

/-- Initialize the module; err is the first error of the settings subsystem. -/
def userSettingsInit (w : World) (err : ℤ) : Except Fault (World×ℤ) :=
  if w.isInited then .error .assertion
  else if err≠0 then .ok ({w with list := userSettingsListInit},-eIo)
  else .ok ({w with list := userSettingsListInit, isInited := true},0)

/-- Add a setting of fixed size. -/
def userSettingsAdd (w : World) (id : UInt16) (key : CString) (type : UserSettingType) :
    Except Fault World :=
  if w.isInited ∧ type≠.str ∧ type≠.bytes then do
    let list ← userSettingsListAddFixedSize w.list id key type
    return {w with list := list}
  else .error .assertion

/-- Add a string or bytes setting. -/
def userSettingsAddSized (w : World) (id : UInt16) (key : CString) (type : UserSettingType)
    (size : ℕ) : Except Fault World :=
  if w.isInited ∧ (type=.str ∨ type=.bytes) then do
    let list ← userSettingsListAddVariableSize w.list id key type size
    return {w with list := list}
  else .error .assertion

/-- Replace the on_change callback of a record. -/
def replaceOnChangeCb (cb : Option OnChangePtr) : Update where
  apply := fun s => {s with onChangeCb := cb}
  id_apply := fun _ => rfl
  key_apply := fun _ => rfl

/-- Replace the validate callback of a record. -/
def replaceValidateCb (cb : Option ValidateFn) : Update where
  apply := fun s => {s with validateCb := cb}
  id_apply := fun _ => rfl
  key_apply := fun _ => rfl

/-- Change a record of an initialized module; both conditions are asserted. -/
def registerWithKey (w : World) (key : CString) (u : Update) : Except Fault World :=
  if w.isInited ∧ (w.getByKey key).isSome then .ok (w.modify key u) else .error .assertion

/-- Set the on_change callback of a setting. -/
def userSettingsSetOnChangeCbWithKey (w : World) (key : CString) (cb : Option OnChangePtr) :=
  registerWithKey w key (replaceOnChangeCb cb)

/-- Set the validate callback of a setting. -/
def userSettingsSetValidateCbWithKey (w : World) (key : CString) (cb : Option ValidateFn) :=
  registerWithKey w key (replaceValidateCb cb)

/-- Set the global on_change callback. -/
def userSettingsSetGlobalOnChangeCb (w : World) (cb : Option OnChangePtr) : Except Fault World :=
  if w.isInited then .ok {w with globalOnChangeCb := cb} else .error .assertion

/-- Deliver the entries of one subtree; handler errors do not stop the load. -/
def settingsLoadSubtree (cb : Callbacks) (w : World) (subtree : Subtree) (loading : Loading) :
    World×ℤ :=
  (loading.deliveries.foldl (fun w d => (hSet cb w subtree d.key d.len d.readCb).1) w,loading.err)

/-- Load defaults, values and changed flags from persistent storage. -/
def userSettingsLoad (env : Env) (w : World) (backend : Subtree → Loading) :
    Except Fault (World×ℤ) :=
  if w.isInited then
    let defaults := settingsLoadSubtree env.callbacks w .default (backend .default)
    if defaults.2≠0 then .ok (defaults.1,-eIo)
    else
      let values := settingsLoadSubtree env.callbacks defaults.1 .value (backend .value)
      if values.2≠0 then .ok (values.1,-eIo)
      else
        let flags := settingsLoadSubtree env.callbacks values.1 .changed (backend .changed)
        if flags.2≠0 then .ok (flags.1,-eIo) else .ok ({flags.1 with isLoaded := true},0)
  else .error .assertion

/-- What an application registers for one setting before loading. -/
structure Registration where
  /-- The identifier. -/
  id : UInt16
  /-- The key. -/
  key : CString
  /-- The type. -/
  type : UserSettingType
  /-- The size of a string or bytes setting. -/
  size : ℕ
  /-- The on_change callback, if any. -/
  onChangeCb : Option OnChangePtr
  /-- The validate callback, if any. -/
  validateCb : Option ValidateFn

/-- Add a setting by the function for its type. -/
def Registration.addSetting (w : World) (r : Registration) : Except Fault World :=
  if r.type=.str ∨ r.type=.bytes then userSettingsAddSized w r.id r.key r.type r.size
  else userSettingsAdd w r.id r.key r.type

/-- Add a setting and register its callbacks. -/
def Registration.add (w : World) (r : Registration) : Except Fault World := do
  let w ← Registration.addSetting w r
  let w ← userSettingsSetOnChangeCbWithKey w r.key r.onChangeCb
  userSettingsSetValidateCbWithKey w r.key r.validateCb

/-- What an application does at every start before loading. -/
structure Setup where
  /-- The settings it adds, in order. -/
  regs : List Registration
  /-- The global on_change callback, if any. -/
  globalOnChangeCb : Option OnChangePtr

/-- A device without power keeps persistent storage only. The two histories
are not part of the device and go on. -/
def World.powerOff (w : World) : World :=
  { w with
    list := userSettingsListInit
    globalOnChangeCb := none
    isInited := false
    isLoaded := false }

/-- Start a device: initialize, add and register everything, load. -/
def reboot (env : Env) (setup : Setup) (w : World) : Except Fault World := do
  let (w,_) ← userSettingsInit w.powerOff 0
  let w ← setup.regs.foldlM Registration.add w
  let w ← userSettingsSetGlobalOnChangeCb w setup.globalOnChangeCb
  let (w,_) ← userSettingsLoad env w (loadingOf w.nvs.entries)
  return w

/-- A device that was never started, with given persistent entries. -/
def World.unstarted (nvs : Entries) : World := ⟨userSettingsListInit,nvs,none,false,false,0,[]⟩

/-- The first start of a device. -/
def boot (env : Env) (setup : Setup) (nvs : Entries) : Except Fault World :=
  reboot env setup (World.unstarted nvs)

end UserSettings.Store
