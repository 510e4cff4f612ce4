import UserSettings.Moves
import UserSettings.Iteration

/-!
# Asking the store

The functions that only read a setting, and the requests of an application as
a whole: calls that change settings, questions, and starts in between. Every
request has an answer, which is all that an application sees.
-/

namespace UserSettings.Queries

open Bytes Settings Storage Store Iteration Operations

/-- Check whether a setting has a value of its own, by key or by identifier. -/
def userSettingsIsSet (w : World) (target : Target) : Except Fault Bool :=
  withSetting w target UserSetting.isSet

/-- Check whether a setting has a default value. -/
def userSettingsHasDefault (w : World) (target : Target) : Except Fault Bool :=
  withSetting w target UserSetting.defaultIsSet

/-- The maximum length of a setting in bytes. -/
def userSettingsGetMaxLen (w : World) (target : Target) : Except Fault ℕ :=
  withSetting w target UserSetting.maxSize

/-- The type of a setting, by key or by identifier. -/
def userSettingsGetType (w : World) (target : Target) : Except Fault UserSettingType :=
  withSetting w target UserSetting.type

/-- Let the validate callback of a setting judge some data. Unlike the others
this only needs an initialized module. -/
def userSettingsValidate (w : World) (target : Target) (data : Mem) (len : ℕ) :
    Except Fault Bool :=
  if w.isInited then
    match w.find target with
    | none => .error .assertion
    | some s => .ok (s.validates data len)
  else .error .assertion

/-- Register the on_change callback of the setting with an identifier. -/
def userSettingsSetOnChangeCbWithId (w : World) (id : UInt16) (cb : Option OnChangePtr) :
    Except Fault World :=
  match w.find (.id id) with
  | none => .error .assertion
  | some s => registerWithKey w s.key (replaceOnChangeCb cb)

/-- Register the validate callback of the setting with an identifier. -/
def userSettingsSetValidateCbWithId (w : World) (id : UInt16) (cb : Option ValidateFn) :
    Except Fault World :=
  match w.find (.id id) with
  | none => .error .assertion
  | some s => registerWithKey w s.key (replaceValidateCb cb)

/-- A request of an application; how data is given is left open. -/
inductive Request (D : Type) where
  /-- Set a value. -/
  | set (target : Target) (data : D)
  /-- Set a default value. -/
  | setDefault (target : Target) (data : D)
  /-- Restore one setting. -/
  | restoreDefault (target : Target)
  /-- Restore all settings. -/
  | restoreDefaults
  /-- Mark a setting as changed. -/
  | setChanged (target : Target)
  /-- Clear the changed flag of one setting. -/
  | clearChangedOne (target : Target)
  /-- Clear all changed flags. -/
  | clearChanged
  /-- Get the value, else the default value. -/
  | get (target : Target)
  /-- Get the default value. -/
  | getDefault (target : Target)
  /-- Ask for a value. -/
  | isSet (target : Target)
  /-- Ask for a default value. -/
  | hasDefault (target : Target)
  /-- Ask for the maximum length. -/
  | getMaxLen (target : Target)
  /-- Ask for the type. -/
  | getType (target : Target)
  /-- Let data be judged. -/
  | validate (target : Target) (data : D)
  /-- Ask for the setting itself. -/
  | exists (target : Target)
  /-- Ask for a changed setting. -/
  | anyChanged
  /-- Ask for the changed settings, some number of times from the start. -/
  | nextChanged (times : ℕ)
  /-- Lose power and start again. -/
  | reboot

/-- A request with its data given in another way. -/
def Request.map {D E : Type} (f : D → E) : Request D → Request E
  | .set target data => .set target (f data)
  | .setDefault target data => .setDefault target (f data)
  | .restoreDefault target => .restoreDefault target
  | .restoreDefaults => .restoreDefaults
  | .setChanged target => .setChanged target
  | .clearChangedOne target => .clearChangedOne target
  | .clearChanged => .clearChanged
  | .get target => .get target
  | .getDefault target => .getDefault target
  | .isSet target => .isSet target
  | .hasDefault target => .hasDefault target
  | .getMaxLen target => .getMaxLen target
  | .getType target => .getType target
  | .validate target data => .validate target (f data)
  | .exists target => .exists target
  | .anyChanged => .anyChanged
  | .nextChanged times => .nextChanged times
  | .reboot => .reboot

/-- What an application gets back. -/
inductive Answer where
  /-- A return code. -/
  | code (ret : ℤ)
  /-- The bytes behind a returned pointer, if it is not null. -/
  | bytes (content : Option (List UInt8))
  /-- A truth value. -/
  | truth (verdict : Bool)
  /-- A length. -/
  | length (len : ℕ)
  /-- A type. -/
  | type (type : UserSettingType)
  /-- Keys and identifiers, or nothing, in the order of the calls. -/
  | settings (found : List (Option (CString×UInt16)))
  /-- The device is up. -/
  | started
  deriving DecidableEq

/-- The bytes behind a returned pointer. -/
def shown (returned : Option (Mem×ℕ)) : Option (List UInt8) :=
  returned.map fun p => bytesAt p.1 p.2

/-- A call of a function that changes settings, with its return code. -/
def called (result : Except Fault (World×ℤ)) : Option (World×Answer) :=
  result.toOption.map fun r => (r.1,.code r.2)

/-- A question, which leaves the store alone. -/
def asked {β : Type} (w : World) (result : Except Fault β) (answer : β → Answer) :
    Option (World×Answer) :=
  result.toOption.map fun b => (w,answer b)

/-- The device as an application sees it; a request stops it at an assertion. -/
def serve (env : Env) (setup : Setup) (w : World) : Request (Mem×ℕ) → Option (World×Answer)
  | .set target data => called (StoreOp.exec env w (.set target data.1 data.2))
  | .setDefault target data => called (StoreOp.exec env w (.setDefault target data.1 data.2))
  | .restoreDefault target => called (StoreOp.exec env w (.restoreDefault target))
  | .restoreDefaults => called (StoreOp.exec env w .restoreDefaults)
  | .setChanged target => called (StoreOp.exec env w (.setChanged target))
  | .clearChangedOne target => called (StoreOp.exec env w (.clearChangedOne target))
  | .clearChanged => called (StoreOp.exec env w .clearChanged)
  | .get target => asked w (userSettingsGet w target) fun r => .bytes (shown r)
  | .getDefault target => asked w (userSettingsGetDefault w target) fun r => .bytes (shown r)
  | .isSet target => asked w (userSettingsIsSet w target) .truth
  | .hasDefault target => asked w (userSettingsHasDefault w target) .truth
  | .getMaxLen target => asked w (userSettingsGetMaxLen w target) .length
  | .getType target => asked w (userSettingsGetType w target) .type
  | .validate target data => asked w (userSettingsValidate w target data.1 data.2) .truth
  | .exists target => asked w (userSettingsExists w target) .truth
  | .anyChanged => some (w,.truth (userSettingsAnyChanged w.list))
  | .nextChanged times => some (w,.settings
      (results (userSettingsIterNextChanged w.list) times userSettingsListIterStart))
  | .reboot => (reboot env setup w).toOption.map fun next => (next,.started)

end UserSettings.Queries
