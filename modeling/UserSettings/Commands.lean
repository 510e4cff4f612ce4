import UserSettings.Json

/-!
# Shell commands that change settings

The commands of the shell that write, with the conversion of text to the
type of the setting they name. Arguments are C strings; what lies behind the
objects a command puts on the stack, or behind its argument, is arbitrary.
The commands that list settings only print them.
-/

namespace UserSettings.Commands

open Bytes Values Settings Storage Store Reactions Json

/-- The bytes that the text of a set command stands for. -/
def shellBytes (charIsSigned : Bool) (type : UserSettingType) (value : CString) :
    Except Fault (List UInt8) :=
  match type with
  | .bool => .ok [boolByte (strtol value.bytes≠0)]
  | .i8 | .u8 => .ok (storeInteger 1 (strtol value.bytes))
  | .i16 | .u16 => .ok (storeInteger 2 (strtol value.bytes))
  | .i32 | .u32 => .ok (storeInteger 4 (strtol value.bytes))
  | .i64 | .u64 => .ok (storeInteger 8 (strtoll value.bytes))
  | .str => .ok value.withNul
  | .bytes =>
    if bytesSize<value.strlen/2 then .error .overrun
    else .ok (bytesOfHex charIsSigned value.bytes)

/-- Convert a text and pass it to a setter. -/
def prvSetHelper (env : Env) (stack : Mem) (value : CString) (s : UserSetting)
    (setter : CString → Mem → ℕ → Except Fault (World×ℤ)) : Except Fault (World×ℤ) := do
  let bytes ← shellBytes env.charIsSigned s.type value
  setter s.key (stack.write 0 bytes) bytes.length

/-- Look up the setting of a command by its key. -/
def withName (w : World) (name : CString) (f : UserSetting → Except Fault (World×ℤ)) :
    Except Fault (World×ℤ) :=
  match userSettingsListGetByKey w.list name with
  | none => .ok (w,-eNoEnt)
  | some s => f s

/-- Set a setting. -/
def cmdSet (env : Env) (stack : Mem) (w : World) (name value : CString) :
    Except Fault (World×ℤ) :=
  withName w name fun s => prvSetHelper env stack value s (userSettingsSetWithKey env w)

/-- Set the default value of a setting. -/
def cmdSetDefault (env : Env) (stack : Mem) (w : World) (name value : CString) :
    Except Fault (World×ℤ) :=
  withName w name fun s => prvSetHelper env stack value s (userSettingsSetDefaultWithKey env w)

/-- Restore all settings. -/
def cmdRestore (env : Env) (w : World) : Except Fault (World×ℤ) :=
  (userSettingsRestoreDefaults env w).map fun next => (next,0)

/-- Restore one setting. -/
def cmdRestoreOne (env : Env) (w : World) (name : CString) : Except Fault (World×ℤ) :=
  withName w name fun _ => (userSettingsRestoreDefault env w (.key name)).map fun r => (r.1,0)

/-- Clear all changed flags. -/
def cmdClearChanged (env : Env) (w : World) : Except Fault (World×ℤ) :=
  (userSettingsClearChanged env w).map fun next => (next,0)

/-- Clear the changed flag of one setting. -/
def cmdClearChangedOne (env : Env) (w : World) (name : CString) : Except Fault (World×ℤ) :=
  withName w name fun s => (userSettingsClearChangedOne env w (.key s.key)).map fun next => (next,0)

/-- A set command passes the bytes of its text to a set call. -/
theorem cmdSet_eq {env : Env} {stack : Mem} {w : World} {s : UserSetting} {value : CString}
    {bytes : List UInt8} (hl : w.isLoaded=true) (hs : w.getByKey s.key=some s)
    (h : shellBytes env.charIsSigned s.type value=.ok bytes) : cmdSet env stack w s.key value=
      .ok (prvUserSettingsSet env env.callbacks w s (stack.write 0 bytes) bytes.length) := by
  have hfind : userSettingsListGetByKey w.list s.key=some s := hs
  have htarget : w.find (.key s.key)=some s := hs
  unfold cmdSet withName prvSetHelper
  rw [hfind]
  dsimp only
  rw [h]
  exact withSetting_eq hl htarget _

/-- A command of the shell that changes settings. -/
inductive ShellCommand where
  /-- Set a setting. -/
  | set (name value : CString)
  /-- Set a default value. -/
  | setDefault (name value : CString)
  /-- Restore all settings. -/
  | restore
  /-- Restore one setting. -/
  | restoreOne (name : CString)
  /-- Clear all changed flags. -/
  | clearChanged
  /-- Clear the changed flag of one setting. -/
  | clearChangedOne (name : CString)

/-- Execute a command. -/
def ShellCommand.exec (env : Env) (stack : Mem) (w : World) :
    ShellCommand → Except Fault (World×ℤ)
  | .set name value => cmdSet env stack w name value
  | .setDefault name value => cmdSetDefault env stack w name value
  | .restore => cmdRestore env w
  | .restoreOne name => cmdRestoreOne env w name
  | .clearChanged => cmdClearChanged env w
  | .clearChangedOne name => cmdClearChangedOne env w name

end UserSettings.Commands
