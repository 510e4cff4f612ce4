import UserSettings.HexLoops
import UserSettings.Operations
import Mathlib.Data.Rat.Defs

/-!
# Import and export of JSON

Trees of the JSON library with the members the code reads, the import of an
object of settings and the two exports. Plain char may be signed. What lies
behind the objects an import puts on the stack is arbitrary, and so is what an
export finds in the array it prints to.
-/

namespace UserSettings.Json

open Bytes Values HexLoops Settings Storage Store

/-- The kind of a JSON value. -/
inductive CJsonKind where
  | invalid | false | true | null | number | string | array | object | raw
  deriving DecidableEq

/-- A JSON value with its name, if it is a member of an object. -/
inductive CJson where
  | mk (kind : CJsonKind) (string : Option CString) (valueint : ℤ) (valuedouble : ℚ)
    (valuestring : Option CString) (children : List CJson)

namespace CJson

/-- The kind of the value. -/
def kind : CJson → CJsonKind
  | mk kind _ _ _ _ _ => kind

/-- The name of the member. -/
def string : CJson → Option CString
  | mk _ string _ _ _ _ => string

/-- The number, truncated and saturated to the range of int. -/
def valueint : CJson → ℤ
  | mk _ _ valueint _ _ _ => valueint

/-- The number. -/
def valuedouble : CJson → ℚ
  | mk _ _ _ valuedouble _ _ => valuedouble

/-- The text of a string. -/
def valuestring : CJson → Option CString
  | mk _ _ _ _ valuestring _ => valuestring

/-- The elements of an array or an object. -/
def children : CJson → List CJson
  | mk _ _ _ _ _ children => children

/-- The value with a name, as a member of an object. -/
def named (name : CString) : CJson → CJson
  | mk kind _ valueint valuedouble valuestring children =>
    mk kind (some name) valueint valuedouble valuestring children

/-- True or false. -/
def isBool (setting : CJson) : Bool := setting.kind=.true || setting.kind=.false

/-- A created truth value. -/
def createBool (value : Bool) : CJson := mk (if value then .true else .false) none 0 0 none []

/-- A created number that lies in the range of int. -/
def createNumber (n : ℤ) : CJson := mk .number none n n none []

/-- A created string: the characters up to the terminator. Without one the
text is read behind its end. -/
def createString (text : List UInt8) : Except Fault CJson :=
  match cstringAt? text with
  | none => .error .overrun
  | some value => .ok (mk .string none 0 0 (some value) [])

/-- A created object with members. -/
def createObject (members : List CJson) : CJson := mk .object none 0 0 none members

end CJson

/-- The size of the local array that a hexadecimal string is converted to. -/
abbrev bytesSize : ℕ := 1024

/-- What a string of a JSON value points to; none points nowhere. -/
def valueText (setting : CJson) : Except Fault CString :=
  match setting.valuestring with
  | none => .error .nullPointer
  | some text => .ok text

/-- The bytes that an import passes on, if the JSON value has the right kind. -/
def importBytes (charIsSigned : Bool) (type : UserSettingType) (setting : CJson) :
    Except Fault (Option (List UInt8)) :=
  match type with
  | .bool =>
    if setting.isBool then .ok (some [boolByte (setting.kind=.true)]) else .ok none
  | .u8 | .i8 => if setting.kind=.number then .ok (some (storeInteger 1 setting.valueint))
    else .ok none
  | .u16 | .i16 => if setting.kind=.number then .ok (some (storeInteger 2 setting.valueint))
    else .ok none
  | .u32 | .i32 => if setting.kind=.number then .ok (some (storeInteger 4 setting.valueint))
    else .ok none
  | .u64 | .i64 => if setting.kind=.number then .ok (some (storeInteger 8 setting.valueint))
    else .ok none
  | .str => if setting.kind=.string then (valueText setting).map fun text => some text.withNul
    else .ok none
  | .bytes =>
    if setting.kind=.string then
      match valueText setting with
      | .error fault => .error fault
      | .ok text =>
        if bytesSize<text.strlen/2 then .error .overrun
        else .ok (some (bytesOfHex charIsSigned text.bytes))
    else .ok none

/-- Set a value from a JSON value whose key exists. -/
def prvSetFromJson (env : Env) (stack : Mem) (w : World) (key : CString)
    (type : UserSettingType) (setting : CJson) (alwaysMarkChanged : Bool) :
    Except Fault (World×ℤ) := do
  match ←importBytes env.charIsSigned type setting with
  | none => return (w,-eInval)
  | some bytes =>
    let (w,err) ← userSettingsSetWithKey env w key (stack.write 0 bytes) bytes.length
    if err≠0 then return (w,err)
    else if alwaysMarkChanged then
      let w ← userSettingsSetChangedWithKey env w key
      return (w,0)
    else return (w,0)

/-- Check that a setting with the name of a member exists; a missing name is
only compared when there are settings. -/
def existsWithString (w : World) (string : Option CString) : Except Fault (Option CString) :=
  if w.isLoaded then
    match string with
    | none => if w.list.items.isEmpty then .ok none else .error .nullPointer
    | some key => .ok (if (w.getByKey key).isSome then some key else none)
  else .error .assertion

/-- Import the members one after another; only invalid data does not stop it. -/
def setAllFromJson (env : Env) (stack : Mem) (alwaysMarkChanged : Bool) :
    World → List CJson → Except Fault (World×ℤ)
  | w,[] => .ok (w,0)
  | w,setting::rest =>
    if setting.kind=.invalid then setAllFromJson env stack alwaysMarkChanged w rest
    else do
      match ←existsWithString w setting.string with
      | none => setAllFromJson env stack alwaysMarkChanged w rest
      | some key =>
        let type ← userSettingsGetTypeWithKey w key
        let (next,err) ← prvSetFromJson env stack w key type setting alwaysMarkChanged
        if err≠0 ∧ err≠-eInval then return (next,err)
        else setAllFromJson env stack alwaysMarkChanged next rest

/-- Set settings from a flat JSON structure. -/
def userSettingsSetFromJson (env : Env) (stack : Mem) (w : World) (settings : Option CJson)
    (alwaysMarkChanged : Bool) : Except Fault (World×ℤ) :=
  match settings with
  | none => .ok (w,-eInval)
  | some settings => setAllFromJson env stack alwaysMarkChanged w settings.children

/-- The JSON value of a setting, whether it is set or not. -/
def prvJsonFromSetting (stack : Mem) (setting : UserSetting) : Except Fault CJson :=
  let number (size : ℕ) : Except Fault CJson :=
    .ok (.createNumber (toInt (readAs setting.type size setting.data.mem)))
  match setting.type with
  | .bool => .ok (.createBool (setting.data.mem 0≠0))
  | .u8 | .i8 => number 1
  | .u16 | .i16 => number 2
  | .u32 | .i32 => number 4
  | .u64 | .i64 => number 8
  | .str => CJson.createString setting.data.bytes
  | .bytes =>
    let bytes := sprintfLoop setting.data.mem setting.dataLen 0 stack
    CJson.createString (bytesAt bytes (setting.dataLen*2+1))

/-- An object with a member for each of some settings. -/
def jsonObject (stack : Mem) (settings : List UserSetting) : Except Fault CJson := do
  let members ← settings.mapM fun s => (prvJsonFromSetting stack s).map (CJson.named s.key)
  return .createObject members

/-- A JSON object of all settings. -/
def userSettingsGetAllJson (stack : Mem) (w : World) : Except Fault CJson :=
  jsonObject stack w.list.items

/-- A JSON object of the settings that are marked as changed. -/
def userSettingsGetChangedJson (stack : Mem) (w : World) : Except Fault CJson :=
  jsonObject stack (w.list.items.filter UserSetting.hasChangedRecently)

end UserSettings.Json
