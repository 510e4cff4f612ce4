import UserSettings.Settings

/-!
# The shell printer

The text that the shell prints for a setting. A missing value or default
value is printed as a slash. Strings are printed up to their terminator; a
string without one would be read behind the end of its buffer.
-/

namespace UserSettings.Shell

open Bytes Values Settings

/-- Text between quotation marks. -/
def quoted (text : List UInt8) : List UInt8 := 34::text++[34]

/-- A half of a setting as the conversion of its type prints it. -/
def printData (type : UserSettingType) {size : ℕ} (data : Buffer size) (len : ℕ) :
    Except Fault (List UInt8) :=
  match type with
  | .bool | .u8 | .i8 => .ok (decimal (readAs type 1 data.mem))
  | .u16 | .i16 => .ok (decimal (readAs type 2 data.mem))
  | .u32 | .i32 => .ok (decimal (readAs type 4 data.mem))
  | .u64 | .i64 => .ok (decimal (readAs type 8 data.mem))
  | .str =>
    match cstringAt? data.bytes with
    | none => .error .overrun
    | some text => .ok (quoted text.bytes)
  | .bytes => .ok (hexText (bytesAt data.mem len))

/-- A half that may be missing. -/
def printHalf (type : UserSettingType) {size : ℕ} (isSet : Bool) (data : Buffer size) (len : ℕ) :
    Except Fault (List UInt8) :=
  if isSet then printData type data len else .ok (CString.ascii ['/'])

/-- Print identifier, key, value and default value of a setting. -/
def prvShellPrintSetting (setting : UserSetting) : Except Fault (List UInt8) := do
  let value ← printHalf setting.type setting.isSet setting.data setting.dataLen
  let default ←
    printHalf setting.type setting.defaultIsSet setting.defaultData setting.defaultDataLen
  return CString.ascii ['i','d',':',' ']++decimal setting.id.toNat++
    CString.ascii [',',' ','k','e','y',':',' ']++quoted setting.key.bytes++
    CString.ascii [',',' ','v','a','l','u','e',':',' ']++value++
    CString.ascii [',',' ','d','e','f','a','u','l','t',':',' ']++default++[10]

end UserSettings.Shell
