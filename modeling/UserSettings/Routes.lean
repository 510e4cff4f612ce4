import UserSettings.HexText
import UserSettings.ImportOrder
import UserSettings.Mirror
import UserSettings.Typing

/-!
# Four ways to set a setting

The application, the shell, JSON and the binary protocol each have a form for
the value of a setting and a conversion of their own. On the values that all
four can express the conversions agree, and behind them is the same setter. So
it makes no difference which way a value comes, for the settings, for storage
and for everyone who is notified.
-/

namespace UserSettings.Routes

open Bytes Values Settings Storage Store Effects Setters Reactions Records Cells Outcomes
open Operations Transition Json Commands Binary Executor Device Durability Validity Visits
open Importing ImportOrder HexText Isolation Decoding Mirror Refinement RoundTrip
open Typing hiding typed
open UserSettings.Numbers hiding Holds

/-- A value for a setting. -/
inductive Value where
  /-- An integer or a truth value. -/
  | number (n : ℤ)
  /-- A text. -/
  | text (chars : CString)
  /-- A byte string. -/
  | blob (data : List UInt8)

/-- The bytes of a value in a setting of a type. -/
def Value.bytes (type : UserSettingType) : Value → List UInt8
  | .number n =>
    match prvTypeToSize type with
    | some size => storeInteger size n
    | none => []
  | .text chars => chars.withNul
  | .blob data => data

/-- A value as it is typed into the shell. -/
def Value.typed : Value → CString
  | .number n => decimalText n
  | .text chars => chars
  | .blob data => ⟨hexText data,hexText_noNul data⟩

/-- A value as the JSON member for a setting. -/
def Value.member (type : UserSettingType) (key : CString) : Value → CJson
  | .number n => if type=.bool then (CJson.createBool (n≠0)).named key else numberMember key n
  | .text chars => .mk .string (some key) 0 0 (some chars) []
  | .blob data => .mk .string (some key) 0 0 (some ⟨hexText data,hexText_noNul data⟩) []

/-- A value of a type that every way can carry: an integer of the range of int,
or a text or bytes of a length that fits into a command. -/
def Carried (type : UserSettingType) : Value → Prop
  | .number n => ∃ size,prvTypeToSize type=some size ∧ InType type size n ∧ -2^31 ≤ n ∧ n<2^31
  | .text chars => type=.str ∧ chars.strlen<255
  | .blob data => type=.bytes ∧ 1 ≤ data.length ∧ data.length≤255

variable {env : Env} {setup : Setup} {w : World} {s : UserSetting} {value : Value} {n : ℤ}
  {type : UserSettingType}

/-- A value that all ways carry has at least one byte and fits into a command. -/
theorem Carried.fits (h : Carried type value) :
    1 ≤ (value.bytes type).length ∧ (value.bytes type).length≤255 := by
  cases value with
  | number n =>
    obtain ⟨size,hsize,_⟩ := h
    have hbytes : Value.bytes type (.number n)=storeInteger size n := by
      unfold Value.bytes
      rw [hsize]
    rw [hbytes,length_storeInteger]
    cases type with
    | str | bytes => cases hsize
    | bool | u8 | u16 | u32 | u64 | i8 | i16 | i32 | i64 =>
      cases hsize
      decide
  | text chars =>
    have hlen : (Value.bytes type (.text chars)).length=chars.strlen+1 := List.length_append
    rw [hlen]
    exact ⟨Nat.le_add_left 1 _,h.2⟩
  | blob data => exact h.2

/-- The digits of bytes that fit into a command fit into the array for them. -/
theorem hexText_room {data : List UInt8} (h : data.length≤255) :
    ¬bytesSize<(hexText data).length/2 := by
  rw [length_hexText]
  change ¬1024<_
  omega

/-- The shell takes the text of a value for its bytes. -/
theorem Carried.shell (charIsSigned : Bool) (h : Carried type value) :
    shellBytes charIsSigned type value.typed=.ok (value.bytes type) := by
  cases value with
  | number n =>
    obtain ⟨size,hsize,hn,hlow,hhigh⟩ := h
    have hlong : InLong type n := by
      unfold InLong longBits
      cases type <;> constructor <;> dsimp only <;> omega
    unfold Value.typed Value.bytes
    rw [shellBytes_decimal hsize,typed_self hn hlong,hsize]
  | text chars =>
    rw [h.1]
    rfl
  | blob data =>
    obtain ⟨rfl,_,hlen⟩ := h
    have hback : bytesOfHex charIsSigned (hexText data)=data :=
      bytesOfHex_hexText charIsSigned data
    unfold shellBytes Value.typed
    exact (if_neg (hexText_room hlen)).trans (congrArg Except.ok hback)

/-- The import takes the member of a value for its bytes. -/
theorem Carried.json (charIsSigned : Bool) (h : Carried type value) (key : CString) :
    importBytes charIsSigned type (value.member type key)=.ok (some (value.bytes type)) := by
  cases value with
  | number n =>
    obtain ⟨size,hsize,hn,hlow,hhigh⟩ := h
    unfold Value.member Value.bytes
    rw [hsize]
    dsimp only
    by_cases hbool : type=.bool
    · subst hbool
      cases hsize
      rw [if_pos rfl,importBytes_named]
      unfold InType at hn
      rw [if_pos rfl] at hn
      rcases hn with rfl|rfl <;> rfl
    · have hint : saturate 32 n=n := (saturate_eq_iff 32 n).mpr ⟨hlow,hhigh⟩
      rw [if_neg hbool,importBytes_numberMember hsize hbool,hint]
  | text chars =>
    rw [h.1]
    rfl
  | blob data =>
    obtain ⟨rfl,_,hlen⟩ := h
    have hback : bytesOfHex charIsSigned (hexText data)=data :=
      bytesOfHex_hexText charIsSigned data
    unfold Value.member
    exact (if_neg (hexText_room hlen)).trans (congrArg (fun bytes => Except.ok (some bytes)) hback)

end UserSettings.Routes
