import UserSettings.Device

/-!
# Reading responses back

A client that follows the documented layout takes a response apart from the
front. Every length is one byte and zero stands for a missing value, so the
client sees the setting as it is exactly when its maximum length fits a byte.
-/

namespace UserSettings.Format

open Bytes Settings Storage Store Records Cells Operations Binary Device

/-- Take a value off the front of some bytes. -/
abbrev Reader (α : Type) := List UInt8 → Option (α×List UInt8)

/-- Take one byte. -/
def readByte : Reader UInt8
  | [] => none
  | byte::rest => some (byte,rest)

/-- Take a number of bytes. -/
def readBytes (n : ℕ) : Reader (List UInt8) :=
  fun bytes => if bytes.length<n then none else some (bytes.take n,bytes.drop n)

/-- Take a string with its terminator. -/
def readCString : Reader CString :=
  fun bytes => (cstringAt? bytes).map fun s => (s,bytes.drop (s.strlen+1))

/-- The type with a number in the C enumeration. -/
def typeOf? (byte : UInt8) : Option UserSettingType :=
  match byte.toNat with
  | 0 => some .bool
  | 1 => some .u8
  | 2 => some .u16
  | 3 => some .u32
  | 4 => some .u64
  | 5 => some .i8
  | 6 => some .i16
  | 7 => some .i32
  | 8 => some .i64
  | 9 => some .str
  | 10 => some .bytes
  | _ => none

/-- Take a length and so many bytes; length zero stands for none. -/
def readHalf : Reader (Option (List UInt8)) := fun bytes => do
  let (len,rest) ← readByte bytes
  let (value,rest) ← readBytes len.toNat rest
  return (if len=0 then none else some value,rest)

/-- What a GET response describes. -/
structure ShortView where
  /-- The identifier. -/
  id : UInt16
  /-- The key. -/
  key : CString
  /-- The type. -/
  type : UserSettingType
  /-- The value, if it is set. -/
  value : Option (List UInt8)
  deriving DecidableEq

/-- What a GET FULL response describes. -/
structure FullView where
  /-- The fields of the short form. -/
  short : ShortView
  /-- The default value, if it is set. -/
  default : Option (List UInt8)
  /-- The maximum length. -/
  maxSize : ℕ
  deriving DecidableEq

/-- Take a GET response. -/
def readShort : Reader ShortView := fun bytes => do
  let (id,rest) ← readBytes 2 bytes
  let (key,rest) ← readCString rest
  let (byte,rest) ← readByte rest
  let type ← typeOf? byte
  let (value,rest) ← readHalf rest
  return (⟨UInt16.ofNat (leNat id),key,type,value⟩,rest)

/-- Take a GET FULL response. -/
def readFull : Reader FullView := fun bytes => do
  let (short,rest) ← readShort bytes
  let (default,rest) ← readHalf rest
  let (maxSize,rest) ← readByte rest
  return (⟨short,default,maxSize.toNat⟩,rest)

/-- A setting as the short form describes it. -/
def shortView (s : UserSetting) : ShortView :=
  ⟨s.id,s.key,s.type,if s.isSet then some s.value else none⟩

/-- A setting as the full form describes it. -/
def fullView (s : UserSetting) : FullView :=
  ⟨shortView s,if s.defaultIsSet then some s.defaultValue else none,s.maxSize⟩

/-- Whenever the short encoder succeeds, its bytes are read back as the
setting, and no byte behind them is taken. -/
def ShortReadsBack (s : UserSetting) : Prop :=
  ∀ buffer len,0<(userSettingsProtocolBinaryEncode s buffer len).2 → ∀ rest,
    readShort (bytesAt (userSettingsProtocolBinaryEncode s buffer len).1
      (userSettingsProtocolBinaryEncode s buffer len).2.toNat++rest)=some (shortView s,rest)

/-- The same for the full encoder. -/
def FullReadsBack (s : UserSetting) : Prop :=
  ∀ buffer len,0<(userSettingsProtocolBinaryEncodeFull s buffer len).2 → ∀ rest,
    readFull (bytesAt (userSettingsProtocolBinaryEncodeFull s buffer len).1
      (userSettingsProtocolBinaryEncodeFull s buffer len).2.toNat++rest)=some (fullView s,rest)

/-- As many bytes as are taken. -/
theorem readBytes_append {n : ℕ} {bytes : List UInt8} (h : bytes.length=n) (rest : List UInt8) :
    readBytes n (bytes++rest)=some (bytes,rest) := by
  have hfit : ¬(bytes++rest).length<n := by
    rw [List.length_append]
    omega
  unfold readBytes
  rw [if_neg hfit,←h,List.take_left,List.drop_left]

/-- A string with its terminator is taken. -/
theorem readCString_append (key : CString) (rest : List UInt8) :
    readCString (key.withNul++rest)=some (key,rest) := by
  have hnul : (0 : UInt8)∈key.withNul := by simp [CString.withNul]
  have hlen : key.withNul.length=key.strlen+1 := by
    unfold CString.withNul CString.strlen
    rw [List.length_append]
    rfl
  unfold readCString
  rw [cstringAt?_append hnul,cstringAt?_withNul,Option.map_some,←hlen,List.drop_left]

/-- The number of a type is read as the type. -/
theorem typeOf?_toNat (type : UserSettingType) : typeOf? (UInt8.ofNat type.toNat)=some type := by
  cases type <;> rfl

/-- A half that fits a length byte is taken. -/
theorem readHalf_append {size len : ℕ} {data : Buffer size} {isSet : Bool}
    (h : HalfOk data len isSet) (hsize : size≤255) (rest : List UInt8) :
    readHalf (halfBytes isSet data.mem len++rest)=
      some (if isSet then some (data.bytes.take len) else none,rest) := by
  cases isSet with
  | false => rfl
  | true =>
    have hpos : 0<len := h.isSet_iff.mp rfl
    have hle : len ≤ size := h.len_le
    have hbyte : (UInt8.ofNat len).toNat=len :=
      UInt8.toNat_ofNat_of_lt' (by unfold UInt8.size; omega)
    have hne : UInt8.ofNat len≠0 := by
      intro hz
      rw [hz] at hbyte
      change 0=len at hbyte
      omega
    unfold halfBytes readHalf
    rw [if_pos rfl,if_pos rfl,List.cons_append]
    simp only [readByte,Option.bind_eq_bind,Option.bind_some,hbyte]
    rw [readBytes_append (length_bytesAt _ _),Buffer.bytesAt_mem _ hle]
    simp only [Option.bind_some,if_neg hne]
    rfl

/-- The short form is taken. -/
theorem readShort_append {s : UserSetting} (h : RecordOk s) (hsize : s.maxSize≤255)
    (rest : List UInt8) : readShort (shortBytes s++rest)=some (shortView s,rest) := by
  have hid := leNat_bytes16 s.id
  have hhalf := readHalf_append h.value hsize rest
  unfold readShort shortBytes
  simp only [List.append_assoc]
  have hlen : [UInt8.ofNat s.id.toNat,UInt8.ofNat (s.id.toNat/256)].length=2 := rfl
  rw [readBytes_append hlen]
  simp only [Option.bind_eq_bind,Option.bind_some,readCString_append]
  rw [List.singleton_append]
  simp only [readByte,Option.bind_some,typeOf?_toNat,hhalf,hid,UInt16.ofNat_toNat]
  rfl

/-- The full form is taken. -/
theorem readFull_append {s : UserSetting} (h : RecordOk s) (hsize : s.maxSize≤255)
    (rest : List UInt8) : readFull (fullBytes s++rest)=some (fullView s,rest) := by
  have hbyte : (UInt8.ofNat s.maxSize).toNat=s.maxSize :=
    UInt8.toNat_ofNat_of_lt' (by unfold UInt8.size; omega)
  unfold readFull fullBytes
  simp only [List.append_assoc]
  rw [readShort_append h hsize]
  simp only [Option.bind_eq_bind,Option.bind_some]
  rw [readHalf_append h.default hsize,List.singleton_append]
  simp only [readByte,Option.bind_some,hbyte]
  rfl

/-- A maximum length that is read lies below 256. -/
theorem readFull_maxSize {bytes rest : List UInt8} {view : FullView}
    (h : readFull bytes=some (view,rest)) : view.maxSize≤255 := by
  unfold readFull at h
  simp only [Option.bind_eq_bind] at h
  obtain ⟨short,_,h⟩ := Option.bind_eq_some_iff.mp h
  obtain ⟨default,_,h⟩ := Option.bind_eq_some_iff.mp h
  obtain ⟨byte,_,h⟩ := Option.bind_eq_some_iff.mp h
  cases h
  have hlt := byte.1.toNat_lt
  dsimp only
  omega

/-- A setting whose full responses are read back has a small maximum length. -/
theorem fullReadsBack_maxSize {s : UserSetting} (h : FullReadsBack s) : s.maxSize≤255 := by
  have hread := h (fun _ => 0) (fullBytes s).length
  rw [encodeFull_eq,if_neg (Nat.lt_irrefl _)] at hread
  have hpos : 0<((fullBytes s).length : ℤ) := by
    rw [length_fullBytes]
    unfold prvEncodeRequiredBytesFull
    dsimp only
    split <;> omega
  exact readFull_maxSize (hread hpos [])

/-- For every setting of every running store: its responses can be read back by
a client that follows the documented layout exactly when its maximum length is
at most 255. -/
theorem reads_back_iff (setup : Setup) (w : World) (s : UserSetting) (h : Running setup w)
    (hs : s∈w.list.items) :
    (FullReadsBack s ∧ ShortReadsBack s) ↔ s.maxSize≤255 := by
  have hok : RecordOk s := h.records s hs
  have hneg : ¬(0 : ℤ)< -eNoMem := by decide
  constructor
  · exact fun hback => fullReadsBack_maxSize hback.1
  · intro hsize
    refine ⟨?_,?_⟩
    · intro buffer len hpos rest
      rw [encodeFull_eq] at hpos ⊢
      split at hpos
      · exact absurd hpos hneg
      · rename_i hfit
        rw [if_neg hfit,Int.toNat_natCast,bytesAt_write_zero]
        exact readFull_append hok hsize rest
    · intro buffer len hpos rest
      rw [encode_eq] at hpos ⊢
      split at hpos
      · exact absurd hpos hneg
      · rename_i hfit
        rw [if_neg hfit,Int.toNat_natCast,bytesAt_write_zero]
        exact readShort_append hok hsize rest

/-- The one setting of a new device that holds a value is read back. -/
theorem reads_back_on_device : ∃ w s,
    Reachable calm (device .u16 0 none none) ∅ w ∧ w.find (.key keyA)=some s ∧ s.isSet=true ∧
      FullReadsBack s ∧ ShortReadsBack s := by
  have hreach : Reachable calm (device .u16 0 none none) ∅ _ :=
    ⟨_,[.store (.set (.key keyA) (memOf [7,1]) 2)],rfl,rfl⟩
  exact ⟨_,_,hreach,rfl,rfl,
    (reads_back_iff _ _ _ (running_of_reachable hreach) List.mem_cons_self).mpr (by decide)⟩

/-- A bytes setting with a maximum length of 256 is shown with length zero. -/
theorem large_setting_not_read_back :
    ¬∀ (env : Env) (setup : Setup) (w : World) (s : UserSetting),
      Reachable env setup ∅ w → s∈w.list.items → FullReadsBack s := by
  intro h
  have hreach : Reachable calm (device .bytes 256 none none) ∅ _ := ⟨_,[],rfl,rfl⟩
  have hsize := fullReadsBack_maxSize (h calm _ _ _ hreach List.mem_cons_self)
  change 256≤255 at hsize
  omega

end UserSettings.Format
