import UserSettings.Settings

/-!
# The binary protocol

The decoder with every position of the buffer it reads and of the value array
it writes, and the two encoders as they fill their buffer. Lengths of buffers
handed to the decoder are 32-bit words, as its subtraction can wrap. Integers
are little-endian.
-/

namespace UserSettings.Binary

open Bytes Settings

/-- Command types. -/
inductive UserSettingsProtocolCommandType where
  | get | getFull | list | listFull | set | setDefault | restore | listSome | listSomeFull
  deriving DecidableEq

/-- The command type with a number in the C enumeration. -/
def commandType? (byte : UInt8) : Option UserSettingsProtocolCommandType :=
  match byte.toNat with
  | 1 => some .get
  | 2 => some .getFull
  | 3 => some .list
  | 4 => some .listFull
  | 5 => some .set
  | 6 => some .setDefault
  | 7 => some .restore
  | 8 => some .listSome
  | 9 => some .listSomeFull
  | _ => none

/-- The size of the value array of a command. -/
abbrev valueSize : ℕ := 256

/-- Decoded command. -/
structure UserSettingsProtocolCommand where
  /-- The type of the command. -/
  type : UInt8
  /-- Setting identifier. -/
  id : UInt16
  /-- Number of bytes in the value. -/
  valueLen : UInt8
  /-- The decoded value. -/
  value : Buffer valueSize

/-- The command after memset. -/
def UserSettingsProtocolCommand.zero : UserSettingsProtocolCommand := ⟨0,0,0,Buffer.zero valueSize⟩

/-- The result of decoding with the memory accesses it made. -/
structure Decoded where
  /-- Number of consumed bytes or an error code. -/
  ret : ℤ
  /-- The decoded command. -/
  command : UserSettingsProtocolCommand
  /-- Positions of the buffer that were read. -/
  reads : List ℕ
  /-- Positions of the value array that were written. -/
  writes : List ℕ

/-- The bytes behind a pointer into a buffer. -/
def behind (buffer : Mem) (offset : ℕ) : Mem := fun i => buffer (offset+i)

/-- A little-endian 16-bit word at an offset. -/
def word16 (buffer : Mem) (offset : ℕ) : UInt16 :=
  UInt16.ofNat (leNat (bytesAt (behind buffer offset) 2))

/-- The two bytes of a 16-bit word are read back as the word. -/
theorem leNat_bytes16 (id : UInt16) :
    leNat [UInt8.ofNat id.toNat,UInt8.ofNat (id.toNat/256)]=id.toNat := by
  have hread : leNat (leBytes 2 id.toNat)=id.toNat%256^2 := leNat_leBytes 2 id.toNat
  have hid : id.toNat<256^2 := id.toNat_lt
  rw [Nat.mod_eq_of_lt hid] at hread
  exact hread

/-- Decode a command that carries an identifier, a length byte and a value. -/
def decodeValue (buffer : Mem) (len : UInt32) (command : UserSettingsProtocolCommand) : Decoded :=
  if len<5 then ⟨-eProto,command,[0],[]⟩
  else
    let valueLen := buffer 3
    ⟨4+valueLen.toNat,
      { command with
        id := word16 buffer 1
        valueLen := valueLen
        value := command.value.write (bytesAt (behind buffer 4) valueLen.toNat) },
      [0,1,2,3]++List.range' 4 valueLen.toNat,List.range valueLen.toNat⟩

/-- Decode a command that carries a number of identifiers and these. -/
def decodeIds (buffer : Mem) (len : UInt32) (command : UserSettingsProtocolCommand) : Decoded :=
  let idBufferLen := len-1-1
  let numIds := buffer 1
  if idBufferLen/2≠UInt32.ofNat numIds.toNat then ⟨-eProto,command,[0,1],[]⟩
  else
    let valueLen := numIds*2
    ⟨2+valueLen.toNat,
      { command with
        valueLen := valueLen
        value := command.value.write (bytesAt (behind buffer 2) idBufferLen.toNat) },
      [0,1]++List.range' 2 idBufferLen.toNat,List.range idBufferLen.toNat⟩

/-- Decode a command from a buffer. -/
def userSettingsProtocolBinaryDecodeCommand (buffer : Mem) (len : UInt32) : Decoded :=
  if len=0 then ⟨-eProto,.zero,[],[]⟩
  else
    let command := {UserSettingsProtocolCommand.zero with type := buffer 0}
    match commandType? command.type with
    | some .list | some .listFull | some .restore => ⟨1,command,[0],[]⟩
    | some .get | some .getFull =>
      if len≠3 then ⟨-eProto,command,[0],[]⟩
      else ⟨3,{command with id := word16 buffer 1},[0,1,2],[]⟩
    | some .set | some .setDefault => decodeValue buffer len command
    | some .listSome | some .listSomeFull => decodeIds buffer len command
    | none => ⟨-eNotSup,command,[0],[]⟩

/-- Only positions of the buffer are read, only the value array is written, and
a positive count is not more than the buffer holds. -/
structure Safe (len : UInt32) (decoded : Decoded) : Prop where
  /-- Reads stay inside the buffer. -/
  reads : ∀ i∈decoded.reads,i<len.toNat
  /-- Writes stay inside the value array. -/
  writes : ∀ i∈decoded.writes,i<valueSize
  /-- The count is not more than the length. -/
  count : 0<decoded.ret → decoded.ret ≤ len.toNat

/-- The announced lengths fit: the value of a set command lies in the buffer,
and a list of identifiers that is accepted has its count in the buffer and at
most as many bytes as the value array. -/
structure LengthsFit (buffer : Mem) (len : UInt32) : Prop where
  /-- The value of a set command. -/
  value : commandType? (buffer 0)=some .set ∨ commandType? (buffer 0)=some .setDefault →
    5 ≤ len.toNat → 4+(buffer 3).toNat ≤ len.toNat
  /-- The count of a list command. -/
  count : commandType? (buffer 0)=some .listSome ∨ commandType? (buffer 0)=some .listSomeFull →
    len.toNat≠1
  /-- The identifiers of a list command. -/
  ids : commandType? (buffer 0)=some .listSome ∨ commandType? (buffer 0)=some .listSomeFull →
    2 ≤ len.toNat → (len.toNat-2)/2=(buffer 1).toNat → len.toNat-2 ≤ valueSize

/-- A decoding that writes no value is safe if it stays in the buffer. -/
theorem safe_of_no_value {len : UInt32} {ret : ℤ} {command : UserSettingsProtocolCommand}
    {reads : List ℕ} (hr : ∀ i∈reads,i<len.toNat) (hc : ret ≤ len.toNat) :
    Safe len ⟨ret,command,reads,[]⟩ :=
  ⟨hr,fun _ hi => absurd hi List.not_mem_nil,fun _ => hc⟩

/-- A decoding that copies what lies behind its leading bytes is safe if that
lies in the buffer and fits the value array. -/
theorem safe_of_copy {len : UInt32} {ret : ℤ} {command : UserSettingsProtocolCommand}
    {leading : List ℕ} {offset count : ℕ} (hl : ∀ i∈leading,i<offset)
    (hb : offset+count ≤ len.toNat) (hv : count ≤ valueSize) (hc : ret ≤ len.toNat) :
    Safe len ⟨ret,command,leading++List.range' offset count,List.range count⟩ := by
  refine ⟨?_,?_,fun _ => hc⟩
  · intro i hi
    rw [List.mem_append,List.mem_range'_1] at hi
    cases hi with
    | inl hi =>
      have hlt := hl i hi
      omega
    | inr hi => omega
  · intro i hi
    exact (List.mem_range.mp hi).trans_le hv

/-- A value is decoded safely exactly when it lies in the buffer. -/
theorem decodeValue_safe_iff (buffer : Mem) {len : UInt32} (hn : 0<len.toNat)
    (command : UserSettingsProtocolCommand) : Safe len (decodeValue buffer len command) ↔
      (5 ≤ len.toNat → 4+(buffer 3).toNat ≤ len.toNat) := by
  have hlt : len<5 ↔ len.toNat<5 := UInt32.lt_iff_toNat_lt
  have hbyte : (buffer 3).toNat<256 := (buffer 3).toNat_lt
  unfold decodeValue
  by_cases h : len.toNat<5
  · rw [if_pos (hlt.mpr h)]
    refine ⟨fun _ h5 => by omega,fun _ => safe_of_no_value ?_ (by unfold eProto; omega)⟩
    intro i hi
    rw [List.mem_singleton.mp hi]
    exact hn
  · rw [if_neg (fun hc => h (hlt.mp hc))]
    dsimp only
    constructor
    · intro hs _
      have hc := hs.count (by dsimp only; omega)
      dsimp only at hc
      omega
    · intro hv
      have hfit := hv (by omega)
      exact safe_of_copy (by decide) hfit (Nat.le_of_lt hbyte) (by omega)

/-- The length behind the two leading bytes, when they are there. -/
theorem idBufferLen_toNat {len : UInt32} (h : 2 ≤ len.toNat) : (len-1-1).toNat=len.toNat-2 := by
  have h1 : (1 : UInt32) ≤ len := UInt32.le_iff_toNat_le.mpr (by simp; omega)
  have hs1 : (len-1).toNat=len.toNat-1 := UInt32.toNat_sub_of_le _ _ h1
  have h2 : (1 : UInt32) ≤ len-1 := UInt32.le_iff_toNat_le.mpr (by rw [hs1]; simp; omega)
  have hs2 : (len-1-1).toNat=(len-1).toNat-1 := UInt32.toNat_sub_of_le _ _ h2
  omega

/-- The comparison of the announced number of identifiers with the length. -/
theorem numIds_eq_iff (idBufferLen : UInt32) (numIds : UInt8) :
    idBufferLen/2=UInt32.ofNat numIds.toNat ↔ idBufferLen.toNat/2=numIds.toNat := by
  have hbyte : numIds.toNat<256 := numIds.toNat_lt
  have hn : (UInt32.ofNat numIds.toNat).toNat=numIds.toNat :=
    UInt32.toNat_ofNat_of_lt' (by unfold UInt32.size; omega)
  rw [←UInt32.toNat_inj,UInt32.toNat_div,hn]
  rfl

/-- A list of identifiers is decoded safely exactly when its count lies in the
buffer and an accepted list fits the value array. -/
theorem decodeIds_safe_iff (buffer : Mem) {len : UInt32} (hn : 0<len.toNat)
    (command : UserSettingsProtocolCommand) : Safe len (decodeIds buffer len command) ↔
      len.toNat≠1 ∧
        (2 ≤ len.toNat → (len.toNat-2)/2=(buffer 1).toNat → len.toNat-2 ≤ valueSize) := by
  have hbyte : (buffer 1).toNat<256 := (buffer 1).toNat_lt
  have hcount : (buffer 1*2).toNat≤2*(buffer 1).toNat := by
    rw [UInt8.toNat_mul]
    have hm := Nat.mod_le ((buffer 1).toNat*2) 256
    simpa [Nat.mul_comm] using hm
  have hread : Safe len (decodeIds buffer len command) → len.toNat≠1 := by
    intro hs h1
    have hmem : 1∈(decodeIds buffer len command).reads := by
      unfold decodeIds
      dsimp only
      split <;> simp
    have hlt := hs.reads 1 hmem
    omega
  by_cases h1 : len.toNat=1
  · exact ⟨fun hs => absurd h1 (hread hs),fun h => absurd h1 h.1⟩
  · have h2 : 2 ≤ len.toNat := by omega
    have hlen := idBufferLen_toNat h2
    have hiff := numIds_eq_iff (len-1-1) (buffer 1)
    rw [hlen] at hiff
    unfold decodeIds
    dsimp only
    by_cases he : (len.toNat-2)/2=(buffer 1).toNat
    · rw [if_neg (not_not.mpr (hiff.mpr he)),hlen]
      constructor
      · intro hs
        refine ⟨h1,fun _ _ => ?_⟩
        by_contra hbig
        have hlt := hs.writes valueSize (List.mem_range.mpr (by omega))
        exact absurd hlt (Nat.lt_irrefl _)
      · intro h
        exact safe_of_copy (by decide) (by omega) (h.2 h2 he) (by omega)
    · rw [if_pos (fun hc => he (hiff.mp hc))]
      refine ⟨fun _ => ⟨h1,fun _ hc => absurd hc he⟩,fun _ => safe_of_no_value ?_ ?_⟩
      · intro i hi
        simp only [List.mem_cons,List.not_mem_nil,or_false] at hi
        omega
      · unfold eProto
        omega

/-- Lengths only matter for the commands that announce one. -/
theorem lengthsFit_of_type {buffer : Mem} {len : UInt32}
    (h1 : commandType? (buffer 0)≠some .set) (h2 : commandType? (buffer 0)≠some .setDefault)
    (h3 : commandType? (buffer 0)≠some .listSome)
    (h4 : commandType? (buffer 0)≠some .listSomeFull) : LengthsFit buffer len := by
  refine ⟨fun h => ?_,fun h => ?_,fun h => ?_⟩
  · cases h with
    | inl h => exact absurd h h1
    | inr h => exact absurd h h2
  · cases h with
    | inl h => exact absurd h h3
    | inr h => exact absurd h h4
  · cases h with
    | inl h => exact absurd h h3
    | inr h => exact absurd h h4

/-- The lengths of a command with a value. -/
theorem lengthsFit_value_iff {buffer : Mem} {len : UInt32}
    (h : commandType? (buffer 0)=some .set ∨ commandType? (buffer 0)=some .setDefault) :
    LengthsFit buffer len ↔ (5 ≤ len.toNat → 4+(buffer 3).toNat ≤ len.toNat) := by
  have hno : ¬(commandType? (buffer 0)=some .listSome ∨
      commandType? (buffer 0)=some .listSomeFull) := by
    intro hl
    cases h <;> cases hl <;> simp_all
  exact ⟨fun hf => hf.value h,fun hv => ⟨fun _ => hv,fun hl => absurd hl hno,
    fun hl => absurd hl hno⟩⟩

/-- The lengths of a command with identifiers. -/
theorem lengthsFit_ids_iff {buffer : Mem} {len : UInt32}
    (h : commandType? (buffer 0)=some .listSome ∨ commandType? (buffer 0)=some .listSomeFull) :
    LengthsFit buffer len ↔ len.toNat≠1 ∧
      (2 ≤ len.toNat → (len.toNat-2)/2=(buffer 1).toNat → len.toNat-2 ≤ valueSize) := by
  have hno : ¬(commandType? (buffer 0)=some .set ∨ commandType? (buffer 0)=some .setDefault) := by
    intro hl
    cases h <;> cases hl <;> simp_all
  exact ⟨fun hf => ⟨hf.count h,hf.ids h⟩,fun hv => ⟨fun hl => absurd hl hno,fun _ => hv.1,
    fun _ => hv.2⟩⟩

/-- For every buffer and every length: the decoder stays inside the buffer and
the value array, and counts no more than the buffer holds, exactly when the
announced lengths fit. -/
theorem decode_safe_iff (buffer : Mem) (len : UInt32) :
    Safe len (userSettingsProtocolBinaryDecodeCommand buffer len) ↔ LengthsFit buffer len := by
  unfold userSettingsProtocolBinaryDecodeCommand
  by_cases hz : len=0
  · rw [if_pos hz]
    have hl : len.toNat=0 := by rw [hz]; rfl
    refine ⟨fun _ => ⟨fun _ h => by omega,fun _ => by omega,fun _ h => by omega⟩,fun _ => ?_⟩
    exact safe_of_no_value (fun _ hi => absurd hi List.not_mem_nil) (by unfold eProto; omega)
  · have hn : 0<len.toNat := Nat.pos_of_ne_zero (fun h => hz (UInt32.toNat_inj.mp h))
    have hfirst : ∀ i∈[0],i<len.toNat := by
      intro i hi
      rw [List.mem_singleton.mp hi]
      exact hn
    rw [if_neg hz]
    dsimp only
    cases ht : commandType? (buffer 0) with
    | none =>
      refine ⟨fun _ => ?_,fun _ => safe_of_no_value hfirst (by unfold eNotSup; omega)⟩
      apply lengthsFit_of_type <;> rw [ht] <;> simp
    | some type =>
      cases type with
      | list | listFull | restore =>
        refine ⟨fun _ => ?_,fun _ => safe_of_no_value hfirst (by omega)⟩
        apply lengthsFit_of_type <;> rw [ht] <;> simp
      | get | getFull =>
        dsimp only
        refine ⟨fun _ => ?_,fun _ => ?_⟩
        · apply lengthsFit_of_type <;> rw [ht] <;> simp
        · by_cases h3 : len≠3
          · rw [if_pos h3]
            exact safe_of_no_value hfirst (by unfold eProto; omega)
          · have hl : len.toNat=3 := by rw [not_not.mp h3]; rfl
            rw [if_neg h3]
            refine safe_of_no_value ?_ (by omega)
            intro i hi
            simp only [List.mem_cons,List.not_mem_nil,or_false] at hi
            omega
      | set =>
        dsimp only
        rw [decodeValue_safe_iff buffer hn,lengthsFit_value_iff (.inl ht)]
      | setDefault =>
        dsimp only
        rw [decodeValue_safe_iff buffer hn,lengthsFit_value_iff (.inr ht)]
      | listSome =>
        dsimp only
        rw [decodeIds_safe_iff buffer hn,lengthsFit_ids_iff (.inl ht)]
      | listSomeFull =>
        dsimp only
        rw [decodeIds_safe_iff buffer hn,lengthsFit_ids_iff (.inr ht)]

/-- A set command of five bytes that announces 255 value bytes is read far
behind its end. -/
theorem decode_reads_behind_end :
    ¬∀ (buffer : Mem) (len : UInt32),
      Safe len (userSettingsProtocolBinaryDecodeCommand buffer len) := by
  intro h
  have hmem : 258∈(userSettingsProtocolBinaryDecodeCommand (memOf [5,0,0,255,0]) 5).reads := by
    decide
  exact absurd ((h (memOf [5,0,0,255,0]) 5).reads 258 hmem) (by decide)

/-- The bytes required to encode a setting: identifier, key with terminator,
type, length and value. All sizes are taken to fit an int. -/
def prvEncodeRequiredBytes (s : UserSetting) : ℕ :=
  let base := 2+s.key.strlen+1+1+1
  if s.isSet then base+s.dataLen else base

/-- The bytes required for the full format, with default and maximum length. -/
def prvEncodeRequiredBytesFull (s : UserSetting) : ℕ :=
  let base := prvEncodeRequiredBytes s+1+1
  if s.defaultIsSet then base+s.defaultDataLen else base

/-- A buffer that is being filled, with the index of the next byte. -/
abbrev Cursor := Mem×ℕ

/-- Append bytes at the index. -/
def put (out : Cursor) (bytes : List UInt8) : Cursor :=
  (out.1.write out.2 bytes,out.2+bytes.length)

/-- Appending twice is appending both pieces. -/
theorem put_put (out : Cursor) (first second : List UInt8) :
    put (put out first) second=put out (first++second) := by
  unfold put
  rw [Mem.write_write,List.length_append,Nat.add_assoc]

/-- Append a length byte and the bytes, or a zero length. -/
def putHalf (out : Cursor) (isSet : Bool) (data : Mem) (len : ℕ) : Cursor :=
  if isSet then put (put out [UInt8.ofNat len]) (bytesAt data len) else put out [0]

/-- Encode a setting into a buffer; the result is the number of bytes used. -/
def userSettingsProtocolBinaryEncode (s : UserSetting) (buffer : Mem) (len : ℕ) : Mem×ℤ :=
  if len<prvEncodeRequiredBytes s then (buffer,-eNoMem)
  else
    let out := put (buffer,0) [UInt8.ofNat s.id.toNat,UInt8.ofNat (s.id.toNat/256)]
    let out := put out s.key.withNul
    let out := put out [UInt8.ofNat s.type.toNat]
    let out := putHalf out s.isSet s.data.mem s.dataLen
    (out.1,out.2)

/-- Encode a setting with its default value and maximum length. -/
def userSettingsProtocolBinaryEncodeFull (s : UserSetting) (buffer : Mem) (len : ℕ) : Mem×ℤ :=
  if len<prvEncodeRequiredBytesFull s then (buffer,-eNoMem)
  else
    let short := userSettingsProtocolBinaryEncode s buffer len
    let out := putHalf (short.1,short.2.toNat) s.defaultIsSet s.defaultData.mem s.defaultDataLen
    let out := put out [UInt8.ofNat s.maxSize]
    (out.1,out.2)

/-- The bytes of one half of a setting: its length and its content. -/
def halfBytes (isSet : Bool) (data : Mem) (len : ℕ) : List UInt8 :=
  if isSet then UInt8.ofNat len::bytesAt data len else [0]

/-- The bytes of the short format. -/
def shortBytes (s : UserSetting) : List UInt8 :=
  [UInt8.ofNat s.id.toNat,UInt8.ofNat (s.id.toNat/256)]++s.key.withNul++
    [UInt8.ofNat s.type.toNat]++halfBytes s.isSet s.data.mem s.dataLen

/-- The bytes of the full format. -/
def fullBytes (s : UserSetting) : List UInt8 :=
  shortBytes s++halfBytes s.defaultIsSet s.defaultData.mem s.defaultDataLen++
    [UInt8.ofNat s.maxSize]

/-- A half is appended as its bytes. -/
theorem putHalf_eq (out : Cursor) (isSet : Bool) (data : Mem) (len : ℕ) :
    putHalf out isSet data len=put out (halfBytes isSet data len) := by
  unfold putHalf halfBytes
  split
  · rw [put_put]
    rfl
  · rfl

/-- The computed size is the size of the short format. -/
theorem length_shortBytes (s : UserSetting) :
    (shortBytes s).length=prvEncodeRequiredBytes s := by
  unfold shortBytes halfBytes prvEncodeRequiredBytes CString.withNul CString.strlen
  split <;>
    simp only [List.length_append,List.length_cons,List.length_nil,length_bytesAt] <;> omega

/-- The computed size is the size of the full format. -/
theorem length_fullBytes (s : UserSetting) :
    (fullBytes s).length=prvEncodeRequiredBytesFull s := by
  have hs := length_shortBytes s
  unfold fullBytes halfBytes prvEncodeRequiredBytesFull
  split <;>
    simp only [List.length_append,List.length_cons,List.length_nil,length_bytesAt,hs]
  omega

/-- The short encoder writes the short format to the start of its buffer, or
nothing when the buffer is too small. -/
theorem encode_eq (s : UserSetting) (buffer : Mem) (len : ℕ) :
    userSettingsProtocolBinaryEncode s buffer len=
      if len<(shortBytes s).length then (buffer,-eNoMem)
      else (buffer.write 0 (shortBytes s),((shortBytes s).length : ℤ)) := by
  rw [length_shortBytes]
  unfold userSettingsProtocolBinaryEncode
  split
  · rfl
  · dsimp only
    rw [putHalf_eq,put_put,put_put,put_put,←length_shortBytes]
    unfold shortBytes
    simp only [put,Nat.zero_add,List.append_assoc]

/-- The full encoder writes the full format likewise. -/
theorem encodeFull_eq (s : UserSetting) (buffer : Mem) (len : ℕ) :
    userSettingsProtocolBinaryEncodeFull s buffer len=
      if len<(fullBytes s).length then (buffer,-eNoMem)
      else (buffer.write 0 (fullBytes s),((fullBytes s).length : ℤ)) := by
  have hle : (shortBytes s).length≤(fullBytes s).length := by
    unfold fullBytes
    simp only [List.length_append]
    omega
  have hlen := length_fullBytes s
  unfold userSettingsProtocolBinaryEncodeFull
  rw [hlen]
  split
  · rfl
  · rename_i hfit
    have hshort : ¬len<(shortBytes s).length := by omega
    have hcursor : (buffer.write 0 (shortBytes s),(shortBytes s).length)=
        put (buffer,0) (shortBytes s) := by
      unfold put
      rw [Nat.zero_add]
    rw [encode_eq,if_neg hshort]
    dsimp only
    rw [Int.toNat_natCast,hcursor,putHalf_eq,put_put,put_put,←hlen]
    unfold fullBytes
    simp only [put,Nat.zero_add,List.append_assoc]

end UserSettings.Binary
