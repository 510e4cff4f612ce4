import UserSettings.Operations
import UserSettings.Binary

/-!
# What the encoders write

The size of a response is computed before anything is written, by functions of
their own and in an int. The bytes are then put one field after another. Both
agree, so an encoder writes exactly as many bytes as it computed, or nothing,
and the full form begins with the short form.
-/

namespace UserSettings.Encoders

open Bytes Values Settings Storage Store Operations Binary

/-- The size of the short form as the code computes it: a sum of size_t that
is kept in an int. -/
def requiredInt (s : UserSetting) : ℤ :=
  let base := toInt (2+s.key.strlen+1+1+1)
  if s.isSet then toInt (base+s.dataLen) else base

/-- The size of the full form likewise. -/
def requiredIntFull (s : UserSetting) : ℤ :=
  let base := toInt (requiredInt s+1+1)
  if s.defaultIsSet then toInt (base+s.defaultDataLen) else base

/-- An encoder respects its buffer: with less space than required it reports
so and writes nothing, else it writes as many bytes as are required. -/
structure RespectsBuffer (required : ℤ) (encode : Mem → ℕ → Mem×ℤ) : Prop where
  /-- Comparing the size after its conversion to size_t compares the numbers. -/
  compared : ∀ len : UInt32,len<UInt32.ofInt required ↔ (len.toNat : ℤ)<required
  /-- The error means too little space. -/
  tooSmall : ∀ buffer (len : ℕ),(encode buffer len).2= -eNoMem ↔ (len : ℤ)<required
  /-- Nothing is written into too little space. -/
  kept : ∀ buffer (len : ℕ),(len : ℤ)<required → (encode buffer len).1=buffer
  /-- Otherwise the first bytes are written, whatever they were, and the number
  of them is returned. -/
  written : ∃ bytes : List UInt8,(bytes.length : ℤ)=required ∧
    ∀ buffer (len : ℕ),required ≤ len → (encode buffer len).2=required ∧
      bytesAt (encode buffer len).1 bytes.length=bytes
  /-- Nothing else is written. -/
  rest : ∀ buffer len (i : ℕ),required ≤ i → (encode buffer len).1 i=buffer i

/-- Whatever the buffers, the bytes of the one encoder are a first part of the
bytes of the other. -/
def Begins (short full : Mem → ℕ → Mem×ℤ) : Prop :=
  ∀ buffer len other space,0<(short buffer len).2 → 0<(full other space).2 →
    bytesAt (short buffer len).1 (short buffer len).2.toNat<+:
      bytesAt (full other space).1 (full other space).2.toNat

variable {s : UserSetting}

/-- The full form has at least the size of the short form. -/
theorem required_le (s : UserSetting) :
    prvEncodeRequiredBytes s+2 ≤ prvEncodeRequiredBytesFull s := by
  unfold prvEncodeRequiredBytesFull
  dsimp only
  split <;> omega

/-- The size of the short form is computed exactly if it fits an int. -/
theorem requiredInt_eq (h : prvEncodeRequiredBytes s<2^31) :
    requiredInt s=prvEncodeRequiredBytes s := by
  have hint : ∀ n : ℕ,n<2^31 → toInt n=n := fun n hn => (toInt_eq_iff n).mpr (by omega)
  unfold prvEncodeRequiredBytes at h ⊢
  unfold requiredInt
  dsimp only at h ⊢
  have hbase : toInt (2+s.key.strlen+1+1+1)=(2+s.key.strlen+1+1+1 : ℕ) := by
    push_cast
    refine hint (2+s.key.strlen+1+1+1) ?_
    split at h <;> omega
  rw [hbase]
  split
  · rename_i hset
    rw [if_pos hset] at h
    exact_mod_cast hint _ h
  · rfl

/-- So is that of the full form. -/
theorem requiredIntFull_eq (h : prvEncodeRequiredBytesFull s<2^31) :
    requiredIntFull s=prvEncodeRequiredBytesFull s := by
  have hint : ∀ n : ℕ,n<2^31 → toInt n=n := fun n hn => (toInt_eq_iff n).mpr (by omega)
  have hle := required_le s
  have hshort := requiredInt_eq (s:=s) (by omega)
  have hbase : toInt (requiredInt s+1+1)=(prvEncodeRequiredBytes s+1+1 : ℕ) := by
    rw [hshort]
    exact_mod_cast hint (prvEncodeRequiredBytes s+1+1) (by omega)
  unfold prvEncodeRequiredBytesFull at h ⊢
  unfold requiredIntFull
  dsimp only at h ⊢
  rw [hbase]
  split
  · rename_i hset
    rw [if_pos hset] at h
    exact_mod_cast hint _ h
  · rfl

/-- An int that is not negative is compared as a number. -/
theorem lt_ofInt_iff {n : ℕ} (h : n<2^31) (len : UInt32) :
    len<UInt32.ofInt n ↔ (len.toNat : ℤ)<n := by
  rw [UInt32.lt_iff_toNat_lt]
  have hn : (UInt32.ofInt n).toNat=n := by
    unfold UInt32.ofInt
    rw [UInt32.toNat_ofNat']
    omega
  rw [hn]
  omega

/-- What lies behind written bytes stays. -/
theorem write_behind {mem : Mem} {bytes : List UInt8} {i : ℕ} (h : bytes.length ≤ i) :
    mem.write 0 bytes i=mem i := by
  unfold Mem.write
  rw [if_neg (by omega)]

/-- An encoder that writes some bytes to the start of its buffer, or reports
that they do not fit, respects its buffer. -/
theorem respectsBuffer_of_eq {encode : Mem → ℕ → Mem×ℤ} {bytes : List UInt8}
    (hfit : bytes.length<2^31)
    (h : ∀ buffer len,encode buffer len=
      if len<bytes.length then (buffer,-eNoMem)
      else (buffer.write 0 bytes,(bytes.length : ℤ))) :
    RespectsBuffer bytes.length encode := by
  refine ⟨lt_ofInt_iff hfit,fun buffer len => ?_,fun buffer len hlen => ?_,
    ⟨bytes,rfl,fun buffer len hlen => ?_⟩,fun buffer len i hi => ?_⟩
  · rw [h]
    split
    · exact ⟨fun _ => by omega,fun _ => rfl⟩
    · refine ⟨fun he => ?_,fun hlt => by omega⟩
      unfold eNoMem at he
      dsimp only at he
      omega
  · rw [h,if_pos (by omega)]
  · rw [h,if_neg (by omega)]
    exact ⟨rfl,bytesAt_write_zero buffer bytes⟩
  · rw [h]
    split
    · rfl
    · exact write_behind (by omega)

/-- The short form is a first part of the full form. -/
theorem encode_begins (s : UserSetting) :
    Begins (userSettingsProtocolBinaryEncode s) (userSettingsProtocolBinaryEncodeFull s) := by
  intro buffer len other space hshort hfull
  have hneg : ¬(0 : ℤ)< -eNoMem := by decide
  rw [encode_eq] at hshort ⊢
  rw [encodeFull_eq] at hfull ⊢
  split at hshort
  · exact absurd hshort hneg
  · split at hfull
    · exact absurd hfull hneg
    · rename_i hlen hspace
      rw [if_neg hlen,if_neg hspace,Int.toNat_natCast,Int.toNat_natCast,bytesAt_write_zero,
        bytesAt_write_zero]
      unfold fullBytes
      rw [List.append_assoc]
      exact List.prefix_append _ _

/-- For every setting with a key, a value and a default of any lengths whose
total fits an int, and for every buffer and length: both encoders write exactly
the bytes whose number they computed before, or nothing where there is less
space, and the short form is a first part of the full form. -/
theorem encoders_respect_buffer (hfit : prvEncodeRequiredBytesFull s<2^31) :
    RespectsBuffer (requiredInt s) (userSettingsProtocolBinaryEncode s) ∧
      RespectsBuffer (requiredIntFull s) (userSettingsProtocolBinaryEncodeFull s) ∧
      Begins (userSettingsProtocolBinaryEncode s) (userSettingsProtocolBinaryEncodeFull s) := by
  have hle := required_le s
  have hshort : prvEncodeRequiredBytes s<2^31 := by omega
  rw [requiredInt_eq hshort,requiredIntFull_eq hfit,←length_shortBytes,←length_fullBytes]
  refine ⟨respectsBuffer_of_eq ?_ (encode_eq s),respectsBuffer_of_eq ?_ (encodeFull_eq s),
    encode_begins s⟩
  · rw [length_shortBytes]
    exact hshort
  · rw [length_fullBytes]
    exact hfit

/-- The one setting of a device that has a value and a default. -/
theorem encoders_respect_buffer_on_device : ∃ w s,
    runFrom calm (device .u32 0 none none) [.setDefault (.key keyA) (memOf [1,2,3,4]) 4,
      .set (.key keyA) (memOf [5]) 4]=some w ∧ w.getByKey keyA=some s ∧
    s.isSet=true ∧ s.defaultIsSet=true ∧
    RespectsBuffer (requiredInt s) (userSettingsProtocolBinaryEncode s) ∧
      RespectsBuffer (requiredIntFull s) (userSettingsProtocolBinaryEncodeFull s) ∧
      Begins (userSettingsProtocolBinaryEncode s) (userSettingsProtocolBinaryEncodeFull s) :=
  ⟨_,_,rfl,rfl,rfl,rfl,encoders_respect_buffer (by decide)⟩

end UserSettings.Encoders
