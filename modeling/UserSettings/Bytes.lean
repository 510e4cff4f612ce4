import Mathlib.Data.Nat.Notation
import Mathlib.Data.List.TakeWhile
import Mathlib.Tactic.Ring

/-!
# Bytes behind pointers, fixed buffers and C strings

A pointer is read as a function from offsets to bytes, so what lies past an
object is an arbitrary byte and never a hidden zero. Buffers keep their
allocated size in their type; C strings exclude the terminator from their
bytes. Integers are read little-endian.
-/

namespace UserSettings.Bytes

/-- The bytes behind a pointer, by offset. -/
abbrev Mem := ℕ → UInt8

/-- The first bytes behind a pointer. -/
def bytesAt (data : Mem) (len : ℕ) : List UInt8 := (List.range len).map data

/-- Exactly the requested number of bytes is read. -/
@[simp] theorem length_bytesAt (data : Mem) (len : ℕ) : (bytesAt data len).length=len := by
  simp [bytesAt]

/-- No bytes are read at length zero. -/
@[simp] theorem bytesAt_zero (data : Mem) : bytesAt data 0=[] := rfl

/-- A read is empty only at length zero. -/
@[simp] theorem bytesAt_eq_nil {data : Mem} {len : ℕ} : bytesAt data len=[] ↔ len=0 := by
  rw [←List.length_eq_zero_iff,length_bytesAt]

/-- The byte at a read offset. -/
theorem getElem?_bytesAt {data : Mem} {len i : ℕ} (h : i<len) :
    (bytesAt data len)[i]?=some (data i) := by
  simp [bytesAt,h]

/-- Two reads agree when every byte does; this is memcmp returning zero. -/
theorem bytesAt_eq_iff {left right : Mem} {len : ℕ} :
    bytesAt left len=bytesAt right len ↔ ∀ i<len,left i=right i := by
  constructor
  · intro h i hi
    have hb := congrArg (fun bytes => bytes[i]?) h
    simpa only [getElem?_bytesAt hi,Option.some.injEq] using hb
  · intro h
    apply List.map_congr_left
    intro i hi
    exact h i (List.mem_range.mp hi)

/-- The bytes of a list, with zeros past its end. -/
def memOf (bytes : List UInt8) : Mem := fun i => bytes.getD i 0

/-- Reading a list no further than its end gives its prefix. -/
theorem bytesAt_memOf {bytes : List UInt8} {len : ℕ} (h : len ≤ bytes.length) :
    bytesAt (memOf bytes) len=bytes.take len := by
  apply List.ext_getElem?
  intro i
  by_cases hi : i<len
  · rw [getElem?_bytesAt hi,List.getElem?_take_of_lt hi,memOf,List.getD_eq_getElem?_getD,
      List.getElem?_eq_getElem (by omega)]
    rfl
  · rw [List.getElem?_eq_none (by simpa using hi),List.getElem?_eq_none]
    simp only [List.length_take]
    omega

/-- Reading a whole list gives the list back. -/
@[simp] theorem bytesAt_memOf_length (bytes : List UInt8) :
    bytesAt (memOf bytes) bytes.length=bytes := by
  rw [bytesAt_memOf (Nat.le_refl _),List.take_length]

/-- A read only depends on the bytes it covers. -/
theorem bytesAt_memOf_bytesAt (data : Mem) (len : ℕ) :
    bytesAt (memOf (bytesAt data len)) len=bytesAt data len := by
  simpa only [length_bytesAt] using bytesAt_memOf_length (bytesAt data len)

/-- Overwrite the memory from an offset on. -/
def Mem.write (mem : Mem) (offset : ℕ) (bytes : List UInt8) : Mem :=
  fun i => if offset ≤ i ∧ i<offset+bytes.length then bytes.getD (i-offset) 0 else mem i

/-- Adjacent writes are one write of both pieces. -/
theorem Mem.write_write (mem : Mem) (offset : ℕ) (first second : List UInt8) :
    (mem.write offset first).write (offset+first.length) second=
      mem.write offset (first++second) := by
  funext i
  simp only [Mem.write,List.length_append]
  by_cases hs : offset+first.length ≤ i ∧ i<offset+first.length+second.length
  · rw [if_pos hs,if_pos (by omega)]
    simp only [List.getD_eq_getElem?_getD]
    rw [List.getElem?_append_right (by omega),Nat.sub_add_eq]
  · rw [if_neg hs]
    by_cases hf : offset ≤ i ∧ i<offset+first.length
    · rw [if_pos hf,if_pos (by omega)]
      simp only [List.getD_eq_getElem?_getD]
      rw [List.getElem?_append_left (by omega)]
    · rw [if_neg hf,if_neg (by omega)]

/-- Nothing is written. -/
theorem Mem.write_nil (mem : Mem) (offset : ℕ) : mem.write offset []=mem := by
  funext i
  refine if_neg fun hin => ?_
  have hlt : i<offset+0 := hin.2
  omega

/-- The end of a write that a later one covers is lost. -/
theorem Mem.write_over (mem : Mem) (offset : ℕ) (first : List UInt8)
    {last second : List UInt8} (h : last.length ≤ second.length) :
    (mem.write offset (first++last)).write (offset+first.length) second=
      mem.write offset (first++second) := by
  rw [←Mem.write_write,←Mem.write_write]
  funext i
  unfold Mem.write
  split
  · rfl
  · exact if_neg (by omega)

/-- Reading back what was written at the start. -/
theorem bytesAt_write_zero (mem : Mem) (bytes : List UInt8) :
    bytesAt (mem.write 0 bytes) bytes.length=bytes := by
  rw [←bytesAt_memOf_length bytes]
  rw [length_bytesAt,bytesAt_eq_iff]
  intro i hi
  simp only [bytesAt_memOf_length,Mem.write,Nat.zero_le,Nat.zero_add,true_and,Nat.sub_zero]
  rw [if_pos hi]
  rfl

/-- An allocation of a fixed number of bytes. -/
structure Buffer (size : ℕ) where
  /-- The allocated bytes. -/
  bytes : List UInt8
  /-- The allocation never changes its size. -/
  length_eq : bytes.length=size

namespace Buffer

variable {size : ℕ}

/-- Buffers are determined by their bytes. -/
theorem ext {left right : Buffer size} (h : left.bytes=right.bytes) : left=right := by
  cases left
  cases right
  simp only at h
  subst h
  rfl

/-- A freshly cleared allocation. -/
def zero (size : ℕ) : Buffer size := ⟨List.replicate size 0,List.length_replicate⟩

/-- The bytes behind a pointer to the buffer. -/
def mem (buffer : Buffer size) : Mem := memOf buffer.bytes

/-- Copy bytes to the start of the buffer; the bytes behind them stay. -/
def write (buffer : Buffer size) (bytes : List UInt8) : Buffer size where
  bytes := (bytes++buffer.bytes.drop bytes.length).take size
  length_eq := by
    have h := buffer.length_eq
    simp only [List.length_take,List.length_append,List.length_drop]
    omega

/-- Within its size a buffer is read as its bytes. -/
theorem bytesAt_mem (buffer : Buffer size) {len : ℕ} (h : len ≤ size) :
    bytesAt buffer.mem len=buffer.bytes.take len :=
  bytesAt_memOf (by rw [buffer.length_eq]; exact h)

/-- Bytes that fit are copied in front of the old remainder. -/
theorem bytes_write {buffer : Buffer size} {bytes : List UInt8} (h : bytes.length ≤ size) :
    (buffer.write bytes).bytes=bytes++buffer.bytes.drop bytes.length := by
  have hb := buffer.length_eq
  simp only [write]
  apply List.take_of_length_le
  simp only [List.length_append,List.length_drop]
  omega

/-- What was copied is read back. -/
theorem take_write {buffer : Buffer size} {bytes : List UInt8} (h : bytes.length ≤ size) :
    (buffer.write bytes).bytes.take bytes.length=bytes := by
  rw [bytes_write h,List.take_left]

/-- A cleared buffer reads as zero everywhere. -/
@[simp] theorem mem_zero (size i : ℕ) : (zero size).mem i=0 := by
  simp only [mem,memOf,zero,List.getD_eq_getElem?_getD,List.getElem?_replicate]
  split <;> rfl

/-- What is copied into a cleared buffer is followed by zeros. -/
theorem mem_write_zero {bytes : List UInt8} {i : ℕ} (h : bytes.length ≤ i) :
    ((zero size).write bytes).mem i=0 := by
  simp only [mem,memOf,write,zero,List.drop_replicate,List.getD_eq_getElem?_getD,
    List.getElem?_take]
  split
  · rw [List.getElem?_append_right h,List.getElem?_replicate]
    split <;> rfl
  · rfl

/-- Copied bytes and the old ones behind them are one read when the source
goes on with the old ones. -/
theorem bytesAt_write_of_tail {buffer : Buffer size} {data : Mem} {len : ℕ} (hf : len ≤ size)
    (ht : ∀ i,len ≤ i → i < size → data i=buffer.mem i) :
    bytesAt (buffer.write (bytesAt data len)).mem size=bytesAt data size := by
  rw [bytesAt_eq_iff]
  intro i hi
  have hlen : (bytesAt data len).length ≤ size := by rw [length_bytesAt]; exact hf
  simp only [mem,memOf,bytes_write hlen,List.getD_eq_getElem?_getD]
  by_cases hb : i<len
  · rw [List.getElem?_append_left (by rw [length_bytesAt]; exact hb),getElem?_bytesAt hb]
    rfl
  · rw [List.getElem?_append_right (by rw [length_bytesAt]; omega),length_bytesAt,
      List.getElem?_drop,Nat.add_sub_cancel' (by omega),ht i (by omega) hi]
    simp only [mem,memOf,List.getD_eq_getElem?_getD]

end Buffer

/-- The unsigned value of little-endian bytes. -/
def leNat : List UInt8 → ℕ
  | [] => 0
  | byte::rest => byte.toNat+256*leNat rest

/-- The low bytes of a number, little-endian. -/
def leBytes : ℕ → ℕ → List UInt8
  | 0,_ => []
  | width+1,value => UInt8.ofNat value::leBytes width (value/256)

/-- The two's complement value of an unsigned word. -/
def signed (bits value : ℕ) : ℤ := if value<2^(bits-1) then value else value-2^bits

/-- Exactly the requested number of bytes is produced. -/
@[simp] theorem length_leBytes (width value : ℕ) : (leBytes width value).length=width := by
  induction width generalizing value with
  | zero => rfl
  | succ width ih => simp only [leBytes,List.length_cons,ih]

/-- Little-endian bytes read back as the number they were made from, up to
the width they have room for. -/
theorem leNat_leBytes (width value : ℕ) : leNat (leBytes width value)=value%256^width := by
  induction width generalizing value with
  | zero => simp only [leBytes,leNat,pow_zero,Nat.mod_one]
  | succ width ih =>
    have hb : (UInt8.ofNat value).toNat=value%256 := UInt8.toNat_ofNat'
    rw [leBytes,leNat,ih,hb,pow_succ,Nat.mul_comm (256^width) 256,Nat.mod_mul]

/-- A number read from bytes has room in as many. -/
theorem leNat_lt (bytes : List UInt8) : leNat bytes<256^bytes.length := by
  induction bytes with
  | nil => simp [leNat]
  | cons byte rest ih =>
    have hb := byte.toNat_lt
    rw [leNat,List.length_cons,pow_succ]
    omega

/-- Bytes are those of the number they read as. -/
theorem leBytes_leNat (bytes : List UInt8) : leBytes bytes.length (leNat bytes)=bytes := by
  induction bytes with
  | nil => rfl
  | cons byte rest ih =>
    have hb := byte.toNat_lt
    have hlow : UInt8.ofNat (byte.toNat+256*leNat rest)=byte := by
      apply UInt8.toNat_inj.mp
      rw [UInt8.toNat_ofNat']
      omega
    have hhigh : (byte.toNat+256*leNat rest)/256=leNat rest := by omega
    rw [List.length_cons,leNat,leBytes,hlow,hhigh,ih]

/-- A C string: its bytes up to the terminator, which is not one of them. -/
structure CString where
  /-- The bytes before the terminator. -/
  bytes : List UInt8
  /-- No byte of the string is the terminator. -/
  noNul : (0 : UInt8)∉bytes
  deriving DecidableEq

namespace CString

/-- Two strings with the same bytes are the same, as strcmp decides. -/
theorem ext {left right : CString} (h : left.bytes=right.bytes) : left=right := by
  cases left
  cases right
  simp only at h
  subst h
  rfl

/-- The string with its terminator, as it lies in memory. -/
def withNul (s : CString) : List UInt8 := s.bytes++[0]

/-- The length strlen computes. -/
def strlen (s : CString) : ℕ := s.bytes.length

/-- Text given by its ASCII characters. -/
def ascii (text : List Char) : List UInt8 := text.map fun c => UInt8.ofNat c.toNat

end CString

/-- The C string at the start of some bytes, when a terminator is among them.
Without one, reading the string would run past the bytes. -/
def cstringAt? (bytes : List UInt8) : Option CString :=
  if (0 : UInt8)∈bytes then
    some ⟨bytes.takeWhile (·≠0),fun h => by simpa using List.mem_takeWhile_imp h⟩
  else none

/-- Bytes behind a terminator are not part of the string. -/
theorem cstringAt?_append {bytes : List UInt8} (h : (0 : UInt8)∈bytes) (rest : List UInt8) :
    cstringAt? (bytes++rest)=cstringAt? bytes := by
  have htake : (bytes++rest).takeWhile (·≠0)=bytes.takeWhile (·≠0) := by
    rw [List.takeWhile_append,if_neg]
    intro hlen
    have hall : bytes.takeWhile (·≠0)=bytes :=
      (List.takeWhile_prefix _).eq_of_length_le (by omega)
    have hzero := List.mem_takeWhile_imp (hall ▸ h)
    simp at hzero
  unfold cstringAt?
  rw [if_pos h,if_pos (List.mem_append_left rest h)]
  exact congrArg some (CString.ext htake)

/-- A string with its terminator is read as itself. -/
theorem cstringAt?_withNul (s : CString) : cstringAt? s.withNul=some s := by
  have hall : ∀ byte∈s.bytes,decide (byte≠0)=true := by
    intro byte hbyte
    refine decide_eq_true fun hzero => ?_
    rw [hzero] at hbyte
    exact s.noNul hbyte
  have htake : s.withNul.takeWhile (·≠0)=s.bytes := by
    unfold CString.withNul
    rw [List.takeWhile_append_of_pos hall]
    simp
  unfold cstringAt?
  rw [if_pos (by simp [CString.withNul])]
  exact congrArg some (CString.ext htake)

end UserSettings.Bytes
