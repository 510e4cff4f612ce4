import UserSettings.Values
import Mathlib.Data.List.Induction

/-!
# The loops over hexadecimal digits

The loop that prints bytes into an array of characters, two digits at twice the
index of each byte and a terminator behind them, and the loop that makes bytes
of pairs of characters with an index for each array. Neither initializes its
array, so what is in it at first is arbitrary; without any byte the first loop
does not even write a terminator.
-/

namespace UserSettings.HexLoops

open Bytes Values

/-- Print the bytes from an index on, each with two digits and a terminator. -/
def sprintfLoop (data : Mem) : ℕ → ℕ → Mem → Mem
  | 0,_,bytes => bytes
  | rest+1,i,bytes => sprintfLoop data rest (i+1)
      (bytes.write (2*i) [hexDigit ((data i).toNat/16),hexDigit ((data i).toNat%16),0])

/-- Convert the pairs of characters from an index on, each to one byte. -/
def nibblesLoop (charIsSigned : Bool) (value : Mem) : ℕ → ℕ → ℕ → Mem → Mem
  | 0,_,_,bytes => bytes
  | rest+1,i,j,bytes => nibblesLoop charIsSigned value rest (i+1) (j+2) (bytes.write i
      [UInt8.ofInt (nibble charIsSigned (value j)*16+nibble charIsSigned (value (j+1)))])

/-- The digits of all bytes and one terminator are written; the terminators
between them are overwritten by the next digits. -/
theorem sprintfLoop_eq (data : Mem) (rest i : ℕ) (bytes : Mem) :
    sprintfLoop data (rest+1) i bytes=
      bytes.write (2*i) (hexText ((List.range' i (rest+1)).map data)++[0]) := by
  induction rest generalizing i bytes with
  | zero => rfl
  | succ rest ih =>
    have hover : (bytes.write (2*i) ([hexDigit ((data i).toNat/16),
        hexDigit ((data i).toNat%16)]++[0])).write (2*i+2)
          (hexText ((List.range' (i+1) (rest+1)).map data)++[0])=_ :=
      Mem.write_over bytes (2*i) _ (by simp)
    rw [sprintfLoop,ih]
    exact hover

/-- What is in the array behind the loop: all digits and the terminator, or the
character that was there when there are no bytes. -/
theorem bytesAt_sprintfLoop (data : Mem) (len : ℕ) (bytes : Mem) :
    bytesAt (sprintfLoop data len 0 bytes) (len*2+1)=
      hexText (bytesAt data len)++[if len=0 then bytes 0 else 0] := by
  cases len with
  | zero => rfl
  | succ rest =>
    have hlen : (hexText (bytesAt data (rest+1))++[0]).length=(rest+1)*2+1 := by
      rw [List.length_append,length_hexText,length_bytesAt,List.length_singleton,Nat.mul_comm]
    rw [sprintfLoop_eq,←List.range_eq_range',if_neg (Nat.succ_ne_zero rest),←hlen]
    exact bytesAt_write_zero bytes _

/-- Nothing is written behind the array. -/
theorem sprintfLoop_inside (data : Mem) {len i : ℕ} (bytes : Mem) (h : len*2+1 ≤ i) :
    sprintfLoop data len 0 bytes i=bytes i := by
  cases len with
  | zero => rfl
  | succ rest =>
    rw [sprintfLoop_eq]
    refine if_neg fun hin => ?_
    have hlen := hin.2
    rw [List.length_append,length_hexText,List.length_map,List.length_range',
      List.length_singleton] at hlen
    omega

/-- The bytes of all pairs are written. -/
theorem nibblesLoop_eq (charIsSigned : Bool) (value : Mem) (rest i j : ℕ) (bytes : Mem) :
    nibblesLoop charIsSigned value rest i j bytes=
      bytes.write i (bytesOfHex charIsSigned ((List.range' j (2*rest)).map value)) := by
  induction rest generalizing i j bytes with
  | zero => exact (Mem.write_nil bytes i).symm
  | succ rest ih =>
    have hnext : (bytes.write i [UInt8.ofInt (nibble charIsSigned (value j)*16+
        nibble charIsSigned (value (j+1)))]).write (i+1)
          (bytesOfHex charIsSigned ((List.range' (j+2) (2*rest)).map value))=_ :=
      Mem.write_write bytes i _ _
    rw [nibblesLoop,ih,hnext]
    rfl

/-- A last single character has no part in the bytes. -/
theorem bytesOfHex_take (charIsSigned : Bool) (text : List UInt8) :
    bytesOfHex charIsSigned (text.take (2*(text.length/2)))=bytesOfHex charIsSigned text := by
  induction text using List.twoStepInduction with
  | nil => rfl
  | singleton last => simp [bytesOfHex]
  | cons_cons high low rest ih =>
    have hlen : 2*((high::low::rest).length/2)=2*(rest.length/2)+2 := by
      rw [List.length_cons,List.length_cons]
      omega
    rw [hlen]
    exact congrArg (_::·) ih

/-- The loop over a text leaves its bytes at the start of the array. -/
theorem nibblesLoop_text (charIsSigned : Bool) (text : CString) (bytes : Mem) :
    nibblesLoop charIsSigned (memOf text.withNul) (text.strlen/2) 0 0 bytes=
      bytes.write 0 (bytesOfHex charIsSigned text.bytes) := by
  have hlen : 2*(text.strlen/2) ≤ text.bytes.length := Nat.mul_div_le _ _
  have htext : bytesAt (memOf text.withNul) (2*(text.strlen/2))=
      text.bytes.take (2*(text.strlen/2)) := by
    rw [bytesAt_memOf (by simp [CString.withNul]; omega)]
    exact List.take_append_of_le_length hlen
  rw [nibblesLoop_eq,←List.range_eq_range']
  change bytes.write 0 (bytesOfHex charIsSigned (bytesAt _ _))=_
  rw [htext]
  exact congrArg _ (bytesOfHex_take charIsSigned text.bytes)

end UserSettings.HexLoops
