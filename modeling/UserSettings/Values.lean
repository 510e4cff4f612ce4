import UserSettings.Bytes
import Mathlib.Data.Nat.Digits.Defs

/-!
# Integers and text

Integers as they lie in memory, little-endian and in two's complement, and
the text of decimal and hexadecimal numbers. A conversion to a narrower
integer wraps around.
-/

namespace UserSettings.Values

open Bytes

/-- The integer of some width behind a pointer. -/
def loadInteger (isSigned : Bool) (width : ℕ) (data : Mem) : ℤ :=
  let value := leNat (bytesAt data width)
  if isSigned then signed (8*width) value else value

/-- The bytes of an integer converted to some width. -/
def storeInteger (width : ℕ) (n : ℤ) : List UInt8 := leBytes width (n%(256^width : ℕ)).toNat

/-- An integer converted to a type of some width. -/
def convertInteger (isSigned : Bool) (width : ℕ) (n : ℤ) : ℤ :=
  loadInteger isSigned width (memOf (storeInteger width n))

/-- An integer converted to a signed integer of 32 bits. -/
def toInt (n : ℤ) : ℤ := n.bmod (2^32)

/-- The upper case digit of a number below sixteen. -/
def hexDigit (n : ℕ) : UInt8 := UInt8.ofNat (if n<10 then 48+n else 55+n)

/-- Two digits for each byte. -/
def hexText (bytes : List UInt8) : List UInt8 :=
  bytes.flatMap fun byte => [hexDigit (byte.toNat/16),hexDigit (byte.toNat%16)]

/-- The number of a plain character, which is a signed one on some platforms. -/
def charValue (charIsSigned : Bool) (c : UInt8) : ℤ :=
  if charIsSigned then signed 8 c.toNat else c.toNat

/-- The number a hexadecimal digit of either case stands for. Remainders are
truncated towards zero, so that they are negative for negative characters. -/
def nibble (charIsSigned : Bool) (digit : UInt8) : ℤ :=
  ((charValue charIsSigned digit).tmod 32+9).tmod 25

/-- The bytes that pairs of digits stand for; a last single digit is left out. -/
def bytesOfHex (charIsSigned : Bool) : List UInt8 → List UInt8
  | high::low::rest => UInt8.ofInt (nibble charIsSigned high*16+nibble charIsSigned low)::
      bytesOfHex charIsSigned rest
  | _ => []

/-- Decimal digits without a sign. -/
def decimalNat (n : ℕ) : List UInt8 :=
  if n=0 then [48] else (Nat.digits 10 n).reverse.map fun digit => UInt8.ofNat (48+digit)

/-- Decimal digits with a sign for negative numbers. -/
def decimal (n : ℤ) : List UInt8 :=
  if n<0 then 45::decimalNat n.natAbs else decimalNat n.natAbs

/-- The characters isspace accepts. -/
def isSpace (c : UInt8) : Bool := c=32 || (9 ≤ c && c≤13)

/-- The characters isdigit accepts. -/
def isDigit (c : UInt8) : Bool := 48 ≤ c && c≤57

/-- The number the digits at the start of a text stand for. -/
def digitsValue (text : List UInt8) : ℕ :=
  (text.takeWhile isDigit).foldl (fun n c => 10*n+(c.toNat-48)) 0

/-- The number at the start of a text, behind white space and a sign. -/
def decimalValue (text : List UInt8) : ℤ :=
  match text.dropWhile isSpace with
  | 45::rest => -(digitsValue rest : ℤ)
  | 43::rest => digitsValue rest
  | rest => digitsValue rest

/-- A number saturated to the range of a signed integer. -/
def saturate (bits : ℕ) (n : ℤ) : ℤ := max (-2^(bits-1)) (min (2^(bits-1)-1) n)

/-- Convert decimal text to a long, which has 32 bits. -/
def strtol (text : List UInt8) : ℤ := saturate 32 (decimalValue text)

/-- Convert decimal text to a long long. -/
def strtoll (text : List UInt8) : ℤ := saturate 64 (decimalValue text)

/-- An integer only depends on the bytes of its width. -/
theorem loadInteger_congr {isSigned : Bool} {width : ℕ} {left right : Mem}
    (h : bytesAt left width=bytesAt right width) :
    loadInteger isSigned width left=loadInteger isSigned width right := by
  unfold loadInteger
  rw [h]

/-- An integer has as many bytes as its width. -/
@[simp] theorem length_storeInteger (width : ℕ) (n : ℤ) : (storeInteger width n).length=width :=
  length_leBytes width _

/-- All bytes of an integer are read back. -/
theorem bytesAt_storeInteger (width : ℕ) (n : ℤ) :
    bytesAt (memOf (storeInteger width n)) width=storeInteger width n := by
  have hread := bytesAt_memOf_length (storeInteger width n)
  rw [length_storeInteger] at hread
  exact hread

/-- Integers have the same bytes when they agree up to the width. -/
theorem storeInteger_eq_iff {width : ℕ} {m n : ℤ} :
    storeInteger width m=storeInteger width n ↔ m%(256^width : ℕ)=n%(256^width : ℕ) := by
  have hpos : (0 : ℤ)<(256^width : ℕ) := by positivity
  have hmod : ∀ k : ℤ,(leNat (storeInteger width k) : ℤ)=k%(256^width : ℕ) := by
    intro k
    have hnonneg := Int.emod_nonneg k hpos.ne'
    have hlt := Int.emod_lt_of_pos k hpos
    unfold storeInteger
    rw [leNat_leBytes,Nat.mod_eq_of_lt (by omega)]
    omega
  constructor
  · intro h
    rw [←hmod m,h,hmod n]
  · intro h
    unfold storeInteger
    rw [h]

/-- The bytes of an integer that was read are those it was read from. -/
theorem storeInteger_loadInteger (isSigned : Bool) (width : ℕ) (data : Mem) :
    storeInteger width (loadInteger isSigned width data)=bytesAt data width := by
  have hlt := leNat_lt (bytesAt data width)
  have hbytes := leBytes_leNat (bytesAt data width)
  rw [length_bytesAt] at hlt hbytes
  have hpow : (2 : ℤ)^(8*width)=(256^width : ℕ) := by
    rw [pow_mul]
    norm_num
  have hmod : loadInteger isSigned width data%(256^width : ℕ)=leNat (bytesAt data width) := by
    have hself : (leNat (bytesAt data width) : ℤ)%(256^width : ℕ)=leNat (bytesAt data width) := by
      rw [←Int.natCast_mod,Nat.mod_eq_of_lt hlt]
    unfold loadInteger signed
    dsimp only
    split
    · split
      · exact hself
      · rw [hpow,Int.sub_emod_right,hself]
    · exact hself
  unfold storeInteger
  rw [hmod,Int.toNat_natCast,hbytes]

/-- A converted integer has the bytes of the integer. -/
theorem storeInteger_convertInteger (isSigned : Bool) (width : ℕ) (n : ℤ) :
    storeInteger width (convertInteger isSigned width n)=storeInteger width n :=
  (storeInteger_loadInteger isSigned width _).trans (bytesAt_storeInteger width n)

/-- The range of a signed integer of 64 bits. -/
theorem loadInteger_range (data : Mem) :
    -2^63 ≤ loadInteger true 8 data ∧ loadInteger true 8 data<2^63 := by
  have hlt := leNat_lt (bytesAt data 8)
  rw [length_bytesAt] at hlt
  unfold loadInteger signed
  simp only [if_true]
  split <;> omega

/-- The range of the integers of some width. -/
def InWidth (isSigned : Bool) (width : ℕ) (n : ℤ) : Prop :=
  if isSigned then -2^(8*width-1) ≤ n ∧ n<2^(8*width-1) else 0 ≤ n ∧ n<2^(8*width)

/-- An integer that was read lies in the range of its width. -/
theorem loadInteger_inWidth (isSigned : Bool) {width : ℕ} (hw : 0<width) (data : Mem) :
    InWidth isSigned width (loadInteger isSigned width data) := by
  have hlt := leNat_lt (bytesAt data width)
  have hpow : (256 : ℕ)^width=2^(8*width) := by
    rw [pow_mul]
    norm_num
  have htwice : (2 : ℕ)^(8*width)=2*2^(8*width-1) := by
    rw [←pow_succ']
    congr 1
    omega
  rw [length_bytesAt,hpow] at hlt
  unfold InWidth loadInteger signed
  cases isSigned with
  | false =>
    simp only [Bool.false_eq_true,if_false]
    exact ⟨Int.natCast_nonneg _,by exact_mod_cast hlt⟩
  | true =>
    have hcast : ((2 : ℤ)^(8*width))=2*2^(8*width-1) := by exact_mod_cast htwice
    have hnat : ((2^(8*width-1) : ℕ) : ℤ)=2^(8*width-1) := by norm_cast
    simp only [if_true]
    split <;> omega

/-- Integers of the range of a width that agree up to the width are equal. -/
theorem InWidth.eq_of_emod_eq {isSigned : Bool} {width : ℕ} (hw : 0<width) {m n : ℤ}
    (hm : InWidth isSigned width m) (hn : InWidth isSigned width n)
    (h : m%(256^width : ℕ)=n%(256^width : ℕ)) : m=n := by
  have hdvd : ((256^width : ℕ) : ℤ)∣m-n :=
    Int.dvd_of_emod_eq_zero (Int.emod_eq_emod_iff_emod_sub_eq_zero.mp h)
  have hpow : ((256^width : ℕ) : ℤ)=2^(8*width) := by
    rw [pow_mul]
    norm_num
  have htwice : (2 : ℤ)^(8*width)=2*2^(8*width-1) := by
    rw [←pow_succ']
    congr 1
    omega
  have hlt : |m-n|<((256^width : ℕ) : ℤ) := by
    rw [hpow,abs_lt]
    unfold InWidth at hm hn
    split at hm
    · rw [if_pos ‹_›] at hn
      omega
    · rw [if_neg ‹_›] at hn
      omega
  have hzero := Int.eq_zero_of_abs_lt_dvd hdvd hlt
  omega

/-- A conversion keeps exactly the integers of the range of its type. -/
theorem convertInteger_eq_iff {isSigned : Bool} {width : ℕ} (hw : 0<width) {n : ℤ} :
    convertInteger isSigned width n=n ↔ InWidth isSigned width n := by
  have hrange := loadInteger_inWidth isSigned hw (memOf (storeInteger width n))
  constructor
  · intro h
    rw [←h]
    exact hrange
  · intro h
    have hback := storeInteger_convertInteger isSigned width n
    rw [storeInteger_eq_iff] at hback
    exact InWidth.eq_of_emod_eq hw hrange h hback

/-- Saturating keeps exactly the integers of the range. -/
theorem saturate_eq_iff (bits : ℕ) (n : ℤ) :
    saturate bits n=n ↔ -2^(bits-1) ≤ n ∧ n<2^(bits-1) := by
  have hpos : (0 : ℤ)<2^(bits-1) := by positivity
  unfold saturate
  omega

/-- Saturating moves an integer towards zero, so it stays in every range it lies in. -/
theorem saturate_inWidth (bits : ℕ) {isSigned : Bool} {width : ℕ} {n : ℤ}
    (h : InWidth isSigned width n) : InWidth isSigned width (saturate bits n) := by
  have hpos : (0 : ℤ)<2^(8*width-1) := by positivity
  have hbits : (0 : ℤ)<2^(bits-1) := by positivity
  unfold InWidth at h ⊢
  unfold saturate
  split
  · rw [if_pos ‹_›] at h
    omega
  · rw [if_neg ‹_›] at h
    omega

/-- A saturated integer that is then converted is the integer exactly when it
lies in both ranges. -/
theorem convertInteger_saturate_iff (bits : ℕ) {isSigned : Bool} {width : ℕ} (hw : 0<width)
    {n : ℤ} : convertInteger isSigned width (saturate bits n)=n ↔
      InWidth isSigned width n ∧ -2^(bits-1) ≤ n ∧ n<2^(bits-1) := by
  rw [←saturate_eq_iff]
  constructor
  · intro h
    have hrange : InWidth isSigned width n := by
      rw [←h]
      exact loadInteger_inWidth isSigned hw _
    rw [(convertInteger_eq_iff hw).mpr (saturate_inWidth bits hrange)] at h
    exact ⟨hrange,h⟩
  · rintro ⟨hrange,hself⟩
    rw [hself]
    exact (convertInteger_eq_iff hw).mpr hrange

/-- A conversion to 32 bits keeps exactly the integers of their range. -/
theorem toInt_eq_iff (n : ℤ) : toInt n=n ↔ -2^31 ≤ n ∧ n<2^31 := by
  unfold toInt Int.bmod
  dsimp only
  split <;> omega

/-- A conversion to 32 bits leaves the low bytes alone. -/
theorem storeInteger_toInt {width : ℕ} (h : width ≤ 4) (n : ℤ) :
    storeInteger width (toInt n)=storeInteger width n := by
  have hdvd : ((256^width : ℕ) : ℤ)∣2^32 := by
    have hpow : (256^width : ℕ)∣256^4 := pow_dvd_pow 256 h
    exact_mod_cast hpow
  have hmod : toInt n%2^32=n%2^32 := by
    unfold toInt Int.bmod
    dsimp only
    split <;> omega
  rw [storeInteger_eq_iff,←Int.emod_emod_of_dvd _ hdvd,hmod,Int.emod_emod_of_dvd n hdvd]

/-- A conversion to 32 bits only leaves integers of their range alone. -/
theorem storeInteger_toInt_iff {n : ℤ} (hlow : -2^63 ≤ n) (hhigh : n<2^63) :
    storeInteger 8 (toInt n)=storeInteger 8 n ↔ -2^31 ≤ n ∧ n<2^31 := by
  rw [storeInteger_eq_iff]
  unfold toInt Int.bmod
  dsimp only
  split <;> omega

/-- A decimal digit is one. -/
theorem isDigit_digit : ∀ digit<10,isDigit (UInt8.ofNat (48+digit))=true := by decide

/-- A decimal digit stands for the number it was made from. -/
theorem digit_value : ∀ digit<10,(UInt8.ofNat (48+digit)).toNat-48=digit := by decide

/-- Digits are neither white space nor a sign. -/
theorem isDigit_cases {c : UInt8} (h : isDigit c=true) : isSpace c=false ∧ c≠45 ∧ c≠43 := by
  have hrange : 48 ≤ c.toNat := by
    unfold isDigit at h
    exact UInt8.le_iff_toNat_le.mp (by simpa using (Bool.and_eq_true_iff.mp h).1)
  refine ⟨?_,?_,?_⟩
  · cases hspace : isSpace c with
    | false => rfl
    | true =>
      unfold isSpace at hspace
      rcases Bool.or_eq_true_iff.mp hspace with heq|hle
      · rw [of_decide_eq_true heq] at hrange
        exact absurd hrange (by decide)
      · have hsmall := UInt8.le_iff_toNat_le.mp
          (of_decide_eq_true (Bool.and_eq_true_iff.mp hle).2)
        change c.toNat≤13 at hsmall
        omega
  · rintro rfl
    exact absurd hrange (by decide)
  · rintro rfl
    exact absurd hrange (by decide)

/-- Decimal digits are digits. -/
theorem decimalNat_isDigit {n : ℕ} {c : UInt8} (h : c∈decimalNat n) : isDigit c=true := by
  unfold decimalNat at h
  split at h
  · rw [List.mem_singleton.mp h]
    rfl
  · obtain ⟨digit,hdigit,rfl⟩ := List.mem_map.mp h
    exact isDigit_digit digit (Nat.digits_lt_base (by decide) (List.mem_reverse.mp hdigit))

/-- The digits of a number stand for the number. -/
theorem digitsValue_decimalNat (n : ℕ) : digitsValue (decimalNat n)=n := by
  have hfold : ∀ digits : List ℕ,(∀ digit∈digits,digit<10) →
      (digits.reverse.map fun digit => UInt8.ofNat (48+digit)).foldl
        (fun n c => 10*n+(c.toNat-48)) 0=Nat.ofDigits 10 digits := by
    intro digits
    induction digits with
    | nil => exact fun _ => rfl
    | cons digit rest ih =>
      intro hall
      rw [List.reverse_cons,List.map_append,List.foldl_append,
        ih fun other hother => hall other (List.mem_cons_of_mem digit hother),Nat.ofDigits_cons]
      change 10*Nat.ofDigits 10 rest+((UInt8.ofNat (48+digit)).toNat-48)=_
      rw [digit_value digit (hall digit List.mem_cons_self)]
      exact Nat.add_comm _ _
  have htake : (decimalNat n).takeWhile isDigit=decimalNat n :=
    List.takeWhile_eq_self_iff.mpr fun _ hc => decimalNat_isDigit hc
  unfold digitsValue
  rw [htake]
  unfold decimalNat
  split
  · rename_i hzero
    rw [hzero]
    rfl
  · rw [hfold _ fun _ hdigit => Nat.digits_lt_base (by decide) hdigit,Nat.ofDigits_digits]

/-- A number has at least one digit. -/
theorem decimalNat_ne_nil (n : ℕ) : decimalNat n≠[] := by
  unfold decimalNat
  split
  · exact List.cons_ne_nil _ _
  · rename_i hzero
    intro hnil
    exact hzero (Nat.digits_eq_nil_iff_eq_zero.mp (List.reverse_eq_nil_iff.mp
      (List.map_eq_nil_iff.mp hnil)))

/-- Decimal text stands for the integer it was made from. -/
theorem decimalValue_decimal (n : ℤ) : decimalValue (decimal n)=n := by
  unfold decimal
  split
  · change -(digitsValue (decimalNat n.natAbs) : ℤ)=n
    rw [digitsValue_decimalNat]
    omega
  · have hvalue := digitsValue_decimalNat n.natAbs
    cases htext : decimalNat n.natAbs with
    | nil => exact absurd htext (decimalNat_ne_nil _)
    | cons c rest =>
      rw [htext] at hvalue
      obtain ⟨hspace,hminus,hplus⟩ :=
        isDigit_cases (decimalNat_isDigit (htext ▸ List.mem_cons_self))
      unfold decimalValue
      rw [List.dropWhile_cons_of_neg (by simp [hspace])]
      split
      · rename_i heq
        exact absurd (List.cons.inj heq).1 hminus
      · rename_i heq
        exact absurd (List.cons.inj heq).1 hplus
      · rw [hvalue]
        omega

/-- Decimal text has no terminator. -/
theorem decimal_noNul (n : ℤ) : (0 : UInt8)∉decimal n := by
  have hdigits : (0 : UInt8)∉decimalNat n.natAbs := by
    intro h
    exact absurd (decimalNat_isDigit h) (by decide)
  unfold decimal
  split
  · intro h
    rcases List.mem_cons.mp h with heq|hmem
    · exact absurd heq (by decide)
    · exact hdigits hmem
  · exact hdigits

/-- For characters of ASCII it does not matter whether they are signed. -/
theorem nibble_ascii {charIsSigned : Bool} {c : UInt8} (h : c.toNat<128) :
    nibble charIsSigned c=((c.toNat%32+9)%25 : ℕ) := by
  have hvalue : charValue charIsSigned c=c.toNat := by
    cases charIsSigned with
    | false => rfl
    | true => exact if_pos h
  unfold nibble
  rw [hvalue]
  rfl

/-- A digit stands for the number it was made from. -/
theorem nibble_hexDigit : ∀ charIsSigned,∀ n<16,nibble charIsSigned (hexDigit n)=n := by decide

/-- A number that is one of a byte is converted to the byte. -/
theorem ofInt_natCast (n : ℕ) : UInt8.ofInt (n : ℤ)=UInt8.ofNat n := by
  apply UInt8.toNat_inj.mp
  rw [UInt8.ofInt,UInt8.toNat_ofNat',UInt8.toNat_ofNat']
  omega

/-- No digit is the terminator. -/
theorem hexDigit_ne_zero : ∀ n<16,hexDigit n≠0 := by decide

/-- Two digits for each byte. -/
theorem length_hexText (bytes : List UInt8) : (hexText bytes).length=2*bytes.length := by
  induction bytes with
  | nil => rfl
  | cons byte rest ih =>
    rw [hexText,List.flatMap_cons,List.length_append,←hexText,ih,List.length_cons]
    simp only [List.length_cons,List.length_nil]
    omega

/-- The bytes of a text of digits are those it was made from. -/
theorem bytesOfHex_hexText (charIsSigned : Bool) (bytes : List UInt8) :
    bytesOfHex charIsSigned (hexText bytes)=bytes := by
  induction bytes with
  | nil => rfl
  | cons byte rest ih =>
    have hb := byte.toNat_lt
    have hbyte : UInt8.ofInt (((byte.toNat/16 : ℕ) : ℤ)*16+((byte.toNat%16 : ℕ) : ℤ))=byte := by
      have hpair : ((byte.toNat/16 : ℕ) : ℤ)*16+((byte.toNat%16 : ℕ) : ℤ)=byte.toNat := by omega
      rw [hpair,ofInt_natCast]
      exact UInt8.ofNat_toNat
    rw [hexText,List.flatMap_cons,←hexText]
    change UInt8.ofInt _::bytesOfHex charIsSigned (hexText rest)=_
    rw [nibble_hexDigit _ _ (by omega),nibble_hexDigit _ _ (by omega),hbyte,ih]

/-- A text of digits has no terminator. -/
theorem hexText_noNul (bytes : List UInt8) : (0 : UInt8)∉hexText bytes := by
  intro h
  obtain ⟨byte,_,hdigit⟩ := List.mem_flatMap.mp h
  have hb := byte.toNat_lt
  rcases List.mem_cons.mp hdigit with hhigh|hlow
  · exact hexDigit_ne_zero _ (by omega) hhigh.symm
  · exact hexDigit_ne_zero _ (by omega) (List.mem_singleton.mp hlow).symm

end UserSettings.Values
