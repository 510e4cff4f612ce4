import UserSettings.HexText
import UserSettings.Shell

/-!
# Printing bytes as digits and reading them back

Two printers and two readers of hexadecimal digits: those of the JSON functions
and those of the shell. Every pair of them is lossless both ways, with digits of
either case, as long as there are bytes. Without any, the printer of the JSON
export leaves whatever its array contains as the text.
-/

namespace UserSettings.HexCodec

open Bytes Values HexLoops Settings Store Json Export Shell Commands Operations HexText

/-- The character in upper case. -/
def toUpper (c : UInt8) : UInt8 := if 97 ≤ c.toNat ∧ c.toNat ≤ 122 then c-32 else c

/-- A hexadecimal digit of either case. -/
def IsHexDigit (c : UInt8) : Prop := digitValue? c≠none

/-- The code that prints the bytes of a setting. -/
inductive Printer where
  /-- The export to JSON, which finds some memory in its array. -/
  | json (stack : Mem)
  /-- The shell. -/
  | shell

/-- The code that reads digits. -/
inductive Reader where
  /-- The import of JSON. -/
  | json
  /-- The set command of the shell. -/
  | shell

/-- A bytes setting is printed as a text. -/
def Printer.Prints (s : UserSetting) (text : CString) : Printer → Prop
  | .json stack => ∃ item,prvJsonFromSetting stack s=.ok item ∧ item.valuestring=some text
  | .shell => printData s.type s.data s.dataLen=.ok text.bytes

/-- The text that is printed for a number of bytes has an end. -/
def Printer.Ends (len : ℕ) : Printer → Prop
  | .json stack => len=0 → stack 0=0
  | .shell => True

/-- The bytes that a reader passes on for a text. -/
def Reader.convert (charIsSigned : Bool) (text : CString) :
    Reader → Except Fault (Option (List UInt8))
  | .json => importBytes charIsSigned .bytes (.mk .string none 0 0 (some text) [])
  | .shell => (shellBytes charIsSigned .bytes text).map some

/-- A text is read as some bytes. -/
structure Reads (charIsSigned : Bool) (reader : Reader) (text : CString)
    (bytes : List UInt8) : Prop where
  /-- They are passed on. -/
  passed : reader.convert charIsSigned text=.ok (some bytes)
  /-- They are one for each pair of characters. -/
  length : bytes.length=text.strlen/2
  /-- They are what the loop leaves in the array, whatever was in it. -/
  array : ∀ stack,nibblesLoop charIsSigned (memOf text.withNul) (text.strlen/2) 0 0 stack=
    stack.write 0 bytes

/-- Nothing is lost between the bytes of some number and their digits. -/
structure Lossless (charIsSigned : Bool) (printer : Printer) (reader : Reader) (len : ℕ) :
    Prop where
  /-- Every array is printed, and what is printed is read as the array, also with
  letters in lower case. -/
  back : ∀ s : UserSetting,s.type=.bytes → s.dataLen=len → len ≤ s.maxSize →
    ∃ text,printer.Prints s text ∧
      ∀ typed : CString,typed.bytes.map toUpper=text.bytes → Reads charIsSigned reader typed s.value
  /-- Every text of digits is read, and what is read is printed as the text in
  upper case. -/
  again : ∀ text : CString,(∀ c∈text.bytes,IsHexDigit c) → text.strlen=2*len →
    ∃ bytes,Reads charIsSigned reader text bytes ∧
      ∀ s : UserSetting,s.type=.bytes → s.dataLen ≤ s.maxSize → s.value=bytes →
        ∃ printed,printer.Prints s printed ∧ printed.bytes=text.bytes.map toUpper

variable {charIsSigned : Bool} {stack : Mem} {printer : Printer} {reader : Reader} {len : ℕ}

/-- A letter in upper case. -/
theorem toNat_sub_case {c : UInt8} (h : 97 ≤ c.toNat) : (c-32).toNat=c.toNat-32 := by
  have hle : (32 : UInt8).toNat ≤ c.toNat := Nat.le_trans (by decide) h
  exact UInt8.toNat_sub_of_le c 32 (UInt8.le_iff_toNat_le.mpr hle)

/-- Both cases of a letter stand for the same number. -/
theorem nibble_toUpper (c : UInt8) : nibble charIsSigned (toUpper c)=nibble charIsSigned c := by
  unfold toUpper
  split
  · rename_i hlower
    have hupper := toNat_sub_case hlower.1
    rw [nibble_ascii (by omega : c.toNat<128),nibble_ascii (by omega : (c-32).toNat<128),hupper]
    omega
  · rfl

/-- The case of letters has no part in the bytes. -/
theorem bytesOfHex_toUpper (text : List UInt8) :
    bytesOfHex charIsSigned (text.map toUpper)=bytesOfHex charIsSigned text := by
  induction text using List.twoStepInduction with
  | nil => rfl
  | singleton last => simp [bytesOfHex]
  | cons_cons high low rest ih =>
    rw [List.map_cons,List.map_cons,bytesOfHex,bytesOfHex,nibble_toUpper,nibble_toUpper,ih]

/-- The number of a digit is printed as the digit in upper case. -/
theorem hexDigit_digitValue {c : UInt8} {n : ℕ} (h : digitValue? c=some n) :
    n<16 ∧ hexDigit n=toUpper c := by
  have hself : UInt8.ofNat c.toNat=c := UInt8.ofNat_toNat
  unfold digitValue? at h
  unfold hexDigit toUpper
  split at h
  · cases h
    refine ⟨by omega,?_⟩
    rw [if_pos (by omega),if_neg (by omega),Nat.add_sub_cancel' (by omega),hself]
  · split at h
    · cases h
      refine ⟨by omega,?_⟩
      rw [if_neg (by omega),if_neg (by omega),Nat.add_sub_cancel' (by omega),hself]
    · split at h
      · rename_i hlower
        cases h
        refine ⟨by omega,?_⟩
        rw [if_neg (by omega),if_pos (by omega)]
        apply UInt8.toNat_inj.mp
        rw [toNat_sub_case hlower.1,UInt8.toNat_ofNat']
        omega
      · cases h

/-- The byte of two digits is printed as both in upper case. -/
theorem hexText_pair {high low : UInt8} (hhigh : IsHexDigit high) (hlow : IsHexDigit low) :
    hexText [UInt8.ofInt (nibble charIsSigned high*16+nibble charIsSigned low)]=
      [toUpper high,toUpper low] := by
  obtain ⟨first,hfirst⟩ := Option.ne_none_iff_exists'.mp hhigh
  obtain ⟨second,hsecond⟩ := Option.ne_none_iff_exists'.mp hlow
  obtain ⟨hsmall,hupper⟩ := hexDigit_digitValue hfirst
  obtain ⟨hlittle,hlower⟩ := hexDigit_digitValue hsecond
  have hbyte : (UInt8.ofNat (first*16+second)).toNat=first*16+second := by
    rw [UInt8.toNat_ofNat']
    omega
  have hdiv : (first*16+second)/16=first := by omega
  have hmod : (first*16+second)%16=second := by omega
  have hpair : nibble charIsSigned high*16+nibble charIsSigned low=(first*16+second : ℕ) := by
    rw [nibble_eq hfirst,nibble_eq hsecond]
    omega
  rw [hpair,ofInt_natCast,←hupper,←hlower]
  change [hexDigit _,hexDigit _]=_
  rw [hbyte,hdiv,hmod]

/-- What is read from pairs of digits is printed as the digits in upper case. -/
theorem hexText_bytesOfHex (text : List UInt8) (h : ∀ c∈text,IsHexDigit c)
    (heven : text.length%2=0) : hexText (bytesOfHex charIsSigned text)=text.map toUpper := by
  induction text using List.twoStepInduction with
  | nil => rfl
  | singleton last => cases heven
  | cons_cons high low rest ih =>
    have hrest := ih (fun c hc => h c (List.mem_cons_of_mem _ (List.mem_cons_of_mem _ hc)))
      (by rw [List.length_cons,List.length_cons] at heven; omega)
    have hpair : hexText [UInt8.ofInt (nibble charIsSigned high*16+nibble charIsSigned low)]=_ :=
      hexText_pair (h high List.mem_cons_self) (h low (List.mem_cons_of_mem _ List.mem_cons_self))
    change hexText [UInt8.ofInt (nibble charIsSigned high*16+nibble charIsSigned low)]++
      hexText (bytesOfHex charIsSigned rest)=_
    rw [hpair,hrest]
    rfl

/-- Both readers read a text that fits as the bytes of its pairs. -/
theorem reads_bytesOfHex (reader : Reader) {text : CString} (h : text.strlen/2 ≤ bytesSize) :
    Reads charIsSigned reader text (bytesOfHex charIsSigned text.bytes) := by
  have hroom : ¬bytesSize<text.strlen/2 := Nat.not_lt.mpr h
  refine ⟨?_,length_bytesOfHex charIsSigned text.bytes,nibblesLoop_text charIsSigned text⟩
  cases reader with
  | json => exact if_neg hroom
  | shell =>
    have hbytes : shellBytes charIsSigned .bytes text=
        .ok (bytesOfHex charIsSigned text.bytes) := if_neg hroom
    unfold Reader.convert
    dsimp only
    rw [hbytes]
    rfl

/-- Both printers print the digits of the bytes when the text has an end. -/
theorem prints_hexText {s : UserSetting} (htype : s.type=.bytes) (hfits : s.dataLen ≤ s.maxSize)
    (hends : printer.Ends s.dataLen) :
    printer.Prints s ⟨hexText s.value,hexText_noNul s.value⟩ := by
  have hvalue : bytesAt s.data.mem s.dataLen=s.value := s.data.bytesAt_mem hfits
  cases printer with
  | json stack =>
    rw [←hvalue]
    unfold Printer.Prints prvJsonFromSetting
    rw [htype]
    exact ⟨_,createString_digits hends,rfl⟩
  | shell =>
    unfold Printer.Prints printData
    rw [htype,←hvalue]

/-- Bytes whose digits have an end are not lost. -/
theorem lossless_of_ends (hlen : len ≤ bytesSize) (hends : printer.Ends len) :
    Lossless charIsSigned printer reader len := by
  refine ⟨fun s htype hs hfits => ?_,fun text hdigits htext => ?_⟩
  · subst hs
    refine ⟨_,prints_hexText htype hfits hends,fun typed htyped => ?_⟩
    have hvalue : s.value.length=s.dataLen :=
      List.length_take_of_le (s.data.length_eq.symm ▸ hfits)
    have hroom : typed.strlen/2 ≤ bytesSize := by
      have hcount := congrArg List.length htyped
      rw [List.length_map,length_hexText,hvalue] at hcount
      unfold CString.strlen
      omega
    have hbytes : bytesOfHex charIsSigned typed.bytes=s.value := by
      rw [←bytesOfHex_toUpper,htyped,bytesOfHex_hexText]
    exact hbytes ▸ reads_bytesOfHex reader hroom
  · have hroom : text.strlen/2 ≤ bytesSize := by omega
    refine ⟨_,reads_bytesOfHex reader hroom,fun s htype hfits hvalue => ?_⟩
    have hcount : s.dataLen=len := by
      have hbytes := congrArg List.length hvalue
      rw [length_bytesOfHex] at hbytes
      have htake : s.value.length=s.dataLen :=
        List.length_take_of_le (s.data.length_eq.symm ▸ hfits)
      have hpairs : text.bytes.length=2*len := htext
      omega
    refine ⟨_,prints_hexText htype hfits (hcount.symm ▸ hends),?_⟩
    dsimp only
    rw [hvalue]
    exact hexText_bytesOfHex text.bytes hdigits (by
      have hpairs : text.bytes.length=2*len := htext
      omega)

/-- Where nothing is lost the digits have an end. -/
theorem ends_of_lossless (h : Lossless charIsSigned printer reader len) : printer.Ends len := by
  cases printer with
  | json stack =>
    rintro rfl
    obtain ⟨text,⟨item,hitem,_⟩,_⟩ := h.back (.fresh 1 keyA .bytes 0) rfl rfl (Nat.zero_le 0)
    exact (jsonFromSetting_ok.mp ⟨item,hitem⟩).digits rfl rfl
  | shell => trivial

/-- For both printers, both readers and every number of bytes an import has room
for, whatever is in the arrays at first and with signed and with unsigned
characters: all arrays of bytes and all texts of
digits are converted without loss, whatever the case of their letters, if and
only if the shell prints, there are bytes, or the array of the export starts
with the end of a text. -/
theorem lossless_iff_ends (charIsSigned : Bool) (printer : Printer) (reader : Reader)
    (hlen : len ≤ bytesSize) :
    Lossless charIsSigned printer reader len ↔ printer.Ends len :=
  ⟨ends_of_lossless,lossless_of_ends hlen⟩

/-- A full array, from the export to the shell. -/
theorem lossless_of_full_array :
    Lossless true (.json (memOf [7])) .shell 1024 ↔ (Printer.json (memOf [7])).Ends 1024 :=
  lossless_iff_ends true (.json (memOf [7])) .shell (Nat.le_refl 1024)

/-- Without bytes the export takes what it finds for their digits. -/
theorem no_bytes_printed :
    ¬∀ (charIsSigned : Bool) (printer : Printer) (reader : Reader) (len : ℕ),len ≤ bytesSize →
      Lossless charIsSigned printer reader len := by
  intro h
  have hend := ends_of_lossless (h true (.json (memOf [7])) .json 0 (Nat.zero_le _)) rfl
  exact absurd hend (by decide)

end UserSettings.HexCodec
