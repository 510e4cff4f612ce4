import UserSettings.Numbers
import UserSettings.Commands
import UserSettings.Shell
import UserSettings.Addressing

/-!
# Typing back what the shell prints

The shell prints a number with the conversion of its type and reads one with
strtol or strtoll, which are signed, and assigns the result to the type. What is
printed can be typed back as long as the number lies in the range of the
function that reads it; a number outside of the range of its type is taken for
another one.
-/

namespace UserSettings.Typing

open Bytes Values Settings Storage Store Effects Setters Reactions Records Cells Outcomes
open Operations Transition Load Json Commands Shell Device Durability Visits RoundTrip Importing
open UserSettings.Numbers Addressing

/-- An integer is a value of a type; a truth value is zero or one. -/
def InType (type : UserSettingType) (size : ℕ) (n : ℤ) : Prop :=
  if type=.bool then n=0 ∨ n=1 else InWidth type.isSigned size n

/-- The number of bits that are read for a type: those of long long for integers
of 64 bits, else those of long. -/
def longBits : UserSettingType → ℕ
  | .u64 | .i64 => 64
  | .bool | .u8 | .u16 | .u32 | .i8 | .i16 | .i32 | .str | .bytes => 32

/-- An integer lies in the signed range that is read for a type. -/
def InLong (type : UserSettingType) (n : ℤ) : Prop :=
  -2^(longBits type-1) ≤ n ∧ n<2^(longBits type-1)

/-- An integer as it is typed. -/
def decimalText (n : ℤ) : CString := ⟨decimal n,decimal_noNul n⟩

/-- The shell prints a setting with some text as its value. -/
def Shows (s : UserSetting) (value : List UInt8) : Prop :=
  ∃ default,printHalf s.type s.defaultIsSet s.defaultData s.defaultDataLen=.ok default ∧
    prvShellPrintSetting s=.ok (CString.ascii ['i','d',':',' ']++decimal s.id.toNat++
      CString.ascii [',',' ','k','e','y',':',' ']++quoted s.key.bytes++
      CString.ascii [',',' ','v','a','l','u','e',':',' ']++value++
      CString.ascii [',',' ','d','e','f','a','u','l','t',':',' ']++default++[10])

/-- A setting takes an integer: its validate callback accepts it, and no
callback that is notified then sets the setting again. -/
structure Takes (env : Env) (stack : Mem) (w : World) (t : UserSetting) (size : ℕ)
    (n : ℤ) : Prop where
  /-- The integer is accepted. -/
  accepted : Accepts stack t size n
  /-- The setting is left alone. -/
  unnamed : ¬CallbackNames env w t (.set (stack.write 0 (storeInteger size n)) size) t.key

/-- What is printed for an integer can be typed back, and an integer that is no
value of the type is not taken for another one. -/
structure TypedBack (type : UserSettingType) (size : ℕ) (n : ℤ) : Prop where
  /-- The text printed for a value is a set call with the bytes of the value for
  every setting of the type, and sets those that take it to the value. -/
  stored : InType type size n → ∀ s : UserSetting,s.type=type → Holds s size n →
    ∃ text : CString,Shows s text.bytes ∧
      ∀ (env : Env) (setup : Setup) (stack : Mem) (w : World) (t : UserSetting),
        Running setup w → t∈w.list.items → t.type=type →
        let result := prvUserSettingsSet env env.callbacks w t
          (stack.write 0 (storeInteger size n)) size
        cmdSet env stack w t.key text=.ok result ∧
          (Takes env stack w t size n → ∃ r,result.1.getByKey t.key=some r ∧ Holds r size n)
  /-- The text of another integer does not successfully set a setting of the type
  to a different one. -/
  honest : ¬InType type size n →
    ∀ (env : Env) (setup : Setup) (stack : Mem) (w next : World) (t r : UserSetting) (m : ℤ),
      Running setup w → t∈w.list.items → t.type=type →
      cmdSet env stack w t.key (decimalText n)=.ok (next,0) → next.getByKey t.key=some r →
      Holds r size m → m=n

/-- The integer that the text of an integer is taken for, before it is assigned
to the type. -/
def typed (type : UserSettingType) (n : ℤ) : ℤ :=
  if type=.bool then if n=0 then 0 else 1 else saturate (longBits type) n

variable {env : Env} {setup : Setup} {stack : Mem} {w : World} {s t : UserSetting}
  {type : UserSettingType} {size : ℕ} {n : ℤ} {text : List UInt8}

/-- A value of a type lies in the range of its width. -/
theorem InType.inWidth (hsize : prvTypeToSize type=some size) (h : InType type size n) :
    InWidth type.isSigned size n := by
  unfold InType at h
  split at h
  · rename_i hbool
    rw [hbool] at hsize ⊢
    cases hsize
    rcases h with rfl|rfl
    · exact ⟨by decide,by decide⟩
    · exact ⟨by decide,by decide⟩
  · exact h

/-- A value of a type that lies in the range that is read is taken for itself. -/
theorem typed_self (hn : InType type size n) (hlong : InLong type n) : typed type n=n := by
  unfold InType at hn
  unfold typed
  split
  · rw [if_pos ‹_›] at hn
    rcases hn with rfl|rfl
    · rfl
    · rfl
  · exact (saturate_eq_iff (longBits type) n).mpr hlong

/-- An integer is assigned as itself exactly when it lies in both ranges. -/
theorem typed_eq_iff (hsize : prvTypeToSize type=some size) :
    convertInteger type.isSigned size (typed type n)=n ↔ InType type size n ∧ InLong type n := by
  have hpos := size_pos hsize
  by_cases hbool : type=.bool
  · rw [hbool] at hsize ⊢
    cases hsize
    have hzero : convertInteger false 1 0=0 := rfl
    have hone : convertInteger false 1 1=1 := rfl
    unfold typed InType InLong
    rw [if_pos rfl,if_pos rfl]
    change convertInteger false 1 _=n ↔ (n=0 ∨ n=1) ∧ -2^31 ≤ n ∧ n<2^31
    split
    · rw [hzero]
      omega
    · rw [hone]
      omega
  · unfold typed InType
    rw [if_neg hbool,if_neg hbool]
    exact convertInteger_saturate_iff (longBits type) hpos

/-- The set command passes on what the text of an integer is taken for. -/
theorem shellBytes_decimal {charIsSigned : Bool} (hsize : prvTypeToSize type=some size) (n : ℤ) :
    shellBytes charIsSigned type (decimalText n)=.ok (storeInteger size (typed type n)) := by
  have hlong : strtol (decimalText n).bytes=saturate 32 n :=
    congrArg (saturate 32) (decimalValue_decimal n)
  have hlonglong : strtoll (decimalText n).bytes=saturate 64 n :=
    congrArg (saturate 64) (decimalValue_decimal n)
  unfold shellBytes
  cases type with
  | str | bytes => cases hsize
  | bool =>
    cases hsize
    have hzero : saturate 32 n=0 ↔ n=0 := by
      unfold saturate
      omega
    dsimp only
    unfold typed
    rw [hlong,if_pos rfl]
    by_cases hn : n=0
    · rw [if_pos hn,decide_eq_false (not_not.mpr (hzero.mpr hn))]
      rfl
    · have hne : saturate 32 n≠0 := fun h => hn (hzero.mp h)
      rw [if_neg hn,decide_eq_true hne]
      rfl
  | u8 | u16 | u32 | i8 | i16 | i32 =>
    cases hsize
    exact congrArg (fun m => Except.ok (storeInteger _ m)) hlong
  | u64 | i64 =>
    cases hsize
    exact congrArg (fun m => Except.ok (storeInteger _ m)) hlonglong

/-- Half of a setting of an integer type is printed whatever it contains. -/
theorem printHalf_ok (hsize : prvTypeToSize type=some size) {room : ℕ} (isSet : Bool)
    (data : Buffer room) (len : ℕ) : ∃ half,printHalf type isSet data len=.ok half := by
  unfold printHalf
  split
  · cases type with
    | str | bytes => cases hsize
    | bool | u8 | u16 | u32 | u64 | i8 | i16 | i32 | i64 => exact ⟨_,rfl⟩
  · exact ⟨_,rfl⟩

/-- A value is printed as its decimal text. -/
theorem shows_decimal (hsize : prvTypeToSize s.type=some size) (h : Holds s size n) :
    Shows s (decimal n) := by
  have hvalue : printHalf s.type s.isSet s.data s.dataLen=.ok (decimal n) := by
    have hread := h.integer
    unfold printHalf printData
    rw [if_pos h.isSet]
    cases htype : s.type with
    | str | bytes =>
      rw [htype] at hsize
      cases hsize
    | bool | u8 | u16 | u32 | u64 | i8 | i16 | i32 | i64 =>
      rw [htype] at hsize hread
      cases hsize
      exact congrArg (fun m => Except.ok (decimal m)) hread
  obtain ⟨default,hdefault⟩ := printHalf_ok hsize s.defaultIsSet s.defaultData s.defaultDataLen
  refine ⟨default,hdefault,?_⟩
  unfold prvShellPrintSetting
  rw [hvalue,hdefault]
  rfl

/-- There is one text of the value in what is printed. -/
theorem Shows.unique {other : List UInt8} (h : Shows s text) (k : Shows s other) :
    text=other := by
  obtain ⟨default,hdefault,hline⟩ := h
  obtain ⟨_,hsame,hother⟩ := k
  cases hdefault.symm.trans hsame
  have hlines := Except.ok.inj (hline.symm.trans hother)
  exact List.append_cancel_left (List.append_cancel_right (List.append_cancel_right
    (List.append_cancel_right hlines)))

/-- A setting has the integer as its value that was assigned to its type. -/
theorem holds_stored (hmax : t.maxSize=size) (n : ℤ) :
    Holds ((storeValue (storeInteger size n)).apply t) size
      (convertInteger t.type.isSigned size n) := by
  have hlen := length_storeInteger size n
  have hfits : (storeInteger size n).length ≤ t.maxSize := by
    rw [hlen,hmax]
  have hdata : bytesAt (t.data.write (storeInteger size n)).mem (storeInteger size n).length=
      storeInteger size n := by
    rw [(t.data.write _).bytesAt_mem hfits]
    exact Buffer.take_write hfits
  rw [hlen] at hdata
  exact ⟨rfl,hlen,loadInteger_congr (hdata.trans (bytesAt_storeInteger size n).symm)⟩

/-- A set command with the text of an integer is a set call with its bytes. -/
theorem cmdSet_decimal (hl : w.isLoaded=true) (ht : w.getByKey t.key=some t)
    (hsize : prvTypeToSize t.type=some size) (n : ℤ) : cmdSet env stack w t.key (decimalText n)=
      .ok (prvUserSettingsSet env env.callbacks w t
        (stack.write 0 (storeInteger size (typed t.type n))) size) := by
  have hrun : cmdSet env stack w t.key (decimalText n)=_ :=
    cmdSet_eq hl ht (shellBytes_decimal hsize n)
  rw [length_storeInteger] at hrun
  exact hrun

/-- A setting that takes an integer has it as its value, converted to its type,
behind a set call with its bytes. -/
theorem set_holds (hw : Running setup w) (ht : t∈w.list.items)
    (hsize : prvTypeToSize t.type=some size) (htakes : Takes env stack w t size n) :
    ∃ r,(prvUserSettingsSet env env.callbacks w t (stack.write 0 (storeInteger size n))
      size).1.getByKey t.key=some r ∧ Holds r size (convertInteger t.type.isSigned size n) := by
  have hget : w.getByKey t.key=some t := getByKey_of_mem ht
  have hok := hw.records t ht
  have hpos := size_pos hsize
  have hmax := maxSize_of_type hw.regs ht hsize
  have hlen := length_storeInteger size n
  have hsplit := bytes_cases hok stack (storeInteger size n)
  rw [hlen,hmax] at hsplit
  rcases hsplit with hlong|hsame|⟨_,_,hrefused⟩|hwrites
  · exact absurd hlong (lt_irrefl size)
  · -- the value is in place already
    have hkeeps : ¬Writes t (stack.write 0 (storeInteger size n)) size := by
      intro hwrites
      have hvalue : SameValue t (stack.write 0 (storeInteger size n)) _ :=
        (sameValue_stack hok).mpr hsame
      rw [hlen] at hvalue
      exact hwrites.differs hvalue
    rw [userSettingsSet_keeps hkeeps]
    refine ⟨t,hget,(holds_iff hok hpos (loadInteger_inWidth _ hpos _)).mpr ?_⟩
    exact hsame.symm.trans (storeInteger_convertInteger _ size n).symm
  · exact absurd (htakes.accepted.symm.trans hrefused) Bool.true_eq_false.mp
  · obtain ⟨flag,hflag⟩ := set_written_record env hget hwrites
      (valueWritten_unnamed hget hwrites hpos.ne' htakes.unnamed)
    have hbytes := read_stack stack (storeInteger size n)
    rw [hlen] at hbytes
    rw [hbytes] at hflag
    exact ⟨_,hflag,(holds_flag flag).mpr (holds_stored hmax n)⟩

/-- A value that lies in the range that is read can be typed back. -/
theorem typedBack_of_inLong (hsize : prvTypeToSize type=some size) (hn : InType type size n)
    (hlong : InLong type n) : TypedBack type size n := by
  refine ⟨fun _ s hs hheld => ⟨decimalText n,?_,?_⟩,fun hnot => absurd hn hnot⟩
  · rw [←hs] at hsize
    exact shows_decimal hsize hheld
  · intro env setup stack w t hw ht htype
    rw [←htype] at hsize hn hlong
    have hrun : cmdSet env stack w t.key (decimalText n)=_ :=
      cmdSet_decimal hw.isLoaded (getByKey_of_mem ht) hsize n
    rw [typed_self hn hlong] at hrun
    refine ⟨hrun,fun htakes => ?_⟩
    obtain ⟨r,hr,hholds⟩ := set_holds hw ht hsize htakes
    rw [(convertInteger_eq_iff (size_pos hsize)).mpr (hn.inWidth hsize)] at hholds
    exact ⟨r,hr,hholds⟩

/-- Callbacks that do nothing name no setting. -/
theorem calm_unnamed (data : Mem) (len : ℕ) (key : CString) :
    ¬CallbackNames calm w t (.set data len) key := by
  rintro ⟨_,_,⟨_,hnames⟩|⟨_,hnames⟩⟩
  · exact hnames
  · exact hnames

/-- A new device with a setting of an integer type, which takes every integer. -/
theorem new_device (hsize : prvTypeToSize type=some size) :
    ∃ w t,Running (device type 0 none none) w ∧ t∈w.list.items ∧ t.type=type ∧
      t.isSet=false ∧ ∀ m,Takes calm (memOf []) w t size m := by
  obtain ⟨w,hboot,t,ht,htype,hfresh,hvalid⟩ : ∃ w,boot calm (device type 0 none none) ∅=.ok w ∧
      ∃ t,t∈w.list.items ∧ t.type=type ∧ t.isSet=false ∧ t.validateCb=none := by
    cases type with
    | str | bytes => cases hsize
    | bool | u8 | u16 | u32 | u64 | i8 | i16 | i32 | i64 =>
      exact ⟨_,rfl,_,List.mem_cons_self,rfl,rfl,rfl⟩
  refine ⟨w,t,running_of_booted (reboot_ok hboot),ht,htype,hfresh,fun m => ⟨?_,?_⟩⟩
  · unfold Accepts UserSetting.validates
    rw [hvalid]
  · exact calm_unnamed _ _ _

/-- On a new device the text of any integer is set successfully, as the integer
it is assigned as. -/
theorem typed_on_new_device {setup : Setup} (hw : Running setup w) (ht : t∈w.list.items)
    (hsize : prvTypeToSize t.type=some size) (hfresh : t.isSet=false)
    (htakes : ∀ m,Takes calm stack w t size m) (n : ℤ) :
    ∃ next r,cmdSet calm stack w t.key (decimalText n)=.ok (next,0) ∧
      next.getByKey t.key=some r ∧
      Holds r size (convertInteger t.type.isSigned size (typed t.type n)) := by
  have hget : w.getByKey t.key=some t := getByKey_of_mem ht
  have hok := hw.records t ht
  have hlen := length_storeInteger size (typed t.type n)
  have hempty : t.dataLen=0 := by
    by_contra hne
    have hset := hok.value.isSet_iff.mpr (by omega)
    rw [hfresh] at hset
    cases hset
  have hne : storeInteger size (typed t.type n)≠t.value := by
    intro hsame
    have hvalue := length_value hok
    rw [←hsame,hlen,hempty] at hvalue
    exact (size_pos hsize).ne' hvalue
  have hfits : (storeInteger size (typed t.type n)).length ≤ t.maxSize := by
    rw [hlen,maxSize_of_type hw.regs ht hsize]
  have haccepted : t.validates (stack.write 0 (storeInteger size (typed t.type n)))
      (storeInteger size (typed t.type n)).length=true := by
    rw [hlen]
    exact (htakes (typed t.type n)).accepted
  have hret : (prvUserSettingsSet calm calm.callbacks w t
      (stack.write 0 (storeInteger size (typed t.type n))) _).2=0 :=
    set_ret (fun _ => rfl) (passive_callbacks fun _ => rfl) hget
      (writes_stack hok hfits hne haccepted)
  obtain ⟨r,hr,hholds⟩ := set_holds hw ht hsize (htakes (typed t.type n))
  rw [hlen] at hret
  refine ⟨_,r,?_,hr,hholds⟩
  rw [←hret]
  exact cmdSet_decimal hw.isLoaded hget hsize n

/-- What can be typed back is a value that lies in the range that is read. -/
theorem ranges_of_typedBack (hsize : prvTypeToSize type=some size) (h : TypedBack type size n) :
    InType type size n ∧ InLong type n := by
  obtain ⟨w,t,hw,ht,htype,hfresh,htakes⟩ : ∃ w t,Running (device type 0 none none) w ∧ _ :=
    new_device hsize
  have hsize' : prvTypeToSize t.type=some size := by rw [htype,hsize]
  obtain ⟨next,r,hrun,hr,hholds⟩ := typed_on_new_device hw ht hsize' hfresh htakes n
  rw [←typed_eq_iff hsize,←htype]
  by_cases hn : InType type size n
  · -- a setting that holds the value, whose line is typed back
    have hprinted := holds_stored (maxSize_of_type hw.regs ht hsize') n
    rw [htype,(convertInteger_eq_iff (size_pos hsize)).mpr (hn.inWidth hsize)] at hprinted
    have hline := shows_decimal (s:=(storeValue (storeInteger size n)).apply t) hsize' hprinted
    obtain ⟨text,hshows,hstored⟩ := h.stored hn ((storeValue _).apply t) htype hprinted
    have htext : text=decimalText n := CString.ext (hshows.unique hline)
    obtain ⟨hcommand,hset⟩ := hstored calm _ (memOf []) w t hw ht htype
    obtain ⟨back,hback,hvalue⟩ := hset (htakes n)
    rw [htext] at hcommand
    have hnext := congrArg Prod.fst (Except.ok.inj (hcommand.symm.trans hrun))
    rw [hnext] at hback
    cases hr.symm.trans hback
    exact hholds.integer.symm.trans hvalue.integer
  · exact h.honest hn _ _ _ _ _ _ _ _ hw ht htype hrun hr hholds

/-- For every integer type and every integer, whatever the validate callbacks
judge and storage answers: a value that is printed can be typed back on every
running store, and no other integer is taken for a value, if and only if the
integer is a value of the type and lies in the signed range that is read. -/
theorem typed_back_iff (hsize : prvTypeToSize type=some size) (n : ℤ) :
    TypedBack type size n ↔ InType type size n ∧ InLong type n :=
  ⟨ranges_of_typedBack hsize,fun h => typedBack_of_inLong hsize h.1 h.2⟩

/-- A negative byte. -/
theorem typed_back_byte : TypedBack .i8 1 (-128) ↔ InType .i8 1 (-128) ∧ InLong .i8 (-128) :=
  typed_back_iff rfl (-128)

/-- Three billion, as an unsigned integer of 32 bits, cannot be typed back. -/
theorem three_billion_saturates :
    ¬∀ (type : UserSettingType) (size : ℕ) (n : ℤ),prvTypeToSize type=some size →
      TypedBack type size n := by
  intro h
  have hlong := (ranges_of_typedBack rfl (h .u32 4 3000000000 rfl)).2
  exact absurd hlong.2 (by decide)

end UserSettings.Typing
