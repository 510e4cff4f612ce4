import UserSettings.LastWrite
import UserSettings.RoundTrip

/-!
# Whether numbers are imported exactly or refused

The JSON library keeps a number and, beside it, the number saturated to the
range of int. The import converts the saturated one to the type of the setting
and never looks whether this changes it. An integer that lies in the range of
the type and of int arrives as it was sent.
-/

namespace UserSettings.Numbers

open Bytes Values Settings Storage Store Effects Setters Reactions Records Cells Operations
open Transition Json Device Durability Visits RoundTrip Importing LastWrite

/-- A member of an object whose value is an integer. -/
def numberMember (key : CString) (n : ℤ) : CJson := .mk .number (some key) (saturate 32 n) n none []

/-- Import an object with an integer as its only member. -/
def importNumber (env : Env) (stack : Mem) (alwaysMarkChanged : Bool) (w : World) (key : CString)
    (n : ℤ) : Except Fault (World×ℤ) :=
  userSettingsSetFromJson env stack w (some (.createObject [numberMember key n])) alwaysMarkChanged

/-- A setting has an integer of some size as its value. -/
structure Holds (t : UserSetting) (size : ℕ) (n : ℤ) : Prop where
  /-- The setting is set. -/
  isSet : t.isSet=true
  /-- The value has the size. -/
  dataLen : t.dataLen=size
  /-- The value reads as the integer. -/
  integer : readAs t.type size t.data.mem=n

/-- The validate callback accepts an integer. -/
def Accepts (stack : Mem) (s : UserSetting) (size : ℕ) (n : ℤ) : Prop :=
  s.validates (stack.write 0 (storeInteger size n)) size=true

/-- An integer is imported exactly or refused. -/
structure ImportsExactly (env : Env) (stack : Mem) (alwaysMarkChanged : Bool) (w : World)
    (s : UserSetting) (size : ℕ) (n : ℤ) : Prop where
  /-- An accepted integer of the range of the type becomes the value. -/
  stored : InWidth s.type.isSigned size n → Accepts stack s size n →
    ∃ next ret t,importNumber env stack alwaysMarkChanged w s.key n=.ok (next,ret) ∧
      next.getByKey s.key=some t ∧ Holds t size n
  /-- Any other integer leaves the setting untouched. -/
  refused : ¬InWidth s.type.isSigned size n →
    ∃ next ret,importNumber env stack alwaysMarkChanged w s.key n=.ok (next,ret) ∧
      SameAt s.key w next
  /-- Bytes that get as far as the validate callback, because they fit and are
  not the present value, read as the integer. -/
  judged : ∀ bytes,importBytes env.charIsSigned s.type (numberMember s.key n)=.ok (some bytes) →
    bytes.length ≤ s.maxSize → ¬SameValue s (stack.write 0 bytes) bytes.length →
    readAs s.type size (stack.write 0 bytes)=n

/-- An integer lies in the range of its type and of int, and where an accepted
one replaces another value, callbacks do not write another one after it. -/
structure Passes (env : Env) (stack : Mem) (w : World) (s : UserSetting) (size : ℕ)
    (n : ℤ) : Prop where
  /-- The range of the type. -/
  inType : InWidth s.type.isSigned size n
  /-- The range of int. -/
  inInt : -2^31 ≤ n ∧ n<2^31
  /-- What callbacks write to the setting last. -/
  left : ¬Holds s size n → Accepts stack s size n → ∀ last,
    callbacksWrite env w s (stack.write 0 (storeInteger size n)) size=some last →
      last=storeInteger size n

/-- The setting already has the saturated and converted integer as its value,
so that nothing is written; the validate callback refuses the integer if it
lies in the range of the type, and the setting is not newly marked if not. -/
structure Shielded (stack : Mem) (alwaysMarkChanged : Bool) (s : UserSetting) (size : ℕ)
    (n : ℤ) : Prop where
  /-- The present value. -/
  same : s.value=storeInteger size (saturate 32 n)
  /-- In range, the validate callback refuses the integer. -/
  inType : InWidth s.type.isSigned size n → ¬Accepts stack s size n
  /-- Out of range, the setting is not newly marked. -/
  outside : ¬InWidth s.type.isSigned size n →
    alwaysMarkChanged=false ∨ s.hasChangedRecently=true

variable {env : Env} {setup : Setup} {stack : Mem} {w next : World} {s t : UserSetting}
  {alwaysMarkChanged : Bool} {size : ℕ} {n : ℤ}

/-- A type of known size has at least one byte. -/
theorem size_pos {type : UserSettingType} (h : prvTypeToSize type=some size) : 0<size := by
  cases type with
  | str | bytes => cases h
  | bool | u8 | u16 | u32 | u64 | i8 | i16 | i32 | i64 =>
    cases h
    decide

/-- What is read from the stack is the converted integer. -/
theorem readAs_stack (type : UserSettingType) :
    readAs type size (stack.write 0 (storeInteger size n))=
      convertInteger type.isSigned size n := by
  have hstack := read_stack stack (storeInteger size n)
  rw [length_storeInteger] at hstack
  exact loadInteger_congr (hstack.trans (bytesAt_storeInteger size n).symm)

/-- A setting has an integer of the range of its type as its value when it has
the bytes of the integer. -/
theorem holds_iff (hok : RecordOk s) (hpos : 0<size) (hn : InWidth s.type.isSigned size n) :
    Holds s size n ↔ s.value=storeInteger size n := by
  have hvalue : bytesAt s.data.mem s.dataLen=s.value := s.data.bytesAt_mem hok.value.len_le
  constructor
  · rintro ⟨_,hlen,hread⟩
    rw [←hvalue,hlen,←hread]
    exact (storeInteger_loadInteger s.type.isSigned size s.data.mem).symm
  · intro h
    have hlen : s.dataLen=size := by
      rw [←length_value hok,h,length_storeInteger]
    rw [hlen,h,←bytesAt_storeInteger] at hvalue
    refine ⟨hok.value.isSet_iff.mpr (by omega),hlen,?_⟩
    exact (loadInteger_congr hvalue).trans ((convertInteger_eq_iff hpos).mpr hn)

/-- The import of a number passes its saturated and converted bytes on. -/
theorem importBytes_numberMember {charIsSigned : Bool} {key : CString} {type : UserSettingType}
    (hsize : prvTypeToSize type=some size) (hbool : type≠.bool) :
    importBytes charIsSigned type (numberMember key n)=
      .ok (some (storeInteger size (saturate 32 n))) := importBytes_integer hsize hbool rfl

/-- The import of an object with a number is that of its bytes. -/
theorem importNumber_eq (hl : w.isLoaded=true) (hs : w.getByKey s.key=some s)
    (hsize : prvTypeToSize s.type=some size) (hbool : s.type≠.bool) :
    ∃ ret,importNumber env stack alwaysMarkChanged w s.key n=
      .ok ((imported env stack alwaysMarkChanged w s (storeInteger size (saturate 32 n))).1,
        ret) := by
  have hone : prvSetFromJson env stack w s.key s.type (numberMember s.key n) alwaysMarkChanged=_ :=
    prvSetFromJson_bytes hl hs (importBytes_numberMember hsize hbool)
  have hkind : (numberMember s.key n).kind≠.invalid := fun h => CJsonKind.noConfusion h
  unfold importNumber
  change ∃ ret,setAllFromJson env stack alwaysMarkChanged w [numberMember s.key n]=.ok (_,ret)
  rw [setAllFromJson_member,importMember_registered hl hkind rfl hs,hone]
  dsimp only [bind,Except.bind]
  split
  · exact ⟨_,rfl⟩
  · exact ⟨0,rfl⟩

/-- A flag has no part in the value. -/
theorem holds_flag (flag : Bool) : Holds ((storeFlag flag).apply t) size n ↔ Holds t size n :=
  ⟨fun h => ⟨h.isSet,h.dataLen,h.integer⟩,fun h => ⟨h.isSet,h.dataLen,h.integer⟩⟩

/-- The bytes that are passed on for an integer of the range of its type are
its own exactly when it lies in the range of int. -/
theorem sent_eq_iff {isSigned : Bool} (hpos : 0<size) (hn : InWidth isSigned size n) :
    storeInteger size (saturate 32 n)=storeInteger size n ↔ -2^31 ≤ n ∧ n<2^31 := by
  constructor
  · intro h
    have hconvert : convertInteger isSigned size (saturate 32 n)=
        convertInteger isSigned size n := by
      unfold convertInteger
      rw [h]
    rw [(convertInteger_eq_iff hpos).mpr hn] at hconvert
    exact ((convertInteger_saturate_iff 32 hpos).mp hconvert).2
  · intro h
    rw [(saturate_eq_iff 32 n).mpr h]

/-- Marking a setting leaves it untouched exactly when it is marked already. -/
theorem mark_sameAt_iff (hs : w.getByKey s.key=some s) :
    SameAt s.key w (prvSetChangedRecentlyFlag env env.callbacks w s true).1 ↔
      s.hasChangedRecently=true := by
  constructor
  · intro h
    have hrecord := h.record
    rw [flag_record hs,hs] at hrecord
    exact (congrArg UserSetting.hasChangedRecently (Option.some.inj hrecord)).symm
  · intro h
    rw [setChangedRecentlyFlag_eq hs,if_pos h.symm]
    exact SameAt.refl s.key w

/-- Where the bytes that are passed on are the present value already, nothing
but the flag is at stake. -/
theorem importsExactly_same (hl : w.isLoaded=true) (hs : w.getByKey s.key=some s)
    (hok : RecordOk s) (hsize : prvTypeToSize s.type=some size) (hbool : s.type≠.bool)
    (hsame : storeInteger size (saturate 32 n)=s.value) :
    ImportsExactly env stack alwaysMarkChanged w s size n ↔
      (InWidth s.type.isSigned size n → Accepts stack s size n → -2^31 ≤ n ∧ n<2^31) ∧
        (¬InWidth s.type.isSigned size n →
          alwaysMarkChanged=false ∨ s.hasChangedRecently=true) := by
  have hpos := size_pos hsize
  obtain ⟨ret,hrun⟩ : ∃ ret,importNumber env stack alwaysMarkChanged w s.key n=.ok (_,ret) :=
    importNumber_eq hl hs hsize hbool
  obtain ⟨flag,hrecord⟩ : ∃ flag,(imported env stack alwaysMarkChanged w s
      (storeInteger size (saturate 32 n))).1.getByKey s.key=_ := imported_same_record hok hs hsame
  rw [imported_same hok hs hsame] at hrun hrecord
  dsimp only at hrun hrecord
  have hholds : InWidth s.type.isSigned size n → (Holds s size n ↔ -2^31 ≤ n ∧ n<2^31) := by
    intro hn
    rw [holds_iff hok hpos hn,←hsame]
    exact sent_eq_iff hpos hn
  constructor
  · intro h
    refine ⟨fun hn haccepted => ?_,fun hout => ?_⟩
    · obtain ⟨next,other,t,hnext,ht,hheld⟩ := h.stored hn haccepted
      cases hrun.symm.trans hnext
      cases hrecord.symm.trans ht
      exact (hholds hn).mp ((holds_flag flag).mp hheld)
    · obtain ⟨next,other,hnext,huntouched⟩ := h.refused hout
      cases hrun.symm.trans hnext
      cases alwaysMarkChanged with
      | false => exact .inl rfl
      | true => exact .inr ((mark_sameAt_iff hs).mp huntouched)
  · rintro ⟨hin,hout⟩
    refine ⟨fun hn haccepted => ?_,fun hn => ⟨_,ret,hrun,?_⟩,fun bytes hbytes hfits hdiffers => ?_⟩
    · exact ⟨_,ret,_,hrun,hrecord,(holds_flag flag).mpr ((hholds hn).mpr (hin hn haccepted))⟩
    · rcases hout hn with hmark|hflag
      · rw [hmark]
        exact SameAt.refl s.key w
      · split
        · exact (mark_sameAt_iff hs).mpr hflag
        · exact SameAt.refl s.key w
    · cases (importBytes_numberMember hsize hbool).symm.trans hbytes
      exact absurd ((sameValue_stack hok).mpr hsame) hdiffers

/-- Where they are another value, the integer has to be the one that was sent. -/
theorem importsExactly_differs (hrunning : Running setup w) (hs : w.getByKey s.key=some s)
    (hsize : prvTypeToSize s.type=some size) (hbool : s.type≠.bool)
    (hmax : s.maxSize=size) (hne : storeInteger size (saturate 32 n)≠s.value) :
    ImportsExactly env stack alwaysMarkChanged w s size n ↔ Passes env stack w s size n := by
  have hpos := size_pos hsize
  have hok := hrunning.records.getByKey hs
  have hbytes : importBytes env.charIsSigned s.type (numberMember s.key n)=_ :=
    importBytes_numberMember hsize hbool
  obtain ⟨ret,hrun⟩ : ∃ ret,importNumber env stack alwaysMarkChanged w s.key n=.ok (_,ret) :=
    importNumber_eq hrunning.isLoaded hs hsize hbool
  have hdiffers : ¬SameValue s (stack.write 0 (storeInteger size (saturate 32 n)))
      (storeInteger size (saturate 32 n)).length := fun h => hne ((sameValue_stack hok).mp h)
  -- an accepted integer that passes int is written, and stays unless callbacks
  -- write another one
  have hwritten : InWidth s.type.isSigned size n → -2^31 ≤ n ∧ n<2^31 → Accepts stack s size n →
      ∃ t flag,(imported env stack alwaysMarkChanged w s
        (storeInteger size (saturate 32 n))).1.getByKey s.key=some ((storeFlag flag).apply t) ∧
        (Holds t size n ↔ ∀ last,callbacksWrite env w s (stack.write 0 (storeInteger size n)) size=
          some last → last=storeInteger size n) := by
    intro hn hint haccepted
    rw [(saturate_eq_iff 32 n).mpr hint] at hdiffers ⊢
    have hlen : (storeInteger size n).length=size := length_storeInteger size n
    have hw : Writes s (stack.write 0 (storeInteger size n)) (storeInteger size n).length :=
      ⟨by rw [hlen,hmax],hdiffers,by rw [hlen]; exact haccepted⟩
    have heffects : EffectSeq env anyValue w _ :=
      valueWritten_effects callbacks_within_any hs hw.fits hw.valid fun _ => trivial
    obtain ⟨t,ht,hreg⟩ : ∃ t,(valueWritten env.callbacks w s (stack.write 0 (storeInteger size n))
        (storeInteger size n).length).getByKey s.key=some t ∧ _ := valueWritten_record hs hw
    have htype : t.type=s.type := congrArg Registration.type hreg
    obtain ⟨flag,hflag⟩ := imported_written hs hw ht
    obtain ⟨_,hleave⟩ := callbacks_leave_iff hs hw.fits (by omega) ht
    rw [read_stack,hlen] at hleave
    refine ⟨t,flag,hflag,?_⟩
    rw [holds_iff ((hrunning.effects heffects).records.getByKey ht) hpos (htype ▸ hn),hleave]
  have hvalue : InWidth s.type.isSigned size n → -2^31 ≤ n ∧ n<2^31 → ¬Holds s size n := by
    intro hn hint hheld
    rw [(saturate_eq_iff 32 n).mpr hint] at hne
    exact hne ((holds_iff hok hpos hn).mp hheld).symm
  constructor
  · intro h
    have hjudged := h.judged _ hbytes (by rw [length_storeInteger,hmax]) hdiffers
    rw [readAs_stack] at hjudged
    obtain ⟨hn,hint⟩ := (convertInteger_saturate_iff 32 hpos).mp hjudged
    refine ⟨hn,hint,fun _ haccepted => ?_⟩
    obtain ⟨next,other,t,hnext,ht,hheld⟩ := h.stored hn haccepted
    obtain ⟨left,flag,hflag,hleft⟩ := hwritten hn hint haccepted
    cases hrun.symm.trans hnext
    cases hflag.symm.trans ht
    exact hleft.mp ((holds_flag flag).mp hheld)
  · rintro ⟨hn,hint,hleft⟩
    refine ⟨fun _ haccepted => ?_,fun hout => absurd hn hout,fun bytes hsent _ _ => ?_⟩
    · obtain ⟨t,flag,hflag,hholds⟩ := hwritten hn hint haccepted
      have hheld := hholds.mpr (hleft (hvalue hn hint) haccepted)
      exact ⟨_,ret,_,hrun,hflag,(holds_flag flag).mpr hheld⟩
    · cases hbytes.symm.trans hsent
      rw [readAs_stack]
      exact (convertInteger_saturate_iff 32 hpos).mpr ⟨hn,hint⟩

/-- For every running store, whatever callbacks do and storage answers, every
integer and every setting of an integer type: the integer is imported exactly
or refused if and only if it passes, or the setting is shielded by its present
value. -/
theorem imports_exactly_iff (hw : Running setup w) (hs : s∈w.list.items)
    (hsize : prvTypeToSize s.type=some size) (hbool : s.type≠.bool) (n : ℤ) (stack : Mem)
    (alwaysMarkChanged : Bool) : ImportsExactly env stack alwaysMarkChanged w s size n ↔
      Passes env stack w s size n ∨ Shielded stack alwaysMarkChanged s size n := by
  have hget : w.getByKey s.key=some s := getByKey_of_mem hs
  have hok := hw.records s hs
  have hpos := size_pos hsize
  by_cases hsame : storeInteger size (saturate 32 n)=s.value
  · rw [importsExactly_same hw.isLoaded hget hok hsize hbool hsame]
    constructor
    · rintro ⟨hin,hout⟩
      by_cases hpass : InWidth s.type.isSigned size n ∧ -2^31 ≤ n ∧ n<2^31
      · refine .inl ⟨hpass.1,hpass.2,fun hheld => absurd ?_ hheld⟩
        rw [holds_iff hok hpos hpass.1,←hsame]
        exact (sent_eq_iff hpos hpass.1).mpr hpass.2
      · exact .inr ⟨hsame.symm,fun hn haccepted => hpass ⟨hn,hin hn haccepted⟩,hout⟩
    · rintro (hpass|hshield)
      · exact ⟨fun _ _ => hpass.inInt,fun hout => absurd hpass.inType hout⟩
      · exact ⟨fun hn haccepted => absurd haccepted (hshield.inType hn),hshield.outside⟩
  · rw [importsExactly_differs hw hget hsize hbool (maxSize_of_type hw.regs hs hsize) hsame]
    exact ⟨.inl,fun h => h.resolve_right fun hshield => hsame hshield.same.symm⟩

/-- A device with a setting of 64 bits imports a number. -/
theorem imports_exactly_on_device : ∃ w s,Running (device .i64 0 (some 0) none) w ∧
    s∈w.list.items ∧ (ImportsExactly calm (memOf []) true w s 8 (2^31) ↔
      Passes calm (memOf []) w s 8 (2^31) ∨ Shielded (memOf []) true s 8 (2^31)) := by
  have hreach : Reachable calm (device .i64 0 (some 0) none) ∅ _ := ⟨_,[],rfl,rfl⟩
  exact ⟨_,_,running_of_reachable hreach,List.mem_cons_self,
    imports_exactly_iff (running_of_reachable hreach) List.mem_cons_self rfl (by decide) _ _ _⟩

/-- The number 300 for a byte is imported as 44. -/
theorem byte_wraps :
    ¬∀ (env : Env) (setup : Setup) (w : World) (s : UserSetting) (size : ℕ) (n : ℤ) (stack : Mem)
      (alwaysMarkChanged : Bool),Running setup w → s∈w.list.items →
      prvTypeToSize s.type=some size → s.type≠.bool →
      ImportsExactly env stack alwaysMarkChanged w s size n := by
  intro h
  have hreach : Reachable calm (device .u8 0 none none) ∅ _ := ⟨_,[],rfl,rfl⟩
  have hexact := h calm _ _ _ 1 300 (memOf []) false (running_of_reachable hreach)
    List.mem_cons_self rfl (by decide)
  obtain ⟨next,ret,hrun,hsame⟩ := hexact.refused (by unfold InWidth; decide)
  cases hrun
  have hvalue := congrArg (fun s? => s?.map UserSetting.value) hsame.record
  revert hvalue
  decide +kernel

end UserSettings.Numbers
