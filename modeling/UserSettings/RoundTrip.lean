import UserSettings.Export
import UserSettings.Importing

/-!
# Export and import of all settings

What an import makes of an exported value. Numbers pass through int on their
way out and truth values through a comparison with zero, so integers of 64
bits outside of the range of int and bytes of truth values above one come
back as others; everything else comes back as it was.
-/

namespace UserSettings.RoundTrip

open Bytes Values Settings Storage Store Effects Setters Reactions Load Records Cells Outcomes
open Operations Transition Json Device Durability Export Visits Importing

/-- A setting has a value of full width: text up to its terminator, no more
bytes than an import has room for, or the whole size of the type. -/
structure FullWidth (s : UserSetting) : Prop where
  /-- The setting is set. -/
  isSet : s.isSet=true
  /-- The value fills its width. -/
  width : match s.type with
    | .str => ∃ text : CString,s.value=text.withNul
    | .bytes => s.dataLen ≤ bytesSize
    | .bool | .u8 | .u16 | .u32 | .u64 | .i8 | .i16 | .i32 | .i64 => s.dataLen=s.maxSize

/-- The bytes that an import passes on for an exported value. -/
def reimported (s : UserSetting) : List UInt8 :=
  match s.type with
  | .bool => [boolByte (s.data.mem 0≠0)]
  | .u64 | .i64 => storeInteger 8 (toInt (readAs s.type 8 s.data.mem))
  | .u8 | .u16 | .u32 | .i8 | .i16 | .i32 | .str | .bytes => s.value

/-- A truth value is zero or one, an integer of 64 bits lies in the range of int. -/
def Faithful (s : UserSetting) : Prop :=
  match s.type with
  | .bool => s.data.mem 0=0 ∨ s.data.mem 0=1
  | .u64 | .i64 => -2^31 ≤ loadInteger true 8 s.data.mem ∧ loadInteger true 8 s.data.mem<2^31
  | .u8 | .u16 | .u32 | .i8 | .i16 | .i32 | .str | .bytes => True

/-- The importing setting has the value already, and its validate callback
refuses what comes in. -/
def Shielded (stack : Mem) (w : World) (s : UserSetting) : Prop :=
  ∃ t,w.getByKey s.key=some t ∧ t.value=s.value ∧
    t.validates (stack.write 0 (reimported s)) (reimported s).length=false

/-- Every setting has the value bytes and length of the exporting device. -/
def SameValues (exporter w : World) : Prop :=
  ∀ s∈exporter.list.items,∃ t,w.getByKey s.key=some t ∧ t.isSet=true ∧ t.dataLen=s.dataLen ∧
    t.value=s.value

variable {env : Env} {setup : Setup} {stack chars : Mem} {u v w next : World} {s t : UserSetting}
  {key : CString} {bytes : List UInt8} {setting : CJson} {alwaysMarkChanged : Bool}

/-- A registered setting of a fixed size has it. -/
theorem maxSize_of_type (hregs : registrations w=registered setup) (hs : s∈w.list.items)
    {size : ℕ} (hsize : prvTypeToSize s.type=some size) : s.maxSize=size := by
  have hreg : registration s∈registered setup := by
    rw [←hregs]
    exact List.mem_map_of_mem hs
  obtain ⟨r,_,hr⟩ := List.mem_map.mp hreg
  have htype : r.type=s.type := congrArg Registration.type hr
  have hspace : space r=s.maxSize := congrArg Registration.size hr
  rw [←hspace]
  unfold space
  rw [htype,hsize]

/-- A value that fills its buffer is what the buffer reads as. -/
theorem value_of_full {size : ℕ} (hlen : s.dataLen=s.maxSize) (hsize : s.maxSize=size) :
    s.value=bytesAt s.data.mem size := by
  have hvalue : bytesAt s.data.mem s.dataLen=s.value := s.data.bytesAt_mem hlen.le
  rw [←hvalue,hlen.trans hsize]

/-- A byte is zero or one exactly when it is the byte of its truth value. -/
theorem boolByte_eq_iff (byte : UInt8) : boolByte (byte≠0)=byte ↔ byte=0 ∨ byte=1 := by
  unfold boolByte
  by_cases hb : byte=0
  · simp [hb]
  · simp [hb,eq_comm]

/-- The integer of 64 bits that comes back is the exported one when it lies in
the range of int. -/
theorem wide_eq_iff (isSigned : Bool) (data : Mem) :
    storeInteger 8 (toInt (loadInteger isSigned 8 data))=bytesAt data 8 ↔
      -2^31 ≤ loadInteger true 8 data ∧ loadInteger true 8 data<2^31 := by
  have hsigned := storeInteger_loadInteger true 8 data
  have hself := storeInteger_loadInteger isSigned 8 data
  obtain ⟨hlow,hhigh⟩ := loadInteger_range data
  have hsame : toInt (loadInteger isSigned 8 data)=toInt (loadInteger true 8 data) := by
    have hmod := storeInteger_eq_iff.mp (hself.trans hsigned.symm)
    unfold toInt Int.bmod
    dsimp only
    have hlow32 : loadInteger isSigned 8 data%(2^32 : ℕ)=loadInteger true 8 data%(2^32 : ℕ) := by
      omega
    rw [hlow32]
  rw [hsame,←hsigned]
  exact storeInteger_toInt_iff hlow hhigh

/-- What comes back is the exported value exactly when it is faithful. -/
theorem reimported_eq_iff (hsize : ∀ size,prvTypeToSize s.type=some size → s.maxSize=size)
    (hfull : FullWidth s) : reimported s=s.value ↔ Faithful s := by
  have hwidth := hfull.width
  unfold reimported Faithful
  cases htype : s.type with
  | bool =>
    rw [htype] at hwidth hsize
    rw [value_of_full hwidth (hsize 1 rfl)]
    dsimp only
    rw [←boolByte_eq_iff]
    exact ⟨fun h => (List.cons.inj h).1,fun h => congrArg (fun byte => [byte]) h⟩
  | u64 | i64 =>
    rw [htype] at hwidth hsize
    rw [value_of_full hwidth (hsize 8 rfl)]
    exact wide_eq_iff _ s.data.mem
  | u8 | u16 | u32 | i8 | i16 | i32 | str | bytes => exact ⟨fun _ => trivial,fun _ => rfl⟩

/-- The name of a member has no part in its value. -/
theorem importBytes_named (charIsSigned : Bool) (type : UserSettingType) (setting : CJson) :
    importBytes charIsSigned type (setting.named key)=importBytes charIsSigned type setting := by
  cases setting
  cases type <;> rfl

/-- A number is imported at the width of its type. -/
theorem importBytes_integer {charIsSigned : Bool} {type : UserSettingType} {size : ℕ}
    (hsize : prvTypeToSize type=some size) (ht : type≠.bool) (hkind : setting.kind=.number) :
    importBytes charIsSigned type setting=.ok (some (storeInteger size setting.valueint)) := by
  cases type with
  | bool => exact absurd rfl ht
  | str | bytes => cases hsize
  | u8 | u16 | u32 | u64 | i8 | i16 | i32 | i64 =>
    cases hsize
    exact if_pos hkind

/-- A created number is its integer. -/
theorem importBytes_number {charIsSigned : Bool} {type : UserSettingType} {size : ℕ}
    (hsize : prvTypeToSize type=some size) (ht : type≠.bool) (n : ℤ) :
    importBytes charIsSigned type (.createNumber n)=.ok (some (storeInteger size n)) :=
  importBytes_integer hsize ht rfl

/-- A narrow number comes back as it was. -/
theorem narrow_eq {size : ℕ} (hsize : s.maxSize=size) (hlen : s.dataLen=s.maxSize)
    (hnarrow : size ≤ 4) :
    storeInteger size (toInt (readAs s.type size s.data.mem))=s.value := by
  rw [value_of_full hlen hsize,storeInteger_toInt hnarrow]
  exact storeInteger_loadInteger _ size s.data.mem

/-- A text with its terminator at the start of a buffer is read as the text. -/
theorem cstringAt?_of_value {text : CString} (h : s.value=text.withNul) :
    cstringAt? s.data.bytes=some text := by
  have hsplit : s.data.bytes=text.withNul++s.data.bytes.drop s.dataLen := by
    rw [←h]
    exact (List.take_append_drop s.dataLen s.data.bytes).symm
  rw [hsplit,cstringAt?_append (by simp [CString.withNul]),cstringAt?_withNul]

variable (chars) (charIsSigned : Bool) in
/-- An exported value of full width has the kind its type is imported from. -/
theorem export_import (hsize : ∀ size,prvTypeToSize s.type=some size → s.maxSize=size)
    (hok : RecordOk s) (hfull : FullWidth s) :
    ∃ setting,prvJsonFromSetting chars s=.ok setting ∧ setting.kind≠.invalid ∧
      importBytes charIsSigned s.type setting=.ok (some (reimported s)) := by
  have hwidth := hfull.width
  unfold prvJsonFromSetting reimported
  cases htype : s.type with
  | bool =>
    refine ⟨_,rfl,?_,?_⟩
    · by_cases hb : s.data.mem 0=0 <;> simp [hb,CJson.createBool,CJson.kind]
    · by_cases hb : s.data.mem 0=0 <;>
        simp [hb,importBytes,CJson.createBool,CJson.isBool,CJson.kind]
  | u8 | i8 =>
    rw [htype] at hwidth hsize
    refine ⟨_,rfl,nofun,?_⟩
    have hback := narrow_eq (hsize 1 rfl) hwidth (by decide)
    rw [htype] at hback
    rw [importBytes_number rfl (by decide),hback]
  | u16 | i16 =>
    rw [htype] at hwidth hsize
    refine ⟨_,rfl,nofun,?_⟩
    have hback := narrow_eq (hsize 2 rfl) hwidth (by decide)
    rw [htype] at hback
    rw [importBytes_number rfl (by decide),hback]
  | u32 | i32 =>
    rw [htype] at hwidth hsize
    refine ⟨_,rfl,nofun,?_⟩
    have hback := narrow_eq (hsize 4 rfl) hwidth (by decide)
    rw [htype] at hback
    rw [importBytes_number rfl (by decide),hback]
  | u64 | i64 => exact ⟨_,rfl,nofun,importBytes_number rfl (by decide) _⟩
  | str =>
    rw [htype] at hwidth
    obtain ⟨text,htext⟩ := hwidth
    unfold CJson.createString
    rw [cstringAt?_of_value htext,htext]
    exact ⟨_,rfl,nofun,rfl⟩
  | bytes =>
    rw [htype] at hwidth
    have hvalue : bytesAt s.data.mem s.dataLen=s.value := s.data.bytesAt_mem hok.value.len_le
    have hlen : ¬bytesSize<(hexText s.value).length/2 := by
      have hl := length_value hok
      have hw : s.dataLen ≤ bytesSize := hwidth
      rw [length_hexText]
      omega
    have hpos : s.dataLen≠0 := (hok.value.isSet_iff.mp hfull.isSet).ne'
    refine ⟨_,createString_digits fun hzero => absurd hzero hpos,nofun,?_⟩
    rw [hvalue]
    change (if bytesSize<(hexText s.value).length/2 then _ else _)=_
    rw [if_neg hlen,bytesOfHex_hexText]

/-- What comes back is not empty and fits. -/
theorem reimported_fits (hsize : ∀ size,prvTypeToSize s.type=some size → s.maxSize=size)
    (hok : RecordOk s) (hfull : FullWidth s) :
    reimported s≠[] ∧ (reimported s).length ≤ s.maxSize := by
  have hpos : 0<s.dataLen := hok.value.isSet_iff.mp hfull.isSet
  have hvalue : s.value≠[] ∧ s.value.length ≤ s.maxSize := by
    rw [←List.length_pos_iff,length_value hok]
    exact ⟨hpos,hok.value.len_le⟩
  unfold reimported
  cases htype : s.type with
  | bool =>
    rw [htype] at hsize
    exact ⟨List.cons_ne_nil _ _,(hsize 1 rfl).ge⟩
  | u64 | i64 =>
    rw [htype] at hsize
    exact ⟨List.cons_ne_nil _ _,(hsize 8 rfl).ge⟩
  | u8 | u16 | u32 | i8 | i16 | i32 | str | bytes => exact hvalue

/-- The value of a setting after an import passed some bytes on. -/
def importedValue (stack : Mem) (t : UserSetting) (bytes : List UInt8) : List UInt8 :=
  if t.validates (stack.write 0 bytes) bytes.length then bytes else t.value

/-- The import goes on behind a member for a registered setting, also when the
setting refuses its bytes. -/
theorem setAllFromJson_cons {member : CJson} {rest : List CJson} {err : ℤ}
    (hl : w.isLoaded=true) (ht : w.getByKey key=some t) (hstring : member.string=some key)
    (hkind : member.kind≠.invalid)
    (hone : prvSetFromJson env stack w key t.type member alwaysMarkChanged=.ok (next,err))
    (herr : err=0 ∨ err= -eInval) : setAllFromJson env stack alwaysMarkChanged w (member::rest)=
      setAllFromJson env stack alwaysMarkChanged next rest := by
  rw [setAllFromJson_member,importMember_registered hl hkind hstring ht,hone]
  dsimp only [bind,Except.bind]
  rw [if_neg (by omega)]

section Saved

variable (hsave : ∀ n,env.saveResult n=0) (hq : Passive env.callbacks)

include hsave hq

variable (stack) in
/-- What an import of some bytes returns, and the value behind it. -/
theorem imported_value (hok : RecordOk t) (ht : w.getByKey t.key=some t) (hne : bytes≠[])
    (hfits : bytes.length ≤ t.maxSize) :
    ((imported env stack alwaysMarkChanged w t bytes).2=0 ∨
        (imported env stack alwaysMarkChanged w t bytes).2= -eInval) ∧
      ∃ now,(imported env stack alwaysMarkChanged w t bytes).1.getByKey t.key=some now ∧
        now.value=importedValue stack t bytes := by
  unfold importedValue
  rcases bytes_cases hok stack bytes with hlong|hsame|⟨_,hdiffers,hrefused⟩|hw
  · omega
  · obtain ⟨flag,hflag⟩ : ∃ flag,(imported env stack alwaysMarkChanged w t bytes).1.getByKey
        t.key=_ := imported_same_record hok ht hsame
    refine ⟨.inl ?_,_,hflag,?_⟩
    · rw [imported_same hok ht hsame]
    · split
      · exact hsame.symm
      · rfl
  · rw [imported_refused hok hfits hdiffers hrefused,hrefused]
    exact ⟨.inr rfl,t,ht,rfl⟩
  · have hrec := set_record env hq ht hw
    rw [imported_stored hsave hq ht hw,if_pos hw.valid]
    refine ⟨.inl rfl,_,hrec,?_⟩
    unfold valueRecord
    split
    · rename_i hn
      exact absurd (List.length_eq_zero_iff.mp hn) hne
    · rw [read_stack]
      exact Buffer.take_write hfits

/-- Importing a member for a setting only changes this setting. -/
theorem import_member (hw : Running setup w) {type : UserSettingType}
    (ht : w.getByKey key=some t)
    (himport : importBytes env.charIsSigned type setting=.ok (some bytes)) (hne : bytes≠[])
    (hfits : bytes.length ≤ t.maxSize) :
    ∃ next err,prvSetFromJson env stack w key type setting alwaysMarkChanged=.ok (next,err) ∧
      (err=0 ∨ err= -eInval) ∧ Running setup next ∧ OnlyAt key w next ∧
      ∃ now,next.getByKey key=some now ∧ now.value=importedValue stack t bytes := by
  have hkey : t.key=key := key_of_getByKey ht
  subst hkey
  have hrun : prvSetFromJson env stack w t.key type setting alwaysMarkChanged=_ :=
    prvSetFromJson_bytes hw.isLoaded ht himport
  obtain ⟨herr,hvalue⟩ := imported_value stack hsave hq (hw.records.getByKey ht) ht hne hfits
  exact ⟨_,_,hrun,herr,hw.effects (imported_effects ht),imported_onlyAt hq ht,hvalue⟩

/-- Importing exported settings, one after another. -/
theorem import_all {settings : List UserSetting} {members : List CJson}
    (hmembers : List.Forall₂ (IsMember chars) settings members)
    (hnodup : (settings.map UserSetting.key).Nodup)
    (hsettings : ∀ s∈settings,registration s∈registered setup ∧ RecordOk s ∧ FullWidth s ∧
      ∀ size,prvTypeToSize s.type=some size → s.maxSize=size) (hw : Running setup w) :
    ∃ next,setAllFromJson env stack alwaysMarkChanged w members=.ok (next,0) ∧
      Running setup next ∧
      (∀ key,key∉settings.map UserSetting.key → next.getByKey key=w.getByKey key) ∧
      ∀ s∈settings,∃ t now,w.getByKey s.key=some t ∧ registration t=registration s ∧
        next.getByKey s.key=some now ∧ now.value=importedValue stack t (reimported s) := by
  induction hmembers generalizing w with
  | nil => exact ⟨w,rfl,hw,fun _ _ => rfl,fun _ h => absurd h List.not_mem_nil⟩
  | @cons s member rest later hmember _ ih =>
    obtain ⟨hreg,hok,hfull,hsize⟩ := hsettings s List.mem_cons_self
    obtain ⟨setting,hsetting,rfl⟩ := hmember
    obtain ⟨other,hother,hkind,himport⟩ := export_import chars env.charIsSigned hsize hok hfull
    cases hsetting.symm.trans hother
    obtain ⟨hhead,hlater⟩ := List.nodup_cons.mp hnodup
    -- the importing device has a record with the same registration
    rw [←hw.regs] at hreg
    obtain ⟨t,htmem,ht⟩ := List.mem_map.mp hreg
    have hkey : t.key=s.key := congrArg Registration.key ht
    have htype : t.type=s.type := congrArg Registration.type ht
    have hmax : t.maxSize=s.maxSize := congrArg Registration.size ht
    have hfound : w.getByKey s.key=some t := hkey ▸ getByKey_of_mem htmem
    obtain ⟨hne,hfits⟩ := reimported_fits hsize hok hfull
    have hnamed : importBytes env.charIsSigned s.type (setting.named s.key)=
        .ok (some (reimported s)) := (importBytes_named _ s.type setting).trans himport
    have hkind' : (setting.named s.key).kind≠.invalid := by
      cases setting
      exact hkind
    have hstring : (setting.named s.key).string=some s.key := by
      cases setting
      rfl
    obtain ⟨middle,err,hone,herr,hmiddle,honly,now,hnow,hvalue⟩ :=
      import_member hsave hq hw hfound hnamed hne (hmax ▸ hfits)
    obtain ⟨next,hrun,hnext,hothers,hrest⟩ := ih hlater
      (fun x hx => hsettings x (List.mem_cons_of_mem s hx)) hmiddle
    refine ⟨next,?_,hnext,?_,?_⟩
    · rw [←htype] at hone
      rw [setAllFromJson_cons hw.isLoaded hfound hstring hkind' hone herr]
      exact hrun
    · intro key hk
      rw [List.map_cons,List.mem_cons,not_or] at hk
      rw [hothers key hk.2,honly.record key hk.1]
    · intro x hx
      rcases List.mem_cons.mp hx with rfl|hx
      · exact ⟨t,now,hfound,ht,by rw [hothers x.key hhead,hnow],hvalue⟩
      · obtain ⟨old,new,hold,hregs,hnew,hval⟩ := hrest x hx
        have hxkey : x.key≠s.key := fun h => hhead (h ▸ List.mem_map_of_mem hx)
        exact ⟨old,new,by rw [←honly.record x.key hxkey,hold],hregs,hnew,hval⟩

end Saved

/-- The value after an import is the exported one when it comes back as it was
or was there already and is kept. -/
theorem importedValue_eq_iff (hsize : ∀ size,prvTypeToSize s.type=some size → s.maxSize=size)
    (hfull : FullWidth s) (ht : w.getByKey s.key=some t) (hreg : registration t=registration s)
    (hvalid : s.validates (stack.write 0 s.value) s.value.length=true) :
    importedValue stack t (reimported s)=s.value ↔ Faithful s ∨ Shielded stack w s := by
  unfold importedValue
  constructor
  · intro h
    split at h
    · exact .inl ((reimported_eq_iff hsize hfull).mp h)
    · rename_i hrefused
      exact .inr ⟨t,ht,h,Bool.eq_false_iff.mpr hrefused⟩
  · rintro (hfaithful|⟨other,hother,hvalue,hrefused⟩)
    · have hback := (reimported_eq_iff hsize hfull).mpr hfaithful
      rw [hback,validates_of_registration hreg,if_pos hvalid]
    · cases ht.symm.trans hother
      rw [if_neg (by rw [hrefused]; exact Bool.false_ne_true),hvalue]

/-- What an import of an export leaves in each setting. -/
theorem export_import_values (hsave : ∀ n,env.saveResult n=0) (hq : Passive env.callbacks)
    (hv : Running setup v) (hw : Running setup w) (hfull : ∀ s∈v.list.items,FullWidth s)
    (stack chars : Mem) (alwaysMarkChanged : Bool) :
    ∃ object next,userSettingsGetAllJson chars v=.ok object ∧
      userSettingsSetFromJson env stack w (some object) alwaysMarkChanged=.ok (next,0) ∧
      Running setup next ∧ ∀ s∈v.list.items,∃ t now,w.getByKey s.key=some t ∧
        registration t=registration s ∧ next.getByKey s.key=some now ∧
        now.value=importedValue stack t (reimported s) := by
  have hsize : ∀ s∈v.list.items,∀ size,prvTypeToSize s.type=some size → s.maxSize=size :=
    fun s hs size h => maxSize_of_type hv.regs hs h
  have hterminated : ∀ s∈v.list.items,Terminated chars s := by
    intro s hs
    obtain ⟨setting,hok,_⟩ :=
      export_import chars env.charIsSigned (hsize s hs) (hv.records s hs) (hfull s hs)
    exact jsonFromSetting_ok.mp ⟨setting,hok⟩
  obtain ⟨members,hmembers,hobject⟩ := jsonObject_ok hterminated
  have hsettings : ∀ s∈v.list.items,registration s∈registered setup ∧ RecordOk s ∧
      FullWidth s ∧ ∀ size,prvTypeToSize s.type=some size → s.maxSize=size := fun s hs =>
    ⟨hv.regs ▸ List.mem_map_of_mem hs,hv.records s hs,hfull s hs,hsize s hs⟩
  obtain ⟨next,himport,hnext,_,hvalues⟩ :=
    import_all hsave hq hmembers v.list.keysNodup hsettings hw
  exact ⟨.createObject members,next,hobject,himport,hnext,hvalues⟩

/-- For every two devices with the same settings, the one with values of full
width in all of them that the validate callbacks accept, the other in any
state, storage that does not fail and callbacks that do not modify settings:
the export succeeds and its import returns zero. It leaves every setting with
the exported bytes exactly when each of them is no truth value but zero and
one and no integer of 64 bits outside of the range of int, or was there before
and is saved by a validate callback. -/
theorem export_import_identity_iff (env : Env) (hsave : ∀ n,env.saveResult n=0)
    (hreact : ∀ n,env.react n=[]) (setup : Setup) (exporter w : World)
    (hexporter : Running setup exporter) (hw : Running setup w)
    (hfull : ∀ s∈exporter.list.items,FullWidth s) (stack : Mem)
    (hvalid : ∀ s∈exporter.list.items,
      s.validates (stack.write 0 s.value) s.value.length=true) (chars : Mem)
    (alwaysMarkChanged : Bool) :
    ∃ object next,userSettingsGetAllJson chars exporter=.ok object ∧
      userSettingsSetFromJson env stack w (some object) alwaysMarkChanged=.ok (next,0) ∧
      (SameValues exporter next ↔
        ∀ s∈exporter.list.items,Faithful s ∨ Shielded stack w s) := by
  obtain ⟨object,next,hobject,himport,hnext,hvalues⟩ := export_import_values hsave
    (passive_callbacks hreact) hexporter hw hfull stack chars alwaysMarkChanged
  refine ⟨object,next,hobject,himport,?_⟩
  have hone : ∀ s∈exporter.list.items,(∃ t,next.getByKey s.key=some t ∧ t.isSet=true ∧
      t.dataLen=s.dataLen ∧ t.value=s.value) ↔ Faithful s ∨ Shielded stack w s := by
    intro s hs
    obtain ⟨t,now,ht,hreg,hnow,hvalue⟩ := hvalues s hs
    have hsize : ∀ size,prvTypeToSize s.type=some size → s.maxSize=size :=
      fun _ h => maxSize_of_type hexporter.regs hs h
    rw [←importedValue_eq_iff hsize (hfull s hs) ht hreg (hvalid s hs),←hvalue]
    constructor
    · rintro ⟨other,hother,_,_,h⟩
      cases hnow.symm.trans hother
      exact h
    · intro h
      have hok := hnext.records.getByKey hnow
      have hlen : now.dataLen=s.dataLen := by
        rw [←length_value hok,h,length_value (hexporter.records s hs)]
      have hset : 0<s.dataLen :=
        (hexporter.records s hs).value.isSet_iff.mp (hfull s hs).isSet
      exact ⟨now,hnow,hok.value.isSet_iff.mpr (hlen ▸ hset),hlen,h⟩
  exact forall₂_congr hone

/-- A device with a number and a text. -/
def exportDevice : Setup :=
  ⟨[⟨1,keyA,.u32,0,none,none⟩,⟨2,⟨CString.ascii ['d'],by decide⟩,.str,4,none,none⟩],none⟩

/-- A number above the range of int and a text reach a new device. -/
theorem export_import_on_devices : ∃ exporter w object next,
    Reachable calm exportDevice ∅ exporter ∧ Reachable calm exportDevice ∅ w ∧
      userSettingsGetAllJson (fun _ => 255) exporter=.ok object ∧
      userSettingsSetFromJson calm (fun _ => 255) w (some object) true=.ok (next,0) ∧
      SameValues exporter next := by
  let ops : List DeviceOp := [.store (.set (.key keyA) (memOf [1,0,0,128]) 4),
    .store (.set (.id 2) (memOf [104,105,0]) 3)]
  have hdevices : ∃ exporter w,Reachable calm exportDevice ∅ exporter ∧
      Reachable calm exportDevice ∅ w ∧ (∀ s∈exporter.list.items,FullWidth s ∧ Faithful s ∧
        s.validateCb=none) := by
    refine ⟨_,_,⟨_,ops,rfl,rfl⟩,⟨_,[],rfl,rfl⟩,List.forall_mem_cons.mpr ⟨⟨⟨rfl,rfl⟩,trivial,rfl⟩,
      List.forall_mem_singleton.mpr ⟨⟨rfl,?_⟩,trivial,rfl⟩⟩⟩
    exact ⟨⟨[104,105],by decide⟩,rfl⟩
  obtain ⟨exporter,w,hexporter,hw,hall⟩ := hdevices
  have hvalid : ∀ s∈exporter.list.items,
      s.validates (Mem.write (fun _ => 255) 0 s.value) s.value.length=true := by
    intro s hs
    unfold UserSetting.validates
    rw [(hall s hs).2.2]
  obtain ⟨object,next,hobject,himport,hsame⟩ := export_import_identity_iff calm (fun _ => rfl)
    (fun _ => rfl) exportDevice exporter w (running_of_reachable hexporter)
    (running_of_reachable hw) (fun s hs => (hall s hs).1) (fun _ => 255) hvalid (fun _ => 255) true
  exact ⟨exporter,w,object,next,hexporter,hw,hobject,himport,
    hsame.mpr fun s hs => .inl (hall s hs).2.1⟩

/-- The value 2^32 of an unsigned integer of 64 bits is imported as zero. -/
theorem large_integer_lost :
    ¬∀ (env : Env) (setup : Setup) (exporter w : World) (stack chars : Mem)
        (alwaysMarkChanged : Bool),
      (∀ n,env.saveResult n=0) → (∀ n,env.react n=[]) → Running setup exporter →
      Running setup w → (∀ s∈exporter.list.items,FullWidth s) →
      (∀ s∈exporter.list.items,s.validates (stack.write 0 s.value) s.value.length=true) →
      ∃ object next,userSettingsGetAllJson chars exporter=.ok object ∧
        userSettingsSetFromJson env stack w (some object) alwaysMarkChanged=.ok (next,0) ∧
        SameValues exporter next := by
  intro h
  let setup : Setup := device .u64 0 none none
  let ops : List DeviceOp := [.store (.set (.key keyA) (memOf [0,0,0,0,1,0,0,0]) 8)]
  have hdevices : ∃ exporter w,Reachable calm setup ∅ exporter ∧ Reachable calm setup ∅ w ∧
      ∃ s∈exporter.list.items,(∀ x∈exporter.list.items,FullWidth x) ∧
        (∀ x∈exporter.list.items,x.validateCb=none) ∧ ¬Faithful s :=
    ⟨_,_,⟨_,ops,rfl,rfl⟩,⟨_,[],rfl,rfl⟩,_,List.mem_cons_self,
      List.forall_mem_singleton.mpr ⟨rfl,rfl⟩,List.forall_mem_singleton.mpr rfl,
      fun hrange => absurd hrange.2 (by decide)⟩
  obtain ⟨exporter,w,hexporter,hw,s,hs,hfull,hnone,hunfaithful⟩ := hdevices
  have hexporter := running_of_reachable hexporter
  have hw := running_of_reachable hw
  have hvalid : ∀ x∈exporter.list.items,∀ data len,x.validates data len=true := by
    intro x hx data len
    unfold UserSetting.validates
    rw [hnone x hx]
  obtain ⟨object,next,hobject,himport,hsame⟩ := h calm setup exporter w (fun _ => 0)
    (fun _ => 0) false
    (fun _ => rfl) (fun _ => rfl) hexporter hw hfull (fun x hx => hvalid x hx _ _)
  have hq : Passive calm.callbacks := passive_callbacks fun _ => rfl
  obtain ⟨other,last,hother,hlast,_,hvalues⟩ :=
    export_import_values (fun _ => rfl) hq hexporter hw hfull (fun _ => 0) (fun _ => 0) false
  cases hother.symm.trans hobject
  cases hlast.symm.trans himport
  obtain ⟨t,now,ht,hreg,hnow,hvalue⟩ := hvalues s hs
  obtain ⟨found,hfound,_,_,hbytes⟩ := hsame s hs
  cases hnow.symm.trans hfound
  have hsize : ∀ size,prvTypeToSize s.type=some size → s.maxSize=size :=
    fun _ h => maxSize_of_type hexporter.regs hs h
  rcases (importedValue_eq_iff hsize (hfull s hs) ht hreg (hvalid s hs _ _)).mp
    (hvalue.symm.trans hbytes) with hfaithful|⟨x,hx,_,hrefused⟩
  · exact hunfaithful hfaithful
  · cases ht.symm.trans hx
    rw [validates_of_registration hreg,hvalid s hs] at hrefused
    cases hrefused

end UserSettings.RoundTrip
