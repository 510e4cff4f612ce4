import UserSettings.Device
import UserSettings.Durability
import UserSettings.Visits

/-!
# Importing one member

What the import of a member does, as one equation: members of unknown names or
wrong kinds are passed over; everything else is a set call with the converted
bytes, followed by the flag if every member is to be marked. The set call
refuses the bytes, finds them in place or writes them.
-/

namespace UserSettings.Importing

open Bytes Values Settings Storage Store Effects Setters Reactions Records Outcomes Transition Json
open UserSettings.Frame Durability Visits

/-- The part of an import that handles one member. -/
def importMember (env : Env) (stack : Mem) (alwaysMarkChanged : Bool) (w : World)
    (member : CJson) : Except Fault (World×ℤ) :=
  if member.kind=.invalid then .ok (w,0)
  else do
    match ←existsWithString w member.string with
    | none => return (w,0)
    | some key =>
      let type ← userSettingsGetTypeWithKey w key
      prvSetFromJson env stack w key type member alwaysMarkChanged

/-- The state and result after some bytes are imported into a setting. -/
def imported (env : Env) (stack : Mem) (alwaysMarkChanged : Bool) (w : World) (s : UserSetting)
    (bytes : List UInt8) : World×ℤ :=
  let result := prvUserSettingsSet env env.callbacks w s (stack.write 0 bytes) bytes.length
  if result.2≠0 then result
  else if alwaysMarkChanged then
    ((prvSetChangedRecentlyFlag env env.callbacks result.1 (result.1.deref s) true).1,0)
  else (result.1,0)

variable {env : Env} {setup : Setup} {stack : Mem} {w next : World} {s t : UserSetting}
  {key : CString} {bytes : List UInt8} {member : CJson} {rest : List CJson}
  {alwaysMarkChanged : Bool} {ret : ℤ}

/-- An import handles its first member and stops at an error other than
invalid data. -/
theorem setAllFromJson_member : setAllFromJson env stack alwaysMarkChanged w (member::rest)=
    (importMember env stack alwaysMarkChanged w member >>= fun result =>
      if result.2≠0 ∧ result.2≠-eInval then .ok result
      else setAllFromJson env stack alwaysMarkChanged result.1 rest) := by
  have hgo : ∀ stop go : Except Fault (World×ℤ),
      (if (0 : ℤ)≠0 ∧ (0 : ℤ)≠-eInval then stop else go)=go :=
    fun _ _ => if_neg fun h => h.1 rfl
  conv_lhs => unfold setAllFromJson
  unfold importMember
  by_cases hkind : member.kind=.invalid
  · rw [if_pos hkind,if_pos hkind]
    exact (hgo (.ok (w,0)) _).symm
  · rw [if_neg hkind,if_neg hkind]
    dsimp only [bind,Except.bind]
    cases existsWithString w member.string with
    | error fault => rfl
    | ok key? =>
      cases key? with
      | none => exact (hgo (.ok (w,0)) _).symm
      | some key =>
        dsimp only
        cases userSettingsGetTypeWithKey w key with
        | error fault => rfl
        | ok type => rfl

/-- A member of invalid kind is passed over. -/
theorem importMember_invalid (h : member.kind=.invalid) :
    importMember env stack alwaysMarkChanged w member=.ok (w,0) := if_pos h

/-- A member whose name is no registered key is passed over. -/
theorem importMember_unknown (hl : w.isLoaded=true) (hstring : member.string=some key)
    (hkey : w.getByKey key=none) :
    importMember env stack alwaysMarkChanged w member=.ok (w,0) := by
  have hexists : existsWithString w member.string=.ok none := by
    unfold existsWithString
    rw [if_pos hl,hstring]
    dsimp only
    rw [hkey]
    rfl
  unfold importMember
  split
  · rfl
  · rw [hexists]
    rfl

/-- A member whose name is a registered key goes to its setting. -/
theorem importMember_registered (hl : w.isLoaded=true) (hkind : member.kind≠.invalid)
    (hstring : member.string=some key) (hs : w.getByKey key=some s) :
    importMember env stack alwaysMarkChanged w member=
      prvSetFromJson env stack w key s.type member alwaysMarkChanged := by
  have hfind : w.find (.key key)=some s := hs
  have htype : userSettingsGetTypeWithKey w key=.ok s.type :=
    withSetting_eq hl hfind UserSetting.type
  have hexists : existsWithString w member.string=.ok (some key) := by
    unfold existsWithString
    rw [if_pos hl,hstring]
    dsimp only
    rw [hs]
    rfl
  unfold importMember
  rw [if_neg hkind,hexists]
  dsimp only [bind,Except.bind]
  rw [htype]

/-- A member of invalid kind fits no type. -/
theorem importBytes_invalid (type : UserSettingType) (h : member.kind=.invalid) :
    importBytes env.charIsSigned type member=.ok none := by
  unfold importBytes CJson.isBool
  rw [h]
  cases type <;> rfl

/-- A member of the wrong kind for its setting is refused. -/
theorem prvSetFromJson_unfit {type : UserSettingType}
    (h : importBytes env.charIsSigned type member=.ok none) :
    prvSetFromJson env stack w key type member alwaysMarkChanged=.ok (w,-eInval) := by
  unfold prvSetFromJson
  rw [h]
  rfl

/-- A conversion that does not end does not let the import end either. -/
theorem prvSetFromJson_fault {type : UserSettingType} {fault : Fault}
    (h : importBytes env.charIsSigned type member=.error fault) :
    prvSetFromJson env stack w key type member alwaysMarkChanged=.error fault := by
  unfold prvSetFromJson
  rw [h]
  rfl

/-- The bytes of a member are set, and the setting is marked on demand. -/
theorem prvSetFromJson_bytes {type : UserSettingType} (hl : w.isLoaded=true)
    (hs : w.getByKey key=some s) (h : importBytes env.charIsSigned type member=.ok (some bytes)) :
    prvSetFromJson env stack w key type member alwaysMarkChanged=
      .ok (imported env stack alwaysMarkChanged w s bytes) := by
  have hkey : s.key=key := key_of_getByKey hs
  have hfind : w.find (.key key)=some s := hs
  have hset : userSettingsSetWithKey env w key (stack.write 0 bytes) bytes.length=
      .ok (prvUserSettingsSet env env.callbacks w s (stack.write 0 bytes) bytes.length) :=
    withSetting_eq hl hfind _
  have heffects : EffectSeq env anyValue w
      (prvUserSettingsSet env env.callbacks w s (stack.write 0 bytes) bytes.length).1 :=
    userSettingsSet_effects callbacks_within_any (hkey ▸ hs) fun _ _ => trivial
  obtain ⟨t,ht,_⟩ := getByKey_of_registrations heffects.sameSetup.regs hs
  have hloaded := heffects.sameSetup.isLoaded.trans hl
  unfold prvSetFromJson imported
  rw [h]
  dsimp only [bind,Except.bind]
  rw [hset]
  dsimp only
  generalize prvUserSettingsSet env env.callbacks w s (stack.write 0 bytes) bytes.length=result
    at ht hloaded ⊢
  split
  · rfl
  · split
    · have hfound : result.1.find (.key key)=some t := ht
      have hmark : userSettingsSetChangedWithKey env result.1 key=
          .ok (prvSetChangedRecentlyFlag env env.callbacks result.1 t true).1 :=
        withSetting_eq hloaded hfound _
      rw [hmark,deref_eq (hkey ▸ ht)]
      rfl
    · rfl

/-- A member that has bytes for a type is not invalid. -/
theorem kind_of_bytes {type : UserSettingType}
    (h : importBytes env.charIsSigned type member=.ok (some bytes)) : member.kind≠.invalid := by
  intro hkind
  rw [importBytes_invalid type hkind] at h
  cases h

/-- A member with bytes for its setting goes to a set call. -/
theorem importMember_bytes (hl : w.isLoaded=true) (hstring : member.string=some s.key)
    (hs : w.getByKey s.key=some s)
    (hbytes : importBytes env.charIsSigned s.type member=.ok (some bytes)) :
    importMember env stack alwaysMarkChanged w member=
      .ok (imported env stack alwaysMarkChanged w s bytes) := by
  rw [importMember_registered hl (kind_of_bytes hbytes) hstring hs]
  exact prvSetFromJson_bytes hl hs hbytes

/-- What is on the stack is read back. -/
theorem read_stack (stack : Mem) (bytes : List UInt8) :
    bytesAt (stack.write 0 bytes) bytes.length=bytes := bytesAt_write_zero stack bytes

/-- The bytes on the stack are the present value when they are its bytes. -/
theorem sameValue_stack (hok : RecordOk s) :
    SameValue s (stack.write 0 bytes) bytes.length ↔ bytes=s.value := by
  rw [sameValue_iff hok,read_stack]

/-- Bytes that fit, are not the present value and are accepted are written. -/
theorem writes_stack (hok : RecordOk s) (hfits : bytes.length ≤ s.maxSize) (hne : bytes≠s.value)
    (h : s.validates (stack.write 0 bytes) bytes.length=true) :
    Writes s (stack.write 0 bytes) bytes.length :=
  ⟨hfits,fun hsame => hne ((sameValue_stack hok).mp hsame),h⟩

/-- Bytes do not fit, are the present value, are refused or are written. -/
theorem bytes_cases (hok : RecordOk s) (stack : Mem) (bytes : List UInt8) :
    s.maxSize<bytes.length ∨ bytes=s.value ∨
      (bytes.length ≤ s.maxSize ∧ bytes≠s.value ∧
        s.validates (stack.write 0 bytes) bytes.length=false) ∨
      Writes s (stack.write 0 bytes) bytes.length := by
  by_cases hfits : bytes.length ≤ s.maxSize
  · by_cases hvalue : bytes=s.value
    · exact .inr (.inl hvalue)
    · cases hverdict : s.validates (stack.write 0 bytes) bytes.length with
      | false => exact .inr (.inr (.inl ⟨hfits,hvalue,rfl⟩))
      | true => exact .inr (.inr (.inr (writes_stack hok hfits hvalue hverdict)))
  · exact .inl (Nat.lt_of_not_le hfits)

/-- Bytes that do not fit are refused. -/
theorem imported_long (h : s.maxSize<bytes.length) :
    imported env stack alwaysMarkChanged w s bytes=(w,-eNoMem) := by
  have hkeeps : prvUserSettingsSet env env.callbacks w s (stack.write 0 bytes) bytes.length=_ :=
    userSettingsSet_keeps fun hw => absurd hw.fits (by omega)
  have hne : -eNoMem≠0 := by decide
  unfold imported
  rw [hkeeps,if_pos h]
  exact if_pos hne

/-- Bytes that the validate callback does not accept are refused. -/
theorem imported_refused (hok : RecordOk s) (hfits : bytes.length ≤ s.maxSize)
    (hne : bytes≠s.value) (h : s.validates (stack.write 0 bytes) bytes.length=false) :
    imported env stack alwaysMarkChanged w s bytes=(w,-eInval) := by
  have hkeeps : prvUserSettingsSet env env.callbacks w s (stack.write 0 bytes) bytes.length=_ :=
    userSettingsSet_keeps fun hw => Bool.noConfusion (hw.valid.symm.trans h)
  have hdiffers : ¬SameValue s (stack.write 0 bytes) bytes.length := by
    rw [sameValue_stack hok]
    exact hne
  have herr : -eInval≠0 := by decide
  unfold imported
  rw [hkeeps,if_neg (Nat.not_lt.mpr hfits),if_neg hdiffers]
  exact if_pos herr

/-- The bytes of the present value are only marked. -/
theorem imported_same (hok : RecordOk s) (hs : w.getByKey s.key=some s) (h : bytes=s.value) :
    imported env stack alwaysMarkChanged w s bytes=
      (if alwaysMarkChanged then (prvSetChangedRecentlyFlag env env.callbacks w s true).1 else w,
        0) := by
  have hsame : SameValue s (stack.write 0 bytes) bytes.length := (sameValue_stack hok).mpr h
  have hfits : bytes.length ≤ s.maxSize := by
    have hlen := congrArg List.length h
    have hle := hok.value.len_le
    rw [Cells.length_value hok] at hlen
    omega
  have hkeeps : prvUserSettingsSet env env.callbacks w s (stack.write 0 bytes) bytes.length=_ :=
    userSettingsSet_keeps fun hw => hw.differs hsame
  unfold imported
  rw [hkeeps,if_neg (Nat.not_lt.mpr hfits),if_pos hsame]
  dsimp only
  rw [if_neg (not_not.mpr rfl),deref_eq hs]
  split <;> rfl

/-- Whether bytes of the present value are marked or not, the record keeps them. -/
theorem imported_same_record (hok : RecordOk s) (hs : w.getByKey s.key=some s)
    (h : bytes=s.value) : ∃ flag,(imported env stack alwaysMarkChanged w s bytes).1.getByKey s.key=
      some ((storeFlag flag).apply s) := by
  rw [imported_same hok hs h]
  dsimp only
  split
  · exact ⟨true,flag_record hs true⟩
  · exact ⟨s.hasChangedRecently,by rw [storeFlag_self]; exact hs⟩

/-- What an import does behind its set call is a sequence of effects. -/
theorem imported_behind_set (hs : w.getByKey s.key=some s) : EffectSeq env anyValue
    (prvUserSettingsSet env env.callbacks w s (stack.write 0 bytes) bytes.length).1
    (imported env stack alwaysMarkChanged w s bytes).1 := by
  have hset : EffectSeq env anyValue w (prvUserSettingsSet env env.callbacks w s
      (stack.write 0 bytes) bytes.length).1 :=
    userSettingsSet_effects callbacks_within_any hs fun _ _ => trivial
  obtain ⟨t,ht,hr⟩ := getByKey_of_registrations hset.sameSetup.regs hs
  unfold imported
  dsimp only
  split
  · exact .refl
  · split
    · rw [deref_eq ht]
      rw [←key_of_registration hr] at ht
      exact setChangedRecentlyFlag_effects ht true
    · exact .refl

/-- Whatever is imported into a setting is a sequence of effects. -/
theorem imported_effects (hs : w.getByKey s.key=some s) :
    EffectSeq env anyValue w (imported env stack alwaysMarkChanged w s bytes).1 :=
  (userSettingsSet_effects callbacks_within_any hs fun _ _ => trivial).trans
    (imported_behind_set hs)

/-- Whatever is imported into a setting touches no other. -/
theorem imported_onlyAt (hq : Passive env.callbacks) (hs : w.getByKey s.key=some s) :
    OnlyAt s.key w (imported env stack alwaysMarkChanged w s bytes).1 := by
  have hset : OnlyAt s.key w (prvUserSettingsSet env env.callbacks w s
      (stack.write 0 bytes) bytes.length).1 := onlyAt_set hq hs
  obtain ⟨t,ht,hr⟩ := getByKey_of_registrations hset.regs hs
  have hk := key_of_registration hr
  unfold imported
  dsimp only
  split
  · exact hset
  · split
    · rw [deref_eq ht]
      rw [←hk] at ht
      exact hset.trans (hk ▸ onlyAt_flag ht true)
    · exact hset

/-- A set call that writes stores something. -/
theorem set_saves_lt (hs : w.getByKey s.key=some s) {data : Mem} {len : ℕ}
    (hw : Writes s data len) :
    w.saves<(prvUserSettingsSet env env.callbacks w s data len).1.saves := by
  have heffects : EffectSeq env anyValue w (valueWritten env.callbacks w s data len) :=
    valueWritten_effects callbacks_within_any hs hw.fits hw.valid fun _ => trivial
  obtain ⟨t,ht,_⟩ : ∃ t,(valueWritten env.callbacks w s data len).getByKey s.key=some t ∧ _ :=
    valueWritten_record hs hw
  have hle := effects_saves_le heffects
  have hstored : (valueStored env env.callbacks w s data len).saves=
      (valueWritten env.callbacks w s data len).saves+1 := saveOne_saves ..
  rw [set_written hs hw ht]
  split
  · rw [saveOne_saves]
    change _<(valueStored env env.callbacks w s data len).saves+1
    omega
  · omega

/-- The import of bytes that are written stores something. -/
theorem imported_saves_lt (hs : w.getByKey s.key=some s)
    (hw : Writes s (stack.write 0 bytes) bytes.length) :
    w.saves<(imported env stack alwaysMarkChanged w s bytes).1.saves :=
  (set_saves_lt hs hw).trans_le (effects_saves_le (imported_behind_set hs))

/-- Bytes that are written leave the record that the callbacks leave, with
nothing but its flag changed. -/
theorem imported_written (hs : w.getByKey s.key=some s)
    (hw : Writes s (stack.write 0 bytes) bytes.length)
    (ht : (valueWritten env.callbacks w s (stack.write 0 bytes) bytes.length).getByKey s.key=
      some t) :
    ∃ flag,(imported env stack alwaysMarkChanged w s bytes).1.getByKey s.key=
      some ((storeFlag flag).apply t) := by
  obtain ⟨flag,hset⟩ := set_written_record env hs hw ht
  have hkey : ((storeFlag flag).apply t).key=s.key := key_of_getByKey hset
  unfold imported
  dsimp only
  split
  · exact ⟨flag,hset⟩
  · split
    · refine ⟨true,?_⟩
      rw [deref_eq hset,←hkey]
      exact flag_record (hkey.symm ▸ hset) true
    · exact ⟨flag,hset⟩

section Saved

variable (hsave : ∀ n,env.saveResult n=0) (hq : Passive env.callbacks)

include hsave

/-- The entries after setting a flag. -/
theorem flag_lookup (hs : w.getByKey s.key=some s) (name : CString) :
    (prvSetChangedRecentlyFlag env env.callbacks w s true).1.nvs.lookup name=
      if name=keyWithPrefix .changed s.key ∧ s.hasChangedRecently=false then some [1]
      else w.nvs.lookup name := by
  rw [setChangedRecentlyFlag_eq hs]
  cases hflag : s.hasChangedRecently with
  | true =>
    rw [if_pos rfl,if_neg (c:=_ ∧ _) fun h => Bool.noConfusion h.2]
  | false =>
    rw [if_neg (by decide)]
    dsimp only
    rw [saveOne_lookup_saved hsave]
    simp only [and_true]
    rfl

include hq

/-- Bytes that are written leave the setting marked in any case. -/
theorem imported_stored (hs : w.getByKey s.key=some s)
    (hw : Writes s (stack.write 0 bytes) bytes.length) :
    imported env stack alwaysMarkChanged w s bytes=
      ((prvUserSettingsSet env env.callbacks w s (stack.write 0 bytes) bytes.length).1,0) := by
  have hret : (prvUserSettingsSet env env.callbacks w s (stack.write 0 bytes) bytes.length).2=0 :=
    set_ret hsave hq hs hw
  have hrecord := set_record env hq hs hw
  have hmarked : ((storeFlag (s.hasChangedRecently || decide (env.saveResult w.saves=0))).apply
      (valueRecord s (stack.write 0 bytes) bytes.length)).hasChangedRecently=true := by
    rw [decide_eq_true (hsave w.saves),Bool.or_true]
    rfl
  have hkey := key_of_getByKey hrecord
  unfold imported
  rw [if_neg (not_not.mpr hret)]
  split
  · rw [deref_eq hrecord,setChangedRecentlyFlag_eq (by rw [hkey]; exact hrecord),
      if_pos hmarked.symm]
  · rfl

end Saved

end UserSettings.Importing
