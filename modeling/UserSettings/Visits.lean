import UserSettings.Frame

/-!
# What one call leaves behind

The record of the setting, the trace and the entries after each of the three
writing functions, as one equation each. The equations of records and trace
hold whichever storage calls fail; those of the entries and of the result are
for storage that does not fail.
-/

namespace UserSettings.Visits

open Bytes Settings Storage Store Effects Setters Reactions Records Cells Outcomes
open UserSettings.Frame

variable {env : Env} {cb : Callbacks} {w : World} {s : UserSetting} {data : Mem} {len : ℕ}

/-- The record with a new value; no bytes leave the old one. -/
def valueRecord (s : UserSetting) (data : Mem) (len : ℕ) : UserSetting :=
  if len=0 then s else (storeValue (bytesAt data len)).apply s

/-- The record with a new default value likewise. -/
def defaultRecord (s : UserSetting) (data : Mem) (len : ℕ) : UserSetting :=
  if len=0 then s else (storeDefault (bytesAt data len)).apply s

/-- The entry of some bytes; no bytes delete it. -/
def entryOf (data : Mem) (len : ℕ) : Option (List UInt8) :=
  if len=0 then none else some (bytesAt data len)

/-- A new value leaves the flag as it is. -/
@[simp] theorem valueRecord_flag :
    (valueRecord s data len).hasChangedRecently=s.hasChangedRecently := by
  unfold valueRecord
  split <;> rfl

/-- A value is the present one exactly when its bytes are. -/
theorem sameValue_iff (hok : RecordOk s) : SameValue s data len ↔ bytesAt data len=s.value := by
  constructor
  · rintro ⟨hbytes,rfl⟩
    rw [←hbytes]
    exact s.data.bytesAt_mem hok.value.len_le
  · intro h
    have hlen : len=s.dataLen := by
      rw [←length_value hok,←h,length_bytesAt]
    refine ⟨?_,hlen⟩
    rw [h,hlen]
    exact s.data.bytesAt_mem hok.value.len_le

/-- Likewise a default value. -/
theorem sameDefault_iff (hok : RecordOk s) :
    SameDefault s data len ↔ bytesAt data len=s.defaultValue := by
  have hbytes : bytesAt s.defaultData.mem s.defaultDataLen=s.defaultValue :=
    s.defaultData.bytesAt_mem hok.default.len_le
  constructor
  · rintro ⟨rfl,h⟩
    rw [h,hbytes]
  · intro h
    have hlen : len=s.defaultDataLen := by
      rw [←length_defaultValue hok,←h,length_bytesAt]
    refine ⟨hlen,?_⟩
    rw [hbytes,←h,hlen]

/-- The record after writing and storing a value. -/
theorem valueStored_record (hq : Passive cb) (hs : w.getByKey s.key=some s) :
    (valueStored env cb w s data len).getByKey s.key=some (valueRecord s data len) :=
  valueStored_getByKey env data len hq hs

/-- The trace after writing and storing a value. -/
theorem valueStored_trace (hq : Passive cb) : (valueStored env cb w s data len).trace=
    w.trace++if len=0 then []
      else notices (w.modify s.key (storeValue (bytesAt data len))) s := by
  unfold valueStored
  rw [saveOne_trace,valueWritten_trace data len hq w s]

variable (env) in
/-- The record after a set call that writes: the value, and the flag unless the
value could not be stored. -/
theorem set_record (hq : Passive cb) (hs : w.getByKey s.key=some s) (hw : Writes s data len) :
    (prvUserSettingsSet env cb w s data len).1.getByKey s.key=
      some ((storeFlag (s.hasChangedRecently || decide (env.saveResult w.saves=0))).apply
        (valueRecord s data len)) := by
  have hrec : (valueStored env cb w s data len).getByKey s.key=some (valueRecord s data len) :=
    valueStored_record hq hs
  have hself : (storeFlag s.hasChangedRecently).apply (valueRecord s data len)=
      valueRecord s data len := by
    have hflag : (valueRecord s data len).hasChangedRecently=s.hasChangedRecently :=
      valueRecord_flag
    rw [←hflag]
    exact storeFlag_self _
  rw [userSettingsSet_passive hq hs hw]
  dsimp only
  by_cases hv : env.saveResult w.saves=0
  · rw [if_neg (not_not.mpr hv),decide_eq_true hv,Bool.or_true]
    split
    · rename_i hc
      rw [hc] at hself
      rw [hself]
      exact hrec
    · rw [saveOne_getByKey]
      exact modify_self (storeFlag true) hrec
  · rw [if_pos hv,decide_eq_false hv,Bool.or_false,hself]
    exact hrec

/-- The trace after a set call that writes. -/
theorem set_trace (hq : Passive cb) (hs : w.getByKey s.key=some s) (hw : Writes s data len) :
    (prvUserSettingsSet env cb w s data len).1.trace=
      w.trace++if len=0 then []
        else notices (w.modify s.key (storeValue (bytesAt data len))) s := by
  have ht : (valueStored env cb w s data len).trace=_ := valueStored_trace hq
  rw [userSettingsSet_passive hq hs hw,←ht]
  dsimp only
  split
  · rfl
  · split
    · rfl
    · rw [saveOne_trace]
      rfl

/-- The trace after a set_default call. -/
theorem setDefault_trace (hs : w.getByKey s.key=some s) :
    (prvUserSettingsSetDefault env cb w s data len).1.trace=w.trace := by
  by_cases hw : WritesDefault env s data len
  · rw [userSettingsSetDefault_writes hs hw]
    dsimp only
    rw [saveOne_trace]
    unfold defaultWritten
    split <;> rfl
  · rw [userSettingsSetDefault_keeps hw]

variable (env cb) in
/-- The record after a set_default call that writes. -/
theorem setDefault_record (hs : w.getByKey s.key=some s) (hw : WritesDefault env s data len) :
    (prvUserSettingsSetDefault env cb w s data len).1.getByKey s.key=
      some (defaultRecord s data len) := by
  rw [userSettingsSetDefault_writes hs hw]
  dsimp only
  rw [saveOne_getByKey]
  unfold defaultWritten defaultRecord
  split
  · exact hs
  · exact modify_self _ hs

/-- The record after setting a flag. -/
theorem flag_record (hs : w.getByKey s.key=some s) (flag : Bool) :
    (prvSetChangedRecentlyFlag env cb w s flag).1.getByKey s.key=
      some ((storeFlag flag).apply s) := by
  rw [setChangedRecentlyFlag_eq hs]
  split
  · rename_i hf
    rw [hf,storeFlag_self]
    exact hs
  · dsimp only
    rw [saveOne_getByKey]
    exact modify_self _ hs

/-- The trace after setting a flag. -/
theorem flag_trace (hs : w.getByKey s.key=some s) (flag : Bool) :
    (prvSetChangedRecentlyFlag env cb w s flag).1.trace=w.trace := by
  rw [setChangedRecentlyFlag_eq hs]
  split
  · rfl
  · dsimp only
    rw [saveOne_trace]
    rfl

/-- Whatever the callbacks do with a new value, its setting is still there. -/
theorem valueWritten_record (hs : w.getByKey s.key=some s) (hw : Writes s data len) :
    ∃ t,(valueWritten env.callbacks w s data len).getByKey s.key=some t ∧
      registration t=registration s := by
  have heffects : EffectSeq env anyValue w (valueWritten env.callbacks w s data len) :=
    valueWritten_effects callbacks_within_any hs hw.fits hw.valid fun _ => trivial
  exact getByKey_of_registrations heffects.sameSetup.regs hs

/-- Storing a value leaves the record that the callbacks left. -/
theorem valueStored_getByKey {t : UserSetting}
    (ht : (valueWritten cb w s data len).getByKey s.key=some t) :
    (valueStored env cb w s data len).getByKey s.key=some t := by
  unfold valueStored
  rw [saveOne_getByKey]
  exact ht

/-- A set call that writes: storing the value, and the flag unless the setting
is marked when the callbacks are done. -/
theorem set_written (hs : w.getByKey s.key=some s) (hw : Writes s data len)
    {t : UserSetting}
    (ht : (valueWritten cb w s data len).getByKey s.key=some t) :
    (prvUserSettingsSet env cb w s data len).1=
      if env.saveResult (valueWritten cb w s data len).saves=0 ∧ t.hasChangedRecently=false then
        (settingsSaveOne env ((valueStored env cb w s data len).modify s.key (storeFlag true))
          (keyWithPrefix .changed s.key) (memOf [1]) 1).1
      else valueStored env cb w s data len := by
  have hkey := key_of_getByKey ht
  have hrec : (valueStored env cb w s data len).getByKey s.key=some t := valueStored_getByKey ht
  have hrect : (valueStored env cb w s data len).getByKey t.key=some t := by rw [hkey,hrec]
  rw [userSettingsSet_writes hs hw]
  dsimp only
  by_cases hv : env.saveResult (valueWritten cb w s data len).saves=0
  · rw [if_neg (not_not.mpr hv),deref_eq hrec,setChangedRecentlyFlag_eq hrect,hkey]
    dsimp only
    cases hflag : t.hasChangedRecently with
    | true => rw [if_pos rfl,if_neg (c:=_ ∧ _) fun hc => Bool.noConfusion hc.2]
    | false =>
      rw [if_pos (c:=_ ∧ _) ⟨hv,rfl⟩]
      rfl
  · rw [if_pos hv,if_neg fun hc => hv hc.1]

variable (env) in
/-- A set call that writes leaves the record that the callbacks left, with
nothing but its flag changed. -/
theorem set_written_record (hs : w.getByKey s.key=some s) (hw : Writes s data len)
    {t : UserSetting} (ht : (valueWritten cb w s data len).getByKey s.key=some t) :
    ∃ flag,(prvUserSettingsSet env cb w s data len).1.getByKey s.key=
      some ((storeFlag flag).apply t) := by
  have hrec : (valueStored env cb w s data len).getByKey s.key=some t := valueStored_getByKey ht
  rw [set_written hs hw ht]
  split
  · rw [saveOne_getByKey]
    exact ⟨true,modify_self (storeFlag true) hrec⟩
  · refine ⟨t.hasChangedRecently,?_⟩
    rw [storeFlag_self]
    exact hrec

section Saved

variable (hsave : ∀ n,env.saveResult n=0)

include hsave

/-- Storing always changes the entry of its own name. -/
theorem saveOne_lookup_saved (w : World) (name other : CString) (data : Mem) (len : ℕ) :
    (settingsSaveOne env w name data len).1.nvs.lookup other=
      if other=name then entryOf data len else w.nvs.lookup other := by
  rw [saveOne_lookup]
  simp only [hsave,and_true]
  rfl

/-- The result of a set call that writes. -/
theorem set_ret (hq : Passive cb) (hs : w.getByKey s.key=some s) (hw : Writes s data len) :
    (prvUserSettingsSet env cb w s data len).2=0 := by
  rw [userSettingsSet_passive hq hs hw]
  dsimp only
  rw [if_neg (by simp [hsave])]
  split
  · rfl
  · dsimp only
    rw [if_pos (hsave _)]

/-- The entries after a set call that writes. -/
theorem set_lookup (hq : Passive cb) (hs : w.getByKey s.key=some s) (hw : Writes s data len)
    (name : CString) : (prvUserSettingsSet env cb w s data len).1.nvs.lookup name=
      if name=keyWithPrefix .value s.key then entryOf data len
      else if name=keyWithPrefix .changed s.key ∧ s.hasChangedRecently=false then some [1]
      else w.nvs.lookup name := by
  have hvalue : (valueStored env cb w s data len).nvs.lookup name=
      if name=keyWithPrefix .value s.key then entryOf data len else w.nvs.lookup name := by
    unfold valueStored
    rw [saveOne_lookup_saved hsave,valueWritten_nvs _ _ _ _ hq]
  have hne : keyWithPrefix .value s.key≠keyWithPrefix .changed s.key := by
    intro h
    cases (keyWithPrefix_inj.mp h).1
  rw [userSettingsSet_passive hq hs hw]
  dsimp only
  rw [if_neg (by simp [hsave])]
  by_cases hc : s.hasChangedRecently=true
  · rw [if_pos hc,hvalue,hc]
    simp
  · have hc' : s.hasChangedRecently=false := by simpa using hc
    rw [if_neg hc]
    dsimp only
    rw [saveOne_lookup_saved hsave]
    change (if _ then _ else (valueStored env cb w s data len).nvs.lookup name)=_
    rw [hvalue]
    by_cases hn : name=keyWithPrefix .value s.key
    · rw [if_neg (hn ▸ hne),if_pos hn,if_pos hn]
    · simp only [if_neg hn,hc',and_true]
      rfl

/-- The result of a set_default call that writes. -/
theorem setDefault_ret (hs : w.getByKey s.key=some s) (hw : WritesDefault env s data len) :
    (prvUserSettingsSetDefault env cb w s data len).2=0 := by
  rw [userSettingsSetDefault_writes hs hw]
  dsimp only
  rw [if_pos (hsave _)]

/-- The entries after a set_default call that writes. -/
theorem setDefault_lookup (hs : w.getByKey s.key=some s) (hw : WritesDefault env s data len)
    (name : CString) : (prvUserSettingsSetDefault env cb w s data len).1.nvs.lookup name=
      if name=keyWithPrefix .default s.key then entryOf data len else w.nvs.lookup name := by
  have hnvs : (defaultWritten w s data len).nvs=w.nvs := by
    unfold defaultWritten
    split <;> rfl
  rw [userSettingsSetDefault_writes hs hw]
  dsimp only
  rw [saveOne_lookup_saved hsave,hnvs]

end Saved

end UserSettings.Visits
