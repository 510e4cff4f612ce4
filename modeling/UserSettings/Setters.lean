import UserSettings.Effects

/-!
# What the setters do

One equation for each write that goes through a handler, one equation for
each setter in terms of these writes, and for every function the sequence of
effects it is. Callbacks enter as functions of which only this is known;
the calls a callback makes are such functions by induction over their tree.
-/

namespace UserSettings.Setters

open Bytes Settings Storage Store Effects

variable {env : Env} {cb : Callbacks} {w : World} {s : UserSetting} {data : Mem} {len : ℕ}

/-- The value reaches RAM and the callbacks run; at length zero neither happens. -/
def valueWritten (cb : Callbacks) (w : World) (s : UserSetting) (data : Mem) (len : ℕ) : World :=
  if len=0 then w
  else notifyOwn cb (notifyGlobal cb (w.modify s.key (storeValue (bytesAt data len))) s) s

/-- The handler reads all bytes that fit. -/
theorem bytesAt_min (hf : len ≤ s.maxSize) : bytesAt data (min len s.maxSize)=bytesAt data len := by
  rw [Nat.min_eq_left hf]

/-- The value subtree: the write to RAM never fails for a listed setting that
has the space. -/
theorem runtimeSet_value (hs : w.getByKey s.key=some s) (hf : len ≤ s.maxSize) :
    settingsRuntimeSet cb w (keyWithPrefix .value s.key) data len=
      (valueWritten cb w s data len,0) := by
  have hl : userSettingsListGetByKey w.list s.key=some s := hs
  unfold settingsRuntimeSet valueWritten
  rw [settingsParseAndLookup_keyWithPrefix]
  dsimp only [hSet]
  unfold prvValueSetCb
  rw [hl]
  simp only [settingsRuntimeReadCb,bytesAt_min hf,bytesAt_eq_nil,if_neg (Nat.not_lt.mpr hf)]
  split <;> rfl

/-- The default subtree likewise; no callback runs. -/
theorem runtimeSet_default (hs : w.getByKey s.key=some s) (hf : len ≤ s.maxSize) :
    settingsRuntimeSet cb w (keyWithPrefix .default s.key) data len=
      (if len=0 then w else w.modify s.key (storeDefault (bytesAt data len)),0) := by
  have hl : userSettingsListGetByKey w.list s.key=some s := hs
  unfold settingsRuntimeSet
  rw [settingsParseAndLookup_keyWithPrefix]
  dsimp only [hSet]
  unfold prvDefaultSetCb
  rw [hl]
  simp only [settingsRuntimeReadCb,bytesAt_min hf,bytesAt_eq_nil,if_neg (Nat.not_lt.mpr hf)]
  split <;> rfl

/-- The byte of a C bool is read back as the bool. -/
theorem boolByte_ne_zero (flag : Bool) : decide (boolByte flag≠0)=flag := by
  cases flag <;> rfl

/-- The changed subtree: the flag reaches RAM. -/
theorem runtimeSet_changed (hs : w.getByKey s.key=some s) (flag : Bool) :
    settingsRuntimeSet cb w (keyWithPrefix .changed s.key) (memOf [boolByte flag]) 1=
      (w.modify s.key (storeFlag flag),0) := by
  have hl : userSettingsListGetByKey w.list s.key=some s := hs
  have hb : bytesAt (memOf [boolByte flag]) 1=[boolByte flag] :=
    bytesAt_memOf_length [boolByte flag]
  unfold settingsRuntimeSet
  rw [settingsParseAndLookup_keyWithPrefix]
  dsimp only [hSet]
  unfold prvChangedFlagSetCb
  rw [hl]
  simp only [settingsRuntimeReadCb,Nat.min_self,hb,boolByte_ne_zero]

variable {p : Pointer}

/-- The two writes after a successful first one: the result is that of storing
what the pointer then points to. -/
theorem runtimeSetAndSave_eq {subtree : Subtree} {key : CString} {written : World}
    (h : settingsRuntimeSet cb w (keyWithPrefix subtree key) (p w) len=(written,0)) :
    runtimeSetAndSave env cb w subtree key p len=
      ((settingsSaveOne env written (keyWithPrefix subtree key) (p written) len).1,
        if env.saveResult written.saves=0 then 0 else -eIo) := by
  unfold runtimeSetAndSave
  rw [h]
  dsimp only
  rw [if_neg (by simp),saveOne_result]
  by_cases hr : env.saveResult written.saves=0
  · rw [if_neg (by simpa using hr),if_pos hr]
  · rw [if_pos hr,if_neg hr]

/-- Setting a flag: nothing if it has the value, else both writes. -/
theorem setChangedRecentlyFlag_eq (hs : w.getByKey s.key=some s) (flag : Bool) :
    prvSetChangedRecentlyFlag env cb w s flag=
      if flag=s.hasChangedRecently then (w,0)
      else ((settingsSaveOne env (w.modify s.key (storeFlag flag)) (keyWithPrefix .changed s.key)
          (memOf [boolByte flag]) 1).1,
        if env.saveResult w.saves=0 then 0 else -eIo) := by
  unfold prvSetChangedRecentlyFlag
  rw [runtimeSetAndSave_eq (p:=fun _ => memOf [boolByte flag]) (runtimeSet_changed hs flag)]
  rfl

/-- The two writes of an accepted value: RAM with its callbacks, then storage,
with the bytes that the pointer points to after the callbacks. -/
def valueStoredFrom (env : Env) (cb : Callbacks) (w : World) (s : UserSetting) (p : Pointer)
    (len : ℕ) : World :=
  let written := valueWritten cb w s (p w) len
  (settingsSaveOne env written (keyWithPrefix .value s.key) (p written) len).1

/-- The same for data that stays as it is. -/
def valueStored (env : Env) (cb : Callbacks) (w : World) (s : UserSetting) (data : Mem)
    (len : ℕ) : World :=
  (settingsSaveOne env (valueWritten cb w s data len) (keyWithPrefix .value s.key) data len).1

/-- The same value as before. -/
def SameValue (s : UserSetting) (data : Mem) (len : ℕ) : Prop :=
  bytesAt s.data.mem len=bytesAt data len ∧ len=s.dataLen

/-- Two byte strings can be compared. -/
instance (s : UserSetting) (data : Mem) (len : ℕ) : Decidable (SameValue s data len) :=
  inferInstanceAs (Decidable (_ ∧ _))

/-- The value is not the present one, fits and is accepted, so that it is written. -/
structure Writes (s : UserSetting) (data : Mem) (len : ℕ) : Prop where
  /-- The value fits. -/
  fits : len ≤ s.maxSize
  /-- The value differs from the present one. -/
  differs : ¬SameValue s data len
  /-- The validate callback accepts it. -/
  valid : s.validates data len=true

/-- Whether a set call writes can be decided. -/
instance (s : UserSetting) (data : Mem) (len : ℕ) : Decidable (Writes s data len) :=
  decidable_of_iff (len ≤ s.maxSize ∧ ¬SameValue s data len ∧ s.validates data len=true)
    ⟨fun h => ⟨h.1,h.2.1,h.2.2⟩,fun h => ⟨h.fits,h.differs,h.valid⟩⟩

/-- A set call that writes: if storing fails it ends with an error, else
with the result of setting the flag. -/
theorem userSettingsSetFrom_writes (hs : w.getByKey s.key=some s)
    (hw : Writes s (p w) len) :
    prvUserSettingsSetFrom env cb w s p len=
      let stored := valueStoredFrom env cb w s p len
      if env.saveResult (valueWritten cb w s (p w) len).saves≠0 then (stored,-eIo)
      else
        let marked := prvSetChangedRecentlyFlag env cb stored (stored.deref s) true
        (marked.1,if marked.2=0 then 0 else -eIo) := by
  have hd : ¬(bytesAt s.data.mem len=bytesAt (p w) len ∧ len=s.dataLen) := hw.differs
  unfold prvUserSettingsSetFrom
  rw [if_neg (Nat.not_lt.mpr hw.fits),if_neg hd,if_neg (by simp [hw.valid]),
    runtimeSetAndSave_eq (runtimeSet_value hs hw.fits)]
  change (let stored := (valueStoredFrom env cb w s p len,
      if env.saveResult (valueWritten cb w s (p w) len).saves=0 then 0 else -eIo)
    if stored.2≠0 then stored else _)=_
  unfold valueStoredFrom
  dsimp only
  generalize prvSetChangedRecentlyFlag env cb _ _ true=marked
  by_cases hr : env.saveResult (valueWritten cb w s (p w) len).saves=0
  · simp only [hr,if_true,ne_eq,not_true_eq_false,if_false]
    by_cases hm : marked.2=0
    · rw [if_neg (not_not.mpr hm),if_pos hm]
    · rw [if_pos hm,if_neg hm]
  · simp only [hr,if_false,ne_eq,not_false_eq_true,if_true]
    exact if_pos (by decide)

/-- The same for data that stays as it is. -/
theorem userSettingsSet_writes (hs : w.getByKey s.key=some s) (hw : Writes s data len) :
    prvUserSettingsSet env cb w s data len=
      let stored := valueStored env cb w s data len
      if env.saveResult (valueWritten cb w s data len).saves≠0 then (stored,-eIo)
      else
        let marked := prvSetChangedRecentlyFlag env cb stored (stored.deref s) true
        (marked.1,if marked.2=0 then 0 else -eIo) :=
  userSettingsSetFrom_writes (p:=fun _ => data) hs hw

/-- A set call that does not write changes nothing; its result says why. -/
theorem userSettingsSetFrom_keeps (h : ¬Writes s (p w) len) :
    prvUserSettingsSetFrom env cb w s p len=
      (w,if s.maxSize<len then -eNoMem else if SameValue s (p w) len then 0 else -eInval) := by
  unfold prvUserSettingsSetFrom
  by_cases hf : s.maxSize<len
  · rw [if_pos hf,if_pos hf]
  · rw [if_neg hf,if_neg hf]
    by_cases hd : SameValue s (p w) len
    · rw [if_pos hd]
      exact if_pos hd
    · have hv : ¬s.validates (p w) len=true := fun hv => h ⟨Nat.not_lt.mp hf,hd,hv⟩
      rw [if_neg hd]
      exact (if_neg hd).trans (if_pos (by simp [hv]))

/-- The same for data that stays as it is. -/
theorem userSettingsSet_keeps (h : ¬Writes s data len) :
    prvUserSettingsSet env cb w s data len=
      (w,if s.maxSize<len then -eNoMem else if SameValue s data len then 0 else -eInval) :=
  userSettingsSetFrom_keeps (p:=fun _ => data) h

/-- The default value reaches RAM; at length zero it does not. -/
def defaultWritten (w : World) (s : UserSetting) (data : Mem) (len : ℕ) : World :=
  if len=0 then w else w.modify s.key (storeDefault (bytesAt data len))

/-- The same default value as before. -/
def SameDefault (s : UserSetting) (data : Mem) (len : ℕ) : Prop :=
  len=s.defaultDataLen ∧
    bytesAt data s.defaultDataLen=bytesAt s.defaultData.mem s.defaultDataLen

/-- Two byte strings can be compared. -/
instance (s : UserSetting) (data : Mem) (len : ℕ) : Decidable (SameDefault s data len) :=
  inferInstanceAs (Decidable (_ ∧ _))

/-- The default value is new, may be written, fits and is accepted. -/
structure WritesDefault (env : Env) (s : UserSetting) (data : Mem) (len : ℕ) : Prop where
  /-- The default value differs from the present one. -/
  differs : ¬SameDefault s data len
  /-- There is none yet or it may be overwritten. -/
  unlocked : env.defaultOverwrite=true ∨ s.defaultIsSet=false
  /-- The default value fits. -/
  fits : len ≤ s.maxSize
  /-- The validate callback accepts it. -/
  valid : s.validates data len=true

/-- Whether a set_default call writes can be decided. -/
instance (env : Env) (s : UserSetting) (data : Mem) (len : ℕ) :
    Decidable (WritesDefault env s data len) :=
  decidable_of_iff (¬SameDefault s data len ∧
      (env.defaultOverwrite=true ∨ s.defaultIsSet=false) ∧ len ≤ s.maxSize ∧
      s.validates data len=true)
    ⟨fun h => ⟨h.1,h.2.1,h.2.2.1,h.2.2.2⟩,fun h => ⟨h.differs,h.unlocked,h.fits,h.valid⟩⟩

/-- Whether a default value may not be written, as the code tests it. -/
theorem locked_iff (env : Env) (s : UserSetting) :
    (!env.defaultOverwrite && s.defaultIsSet)=true ↔
      ¬(env.defaultOverwrite=true ∨ s.defaultIsSet=false) := by
  cases env.defaultOverwrite <;> cases s.defaultIsSet <;> decide

/-- A call that writes a default value ends with the result of storing. -/
theorem userSettingsSetDefault_writes (hs : w.getByKey s.key=some s)
    (hw : WritesDefault env s data len) :
    prvUserSettingsSetDefault env cb w s data len=
      ((settingsSaveOne env (defaultWritten w s data len) (keyWithPrefix .default s.key)
          data len).1,
        if env.saveResult w.saves=0 then 0 else -eIo) := by
  have ho : ¬(!env.defaultOverwrite && s.defaultIsSet)=true :=
    fun h => (locked_iff env s).mp h hw.unlocked
  have hd : ¬(len=s.defaultDataLen ∧
    bytesAt data s.defaultDataLen=bytesAt s.defaultData.mem s.defaultDataLen) := hw.differs
  have hsaves : (defaultWritten w s data len).saves=w.saves := by
    unfold defaultWritten
    split <;> rfl
  unfold prvUserSettingsSetDefault
  rw [if_neg hd,if_neg ho,if_neg (Nat.not_lt.mpr hw.fits),if_neg (by simp [hw.valid]),
    runtimeSetAndSave_eq (p:=fun _ => data) (runtimeSet_default hs hw.fits)]
  change (_,if env.saveResult (defaultWritten w s data len).saves=0 then _ else _)=_
  rw [hsaves]
  rfl

/-- A call that does not write a default value changes nothing. -/
theorem userSettingsSetDefault_keeps (h : ¬WritesDefault env s data len) :
    prvUserSettingsSetDefault env cb w s data len=
      (w,if SameDefault s data len then 0
        else if (!env.defaultOverwrite && s.defaultIsSet)=true then -eAlready
        else if s.maxSize<len then -eNoMem else -eInval) := by
  unfold prvUserSettingsSetDefault
  by_cases hd : SameDefault s data len
  · rw [if_pos hd]
    exact if_pos hd
  · rw [if_neg hd]
    refine (if_neg hd).trans ?_
    by_cases ho : (!env.defaultOverwrite && s.defaultIsSet)=true
    · rw [if_pos ho,if_pos ho]
    · rw [if_neg ho,if_neg ho]
      by_cases hf : s.maxSize<len
      · rw [if_pos hf,if_pos hf]
      · have hopen := not_not.mp (fun k => ho ((locked_iff env s).mpr k))
        have hv : ¬s.validates data len=true :=
          fun hv => h ⟨hd,hopen,Nat.not_lt.mp hf,hv⟩
        rw [if_neg hf,if_neg hf,if_pos (by simp [hv])]

variable {allow : Allowance}

/-- Callbacks that do nothing but what the setters can do. -/
structure Within (env : Env) (allow : Allowance) (cb : Callbacks) : Prop where
  /-- The global callback. -/
  global : ∀ w,EffectSeq env allow w (cb.global w)
  /-- The callback of the setting. -/
  own : ∀ w,EffectSeq env allow w (cb.own w)

/-- Records with the same registration have the same key. -/
theorem key_of_registration {t : UserSetting} (h : registration t=registration s) :
    t.key=s.key := congrArg Registration.key h

/-- Records with the same registration have the same space. -/
theorem maxSize_of_registration {t : UserSetting} (h : registration t=registration s) :
    t.maxSize=s.maxSize := congrArg Registration.size h

/-- Records with the same registration accept the same values. -/
theorem validates_of_registration {t : UserSetting} (h : registration t=registration s)
    (data : Mem) (len : ℕ) : t.validates data len=s.validates data len := by
  have hid : t.id=s.id := congrArg Registration.id h
  have hv : t.validateCb=s.validateCb := congrArg Registration.validateCb h
  unfold UserSetting.validates
  rw [hid,hv,key_of_registration h]

/-- Notifying the global callback, with all that it does. -/
theorem notifyGlobal_effects (hcb : Within env allow cb) (w : World) (s : UserSetting) :
    EffectSeq env allow w (notifyGlobal cb w s) := by
  unfold notifyGlobal
  split
  · exact .trans (.single (.notify .global s)) (hcb.global _)
  · exact .refl

/-- Notifying the callback of the setting, with all that it does. -/
theorem notifyOwn_effects (hcb : Within env allow cb) (w : World) (s : UserSetting) :
    EffectSeq env allow w (notifyOwn cb w s) := by
  unfold notifyOwn
  split
  · exact .trans (.single (.notify .own s)) (hcb.own _)
  · exact .refl

/-- Writing a value to RAM, with all that its callbacks do. -/
theorem valueWritten_effects (hcb : Within env allow cb) (hs : w.getByKey s.key=some s)
    (hf : len ≤ s.maxSize) (hv : s.validates data len=true)
    (ha : 0<len → allow.value s data len) :
    EffectSeq env allow w (valueWritten cb w s data len) := by
  unfold valueWritten
  split
  · exact .refl
  · rename_i hn
    have hpos : 0<len := Nat.pos_of_ne_zero hn
    have hvalue : EffectSeq env allow w (w.modify s.key (storeValue (bytesAt data len))) :=
      .single (.value hs hpos hf hv (ha hpos))
    exact (hvalue.trans (notifyGlobal_effects hcb _ s)).trans (notifyOwn_effects hcb _ s)

/-- Writing a value to RAM and then attempting to store what the pointer then
points to: the bytes that were checked, or bytes that may be stored unchecked. -/
theorem valueStoredFrom_effects (hcb : Within env allow cb) (hs : w.getByKey s.key=some s)
    (hw : Writes s (p w) len) (ha : 0<len → allow.value s (p w) len)
    (hagain : p (valueWritten cb w s (p w) len)=p w ∨
      ∀ t,allow.saved t (p (valueWritten cb w s (p w) len)) len) :
    EffectSeq env allow w (valueStoredFrom env cb w s p len) := by
  have hwritten := valueWritten_effects hcb hs hw.fits hw.valid ha
  obtain ⟨t,ht,hr⟩ := getByKey_of_registrations hwritten.sameSetup.regs hs
  have hk := key_of_registration hr
  unfold valueStoredFrom
  dsimp only
  generalize hend : valueWritten cb w s (p w) len=written at *
  have htk : written.getByKey t.key=some t := by rw [hk,ht]
  have hft : len ≤ t.maxSize := by rw [maxSize_of_registration hr]; exact hw.fits
  have hvt : t.validates (p w) len=true :=
    (validates_of_registration hr _ len).trans hw.valid
  have hsave : Effect env allow written
      (settingsSaveOne env written (keyWithPrefix .value t.key) (p written) len).1 := by
    refine .save htk (by decide) hft ?_
    cases hagain with
    | inl hsame => exact .inl (by rw [hsame]; exact hvt)
    | inr hsaved => exact .inr ⟨hsaved t,p w,hvt⟩
  rw [hk] at hsave
  exact hwritten.tail hsave

/-- Setting a flag. -/
theorem setChangedRecentlyFlag_effects (hs : w.getByKey s.key=some s) (flag : Bool) :
    EffectSeq env allow w (prvSetChangedRecentlyFlag env cb w s flag).1 := by
  rw [setChangedRecentlyFlag_eq hs]
  split
  · exact .refl
  · exact .tail (.single (.flag s.key flag)) (.saveFlag s.key flag)

/-- Setting a value to what a pointer points to. -/
theorem userSettingsSetFrom_effects (hcb : Within env allow cb) (hs : w.getByKey s.key=some s)
    (ha : 0<len → Writes s (p w) len → allow.value s (p w) len)
    (hagain : Writes s (p w) len →
      p (valueWritten cb w s (p w) len)=p w ∨
        ∀ t,allow.saved t (p (valueWritten cb w s (p w) len)) len) :
    EffectSeq env allow w (prvUserSettingsSetFrom env cb w s p len).1 := by
  by_cases hw : Writes s (p w) len
  · have hstored := valueStoredFrom_effects (p:=p) hcb hs hw (fun hn => ha hn hw)
      (hagain hw)
    rw [userSettingsSetFrom_writes hs hw]
    dsimp only
    split
    · exact hstored
    · obtain ⟨t,ht,hr⟩ := getByKey_of_registrations hstored.sameSetup.regs hs
      rw [deref_eq ht]
      refine hstored.trans (setChangedRecentlyFlag_effects ?_ true)
      rw [key_of_registration hr,ht]
  · rw [userSettingsSetFrom_keeps hw]

/-- Setting a value to data that stays as it is. -/
theorem userSettingsSet_effects (hcb : Within env allow cb) (hs : w.getByKey s.key=some s)
    (ha : 0<len → Writes s data len → allow.value s data len) :
    EffectSeq env allow w (prvUserSettingsSet env cb w s data len).1 :=
  userSettingsSetFrom_effects (p:=fun _ => data) hcb hs ha (fun _ => .inl rfl)

/-- Setting a default value. -/
theorem userSettingsSetDefault_effects (hs : w.getByKey s.key=some s) :
    EffectSeq env allow w (prvUserSettingsSetDefault env cb w s data len).1 := by
  by_cases hw : WritesDefault env s data len
  · rw [userSettingsSetDefault_writes hs hw]
    unfold defaultWritten
    split
    · exact .single (.save hs (by decide) hw.fits (.inl hw.valid))
    · rename_i hn
      have hd : EffectSeq env allow w (w.modify s.key (storeDefault (bytesAt data len))) :=
        .single (.default hs (Nat.pos_of_ne_zero hn) hw.fits hw.valid)
      have hfound : (w.modify s.key (storeDefault (bytesAt data len))).getByKey s.key=
          some ((storeDefault (bytesAt data len)).apply s) := modify_self _ hs
      exact hd.tail (.save (s:=(storeDefault (bytesAt data len)).apply s) hfound (by decide) hw.fits
        (.inl hw.valid))
  · rw [userSettingsSetDefault_keeps hw]

end UserSettings.Setters
