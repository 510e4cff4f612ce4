import UserSettings.Listing
import UserSettings.Addressing
import UserSettings.Notices

/-!
# Restoring default values

Restoring sets every setting that has a value to its default. A setting
without a default takes part too: no bytes are written, which leaves the value
in RAM, deletes its entry and marks the setting. After that a second restore
finds nothing to do. The functions for one setting report success whatever
happened inside.
-/

namespace UserSettings.Restoring

open Bytes Settings Storage Store Effects Setters Reactions Records Cells Outcomes Operations
open UserSettings.Frame Visits Device Binary Executor Addressing

/-- The bytes a getter shows: pointer and length read together. -/
def shownBytes (s : UserSetting) : Option (List UInt8) :=
  (prvUserSettingGet s).map fun p => bytesAt p.1 p.2

/-- The bytes of the value a getter returns. -/
def getBytes (w : World) (target : Target) : Except Fault (Option (List UInt8)) :=
  (userSettingsGet w target).map fun found => found.map fun p => bytesAt p.1 p.2

/-- The bytes of the default value a getter returns. -/
def getDefaultBytes (w : World) (target : Target) : Except Fault (Option (List UInt8)) :=
  (userSettingsGetDefault w target).map fun found => found.map fun p => bytesAt p.1 p.2

/-- A target names a setting, by key or by identifier. -/
def Addresses (target : Target) (s : UserSetting) : Prop :=
  target=.key s.key ∨ target=.id s.id

/-- Records, entries and the trace are as before. -/
structure Still (w next : World) : Prop where
  /-- Every record is the same. -/
  records : ∀ key,next.getByKey key=w.getByKey key
  /-- Every entry is the same. -/
  entries : ∀ name,next.nvs.lookup name=w.nvs.lookup name
  /-- No callback was called. -/
  trace : next.trace=w.trace

variable {env : Env} {cb : Callbacks} {w next : World} {s t : UserSetting} {target : Target}

/-- Nothing happens in no time. -/
theorem Still.refl (w : World) : Still w w := ⟨fun _ => rfl,fun _ => rfl,rfl⟩

/-- Nothing happens in two parts in which nothing happens. -/
theorem Still.trans {middle : World} (h : Still w middle) (k : Still middle next) :
    Still w next :=
  ⟨fun key => (k.records key).trans (h.records key),
    fun name => (k.entries name).trans (h.entries name),k.trace.trans h.trace⟩

/-- A getter shows the value, else the default. -/
theorem shownBytes_eq (hok : RecordOk s) :
    shownBytes s=if s.isSet then some s.value
      else if s.defaultIsSet then some s.defaultValue else none := by
  have hvalue : bytesAt s.data.mem s.dataLen=s.value := s.data.bytesAt_mem hok.value.len_le
  have hdefault : bytesAt s.defaultData.mem s.defaultDataLen=s.defaultValue :=
    s.defaultData.bytesAt_mem hok.default.len_le
  unfold shownBytes prvUserSettingGet
  split
  · exact congrArg some hvalue
  · split
    · exact congrArg some hdefault
    · rfl

/-- The record a target names is found by it. -/
theorem find_of_addresses (ht : next.getByKey s.key=some t) (hid : t.id=s.id)
    (h : Addresses target s) : next.find target=some t := by
  have hmem := (getByKey_some ht).1
  rcases h with rfl|rfl
  · exact ht
  · have hfound : next.find (.id t.id)=some t := getById_of_mem hmem
    rwa [hid] at hfound

/-- What a getter returns for the record it finds. -/
theorem getBytes_eq (hl : w.isLoaded=true) (hf : w.find target=some t) :
    getBytes w target=.ok (shownBytes t) := by
  unfold getBytes userSettingsGet withSetting
  rw [if_pos hl,hf]
  rfl

/-- What a getter returns for the default of the record it finds. -/
theorem getDefaultBytes_eq (hl : w.isLoaded=true) (hf : w.find target=some t) :
    getDefaultBytes w target=
      .ok ((prvUserSettingGetDefault t).map fun p => bytesAt p.1 p.2) := by
  unfold getDefaultBytes userSettingsGetDefault withSetting
  rw [if_pos hl,hf]
  rfl

/-- Restoring a setting that has a value is a set call. -/
theorem restore_eq_set (hi : s.isSet=true) : prvSettingsRestore env cb w s=
    (prvUserSettingsSet env cb w s s.defaultData.mem s.defaultDataLen).1 := by
  unfold prvSettingsRestore
  rw [if_pos hi]

/-- Restoring does nothing when there is nothing to write. -/
theorem restore_keeps
    (h : ¬(s.isSet=true ∧ Writes s s.defaultData.mem s.defaultDataLen)) :
    prvSettingsRestore env cb w s=w := by
  unfold prvSettingsRestore
  split
  · rename_i hi
    rw [userSettingsSet_keeps fun hw => h ⟨hi,hw⟩]
  · rfl

/-- A default value has the bytes that a restore writes. -/
theorem bytesAt_default (hok : RecordOk s) :
    bytesAt s.defaultData.mem s.defaultDataLen=s.defaultValue :=
  s.defaultData.bytesAt_mem hok.default.len_le

/-- A restore writes nothing over a value that is the default. -/
theorem restore_differs (hok : RecordOk s) :
    SameValue s s.defaultData.mem s.defaultDataLen ↔ s.value=s.defaultValue := by
  rw [sameValue_iff hok,bytesAt_default hok]
  exact eq_comm

/-- Restoring a setting again would do nothing: there is nothing to write, or
no bytes, and these were written before. -/
def Settled (w : World) (t : UserSetting) : Prop :=
  t.isSet=true → Writes t t.defaultData.mem t.defaultDataLen →
    t.defaultDataLen=0 ∧ t.hasChangedRecently=true ∧
      w.nvs.lookup (keyWithPrefix .value t.key)=none

/-- What a restore leaves of a setting: its default is shown if it has one, and
nothing is left to do. -/
structure RestoredRecord (next : World) (s t : UserSetting) : Prop where
  /-- The setting is the same one. -/
  regs : registration t=registration s
  /-- The default is shown, else what was shown before. -/
  shown : shownBytes t=if s.defaultIsSet then some s.defaultValue else shownBytes s
  /-- The default is the same. -/
  default : prvUserSettingGetDefault t=prvUserSettingGetDefault s
  /-- Nothing is left to do. -/
  settled : Settled next t

section Saved

variable (hsave : ∀ n,env.saveResult n=0) (hq : Passive cb)
include hsave hq

/-- A restore that writes a default value. -/
theorem restore_default_record (hs : w.getByKey s.key=some s) (hok : RecordOk s)
    (hi : s.isSet=true) (hw : Writes s s.defaultData.mem s.defaultDataLen)
    (hd : s.defaultIsSet=true) :
    ∃ t,(prvSettingsRestore env cb w s).getByKey s.key=some t ∧
      RestoredRecord (prvSettingsRestore env cb w s) s t := by
  have hbytes := bytesAt_default hok
  have hpos := hok.default.isSet_iff.mp hd
  have hfit : s.defaultValue.length ≤ s.maxSize := by
    rw [length_defaultValue hok]
    exact hw.fits
  have hne : s.defaultValue≠[] := by
    rw [←List.length_pos_iff,length_defaultValue hok]
    exact hpos
  have hrec := set_record env hq hs hw
  unfold valueRecord at hrec
  rw [hsave,decide_eq_true rfl,Bool.or_true,if_neg (by omega),hbytes] at hrec
  have hshape : RecordOk ((storeFlag true).apply ((storeValue s.defaultValue).apply s)) := by
    have hstored := recordOk_storeValue hok hne hfit
    exact ⟨hstored.value,hstored.default⟩
  have hvalue : ((storeFlag true).apply ((storeValue s.defaultValue).apply s)).value=
      s.defaultValue := Buffer.take_write hfit
  rw [restore_eq_set hi]
  refine ⟨_,hrec,rfl,?_,rfl,fun _ hwrites => ?_⟩
  · rw [shownBytes_eq hshape,hvalue,hd]
    rfl
  · exact absurd ((restore_differs hshape).mpr hvalue) hwrites.differs

/-- A restore that writes no bytes, for want of a default value. -/
theorem restore_empty_record (hs : w.getByKey s.key=some s) (hok : RecordOk s)
    (hi : s.isSet=true) (hw : Writes s s.defaultData.mem s.defaultDataLen)
    (hd : s.defaultIsSet=false) :
    ∃ t,(prvSettingsRestore env cb w s).getByKey s.key=some t ∧
      RestoredRecord (prvSettingsRestore env cb w s) s t := by
  have hlen := hok.default.len_eq_zero hd
  have hrec := set_record env hq hs hw
  have hentry := set_lookup hsave hq hs hw (keyWithPrefix .value s.key)
  unfold valueRecord at hrec
  unfold entryOf at hentry
  rw [hsave,decide_eq_true rfl,Bool.or_true,if_pos hlen] at hrec
  rw [if_pos rfl,if_pos hlen] at hentry
  rw [restore_eq_set hi]
  refine ⟨_,hrec,rfl,?_,rfl,fun _ _ => ⟨hlen,rfl,hentry⟩⟩
  rw [hd]
  rfl

/-- What a restore of one setting leaves of it. -/
theorem restore_record (hs : w.getByKey s.key=some s) (hok : RecordOk s)
    (hv : s.defaultIsSet=true → s.validates s.defaultData.mem s.defaultDataLen=true) :
    ∃ t,(prvSettingsRestore env cb w s).getByKey s.key=some t ∧
      RestoredRecord (prvSettingsRestore env cb w s) s t := by
  by_cases h : s.isSet=true ∧ Writes s s.defaultData.mem s.defaultDataLen
  · cases hd : s.defaultIsSet with
    | true => exact restore_default_record hsave hq hs hok h.1 h.2 hd
    | false => exact restore_empty_record hsave hq hs hok h.1 h.2 hd
  · rw [restore_keeps h]
    refine ⟨s,hs,rfl,?_,rfl,fun hi hw => absurd ⟨hi,hw⟩ h⟩
    split
    · rename_i hd
      rw [shownBytes_eq hok]
      split
      · rename_i hi
        have hsame : SameValue s s.defaultData.mem s.defaultDataLen := by
          by_contra hdiff
          exact h ⟨hi,hok.default.len_le,hdiff,hv hd⟩
        rw [(restore_differs hok).mp hsame]
      · rfl
    · rfl

end Saved

/-- A restore of a settled setting changes nothing. -/
theorem settled_still (hsave : ∀ n,env.saveResult n=0) (hq : Passive cb)
    (hs : w.getByKey t.key=some t) (h : Settled w t) :
    Still w (prvSettingsRestore env cb w t) := by
  by_cases hwrites : t.isSet=true ∧ Writes t t.defaultData.mem t.defaultDataLen
  · obtain ⟨hi,hw⟩ := hwrites
    obtain ⟨hlen,hflag,hentry⟩ := h hi hw
    have honly : OnlyAt t.key w (prvSettingsRestore env cb w t) := onlyAt_restore hq hs
    have hrec := set_record env hq hs hw
    have hself := storeFlag_self t
    unfold valueRecord at hrec
    rw [if_pos hlen,hflag,Bool.true_or] at hrec
    rw [hflag] at hself
    rw [hself] at hrec
    refine ⟨fun key => ?_,fun name => ?_,?_⟩
    · by_cases hk : key=t.key
      · rw [hk,restore_eq_set hi,hrec,hs]
      · exact honly.record key hk
    · rw [restore_eq_set hi,set_lookup hsave hq hs hw name,hflag]
      unfold entryOf
      rw [if_pos hlen]
      by_cases hn : name=keyWithPrefix .value t.key
      · rw [if_pos hn,hn,hentry]
      · rw [if_neg hn,if_neg fun hc => Bool.noConfusion hc.2]
    · rw [restore_eq_set hi,set_trace hq hs hw,if_pos hlen,List.append_nil]
  · rw [restore_keeps hwrites]
    exact Still.refl w

/-- Settled settings stay settled when nothing happens. -/
theorem Settled.of_still (h : Settled w t) (hw : Still w next) : Settled next t := by
  intro hi hwrites
  rw [hw.entries]
  exact h hi hwrites

/-- Visits of records none of which changes anything change nothing. -/
theorem visits_still {f : World → UserSetting → World} {items : List UserSetting}
    (hitems : ∀ t∈items,w.getByKey t.key=some t)
    (hf : ∀ t∈items,∀ u,Still w u → Still u (f u t)) :
    Still w (items.foldl (fun u t => f u (u.deref t)) w) := by
  have hfold : ∀ (rest : List UserSetting) (u : World),Still w u → rest⊆items →
      Still w (rest.foldl (fun u t => f u (u.deref t)) u) := by
    intro rest
    induction rest with
    | nil => exact fun u hu _ => hu
    | cons t rest ih =>
      intro u hu hsub
      have ht := hsub List.mem_cons_self
      have hnow : u.getByKey t.key=some t := (hu.records t.key).trans (hitems t ht)
      rw [List.foldl_cons,deref_eq hnow]
      exact ih _ (hu.trans (hf t ht u hu)) fun x hx => hsub (List.mem_cons_of_mem t hx)
  exact hfold items w (Still.refl w) fun _ hx => hx

/-- Restoring settled settings changes nothing. -/
theorem restoreAll_still (hsave : ∀ n,env.saveResult n=0) (hq : Passive cb)
    (h : ∀ t∈w.list.items,Settled w t) :
    Still w (forEachSetting (prvSettingsRestore env cb) w) := by
  have hitems : ∀ t∈w.list.items,w.getByKey t.key=some t := fun t ht => getByKey_of_mem ht
  refine visits_still hitems fun t ht u hu => ?_
  exact settled_still hsave hq ((hu.records t.key).trans (hitems t ht)) ((h t ht).of_still hu)

/-- A restore writes another value over the present one: it has a value and a
default, and these differ. -/
def replaced (s : UserSetting) : Bool :=
  s.isSet && s.defaultIsSet && decide (s.value≠s.defaultValue)

/-- The calls that announce the default as the new value, global first. -/
def restoreNotices (globalCb : Option OnChangePtr) (s : UserSetting) : List Event :=
  (if globalCb.isSome then [⟨.global,s.id,s.key,some s.defaultValue⟩] else [])++
    (if s.onChangeCb.isSome then [⟨.own,s.id,s.key,some s.defaultValue⟩] else [])

/-- The trace after restoring one setting. -/
theorem restore_trace (hq : Passive cb) (hl : w.isLoaded=true) (hs : w.getByKey s.key=some s)
    (hok : RecordOk s)
    (hv : s.defaultIsSet=true → s.validates s.defaultData.mem s.defaultDataLen=true) :
    (prvSettingsRestore env cb w s).trace=
      w.trace++if replaced s then restoreNotices w.globalOnChangeCb s else [] := by
  have hdiff := restore_differs hok
  unfold replaced
  by_cases h : s.isSet=true ∧ Writes s s.defaultData.mem s.defaultDataLen
  · obtain ⟨hi,hw⟩ := h
    rw [restore_eq_set hi,set_trace hq hs hw,hi,bytesAt_default hok]
    cases hd : s.defaultIsSet with
    | false => rw [if_pos (hok.default.len_eq_zero hd)]; rfl
    | true =>
      have hpos := hok.default.isSet_iff.mp hd
      have hfit : s.defaultValue.length ≤ s.maxSize := by
        rw [length_defaultValue hok]
        exact hw.fits
      have hne : s.value≠s.defaultValue := fun he => hw.differs (hdiff.mpr he)
      rw [if_neg (by omega),decide_eq_true hne]
      exact congrArg _ (Notices.notices_written hl hs hfit)
  · rw [restore_keeps h,if_neg,List.append_nil]
    intro hall
    simp only [Bool.and_eq_true,decide_eq_true_eq] at hall
    exact h ⟨hall.1.1,hok.default.len_le,fun hsame => hall.2 (hdiff.mp hsame),hv hall.1.2⟩

/-- The trace after restoring distinct settings one after another. -/
theorem restoreEach_trace (hq : Passive env.callbacks) {items : List UserSetting}
    (hl : w.isLoaded=true) (hn : (items.map UserSetting.key).Nodup)
    (hitems : ∀ t∈items,w.getByKey t.key=some t) (hok : ∀ t∈items,RecordOk t)
    (hv : ∀ t∈items,t.defaultIsSet=true → t.validates t.defaultData.mem t.defaultDataLen=true) :
    (items.foldl (fun u t => prvSettingsRestore env env.callbacks u (u.deref t)) w).trace=
      w.trace++(items.filter replaced).flatMap (restoreNotices w.globalOnChangeCb) := by
  induction items generalizing w with
  | nil => exact (List.append_nil w.trace).symm
  | cons t rest ih =>
    simp only [List.map_cons,List.nodup_cons] at hn
    have ht := hitems t List.mem_cons_self
    have hrest : ∀ {P : UserSetting → Prop},(∀ x∈t::rest,P x) → ∀ x∈rest,P x :=
      fun h x hx => h x (List.mem_cons_of_mem t hx)
    have heffects : EffectSeq env anyValue w (prvSettingsRestore env env.callbacks w t) :=
      visit_effects .restoreDefaults ht
    have hsetup := heffects.sameSetup
    have hone : (prvSettingsRestore env env.callbacks w t).trace=_ :=
      restore_trace hq hl ht (hok t List.mem_cons_self) (hv t List.mem_cons_self)
    rw [List.foldl_cons,deref_eq ht,
      ih (hsetup.isLoaded.trans hl) hn.2 (rest_unvisited (onlyAt_restore hq ht) hn.1 (hrest hitems))
        (hrest hok) (hrest hv),hsetup.globalOnChangeCb,hone,List.append_assoc]
    by_cases hr : replaced t=true
    · rw [if_pos hr,List.filter_cons_of_pos hr,List.flatMap_cons]
    · rw [if_neg hr,List.filter_cons_of_neg hr,List.nil_append]

/-- What a restore of all settings achieves. -/
structure Restored (w next : World) : Prop where
  /-- A setting with a default shows it, any other what it showed before. -/
  value : ∀ s∈w.list.items,∀ target,Addresses target s → getBytes next target=
    if s.defaultIsSet then .ok (some s.defaultValue) else getBytes w target
  /-- All defaults are as before. -/
  default : ∀ s∈w.list.items,∀ target,Addresses target s →
    getDefaultBytes next target=getDefaultBytes w target
  /-- The callbacks are called for the settings whose value was not their default. -/
  trace : next.trace=
    w.trace++(w.list.items.filter replaced).flatMap (restoreNotices w.globalOnChangeCb)

/-- The documented RESTORE command. -/
def restoreCommand : List UInt8 := [7]

/-- A RESTORE command is executed as the restore of all settings. -/
theorem execCommand_restore (env : Env) (ex : UspExecutor)
    (hex : ex.decodeCommand=userSettingsProtocolBinaryDecodeCommand) (tail : Mem)
    {st : ExecState} (h : userSettingsRestoreDefaults env st.world=.ok next) :
    execCommand env ex tail st restoreCommand=.ok ({st with world := next},0) := by
  have htype : tail.write 0 restoreCommand 0=7 := write_zero_apply tail _ (Nat.succ_pos _)
  have hne : ¬UInt32.ofNat restoreCommand.length=0 := by
    change ¬(UInt32.ofNat 1=0)
    decide
  have hexec : prvExecRestore env st=.ok ({st with world := next},0) := by
    unfold prvExecRestore
    rw [h]
    rfl
  unfold execCommand uspExecutorParseAndExecute
  rw [hex]
  unfold userSettingsProtocolBinaryDecodeCommand
  rw [if_neg hne]
  simp only [htype]
  exact hexec

/-- What restoring all settings leaves of each of them. -/
theorem restoreAll_record (hsave : ∀ n,env.saveResult n=0) (hq : Passive cb)
    (hs : w.getByKey s.key=some s) (hok : RecordOk s)
    (hv : s.defaultIsSet=true → s.validates s.defaultData.mem s.defaultDataLen=true) :
    ∃ t,(forEachSetting (prvSettingsRestore env cb) w).getByKey s.key=some t ∧
      RestoredRecord (forEachSetting (prvSettingsRestore env cb) w) s t := by
  obtain ⟨u,_,hus,hend⟩ := forEachSetting_at (f:=prvSettingsRestore env cb)
    (fun u t ht => onlyAt_restore hq ht) hs
  obtain ⟨t,ht,hrestored⟩ := restore_record hsave hq hus hok hv
  refine ⟨t,hend.record.trans ht,hrestored.regs,hrestored.shown,hrestored.default,?_⟩
  intro hi hw
  have hkey := key_of_registration hrestored.regs
  have hsettled := hrestored.settled hi hw
  rw [hkey,hend.entry,←hkey]
  exact hsettled

/-- For every running store, whatever storage and callbacks did before: if storage
now does not fail, callbacks set nothing and every validator accepts
the default of its setting, restoring all settings, directly or by the RESTORE
command, makes every setting with a default show it and leaves the others,
keeps all defaults, and calls the callbacks exactly for the values that were
replaced. A second restore changes no record and no entry and calls nobody. -/
theorem restore_defaults_restores {env : Env} {setup : Setup} {w : World}
    (hw : Running setup w) (hsave : ∀ n,env.saveResult n=0)
    (hreact : ∀ n,env.react n=[])
    (hv : ∀ s∈w.list.items,s.defaultIsSet=true →
      s.validates s.defaultData.mem s.defaultDataLen=true) :
    ∃ next again,userSettingsRestoreDefaults env w=.ok next ∧
      (∀ respBufferLen writeResponse tail respBuffer responses,
        execCommand env (binaryExecutor respBufferLen writeResponse) tail
          ⟨w,respBuffer,responses⟩ restoreCommand=.ok (⟨next,respBuffer,responses⟩,0)) ∧
      Restored w next ∧ userSettingsRestoreDefaults env next=.ok again ∧ Still next again := by
  have hq : Passive env.callbacks := passive_callbacks hreact
  have hl := hw.isLoaded
  have hok := hw.records
  have hfirst : userSettingsRestoreDefaults env w=
      .ok (forEachSetting (prvSettingsRestore env env.callbacks) w) := if_pos hl
  have hsetup : SameSetup w (forEachSetting (prvSettingsRestore env env.callbacks) w) :=
    (forEachSetting_effects (fun _ _ ht => visit_effects .restoreDefaults ht) w).sameSetup
  have hnext := hsetup.isLoaded.trans hl
  have hone : ∀ s∈w.list.items,_ := fun s hs =>
    restoreAll_record hsave hq (getByKey_of_mem hs) (hok s hs) (hv s hs)
  refine ⟨_,_,hfirst,?_,⟨?_,?_,?_⟩,if_pos hnext,restoreAll_still hsave hq ?_⟩
  · intro respBufferLen writeResponse tail respBuffer responses
    exact execCommand_restore env (binaryExecutor respBufferLen writeResponse) rfl tail hfirst
  · intro s hs target htarget
    obtain ⟨t,ht,hrestored⟩ := hone s hs
    have hfind := find_of_addresses ht (congrArg Registration.id hrestored.regs) htarget
    rw [getBytes_eq hnext hfind,hrestored.shown]
    split
    · rfl
    · exact (getBytes_eq hl (find_of_addresses (getByKey_of_mem hs) rfl htarget)).symm
  · intro s hs target htarget
    obtain ⟨t,ht,hrestored⟩ := hone s hs
    have hfind := find_of_addresses ht (congrArg Registration.id hrestored.regs) htarget
    rw [getDefaultBytes_eq hnext hfind,hrestored.default]
    exact (getDefaultBytes_eq hl (find_of_addresses (getByKey_of_mem hs) rfl htarget)).symm
  · exact restoreEach_trace hq hl w.list.keysNodup (fun t ht => getByKey_of_mem ht) hok hv
  · intro t ht
    obtain ⟨s,hs,hr⟩ := getByKey_of_registrations hsetup.regs.symm (getByKey_of_mem ht)
    have hkey := key_of_registration hr
    obtain ⟨x,hx,hrestored⟩ := hone s (getByKey_some hs).1
    have hsame : x=t := by
      rw [hkey] at hx
      exact Option.some.inj (hx.symm.trans (getByKey_of_mem ht))
    exact hsame ▸ hrestored.settled

/-- A setting with a callback that has a default and another value. -/
theorem restore_defaults_on_device : ∃ w next again,
    Reachable calm (device .u8 0 (some 0) none) ∅ w ∧ w.list.items.any replaced=true ∧
      userSettingsRestoreDefaults calm w=.ok next ∧
      (∀ respBufferLen writeResponse tail respBuffer responses,
        execCommand calm (binaryExecutor respBufferLen writeResponse) tail
          ⟨w,respBuffer,responses⟩ restoreCommand=.ok (⟨next,respBuffer,responses⟩,0)) ∧
      Restored w next ∧ userSettingsRestoreDefaults calm next=.ok again ∧ Still next again := by
  have hreach : Reachable calm (device .u8 0 (some 0) none) ∅ _ :=
    ⟨_,[.store (.setDefault (.key keyA) (memOf [3]) 1),.store (.set (.key keyA) (memOf [5]) 1)],
      rfl,rfl⟩
  have hquiet : ∀ n,calm.saveResult n=0 ∧ calm.react n=[] := fun _ => ⟨rfl,rfl⟩
  obtain ⟨next,again,hrestored⟩ := restore_defaults_restores (running_of_reachable hreach)
    (fun n => (hquiet n).1) (fun n => (hquiet n).2) (by decide +kernel)
  exact ⟨_,next,again,hreach,by decide +kernel,hrestored⟩

end UserSettings.Restoring
