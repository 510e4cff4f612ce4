import UserSettings.LastWrite
import UserSettings.Restoring

/-!
# The result of restoring one setting

The functions that restore one setting return zero whatever happened inside.
That is true of a restore exactly when it can succeed: there is a default, it
is accepted and reaches RAM and storage, or is in both already.
-/

namespace UserSettings.RestoreOne

open Bytes Settings Storage Store Effects Setters Reactions Records Cells Outcomes Operations
open UserSettings.Frame Visits Device Restoring LastWrite

/-- The result of restoring one setting tells the truth: after success the
default is shown and its entry is absent or equal to it; without a default,
with a default that is refused or after a failed storage call there is no
success. -/
structure TellsTruth (env : Env) (w : World) (s : UserSetting) (target : Target) : Prop where
  /-- What success means. -/
  success : ∀ next,userSettingsRestoreDefault env w target=.ok (next,0) →
    getBytes next target=.ok (some s.defaultValue) ∧
      (next.nvs.lookup (keyWithPrefix .value s.key)=none ∨
        next.nvs.lookup (keyWithPrefix .value s.key)=some s.defaultValue)
  /-- What prevents success. -/
  failure : ∀ next ret,userSettingsRestoreDefault env w target=.ok (next,ret) →
    s.defaultIsSet=false ∨ s.validates s.defaultData.mem s.defaultDataLen=false ∨
      StorageFailed env w next → ret≠0

/-- The state that the callbacks leave when they are notified of the default
as the new value. -/
def leftByCallbacks (env : Env) (w : World) (s : UserSetting) : World :=
  notifyOwn env.callbacks
    (notifyGlobal env.callbacks (w.modify s.key (storeValue s.defaultValue)) s) s

/-- A restore can succeed. -/
structure CanSucceed (env : Env) (w : World) (s : UserSetting) : Prop where
  /-- There is a default. -/
  exists_default : s.defaultIsSet=true
  /-- The validator accepts it. -/
  accepted : s.validates s.defaultData.mem s.defaultDataLen=true
  /-- Where it replaces another value, callbacks do not write another one after
  it, and no storage call fails: of theirs, that of the value, and that of the
  flag if the callbacks leave the setting unmarked. -/
  written : s.isSet=true → s.value≠s.defaultValue →
    (∀ last,callbacksWrite env w s s.defaultData.mem s.defaultDataLen=some last →
      last=s.defaultValue) ∧
    ∃ t,(leftByCallbacks env w s).getByKey s.key=some t ∧
      ¬StorageFailed env w (leftByCallbacks env w s) ∧
      env.saveResult (leftByCallbacks env w s).saves=0 ∧
      (t.hasChangedRecently=false → env.saveResult ((leftByCallbacks env w s).saves+1)=0)
  /-- Where there is nothing to replace, the entry is absent or the default. -/
  entry : (s.isSet=true → s.value=s.defaultValue) →
    w.nvs.lookup (keyWithPrefix .value s.key)=none ∨
      w.nvs.lookup (keyWithPrefix .value s.key)=some s.defaultValue

variable {env : Env} {setup : Setup} {cb : Callbacks} {w next : World} {s t : UserSetting}
variable {target : Target}
variable {data : Mem} {len : ℕ}

/-- No storage call fails while nothing happens. -/
theorem not_storageFailed (w : World) : ¬StorageFailed env w w := by
  rintro ⟨n,hle,hlt,_⟩
  omega

variable (env) in
/-- A set call that writes has failed to store when its callbacks have, or one
of its own one or two storage calls failed. -/
theorem set_storageFailed_iff (hs : w.getByKey s.key=some s) (hw : Writes s data len)
    (ht : (valueWritten cb w s data len).getByKey s.key=some t)
    (hle : w.saves≤(valueWritten cb w s data len).saves) :
    ¬StorageFailed env w (prvUserSettingsSet env cb w s data len).1 ↔
      ¬StorageFailed env w (valueWritten cb w s data len) ∧
        env.saveResult (valueWritten cb w s data len).saves=0 ∧
        (t.hasChangedRecently=false →
          env.saveResult ((valueWritten cb w s data len).saves+1)=0) := by
  have hstored : (valueStored env cb w s data len).saves=
      (valueWritten cb w s data len).saves+1 := saveOne_saves ..
  have hflag : (settingsSaveOne env ((valueStored env cb w s data len).modify s.key
      (storeFlag true)) (keyWithPrefix .changed s.key) (memOf [1]) 1).1.saves=
      (valueWritten cb w s data len).saves+2 := by
    rw [saveOne_saves]
    change (valueStored env cb w s data len).saves+1=_
    rw [hstored]
  rw [set_written hs hw ht]
  generalize hn : (valueWritten cb w s data len).saves=n at *
  constructor
  · intro hnone
    have hearlier : ∀ m,w.saves ≤ m → m<n+1 → env.saveResult m=0 := by
      intro m hm hlt
      by_contra hfail
      refine hnone ⟨m,hm,?_,hfail⟩
      split <;> omega
    have hvalue := hearlier n hle (by omega)
    refine ⟨?_,hvalue,fun hflag' => ?_⟩
    · rintro ⟨m,hm,hlt,hfail⟩
      exact hfail (hearlier m hm (by omega))
    · by_contra hfail
      refine hnone ⟨n+1,by omega,?_,hfail⟩
      rw [if_pos ⟨hvalue,hflag'⟩]
      omega
  · rintro ⟨hleft,hvalue,hmark⟩ ⟨m,hm,hlt,hfail⟩
    have hcases : m<n ∨ m=n ∨ m=n+1 := by
      split at hlt <;> omega
    rcases hcases with hm'|rfl|rfl
    · exact hleft ⟨m,hm,hn ▸ hm',hfail⟩
    · exact hfail hvalue
    · split at hlt
      · rename_i hc
        exact hfail (hmark hc.2)
      · omega

/-- After a set call that writes and stores, the value is in its entry and the
record is the one the callbacks left, marked. -/
theorem set_written_stored (hs : w.getByKey s.key=some s) (hw : Writes s data len)
    (ht : (valueWritten cb w s data len).getByKey s.key=some t)
    (hv : env.saveResult (valueWritten cb w s data len).saves=0) :
    (prvUserSettingsSet env cb w s data len).1.getByKey s.key=some ((storeFlag true).apply t) ∧
      (prvUserSettingsSet env cb w s data len).1.nvs.lookup (keyWithPrefix .value s.key)=
        entryOf data len := by
  have hrec : (valueStored env cb w s data len).getByKey s.key=some t := valueStored_getByKey ht
  have hentry : (valueStored env cb w s data len).nvs.lookup (keyWithPrefix .value s.key)=
      entryOf data len := by
    unfold valueStored
    rw [saveOne_lookup,if_pos ⟨rfl,hv⟩]
    rfl
  have hother : ¬(keyWithPrefix .value s.key=keyWithPrefix .changed s.key ∧ env.saveResult
      ((valueStored env cb w s data len).modify s.key (storeFlag true)).saves=0) := by
    rintro ⟨hname,_⟩
    cases (keyWithPrefix_inj.mp hname).1
  rw [set_written hs hw ht]
  cases hflag : t.hasChangedRecently with
  | true =>
    have hself := storeFlag_self t
    rw [hflag] at hself
    rw [if_neg (c:=_ ∧ _) fun hc => Bool.noConfusion hc.2,hself]
    exact ⟨hrec,hentry⟩
  | false =>
    rw [if_pos (c:=_ ∧ _) ⟨hv,rfl⟩,saveOne_getByKey,saveOne_lookup,if_neg hother]
    exact ⟨modify_self (storeFlag true) hrec,hentry⟩

/-- The result of restoring one setting is always zero; whether that is the
truth depends on the state after the restore. -/
theorem tellsTruth_iff (hl : w.isLoaded=true) (hf : w.find target=some s) :
    TellsTruth env w s target ↔
      (getBytes (prvSettingsRestore env env.callbacks w s) target=.ok (some s.defaultValue) ∧
        ((prvSettingsRestore env env.callbacks w s).nvs.lookup (keyWithPrefix .value s.key)=none ∨
          (prvSettingsRestore env env.callbacks w s).nvs.lookup (keyWithPrefix .value s.key)=
            some s.defaultValue)) ∧
      s.defaultIsSet=true ∧ s.validates s.defaultData.mem s.defaultDataLen=true ∧
        ¬StorageFailed env w (prvSettingsRestore env env.callbacks w s) := by
  have hrun : userSettingsRestoreDefault env w target=
      .ok (prvSettingsRestore env env.callbacks w s,0) := by
    unfold userSettingsRestoreDefault withSetting
    rw [if_pos hl,hf]
  constructor
  · intro h
    have hnone := fun hbad => h.failure _ _ hrun hbad rfl
    refine ⟨h.success _ hrun,?_,?_,fun hfail => hnone (.inr (.inr hfail))⟩
    · exact (Bool.not_eq_false _).mp fun hd => hnone (.inl hd)
    · exact (Bool.not_eq_false _).mp fun hv => hnone (.inr (.inl hv))
  · rintro ⟨hshown,hd,hv,hfail⟩
    refine ⟨fun next hnext => ?_,fun next ret hnext hbad => ?_⟩
    · have hsame := congrArg Prod.fst (Except.ok.inj (hrun.symm.trans hnext))
      dsimp only at hsame
      rw [←hsame]
      exact hshown
    · have hsame := congrArg Prod.fst (Except.ok.inj (hrun.symm.trans hnext))
      dsimp only at hsame
      rw [←hsame] at hbad
      rcases hbad with hbad|hbad|hbad
      · exact absurd (hd.symm.trans hbad) Bool.noConfusion
      · exact absurd (hv.symm.trans hbad) Bool.noConfusion
      · exact absurd hbad hfail

/-- What the callbacks leave is what they leave of the value in RAM. -/
theorem leftByCallbacks_eq (hok : RecordOk s) (hd : s.defaultIsSet=true) :
    leftByCallbacks env w s=
      valueWritten env.callbacks w s s.defaultData.mem s.defaultDataLen := by
  have hpos := hok.default.isSet_iff.mp hd
  unfold leftByCallbacks valueWritten
  rw [if_neg (by omega),bytesAt_default hok]

/-- Marking a setting does not change what it shows. -/
theorem shownBytes_flag (flag : Bool) (t : UserSetting) :
    shownBytes ((storeFlag flag).apply t)=shownBytes t := rfl

/-- A restore that replaces a value tells the truth when the callbacks leave
the default in place and nothing fails to be stored. -/
theorem tellsTruth_written (hrunning : Running setup w) (hs : w.getByKey s.key=some s)
    (htarget : Addresses target s) (hi : s.isSet=true)
    (hw : Writes s s.defaultData.mem s.defaultDataLen) :
    TellsTruth env w s target ↔ CanSucceed env w s := by
  have hl := hrunning.isLoaded
  have hok := hrunning.records.getByKey hs
  have heffects : EffectSeq env anyValue w
      (valueWritten env.callbacks w s s.defaultData.mem s.defaultDataLen) :=
    valueWritten_effects callbacks_within_any hs hw.fits hw.valid fun _ => trivial
  obtain ⟨t,ht,hr⟩ : ∃ t,(valueWritten env.callbacks w s s.defaultData.mem
      s.defaultDataLen).getByKey s.key=some t ∧ _ := valueWritten_record hs hw
  have hfailed := set_storageFailed_iff env hs hw ht (effects_saves_le heffects)
  have hnext : (prvUserSettingsSet env env.callbacks w s s.defaultData.mem
      s.defaultDataLen).1.isLoaded=true :=
    (userSettingsSet_effects callbacks_within_any hs fun _ _ => trivial).sameSetup.isLoaded.trans hl
  have hne : s.value≠s.defaultValue := fun he => hw.differs ((restore_differs hok).mpr he)
  rw [tellsTruth_iff hl (find_of_addresses hs rfl htarget),restore_eq_set hi,hfailed]
  -- once the value is stored, the getter shows what the callbacks left
  have hstored : env.saveResult (valueWritten env.callbacks w s s.defaultData.mem
      s.defaultDataLen).saves=0 → s.defaultIsSet=true →
      getBytes (prvUserSettingsSet env env.callbacks w s s.defaultData.mem
        s.defaultDataLen).1 target=.ok (shownBytes t) ∧
      (prvUserSettingsSet env env.callbacks w s s.defaultData.mem
        s.defaultDataLen).1.nvs.lookup (keyWithPrefix .value s.key)=some s.defaultValue := by
    intro hv hd
    have hpos := hok.default.isSet_iff.mp hd
    obtain ⟨hrec,hentry⟩ := set_written_stored hs hw ht hv
    unfold entryOf at hentry
    rw [if_neg (by omega),bytesAt_default hok] at hentry
    have hfind := find_of_addresses hrec (congrArg Registration.id hr) htarget
    exact ⟨(getBytes_eq hnext hfind).trans (congrArg _ (shownBytes_flag true t)),hentry⟩
  -- what the callbacks left is the default unless they wrote another value
  have hleave : s.defaultIsSet=true → (shownBytes t=some s.defaultValue ↔
      ∀ last,callbacksWrite env w s s.defaultData.mem s.defaultDataLen=some last →
        last=s.defaultValue) := by
    intro hd
    have hpos := hok.default.isSet_iff.mp hd
    obtain ⟨hset,hvalue⟩ := callbacks_leave_iff hs hw.fits (by omega) ht
    rw [bytesAt_default hok] at hvalue
    rw [shownBytes_eq ((hrunning.effects heffects).records.getByKey ht),if_pos hset,
      Option.some_inj,hvalue]
  constructor
  · rintro ⟨⟨hshown,_⟩,hd,hv,hleft,hvalue,hmark⟩
    have hlast := (hstored hvalue hd).1
    refine ⟨hd,hv,fun _ _ => ?_,fun hsame => absurd (hsame hi) hne⟩
    rw [leftByCallbacks_eq hok hd]
    exact ⟨(hleave hd).mp (Except.ok.inj (hlast.symm.trans hshown)),t,ht,hleft,hvalue,hmark⟩
  · rintro ⟨hd,hv,hwritten,_⟩
    obtain ⟨hnone,hcase⟩ := hwritten hi hne
    rw [leftByCallbacks_eq hok hd] at hcase
    obtain ⟨x,hx,hleft,hvalue,hmark⟩ := hcase
    have hsame : x=t := Option.some.inj (hx.symm.trans ht)
    obtain ⟨hlast,hentry⟩ := hstored hvalue hd
    rw [hsame] at hmark
    exact ⟨⟨hlast.trans (congrArg _ ((hleave hd).mpr hnone)),.inr hentry⟩,hd,hv,hleft,hvalue,hmark⟩

/-- A restore that replaces nothing tells the truth when the entry agrees. -/
theorem tellsTruth_kept (hl : w.isLoaded=true) (hs : w.getByKey s.key=some s)
    (hok : RecordOk s) (htarget : Addresses target s)
    (h : ¬(s.isSet=true ∧ Writes s s.defaultData.mem s.defaultDataLen)) :
    TellsTruth env w s target ↔ CanSucceed env w s := by
  have hfind := find_of_addresses hs rfl htarget
  rw [tellsTruth_iff hl hfind,restore_keeps h,getBytes_eq hl hfind]
  have hsame : s.validates s.defaultData.mem s.defaultDataLen=true → s.isSet=true →
      s.value=s.defaultValue := by
    intro hv hi
    by_contra hne
    exact h ⟨hi,hok.default.len_le,fun hd => hne ((restore_differs hok).mp hd),hv⟩
  constructor
  · rintro ⟨⟨_,hentry⟩,hd,hv,_⟩
    exact ⟨hd,hv,fun hi hne => absurd (hsame hv hi) hne,fun _ => hentry⟩
  · rintro ⟨hd,hv,_,hentry⟩
    refine ⟨⟨congrArg _ ?_,hentry (hsame hv)⟩,hd,hv,not_storageFailed w⟩
    rw [shownBytes_eq hok,hd]
    split
    · rename_i hi
      rw [hsame hv hi]
    · rfl

/-- For every running store, every setting and both ways of naming it, whatever
callbacks do and storage answers: the result of restoring the setting tells the
truth if and only if the restore can succeed. -/
theorem restore_tells_truth_iff {env : Env} {setup : Setup} {w : World} {s : UserSetting}
    {target : Target} (hw : Running setup w) (hs : s∈w.list.items)
    (htarget : Addresses target s) : TellsTruth env w s target ↔ CanSucceed env w s := by
  have hget : w.getByKey s.key=some s := getByKey_of_mem hs
  by_cases h : s.isSet=true ∧ Writes s s.defaultData.mem s.defaultDataLen
  · exact tellsTruth_written hw hget htarget h.1 h.2
  · exact tellsTruth_kept hw.isLoaded hget (hw.records s hs) htarget h

/-- Restoring a setting that has a default and another value. -/
theorem restore_tells_truth_on_device : ∃ w s,
    Reachable calm (device .u8 0 (some 0) none) ∅ w ∧ w.getByKey keyA=some s ∧
      s.defaultIsSet=true ∧ (TellsTruth calm w s (.id s.id) ↔ CanSucceed calm w s) := by
  have hreach : Reachable calm (device .u8 0 (some 0) none) ∅ _ :=
    ⟨_,[.store (.setDefault (.key keyA) (memOf [3]) 1),.store (.set (.key keyA) (memOf [5]) 1)],
      rfl,rfl⟩
  exact ⟨_,_,hreach,rfl,rfl,
    restore_tells_truth_iff (running_of_reachable hreach) List.mem_cons_self (.inr rfl)⟩

/-- A new setting without a default is restored with success. -/
theorem restored_without_default :
    ¬∀ (before env : Env) (setup : Setup) (nvs : Entries) (w : World) (s : UserSetting)
      (target : Target),Reachable before setup nvs w → s∈w.list.items → Addresses target s →
      TellsTruth env w s target := by
  intro h
  have hreach : Reachable calm (device .u8 0 none none) ∅ _ := ⟨_,[],rfl,rfl⟩
  have htruth := h calm calm _ _ _ _ _ hreach List.mem_cons_self (.inl rfl)
  exact htruth.failure _ _ rfl (.inl rfl) rfl

end UserSettings.RestoreOne
