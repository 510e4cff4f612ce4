import UserSettings.Operations

/-!
# What a failed call leaves behind

A call that is refused before its first write changes nothing. An input or
output error is reported after writes have been made: there is no way back,
and the frame says how far such a call can have come.
-/

namespace UserSettings.Frame

open Bytes Settings Storage Store Effects Setters Reactions Load Records Cells Outcomes
open Operations Transition

variable {env : Env} {w next : World} {s : UserSetting} {data : Mem} {len : ℕ}

/-- Effects never undo a storage call. -/
theorem effect_saves_le {allow : Allowance} (h : Effect env allow w next) :
    w.saves ≤ next.saves := by
  cases h with
  | value => exact Nat.le_refl _
  | default => exact Nat.le_refl _
  | flag => exact Nat.le_refl _
  | notify => exact Nat.le_refl _
  | save =>
    rw [saveOne_saves]
    omega
  | saveFlag =>
    rw [saveOne_saves]
    omega

/-- Sequences of effects never undo a storage call. -/
theorem effects_saves_le {allow : Allowance}
    (h : EffectSeq env allow w next) : w.saves ≤ next.saves := by
  induction h with
  | refl => exact Nat.le_refl _
  | tail _ step ih => exact ih.trans (effect_saves_le step)

/-- A storage call made in between failed. -/
def StorageFailed (env : Env) (w next : World) : Prop :=
  ∃ n,w.saves ≤ n ∧ n<next.saves ∧ env.saveResult n≠0

/-- Settings, entries and callbacks are as before. -/
structure Unchanged (w next : World) : Prop where
  /-- Every setting looks the same. -/
  views : views next=views w
  /-- Every entry is the same. -/
  entries : ∀ name,next.nvs.lookup name=w.nvs.lookup name
  /-- No callback was called. -/
  trace : next.trace=w.trace

/-- The record with the new value in RAM; without bytes it stays as it is. -/
def withValue (s : UserSetting) (data : Mem) (len : ℕ) : UserSetting :=
  if len=0 then s else (storeValue (bytesAt data len)).apply s

/-- The value could not be stored: the record has it, with the flag as it was, and
the entry is the old one. -/
structure ValueFailed (w next : World) (s : UserSetting) (data : Mem) (len : ℕ) : Prop where
  /-- The record has the new value, and nothing else. -/
  record : next.getByKey s.key=some (withValue s data len)
  /-- The entry of the value is as before. -/
  entry : next.nvs.lookup (keyWithPrefix .value s.key)=w.nvs.lookup (keyWithPrefix .value s.key)

/-- The value was stored and the flag, which was false, could not be: the record has
the new value and the flag, and the entry is the new one. -/
structure FlagFailed (next : World) (s : UserSetting) (data : Mem) (len : ℕ) : Prop where
  /-- The flag was not set. -/
  unmarked : s.hasChangedRecently=false
  /-- The record has the new value and the flag, and nothing else. -/
  record : next.getByKey s.key=some ((storeFlag true).apply (withValue s data len))
  /-- The entry of the value is the new one. -/
  entry : next.nvs.lookup (keyWithPrefix .value s.key)=
    if len=0 then none else some (bytesAt data len)

/-- How far a failed set call can have come: the value in RAM is the new one and
was announced; either it was not stored, or the flag behind it was not. -/
structure FailedSet (w next : World) (s : UserSetting) (data : Mem) (len : ℕ) : Prop where
  /-- Which of the two storage calls failed. -/
  stage : ValueFailed w next s data len ∨ FlagFailed next s data len
  /-- Other records are as before. -/
  others : ∀ key,key≠s.key → next.getByKey key=w.getByKey key
  /-- Entries other than that of the value are as before. -/
  entries : ∀ name,name≠keyWithPrefix .value s.key → next.nvs.lookup name=w.nvs.lookup name
  /-- The new value was announced once to each callback. -/
  trace : next.trace=w.trace++
    if len=0 then [] else notices (w.modify s.key (storeValue (bytesAt data len))) s

/-- How far a failed set_default call can have come: the default in RAM. -/
structure FailedDefault (w next : World) (s : UserSetting) (data : Mem) (len : ℕ) : Prop where
  /-- The record has the new default value, and nothing else. -/
  record : next.getByKey s.key=
    some (if len=0 then s else (storeDefault (bytesAt data len)).apply s)
  /-- Other records are as before. -/
  others : ∀ key,key≠s.key → next.getByKey key=w.getByKey key
  /-- Every entry is as before. -/
  entries : ∀ name,next.nvs.lookup name=w.nvs.lookup name
  /-- No callback was called. -/
  trace : next.trace=w.trace

variable (data len) in
/-- A call that fails to store leaves the entries alone. -/
theorem saveOne_failed (h : env.saveResult w.saves≠0) (name : CString) :
    (settingsSaveOne env w name data len).1={w with saves := w.saves+1} := by
  unfold settingsSaveOne
  dsimp only
  rw [if_neg h]

/-- A set call that writes and fails had a storage call that failed. -/
theorem set_storageFailed (hs : w.getByKey s.key=some s) (hw : Writes s data len)
    (hrc : (prvUserSettingsSet env env.callbacks w s data len).2≠0) :
    (prvUserSettingsSet env env.callbacks w s data len).2=-eIo ∧
      StorageFailed env w (prvUserSettingsSet env env.callbacks w s data len).1 := by
  have hcb : Within env anyValue env.callbacks := callbacks_within_any
  have hwritten := valueWritten_effects hcb hs
    hw.fits hw.valid (fun _ => trivial)
  have hstored : EffectSeq env anyValue w (valueStored env env.callbacks w s data len) :=
    valueStoredFrom_effects (p:=fun _ => data) hcb hs hw (fun _ => trivial) (.inl rfl)
  have hsaves : (valueStored env env.callbacks w s data len).saves=
      (valueWritten env.callbacks w s data len).saves+1 := saveOne_saves ..
  have hle := effects_saves_le hwritten
  rw [userSettingsSet_writes hs hw] at hrc ⊢
  dsimp only at hrc ⊢
  by_cases hv : env.saveResult (valueWritten env.callbacks w s data len).saves≠0
  · rw [if_pos hv]
    exact ⟨rfl,_,hle,by rw [hsaves]; omega,hv⟩
  · rw [if_neg hv] at hrc ⊢
    obtain ⟨t,ht,hr⟩ := getByKey_of_registrations hstored.sameSetup.regs hs
    have hrect : (valueStored env env.callbacks w s data len).getByKey t.key=some t := by
      rw [key_of_registration hr,ht]
    rw [deref_eq ht,setChangedRecentlyFlag_eq hrect] at hrc ⊢
    by_cases hf : true=t.hasChangedRecently
    · rw [if_pos hf] at hrc
      exact absurd rfl hrc
    · rw [if_neg hf] at hrc ⊢
      dsimp only at hrc ⊢
      by_cases ho : env.saveResult (valueStored env env.callbacks w s data len).saves=0
      · rw [if_pos ho] at hrc
        exact absurd rfl hrc
      · rw [if_neg ho]
        refine ⟨rfl,_,?_,?_,ho⟩
        · omega
        · rw [saveOne_saves]
          exact Nat.lt_succ_self _

/-- Writing a flag of its own value changes nothing. -/
theorem storeFlag_self (s : UserSetting) : (storeFlag s.hasChangedRecently).apply s=s := rfl

variable (data len) in
/-- The notices of writing a value, in passive callbacks. -/
theorem valueWritten_trace {cb : Callbacks} (hq : Passive cb) (w : World) (s : UserSetting) :
    (valueWritten cb w s data len).trace=w.trace++
      if len=0 then [] else notices (w.modify s.key (storeValue (bytesAt data len))) s := by
  by_cases hn : len=0
  · unfold valueWritten
    rw [if_pos hn,if_pos hn,List.append_nil]
  · rw [valueWritten_passive _ _ _ hq hn,if_neg hn]

variable (env data len) in
/-- The entries after writing and storing a value. -/
theorem valueStored_lookup {cb : Callbacks} (hq : Passive cb) (w : World) (s : UserSetting)
    (name : CString) : (valueStored env cb w s data len).nvs.lookup name=
      if name=keyWithPrefix .value s.key ∧ env.saveResult w.saves=0 then
        (if len=0 then none else some (bytesAt data len)) else w.nvs.lookup name := by
  unfold valueStored
  rw [saveOne_lookup,valueWritten_saves _ _ _ _ hq,valueWritten_nvs _ _ _ _ hq]

/-- The frame of a call whose value could not be stored. -/
theorem valueStored_failed (hq : Passive env.callbacks) (hs : w.getByKey s.key=some s)
    (hv : env.saveResult w.saves≠0) :
    FailedSet w (valueStored env env.callbacks w s data len) s data len := by
  have honly : OnlyAt s.key w (valueStored env env.callbacks w s data len) :=
    (onlyAt_valueWritten hq).trans (onlyAt_saveOne env _ .value s.key data len)
  have hlookup : ∀ name,(valueStored env env.callbacks w s data len).nvs.lookup name=
      w.nvs.lookup name := by
    intro name
    rw [valueStored_lookup env data len hq,if_neg (fun h => hv h.2)]
  exact ⟨.inl ⟨valueStored_getByKey env data len hq hs,hlookup _⟩,honly.record,
    fun name _ => hlookup name,(saveOne_trace ..).trans (valueWritten_trace data len hq w s)⟩

/-- The frame of a call whose flag could not be stored. -/
theorem flagStored_failed (hq : Passive env.callbacks) (hs : w.getByKey s.key=some s)
    (hc : s.hasChangedRecently=false) (hv : env.saveResult w.saves=0)
    (hf : env.saveResult (w.saves+1)≠0) :
    let flagged := (valueStored env env.callbacks w s data len).modify s.key (storeFlag true)
    FailedSet w (settingsSaveOne env flagged (keyWithPrefix .changed s.key) (memOf [1]) 1).1
      s data len := by
  intro flagged
  have hsaved : flagged.saves=w.saves+1 := valueStored_saves env w s data len hq
  have honly : OnlyAt s.key w flagged :=
    ((onlyAt_valueWritten hq).trans (onlyAt_saveOne env _ .value s.key data len)).trans
      (onlyAt_modify (u:=storeFlag true) (fun _ => rfl) _ s.key)
  have hlookup : ∀ name,flagged.nvs.lookup name=
      if name=keyWithPrefix .value s.key then
        (if len=0 then none else some (bytesAt data len)) else w.nvs.lookup name := by
    intro name
    refine (valueStored_lookup env data len hq w s name).trans ?_
    by_cases hn : name=keyWithPrefix .value s.key
    · rw [if_pos ⟨hn,hv⟩,if_pos hn]
    · rw [if_neg (fun h => hn h.1),if_neg hn]
  have hstored := valueStored_getByKey env data len hq hs
  rw [saveOne_failed _ _ (by rw [hsaved]; exact hf) _]
  refine ⟨.inr ⟨hc,modify_self (storeFlag true) hstored,?_⟩,honly.record,?_,?_⟩
  · exact (hlookup _).trans (if_pos rfl)
  · intro name hn
    exact (hlookup name).trans (if_neg hn)
  · exact (saveOne_trace ..).trans (valueWritten_trace data len hq w s)

/-- The frame of a set call that writes and fails. -/
theorem set_failed_frame (hq : Passive env.callbacks) (hs : w.getByKey s.key=some s)
    (hw : Writes s data len)
    (hrc : (prvUserSettingsSet env env.callbacks w s data len).2≠0) :
    FailedSet w (prvUserSettingsSet env env.callbacks w s data len).1 s data len := by
  rw [userSettingsSet_passive hq hs hw] at hrc ⊢
  dsimp only at hrc ⊢
  by_cases hv : env.saveResult w.saves≠0
  · rw [if_pos hv]
    exact valueStored_failed hq hs hv
  · rw [if_neg hv] at hrc ⊢
    by_cases hc : s.hasChangedRecently=true
    · rw [if_pos hc] at hrc
      exact absurd rfl hrc
    · rw [if_neg hc] at hrc ⊢
      have hf : env.saveResult (w.saves+1)≠0 := by
        intro h
        dsimp only at hrc
        rw [if_pos h] at hrc
        exact hrc rfl
      exact flagStored_failed hq hs (Bool.eq_false_iff.mpr hc) (not_not.mp hv) hf

/-- The frame of a set_default call that writes and fails. -/
theorem setDefault_failed_frame (hs : w.getByKey s.key=some s)
    (hw : WritesDefault env s data len)
    (hrc : (prvUserSettingsSetDefault env env.callbacks w s data len).2≠0) :
    (prvUserSettingsSetDefault env env.callbacks w s data len).2=-eIo ∧
      StorageFailed env w (prvUserSettingsSetDefault env env.callbacks w s data len).1 ∧
      FailedDefault w (prvUserSettingsSetDefault env env.callbacks w s data len).1 s data len := by
  have honly : OnlyAt s.key w (prvUserSettingsSetDefault env env.callbacks w s data len).1 :=
    onlyAt_setDefault hs
  have hrecord := honly.record
  have hsaves : (defaultWritten w s data len).saves=w.saves := by
    unfold defaultWritten
    split <;> rfl
  have hwritten : (defaultWritten w s data len).getByKey s.key=
      some (if len=0 then s else (storeDefault (bytesAt data len)).apply s) := by
    unfold defaultWritten
    split
    · exact hs
    · exact modify_self _ hs
  have hnvs : (defaultWritten w s data len).nvs=w.nvs := by
    unfold defaultWritten
    split <;> rfl
  have htrace : (defaultWritten w s data len).trace=w.trace := by
    unfold defaultWritten
    split <;> rfl
  rw [userSettingsSetDefault_writes hs hw] at hrc hrecord ⊢
  dsimp only at hrc hrecord ⊢
  by_cases hv : env.saveResult w.saves=0
  · rw [if_pos hv] at hrc
    exact absurd rfl hrc
  · rw [if_neg hv]
    refine ⟨rfl,⟨w.saves,Nat.le_refl _,?_,hv⟩,⟨?_,hrecord,?_,?_⟩⟩
    · rw [saveOne_saves,hsaves]
      exact Nat.lt_succ_self _
    · rw [saveOne_getByKey,hwritten]
    · intro name
      rw [saveOne_lookup,hsaves,if_neg (fun h => hv h.2),hnvs]
    · rw [saveOne_trace,htrace]

/-- A set call that fails without writing was refused for its length or by the
validate callback. -/
theorem set_refused (hw : ¬Writes s data len)
    (hrc : (prvUserSettingsSet env env.callbacks w s data len).2≠0) :
    (prvUserSettingsSet env env.callbacks w s data len).2=-eNoMem ∨
      (prvUserSettingsSet env env.callbacks w s data len).2=-eInval := by
  rw [userSettingsSet_keeps hw] at hrc ⊢
  dsimp only at hrc ⊢
  split
  · exact .inl rfl
  · split
    · rename_i hlen hsame
      rw [if_neg hlen,if_pos hsame] at hrc
      exact absurd rfl hrc
    · exact .inr rfl

/-- A set_default call that fails without writing was refused for its length,
by the validate callback or because there is a default already. -/
theorem setDefault_refused (hw : ¬WritesDefault env s data len)
    (hrc : (prvUserSettingsSetDefault env env.callbacks w s data len).2≠0) :
    (prvUserSettingsSetDefault env env.callbacks w s data len).2=-eNoMem ∨
      (prvUserSettingsSetDefault env env.callbacks w s data len).2=-eInval ∨
      (prvUserSettingsSetDefault env env.callbacks w s data len).2=-eAlready := by
  rw [userSettingsSetDefault_keeps hw] at hrc ⊢
  dsimp only at hrc ⊢
  split
  · rename_i hsame
    rw [if_pos hsame] at hrc
    exact absurd rfl hrc
  · split
    · exact .inr (.inr rfl)
    · split
      · exact .inl rfl
      · exact .inr (.inl rfl)

/-- In every state, for every setting, data, length, validate verdict and
failing storage call: a set or set_default call that fails without an input or
output error changes nothing; one with it had a storage call that failed, and
leaves the new default in RAM, or the new value in RAM, announced, either with
flag and entry as before or with the flag, which was false, set in RAM and the
entry of the new value. -/
theorem failed_call_frame (env : Env) (w : World) (target : Target) (data : Mem) (len : ℕ)
    (next : World) (rc : ℤ) (hrc : rc≠0) :
    (userSettingsSet env w target data len=.ok (next,rc) →
      ∃ s,w.find target=some s ∧
        ((next=w ∧ (rc=-eNoMem ∨ rc=-eInval)) ∨
          (rc=-eIo ∧ StorageFailed env w next ∧
            ((∀ n,env.react n=[]) → FailedSet w next s data len)))) ∧
    (userSettingsSetDefault env w target data len=.ok (next,rc) →
      ∃ s,w.find target=some s ∧
        ((next=w ∧ (rc=-eNoMem ∨ rc=-eInval ∨ rc=-eAlready)) ∨
          (rc=-eIo ∧ StorageFailed env w next ∧ FailedDefault w next s data len))) := by
  constructor
  · intro h
    obtain ⟨_,s,hf,hres⟩ := withSetting_ok h
    have hs := getByKey_of_find hf
    have hnext := congrArg Prod.fst hres
    have hr := congrArg Prod.snd hres
    dsimp only at hnext hr
    subst hnext hr
    refine ⟨s,hf,?_⟩
    by_cases hw : Writes s data len
    · obtain ⟨hio,hfailed⟩ := set_storageFailed hs hw hrc
      exact .inr ⟨hio,hfailed,fun hq => set_failed_frame (passive_callbacks hq) hs hw hrc⟩
    · have hrefused := set_refused hw hrc
      rw [userSettingsSet_keeps hw] at hrefused ⊢
      exact .inl ⟨rfl,hrefused⟩
  · intro h
    obtain ⟨_,s,hf,hres⟩ := withSetting_ok h
    have hs := getByKey_of_find hf
    have hnext := congrArg Prod.fst hres
    have hr := congrArg Prod.snd hres
    dsimp only at hnext hr
    subst hnext hr
    refine ⟨s,hf,?_⟩
    by_cases hw : WritesDefault env s data len
    · exact .inr (setDefault_failed_frame hs hw hrc)
    · have hrefused := setDefault_refused hw hrc
      rw [userSettingsSetDefault_keeps hw] at hrefused ⊢
      exact .inl ⟨rfl,hrefused⟩

/-- Storage that always fails. -/
def alwaysFails : Env := ⟨fun _ => -5,true,true,fun _ => []⟩

/-- A failed call on a new device with one byte setting. -/
theorem failed_call_on_device :
    ∃ start next,boot alwaysFails (device .u8 0 none none) ∅=.ok start ∧
      userSettingsSet alwaysFails start (.key keyA) (memOf [5]) 1=.ok (next,-eIo) ∧
      ∃ s,start.find (.key keyA)=some s ∧
        ((next=start ∧ (-eIo=-eNoMem ∨ -eIo=-eInval)) ∨
          (-eIo=-eIo ∧ StorageFailed alwaysFails start next ∧
            ((∀ n,alwaysFails.react n=[]) → FailedSet start next s (memOf [5]) 1))) :=
  ⟨_,_,rfl,rfl,(failed_call_frame alwaysFails _ (.key keyA) (memOf [5]) 1 _ (-eIo)
    (by decide)).1 rfl⟩

/-- A set call that could not store its value has changed the value in RAM. -/
theorem failed_set_changes_value :
    ¬∀ (env : Env) (setup : Setup) (nvs : Entries) (start : World),
      boot env setup nvs=.ok start → ∀ target data len next rc,
      userSettingsSet env start target data len=.ok (next,rc) → rc≠0 → Unchanged start next := by
  intro h
  let setup := device .u8 0 none none
  have hrun : (boot alwaysFails setup ∅).toOption.bind (fun start =>
      (userSettingsSet alwaysFails start (.key keyA) (memOf [5]) 1).toOption.map fun r =>
        (r.2,decide (views r.1 keyA=views start keyA)))=some (-5,false) := by decide +kernel
  obtain ⟨start,hstart,hrun⟩ := Option.bind_eq_some_iff.mp hrun
  obtain ⟨r,hr,hcheck⟩ := Option.map_eq_some_iff.mp hrun
  obtain ⟨next,rc⟩ := r
  simp only [Prod.mk.injEq,decide_eq_false_iff_not] at hcheck
  have hrc : rc≠0 := by
    rw [hcheck.1]
    decide
  have hun := h alwaysFails setup ∅ start (toOption_eq_some.mp hstart) (.key keyA) (memOf [5]) 1
    next rc (toOption_eq_some.mp hr) hrc
  exact hcheck.2 (congrFun hun.views keyA)

end UserSettings.Frame
