import UserSettings.Durability

/-!
# What a successful result promises when storage may fail

A failed call leaves the value in RAM. The short cuts compare with RAM, so a
later call can report success for what an earlier one failed to store. A run
carries for each setting the value at the last clear of its changed flag;
every success along it is durable exactly when no short cut skips something
that is not stored.
-/

namespace UserSettings.Success

open Bytes Settings Storage Store Effects Setters Reactions Load Records Cells Outcomes
open Operations Transition Durability

/-- The value of each setting when its changed flag was last cleared. Nothing
is known of a setting that was flagged when the run began. -/
abbrev Marks := CString → Option (Option (List UInt8))

/-- The marks at the start of a run. -/
def startMarks (w : World) : Marks := fun key =>
  match w.getByKey key with
  | none => none
  | some s => if s.hasChangedRecently then none else some (ram w (.value,key))

/-- The operation clears the changed flag of this setting. -/
def clears (w : World) (op : StoreOp) (key : CString) : Bool :=
  match op with
  | .clearChanged => true
  | .clearChangedOne target => decide ((w.find target).map UserSetting.key=some key)
  | .set .. | .setDefault .. | .restoreDefaults | .restoreDefault _ | .setChanged _ => false

/-- A step that also keeps the marks. -/
def markedStep (env : Env) (state : World×Marks) (op : StoreOp) : Option (World×Marks) :=
  (step env state.1 op).map fun next =>
    (next,fun key => if clears state.1 op key then some (ram next (.value,key)) else state.2 key)

/-- The bytes are the content of a cell in RAM and exactly the entry in storage. -/
structure Kept (w : World) (subtree : Subtree) (key : CString) (bytes : List UInt8) : Prop where
  /-- The persistent entry. -/
  entry : w.nvs.lookup (keyWithPrefix subtree key)=some bytes
  /-- The content in RAM. -/
  content : ram w (subtree,key)=some bytes

/-- The changed flag is true in RAM and in storage. -/
structure Flagged (w : World) (key : CString) : Prop where
  /-- The flag in RAM. -/
  inRam : ram w (.changed,key)=some [1]
  /-- The flag as a start reads it. -/
  inStorage : stored w (.changed,key)=some [1]

/-- What success of a set call promises: the bytes are kept, and the setting
is flagged if its value is not the one at the last clear. -/
structure DurableValue (mark : Option (Option (List UInt8))) (key : CString) (data : Mem)
    (len : ℕ) (next : World) : Prop where
  /-- The bytes given are kept. -/
  kept : 1 ≤ len → Kept next .value key (bytesAt data len)
  /-- A changed value is flagged. -/
  flagged : mark≠some (ram next (.value,key)) → Flagged next key

/-- Every success of the operation is durable. -/
def Durable (env : Env) (state : World×Marks) (op : StoreOp) : Prop :=
  match op with
  | .set target data len => ∀ s next,state.1.find target=some s →
      userSettingsSet env state.1 target data len=.ok (next,0) →
      DurableValue (state.2 s.key) s.key data len next
  | .setDefault target data len => ∀ s next,state.1.find target=some s →
      userSettingsSetDefault env state.1 target data len=.ok (next,0) → 1 ≤ len →
      Kept next .default s.key (bytesAt data len)
  | .restoreDefaults | .restoreDefault _ | .setChanged _ | .clearChangedOne _ | .clearChanged =>
    True

/-- What a set call skips is done already: a value equal to the one in RAM is
stored, and a flag that is true in RAM is true in storage, where they count. -/
structure SettledValue (env : Env) (w : World) (mark : Option (Option (List UInt8)))
    (s : UserSetting) (data : Mem) (len : ℕ) : Prop where
  /-- The same value is already stored. -/
  stored : SameValue s data len → 1 ≤ len →
    w.nvs.lookup (keyWithPrefix .value s.key)=some (bytesAt data len)
  /-- The same value is already flagged unless it is the one at the last clear. -/
  flagged : SameValue s data len → mark≠some (ram w (.value,s.key)) → Flagged w s.key
  /-- A new value that is stored finds a flag set before in storage too. -/
  remembered : Writes s data len → env.saveResult w.saves=0 → s.hasChangedRecently=true →
    mark≠some (ramSet w s data len (.value,s.key)) → Cells.stored w (.changed,s.key)=some [1]

/-- What a call skips is done already. -/
def Settled (env : Env) (state : World×Marks) (op : StoreOp) : Prop :=
  match op with
  | .set target data len => ∀ s,state.1.find target=some s →
      SettledValue env state.1 (state.2 s.key) s data len
  | .setDefault target data len => ∀ s,state.1.find target=some s → SameDefault s data len →
      1 ≤ len → state.1.nvs.lookup (keyWithPrefix .default s.key)=some (bytesAt data len)
  | .restoreDefaults | .restoreDefault _ | .setChanged _ | .clearChangedOne _ | .clearChanged =>
    True

variable {env : Env} {w : World} {s : UserSetting} {data : Mem} {len : ℕ}

/-- An entry that fits is the stored content. -/
theorem lookup_iff_stored {subtree : Subtree} (ht : subtree≠.changed) {key : CString}
    (hs : w.getByKey key=some s) {bytes : List UInt8} (hn : bytes≠[])
    (hf : bytes.length ≤ s.maxSize) :
    w.nvs.lookup (keyWithPrefix subtree key)=some bytes ↔
      Cells.stored w (subtree,key)=some bytes := by
  rw [stored_eq hs]
  cases he : w.nvs.lookup (keyWithPrefix subtree key) with
  | none => exact Iff.rfl
  | some entry =>
    have hdecode : decode subtree s.maxSize (some entry)=
        if s.maxSize<entry.length ∨ entry=[] then none else some entry := by
      cases subtree with
      | default => rfl
      | value => rfl
      | changed => exact absurd rfl ht
    rw [hdecode]
    by_cases hc : s.maxSize<entry.length ∨ entry=[]
    · rw [if_pos hc]
      constructor
      · intro h
        cases h
        cases hc with
        | inl h => omega
        | inr h => exact absurd h hn
      · exact fun h => by cases h
    · rw [if_neg hc]

/-- The same nonempty value is the content of the cell. -/
theorem ram_sameValue (hok : RecordOk s) (hs : w.getByKey s.key=some s)
    (h : SameValue s data len) (hn : 1 ≤ len) : ram w (.value,s.key)=some (bytesAt data len) := by
  have hi : s.isSet=true := hok.value.isSet_iff.mpr (by have := h.2; omega)
  have hf : len ≤ s.maxSize := by
    have hl := hok.value.len_le
    have he := h.2
    omega
  rw [ram_eq hs]
  dsimp only [content]
  rw [if_pos hi,←h.1,s.data.bytesAt_mem hf,h.2]
  rfl

/-- The same nonempty default value is the content of the cell. -/
theorem ram_sameDefault (hok : RecordOk s) (hs : w.getByKey s.key=some s)
    (h : SameDefault s data len) (hn : 1 ≤ len) :
    ram w (.default,s.key)=some (bytesAt data len) := by
  have hi : s.defaultIsSet=true := hok.default.isSet_iff.mpr (by have := h.1; omega)
  have hb := s.defaultData.bytesAt_mem hok.default.len_le
  rw [ram_eq hs]
  dsimp only [content]
  rw [if_pos hi,h.1,h.2,hb]
  rfl

/-- The flag in RAM as a cell. -/
theorem ram_changed_iff (hs : w.getByKey s.key=some s) :
    ram w (.changed,s.key)=some [1] ↔ s.hasChangedRecently=true := by
  rw [ram_eq hs]
  dsimp only [content,flagContent]
  cases s.hasChangedRecently <;> simp

/-- A nonempty value that fits is kept when both copies hold it. -/
theorem kept_iff {subtree : Subtree} (ht : subtree≠.changed) {key : CString}
    (hs : w.getByKey key=some s) (hn : 1 ≤ len) (hf : len ≤ s.maxSize) :
    Kept w subtree key (bytesAt data len) ↔
      Cells.stored w (subtree,key)=some (bytesAt data len) ∧
        ram w (subtree,key)=some (bytesAt data len) := by
  have hne : bytesAt data len≠[] := fun h => by
    have hz := bytesAt_eq_nil.mp h
    omega
  have hfit : (bytesAt data len).length ≤ s.maxSize := by
    rw [length_bytesAt]
    exact hf
  rw [←lookup_iff_stored ht hs hne hfit]
  exact ⟨fun h => ⟨h.entry,h.content⟩,fun h => ⟨h.1,h.2⟩⟩

/-- A set call that takes the short cut is durable if what it skips is done. -/
theorem durable_same_iff (hok : RecordOk s) (hs : w.getByKey s.key=some s)
    (h : SameValue s data len) (mark : Option (Option (List UInt8))) :
    DurableValue mark s.key data len w ↔ SettledValue env w mark s data len := by
  have hno : ¬Writes s data len := fun hw => hw.differs h
  constructor
  · intro hd
    exact ⟨fun _ hn => (hd.kept hn).entry,fun _ => hd.flagged,fun hw => absurd hw hno⟩
  · intro hd
    exact ⟨fun hn => ⟨hd.stored h hn,ram_sameValue hok hs h hn⟩,hd.flagged h⟩

/-- A set call that writes and succeeds is durable if the flag it finds set is
set in storage too. -/
theorem durable_writes_iff (hq : Passive env.callbacks) (hs : w.getByKey s.key=some s)
    (hw : Writes s data len) (mark : Option (Option (List UInt8))) :
    ((prvUserSettingsSet env env.callbacks w s data len).2=0 →
        DurableValue mark s.key data len (prvUserSettingsSet env env.callbacks w s data len).1) ↔
      SettledValue env w mark s data len := by
  have hvc := cell_ne .value .changed (by decide) s.key s.key
  have heffects : EffectSeq env anyValue w
      (prvUserSettingsSet env env.callbacks w s data len).1 :=
    userSettingsSet_effects callbacks_within_any hs (fun _ _ => trivial)
  obtain ⟨t,ht,hr⟩ := getByKey_of_registrations heffects.sameSetup.regs hs
  have hsize := maxSize_of_registration hr
  have hout := set_outcome env hq hs hw
  have hkept : 1 ≤ len → (Kept (prvUserSettingsSet env env.callbacks w s data len).1 .value s.key
      (bytesAt data len) ↔ _) :=
    fun hn => kept_iff (by decide) ht hn (by rw [hsize]; exact hw.fits)
  have hramflag := ramSet_changed w s data len s.key
  have hstoredflag := storedSet_changed w s data len s.key
  have hsame : ¬SameValue s data len := hw.differs
  generalize hnext : (prvUserSettingsSet env env.callbacks w s data len).1=next at *
  generalize hf : ram next=f at *
  generalize hg : Cells.stored next=g at *
  generalize (prvUserSettingsSet env env.callbacks w s data len).2=rc at *
  cases hout with
  | valueUnsaved hv =>
    refine ⟨fun _ => ⟨fun h => absurd h hsame,fun h => absurd h hsame,fun _ h => absurd h hv⟩,?_⟩
    exact fun _ h => by cases h
  | flagged hv hc =>
    constructor
    · intro h
      refine ⟨fun h => absurd h hsame,fun h => absurd h hsame,fun _ _ _ hm => ?_⟩
      have hfl := (h rfl).flagged (by rw [hf]; exact hm)
      have hst := hfl.inStorage
      rw [hg,hstoredflag] at hst
      exact hst
    · intro h _
      refine ⟨fun hn => (hkept hn).mpr ⟨storedSet_value w s data hn,ramSet_value w s data hn⟩,
        fun hm => ?_⟩
      rw [hf] at hm
      refine ⟨?_,?_⟩
      · rw [hf,hramflag]
        exact (ram_changed_iff hs).mpr hc
      · rw [hg,hstoredflag]
        exact h.remembered hw hv hc hm
  | flagUnsaved hv hc =>
    refine ⟨fun _ => ⟨fun h => absurd h hsame,fun h => absurd h hsame,fun _ _ h => ?_⟩,?_⟩
    · rw [hc] at h
      cases h
    · exact fun _ h => by cases h
  | saved hv hc =>
    refine ⟨fun _ => ⟨fun h => absurd h hsame,fun h => absurd h hsame,fun _ _ h => ?_⟩,?_⟩
    · rw [hc] at h
      cases h
    · intro _ _
      refine ⟨fun hn => (hkept hn).mpr ?_,fun _ => ⟨?_,?_⟩⟩
      · rw [Function.update_of_ne hvc,Function.update_of_ne hvc]
        exact ⟨storedSet_value w s data hn,ramSet_value w s data hn⟩
      · rw [hf,Function.update_self]
      · rw [hg,Function.update_self]

/-- Every success of a set call is durable exactly when what it skips is done. -/
theorem durable_set_iff (hq : Passive env.callbacks) (hok : RecordOk s)
    (hs : w.getByKey s.key=some s) (mark : Option (Option (List UInt8))) :
    ((prvUserSettingsSet env env.callbacks w s data len).2=0 →
        DurableValue mark s.key data len (prvUserSettingsSet env env.callbacks w s data len).1) ↔
      SettledValue env w mark s data len := by
  by_cases hw : Writes s data len
  · exact durable_writes_iff hq hs hw mark
  · rw [userSettingsSet_keeps hw]
    dsimp only
    by_cases h : SameValue s data len
    · have hf : ¬s.maxSize<len := by
        have hl := hok.value.len_le
        have he := h.2
        omega
      rw [if_neg hf,if_pos h,←durable_same_iff hok hs h]
      exact ⟨fun k => k rfl,fun k _ => k⟩
    · constructor
      · exact fun _ => ⟨fun k => absurd k h,fun k => absurd k h,fun k => absurd k hw⟩
      · intro _ hrc
        rw [if_neg h] at hrc
        split at hrc <;> cases hrc

/-- Every success of a set_default call is durable exactly when what it skips
is done. -/
theorem durable_setDefault_iff (env : Env) (hok : RecordOk s) (hs : w.getByKey s.key=some s)
    (hn : 1 ≤ len) :
    ((prvUserSettingsSetDefault env env.callbacks w s data len).2=0 →
        Kept (prvUserSettingsSetDefault env env.callbacks w s data len).1 .default s.key
          (bytesAt data len)) ↔
      (SameDefault s data len →
        w.nvs.lookup (keyWithPrefix .default s.key)=some (bytesAt data len)) := by
  by_cases hw : WritesDefault env s data len
  · refine ⟨fun _ h => absurd h hw.differs,fun _ hrc => ?_⟩
    have heffects : EffectSeq env anyValue w
        (prvUserSettingsSetDefault env env.callbacks w s data len).1 :=
      userSettingsSetDefault_effects hs
    obtain ⟨t,ht,hr⟩ := getByKey_of_registrations heffects.sameSetup.regs hs
    obtain ⟨hram,hstored⟩ := setDefault_cells hs hw (by omega)
    refine (kept_iff (by decide) ht hn ?_).mpr ?_
    · rw [maxSize_of_registration hr]
      exact hw.fits
    · rw [userSettingsSetDefault_writes hs hw] at hrc
      have hok' : env.saveResult w.saves=0 := by
        by_contra hno
        dsimp only at hrc
        rw [if_neg hno] at hrc
        cases hrc
      rw [hram,hstored,if_pos hok',Function.update_self,Function.update_self]
      exact ⟨rfl,rfl⟩
  · rw [userSettingsSetDefault_keeps hw]
    dsimp only
    by_cases h : SameDefault s data len
    · rw [if_pos h]
      constructor
      · exact fun k _ => (k rfl).entry
      · exact fun k _ => ⟨k h,ram_sameDefault hok hs h hn⟩
    · refine ⟨fun _ k => absurd k h,fun _ hrc => ?_⟩
      rw [if_neg h] at hrc
      split at hrc
      · cases hrc
      · split at hrc <;> cases hrc

/-- An operation is durable exactly when what it skips is done. -/
theorem durable_iff (hq : Passive env.callbacks) {setup : Setup} (hrun : Running setup w)
    (marks : Marks) (op : StoreOp) : Durable env (w,marks) op ↔ Settled env (w,marks) op := by
  cases op with
  | set target data len =>
    refine forall_congr' fun s => ?_
    constructor
    · intro h hf
      have hs := getByKey_of_find hf
      have hsuccess := (withSetting_success_iff hrun.isLoaded hf).mp fun next => h next hf
      exact (durable_set_iff hq (hrun.records.getByKey hs) hs (marks s.key)).mp hsuccess
    · intro h next hf
      have hs := getByKey_of_find hf
      have hdurable := (durable_set_iff hq (hrun.records.getByKey hs) hs (marks s.key)).mpr (h hf)
      exact (withSetting_success_iff hrun.isLoaded hf).mpr hdurable next
  | setDefault target data len =>
    refine forall_congr' fun s => ?_
    constructor
    · intro h hf hsame hn
      have hs := getByKey_of_find hf
      have hsuccess := (withSetting_success_iff hrun.isLoaded hf).mp fun next hok =>
        h next hf hok hn
      exact (durable_setDefault_iff env (hrun.records.getByKey hs) hs hn).mp hsuccess hsame
    · intro h next hf hok hn
      have hs := getByKey_of_find hf
      have hdurable := (durable_setDefault_iff env (hrun.records.getByKey hs) hs hn).mpr
        fun hsame => h hf hsame hn
      exact (withSetting_success_iff hrun.isLoaded hf
        (P:=fun u => Kept u .default s.key (bytesAt data len))).mpr hdurable next hok
  | restoreDefaults => exact Iff.rfl
  | restoreDefault => exact Iff.rfl
  | setChanged => exact Iff.rfl
  | clearChangedOne => exact Iff.rfl
  | clearChanged => exact Iff.rfl

/-- Along every run after a load, whichever storage calls fail, with callbacks
that do not modify settings: every success of a set or set_default call is
durable exactly when no call skips something that is not done in storage. -/
theorem success_durable_iff (env : Env) (setup : Setup) (nvs : Entries) (start : World)
    (hq : ∀ n,env.react n=[]) (hboot : boot env setup nvs=.ok start) (ops : List StoreOp) :
    Meets (markedStep env) (Durable env) (start,startMarks start) ops ↔
      Meets (markedStep env) (Settled env) (start,startMarks start) ops := by
  have hpassive := passive_callbacks hq
  have hstart : Running setup start := running_of_booted (reboot_ok hboot)
  refine meets_iff (I:=fun state => Running setup state.1) ?_ ?_ hstart ops
  · intro state op next hrun _ hs
    unfold markedStep at hs
    obtain ⟨reached,hstep,hnext⟩ := Option.map_eq_some_iff.mp hs
    rw [←hnext]
    exact hrun.effects (step_effects hstep)
  · exact fun state op hrun => durable_iff hpassive hrun state.2 op

/-- A device whose first storage call fails. -/
def firstFails : Env := ⟨fun n => if n=0 then -5 else 0,true,true,fun _ => []⟩

/-- The equivalence on a device whose first storage call fails. -/
theorem success_durable_first_fails :
    ∃ start,boot firstFails (device .u8 0 none none) ∅=.ok start ∧
      (Meets (markedStep firstFails) (Durable firstFails) (start,startMarks start)
          [.set (.key keyA) (memOf [5]) 1] ↔
        Meets (markedStep firstFails) (Settled firstFails) (start,startMarks start)
          [.set (.key keyA) (memOf [5]) 1]) :=
  ⟨_,rfl,success_durable_iff firstFails (device .u8 0 none none) ∅ _ (fun _ => rfl) rfl _⟩

/-- The first set call fails to store the value; the same call made again
succeeds, and the value is still not stored. -/
theorem retry_not_durable :
    ¬∀ (env : Env) (setup : Setup) (nvs : Entries) (start : World),(∀ n,env.react n=[]) →
      boot env setup nvs=.ok start →
      ∀ ops,Meets (markedStep env) (Durable env) (start,startMarks start) ops := by
  intro h
  let setup := device .u8 0 none none
  let op : StoreOp := .set (.key keyA) (memOf [5]) 1
  have hrun : (boot firstFails setup ∅).toOption.bind (fun start =>
      (markedStep firstFails (start,startMarks start) op).bind fun middle =>
        (middle.1.find (.key keyA)).bind fun s =>
          (userSettingsSet firstFails middle.1 (.key keyA) (memOf [5]) 1).toOption.map fun r =>
            (r.2,decide (r.1.nvs.lookup (keyWithPrefix .value s.key)=some [5])))=
      some (0,false) := by decide +kernel
  obtain ⟨start,hboot,hrun⟩ := Option.bind_eq_some_iff.mp hrun
  obtain ⟨middle,hmiddle,hrun⟩ := Option.bind_eq_some_iff.mp hrun
  obtain ⟨s,hs,hrun⟩ := Option.bind_eq_some_iff.mp hrun
  obtain ⟨r,hr,hcheck⟩ := Option.map_eq_some_iff.mp hrun
  obtain ⟨next,rc⟩ := r
  simp only [Prod.mk.injEq,decide_eq_false_iff_not] at hcheck
  obtain ⟨hrc,hlost⟩ := hcheck
  subst hrc
  have hmeets := h firstFails setup ∅ start (fun _ => rfl) (toOption_eq_some.mp hboot) [op,op]
  have hdurable := (hmeets.2 middle hmiddle).1 s next hs (toOption_eq_some.mp hr)
  exact hlost (hdurable.kept (Nat.le_refl 1)).entry

end UserSettings.Success
