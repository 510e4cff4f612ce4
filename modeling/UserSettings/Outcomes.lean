import UserSettings.Cells

/-!
# Setters whose callbacks do not modify settings

When the callbacks only look, each setter is a fixed sequence of writes to
RAM and storage: value, stored value, flag, stored flag. The outcomes are the
points at which a storage call can end it.
-/

namespace UserSettings.Outcomes

open Bytes Settings Storage Store Effects Setters Reactions Load Records Cells

/-- Callbacks that do not modify settings. -/
structure Passive (cb : Callbacks) : Prop where
  /-- The global callback. -/
  global : ∀ w,cb.global w=w
  /-- The callback of the setting. -/
  own : ∀ w,cb.own w=w

variable {env : Env} {cb : Callbacks} {w : World} {s : UserSetting} {data : Mem} {len : ℕ}

/-- An environment whose callbacks never react has passive callbacks. -/
theorem passive_callbacks (h : ∀ n,env.react n=[]) : Passive env.callbacks := by
  constructor
  · intro w
    dsimp only [Env.callbacks]
    rw [h]
    rfl
  · intro w
    dsimp only [Env.callbacks]
    rw [h]
    rfl

/-- Callbacks that do nothing stay within everything. -/
theorem within_of_passive {allow : Allowance} (hq : Passive cb) : Within env allow cb :=
  ⟨fun w => by rw [hq.global],fun w => by rw [hq.own]⟩

/-- The calls of callbacks that announce a change, global first. -/
def notices (w : World) (s : UserSetting) : List Event :=
  let shown := (prvUserSettingGet (w.deref s)).map fun p => bytesAt p.1 p.2
  (if w.globalOnChangeCb.isSome && w.isLoaded then [⟨.global,s.id,s.key,shown⟩] else [])++
    (if s.onChangeCb.isSome && w.isLoaded then [⟨.own,s.id,s.key,shown⟩] else [])

/-- Both notifications only lengthen the trace. -/
theorem notify_passive (hq : Passive cb) (w : World) (s : UserSetting) :
    notifyOwn cb (notifyGlobal cb w s) s={w with trace := w.trace++notices w s} := by
  unfold notifyOwn notifyGlobal notices
  cases hg : (w.globalOnChangeCb.isSome && w.isLoaded)
  · simp only [Bool.false_eq_true,if_false,List.nil_append]
    split
    · rw [hq.own]
      rfl
    · rw [List.append_nil]
  · simp only [if_true,hq.global]
    change (if (s.onChangeCb.isSome && w.isLoaded)=true then _ else _)=_
    split
    · rw [hq.own]
      unfold World.notify
      dsimp only
      rw [List.append_assoc]
      rfl
    · rw [List.append_nil]
      rfl

variable (w s data) in
/-- Writing a value to RAM changes one record and the trace. -/
theorem valueWritten_passive (hq : Passive cb) (hn : len≠0) :
    valueWritten cb w s data len=
      let written := w.modify s.key (storeValue (bytesAt data len))
      {written with trace := w.trace++notices written s} := by
  unfold valueWritten
  rw [if_neg hn]
  exact notify_passive hq _ s

variable (w s data len) in
/-- Writing a value to RAM does not store. -/
theorem valueWritten_saves (hq : Passive cb) : (valueWritten cb w s data len).saves=w.saves := by
  by_cases hn : len=0
  · unfold valueWritten
    rw [if_pos hn]
  · have he := valueWritten_passive w s data hq hn
    rw [he]
    rfl

variable (w s data len) in
/-- Writing a value to RAM does not touch storage. -/
theorem valueWritten_nvs (hq : Passive cb) : (valueWritten cb w s data len).nvs=w.nvs := by
  by_cases hn : len=0
  · unfold valueWritten
    rw [if_pos hn]
  · have he := valueWritten_passive w s data hq hn
    rw [he]
    rfl

/-- The list after writing a value to RAM. -/
theorem valueWritten_list (hq : Passive cb) : (valueWritten cb w s data len).list=
    if len=0 then w.list else w.list.modify s.key (storeValue (bytesAt data len)) := by
  by_cases hn : len=0
  · unfold valueWritten
    rw [if_pos hn,if_pos hn]
  · have he := valueWritten_passive w s data hq hn
    rw [he,if_neg hn]
    rfl

variable (data len) in
/-- The record after writing a value to RAM. -/
theorem valueWritten_getByKey (hq : Passive cb) (hs : w.getByKey s.key=some s) :
    (valueWritten cb w s data len).getByKey s.key=
      some (if len=0 then s else (storeValue (bytesAt data len)).apply s) := by
  unfold World.getByKey
  rw [valueWritten_list hq]
  by_cases hn : len=0
  · rw [if_pos hn,if_pos hn]
    exact hs
  · rw [if_neg hn,if_neg hn]
    exact getByKey_modify_self _ hs

/-- Storing counts one call. -/
theorem saveOne_saves (env : Env) (w : World) (name : CString) (data : Mem) (len : ℕ) :
    (settingsSaveOne env w name data len).1.saves=w.saves+1 := by
  unfold settingsSaveOne
  dsimp only
  split <;> rfl

variable (env data len) in
/-- The record after writing a value to RAM and storing it. -/
theorem valueStored_getByKey (hq : Passive cb) (hs : w.getByKey s.key=some s) :
    (valueStored env cb w s data len).getByKey s.key=
      some (if len=0 then s else (storeValue (bytesAt data len)).apply s) := by
  unfold valueStored
  rw [saveOne_getByKey,valueWritten_getByKey _ _ hq hs]

/-- A set call that writes is a sequence of up to four writes. -/
theorem userSettingsSet_passive (hq : Passive cb) (hs : w.getByKey s.key=some s)
    (hw : Writes s data len) :
    prvUserSettingsSet env cb w s data len=
      let stored := valueStored env cb w s data len
      if env.saveResult w.saves≠0 then (stored,-eIo)
      else if s.hasChangedRecently=true then (stored,0)
      else
        ((settingsSaveOne env (stored.modify s.key (storeFlag true))
            (keyWithPrefix .changed s.key) (memOf [1]) 1).1,
          if env.saveResult (w.saves+1)=0 then 0 else -eIo) := by
  have hrec := valueStored_getByKey env data len hq hs
  have hsaves : (valueStored env cb w s data len).saves=w.saves+1 := by
    unfold valueStored
    rw [saveOne_saves,valueWritten_saves _ _ _ _ hq]
  rw [userSettingsSet_writes hs hw,valueWritten_saves _ _ _ _ hq]
  dsimp only
  by_cases hr : env.saveResult w.saves≠0
  · rw [if_pos hr,if_pos hr]
  · rw [if_neg hr,if_neg hr,deref_eq hrec]
    generalize ht : (if len=0 then s else (storeValue (bytesAt data len)).apply s)=t at hrec
    have hk : t.key=s.key := by
      rw [←ht]
      split <;> rfl
    have hf : t.hasChangedRecently=s.hasChangedRecently := by
      rw [←ht]
      split <;> rfl
    have hrect : (valueStored env cb w s data len).getByKey t.key=some t := by rw [hk,hrec]
    rw [setChangedRecentlyFlag_eq hrect,hf,hk,hsaves]
    by_cases hc : s.hasChangedRecently=true
    · rw [if_pos hc.symm,if_pos hc]
      rfl
    · rw [if_neg (fun h => hc h.symm),if_neg hc]
      dsimp only
      by_cases ho : env.saveResult (w.saves+1)=0
      · rw [if_pos ho]
        rfl
      · rw [if_neg ho]
        rfl

/-- Nothing but the setting with this key is touched, in RAM or in storage. -/
structure OnlyAt (key : CString) (w next : World) : Prop where
  /-- Other records stay. -/
  record : ∀ other,other≠key → next.getByKey other=w.getByKey other
  /-- Entries of other names stay. -/
  entry : ∀ name,(∀ subtree,name≠keyWithPrefix subtree key) →
    next.nvs.lookup name=w.nvs.lookup name
  /-- The registrations stay. -/
  regs : registrations next=registrations w

/-- Nothing touches nothing. -/
theorem OnlyAt.refl (key : CString) (w : World) : OnlyAt key w w :=
  ⟨fun _ _ => rfl,fun _ _ => rfl,rfl⟩

/-- What two parts leave alone both leave alone. -/
theorem OnlyAt.trans {key : CString} {w middle next : World} (h : OnlyAt key w middle)
    (k : OnlyAt key middle next) : OnlyAt key w next :=
  ⟨fun other ho => (k.record other ho).trans (h.record other ho),
    fun name hn => (k.entry name hn).trans (h.entry name hn),k.regs.trans h.regs⟩

/-- A change of the record. -/
theorem onlyAt_modify {u : Update} (hu : Plain u) (w : World) (key : CString) :
    OnlyAt key w (w.modify key u) :=
  ⟨fun _ ho => modify_ne u ho,fun _ _ => rfl,registrations_modify hu w key⟩

/-- Storing one of the entries. -/
theorem onlyAt_saveOne (env : Env) (w : World) (subtree : Subtree) (key : CString) (data : Mem)
    (len : ℕ) : OnlyAt key w (settingsSaveOne env w (keyWithPrefix subtree key) data len).1 := by
  refine ⟨fun _ _ => saveOne_getByKey ..,?_,(sameSetup_saveOne ..).regs⟩
  intro name hn
  rw [saveOne_lookup,if_neg (fun h => hn subtree h.1)]

/-- Writing a value to RAM. -/
theorem onlyAt_valueWritten (hq : Passive cb) : OnlyAt s.key w (valueWritten cb w s data len) := by
  by_cases hn : len=0
  · unfold valueWritten
    rw [if_pos hn]
    exact OnlyAt.refl s.key w
  · have he := valueWritten_passive w s data hq hn
    rw [he]
    have hm := onlyAt_modify (u:=storeValue (bytesAt data len)) (fun _ => rfl) w s.key
    exact ⟨hm.record,hm.entry,hm.regs⟩

/-- Setting a flag. -/
theorem onlyAt_flag (hs : w.getByKey s.key=some s) (flag : Bool) :
    OnlyAt s.key w (prvSetChangedRecentlyFlag env cb w s flag).1 := by
  rw [setChangedRecentlyFlag_eq hs]
  split
  · exact OnlyAt.refl s.key w
  · exact (onlyAt_modify (u:=storeFlag flag) (fun _ => rfl) w s.key).trans
      (onlyAt_saveOne env _ .changed s.key _ 1)

/-- Setting a value. -/
theorem onlyAt_set (hq : Passive cb) (hs : w.getByKey s.key=some s) :
    OnlyAt s.key w (prvUserSettingsSet env cb w s data len).1 := by
  by_cases hw : Writes s data len
  · have hstored : OnlyAt s.key w (valueStored env cb w s data len) :=
      (onlyAt_valueWritten hq).trans (onlyAt_saveOne env _ .value s.key data len)
    rw [userSettingsSet_passive hq hs hw]
    dsimp only
    split
    · exact hstored
    · split
      · exact hstored
      · exact (hstored.trans (onlyAt_modify (u:=storeFlag true) (fun _ => rfl) _ s.key)).trans
          (onlyAt_saveOne env _ .changed s.key _ 1)
  · rw [userSettingsSet_keeps hw]
    exact OnlyAt.refl s.key w

/-- Setting a default value. -/
theorem onlyAt_setDefault (hs : w.getByKey s.key=some s) :
    OnlyAt s.key w (prvUserSettingsSetDefault env cb w s data len).1 := by
  by_cases hw : WritesDefault env s data len
  · have hwritten : OnlyAt s.key w (defaultWritten w s data len) := by
      unfold defaultWritten
      split
      · exact OnlyAt.refl s.key w
      · exact onlyAt_modify (u:=storeDefault (bytesAt data len)) (fun _ => rfl) w s.key
    rw [userSettingsSetDefault_writes hs hw]
    exact hwritten.trans (onlyAt_saveOne env _ .default s.key data len)
  · rw [userSettingsSetDefault_keeps hw]
    exact OnlyAt.refl s.key w

/-- Restoring a setting. -/
theorem onlyAt_restore (hq : Passive cb) (hs : w.getByKey s.key=some s) :
    OnlyAt s.key w (prvSettingsRestore env cb w s) := by
  unfold prvSettingsRestore
  split
  · exact onlyAt_set hq hs
  · exact OnlyAt.refl s.key w

/-- Cells of other settings stay in both copies. -/
theorem OnlyAt.cells {key : CString} {w next : World} (h : OnlyAt key w next) (cell : Cell)
    (hc : cell.2≠key) : ram next cell=ram w cell ∧ stored next cell=stored w cell := by
  have hr := h.record cell.2 hc
  have hn := h.entry (keyWithPrefix cell.1 cell.2) (fun _ he => hc (keyWithPrefix_inj.mp he).2)
  unfold ram stored
  rw [hr,hn]
  exact ⟨rfl,rfl⟩

/-- The copy in RAM after writing a value to it. -/
theorem ram_valueWritten (hq : Passive cb) (hs : w.getByKey s.key=some s) (hf : len ≤ s.maxSize) :
    ram (valueWritten cb w s data len)=
      if len=0 then ram w
      else Function.update (ram w) (.value,s.key) (some (bytesAt data len)) := by
  by_cases hn : len=0
  · unfold valueWritten
    rw [if_pos hn,if_pos hn]
  · have he := valueWritten_passive w s data hq hn
    have hfit : (bytesAt data len).length ≤ s.maxSize := by rw [length_bytesAt]; exact hf
    have hr := ram_storeValue hs hfit
    rw [if_neg hn,he,←hr]
    rfl

/-- The persistent copy after writing a value to RAM. -/
theorem stored_valueWritten (hq : Passive cb) : stored (valueWritten cb w s data len)=stored w :=
  stored_of_registrations (onlyAt_valueWritten hq).regs (valueWritten_nvs _ _ _ _ hq)

/-- A value that fits is read back from its entry. -/
theorem decode_value (data : Mem) {size : ℕ} (subtree : Subtree) (hf : len ≤ size)
    (ht : subtree≠.changed) :
    decode subtree size (if len=0 then none else some (bytesAt data len))=
      if len=0 then none else some (bytesAt data len) := by
  by_cases hn : len=0
  · rw [if_pos hn]
    rfl
  · have hc : ¬(size<(bytesAt data len).length ∨ bytesAt data len=[]) := by
      rw [length_bytesAt,bytesAt_eq_nil]
      omega
    rw [if_neg hn]
    cases subtree with
    | default => exact if_neg hc
    | value => exact if_neg hc
    | changed => exact absurd rfl ht

/-- A flag is read back from its entry. -/
theorem decode_flag (size : ℕ) (flag : Bool) :
    decode .changed size (if 1=0 then none else some (bytesAt (memOf [boolByte flag]) 1))=
      flagContent flag := by
  cases flag <;> rfl

variable (env data) in
/-- The persistent copy after writing a value to RAM and storing it. -/
theorem stored_valueStored (hq : Passive cb) (hs : w.getByKey s.key=some s)
    (hf : len ≤ s.maxSize) : stored (valueStored env cb w s data len)=
      if env.saveResult w.saves=0 then Function.update (stored w) (.value,s.key)
        (if len=0 then none else some (bytesAt data len)) else stored w := by
  have hrec := valueWritten_getByKey data len hq hs
  have hm : (if len=0 then s else (storeValue (bytesAt data len)).apply s).maxSize=s.maxSize := by
    split <;> rfl
  unfold valueStored
  rw [stored_saveOne env hrec,valueWritten_saves _ _ _ _ hq,stored_valueWritten hq,hm,
    decode_value _ _ hf (by decide)]

/-- The copy in RAM with the value of a set call. -/
def ramSet (w : World) (s : UserSetting) (data : Mem) (len : ℕ) : Copy :=
  if len=0 then ram w else Function.update (ram w) (.value,s.key) (some (bytesAt data len))

/-- The persistent copy with the value of a set call; no bytes delete the entry. -/
def storedSet (w : World) (s : UserSetting) (data : Mem) (len : ℕ) : Copy :=
  Function.update (stored w) (.value,s.key) (if len=0 then none else some (bytesAt data len))

/-- Cells of different subtrees are different. -/
theorem cell_ne (left right : Subtree) (h : left≠right) (key other : CString) :
    ((left,key) : Cell)≠(right,other) := fun he => h (Prod.mk.inj he).1

/-- A nonempty value of a set call in RAM. -/
theorem ramSet_value (w : World) (s : UserSetting) (data : Mem) (hn : 1 ≤ len) :
    ramSet w s data len (.value,s.key)=some (bytesAt data len) := by
  unfold ramSet
  rw [if_neg (by omega),Function.update_self]

/-- A nonempty value of a set call in storage. -/
theorem storedSet_value (w : World) (s : UserSetting) (data : Mem) (hn : 1 ≤ len) :
    storedSet w s data len (.value,s.key)=some (bytesAt data len) := by
  unfold storedSet
  rw [Function.update_self,if_neg (by omega)]

/-- The value of a set call leaves the flags in RAM alone. -/
theorem ramSet_changed (w : World) (s : UserSetting) (data : Mem) (len : ℕ) (key : CString) :
    ramSet w s data len (.changed,key)=ram w (.changed,key) := by
  unfold ramSet
  split
  · rfl
  · rw [Function.update_of_ne (cell_ne .changed .value (by decide) key s.key)]

/-- The value of a set call leaves the stored flags alone. -/
theorem storedSet_changed (w : World) (s : UserSetting) (data : Mem) (len : ℕ) (key : CString) :
    storedSet w s data len (.changed,key)=stored w (.changed,key) :=
  Function.update_of_ne (cell_ne .changed .value (by decide) key s.key) ..

/-- How a call that writes a value can end, and both copies then. -/
inductive SetOutcome (env : Env) (w : World) (s : UserSetting) (data : Mem) (len : ℕ) :
    Copy → Copy → ℤ → Prop
  /-- The value could not be stored. -/
  | valueUnsaved (hv : env.saveResult w.saves≠0) :
      SetOutcome env w s data len (ramSet w s data len) (stored w) (-eIo)
  /-- The setting was flagged before. -/
  | flagged (hv : env.saveResult w.saves=0) (hc : s.hasChangedRecently=true) :
      SetOutcome env w s data len (ramSet w s data len) (storedSet w s data len) 0
  /-- The flag could not be stored. -/
  | flagUnsaved (hv : env.saveResult w.saves=0) (hc : s.hasChangedRecently=false)
      (hf : env.saveResult (w.saves+1)≠0) :
      SetOutcome env w s data len
        (Function.update (ramSet w s data len) (.changed,s.key) (some [1]))
        (storedSet w s data len) (-eIo)
  /-- Value and flag were stored. -/
  | saved (hv : env.saveResult w.saves=0) (hc : s.hasChangedRecently=false)
      (hf : env.saveResult (w.saves+1)=0) :
      SetOutcome env w s data len
        (Function.update (ramSet w s data len) (.changed,s.key) (some [1]))
        (Function.update (storedSet w s data len) (.changed,s.key) (some [1])) 0

variable (env w s data len) in
/-- Writing and storing a value takes one storage call. -/
theorem valueStored_saves (hq : Passive cb) :
    (valueStored env cb w s data len).saves=w.saves+1 := by
  unfold valueStored
  rw [saveOne_saves,valueWritten_saves _ _ _ _ hq]

/-- Both copies after setting the flag of a record whose value was stored. -/
theorem flagStored_cells (hq : Passive cb) (hs : w.getByKey s.key=some s) :
    let stored' := valueStored env cb w s data len
    let next := (settingsSaveOne env (stored'.modify s.key (storeFlag true))
      (keyWithPrefix .changed s.key) (memOf [1]) 1).1
    ram next=Function.update (ram stored') (.changed,s.key) (some [1]) ∧
      stored next=if env.saveResult (w.saves+1)=0 then
        Function.update (stored stored') (.changed,s.key) (some [1]) else stored stored' := by
  intro stored' next
  have hrec := valueStored_getByKey env data len hq hs
  have hsaves : stored'.saves=w.saves+1 := valueStored_saves env w s data len hq
  have hmodify : stored (stored'.modify s.key (storeFlag true))=stored stored' :=
    stored_of_registrations (registrations_modify (fun _ => rfl) _ _) rfl
  constructor
  · dsimp only [next]
    rw [ram_saveOne,ram_storeFlag hrec]
    rfl
  · have hd := decode_flag ((storeFlag true).apply
      (if len=0 then s else (storeValue (bytesAt data len)).apply s)).maxSize true
    have hsave := stored_saveOne env (modify_self (storeFlag true) hrec) .changed
      (memOf [1]) 1
    change (_=if env.saveResult stored'.saves=0 then _ else _) at hsave
    rw [hsaves,hmodify] at hsave
    dsimp only [next]
    refine hsave.trans ?_
    by_cases hr : env.saveResult (w.saves+1)=0
    · rw [if_pos hr,if_pos hr]
      exact congrArg _ hd
    · rw [if_neg hr,if_neg hr]

variable (env data) in
/-- The copy in RAM after writing a value to it and storing it. -/
theorem ram_valueStored (hq : Passive cb) (hs : w.getByKey s.key=some s) (hf : len ≤ s.maxSize) :
    ram (valueStored env cb w s data len)=ramSet w s data len := by
  unfold valueStored ramSet
  rw [ram_saveOne,ram_valueWritten hq hs hf]

variable (env) in
/-- A call that writes a value ends in one of the four ways. -/
theorem set_outcome (hq : Passive cb) (hs : w.getByKey s.key=some s) (hw : Writes s data len) :
    SetOutcome env w s data len (ram (prvUserSettingsSet env cb w s data len).1)
      (stored (prvUserSettingsSet env cb w s data len).1)
      (prvUserSettingsSet env cb w s data len).2 := by
  have hstored := stored_valueStored env data hq hs hw.fits
  have hram := ram_valueStored env data hq hs hw.fits
  obtain ⟨hfram,hfstored⟩ := flagStored_cells hq hs
  rw [userSettingsSet_passive hq hs hw]
  dsimp only
  by_cases hv : env.saveResult w.saves=0
  · rw [if_pos hv] at hstored
    rw [if_neg (not_not.mpr hv)]
    by_cases hc : s.hasChangedRecently=true
    · rw [if_pos hc]
      dsimp only
      rw [hram,hstored]
      exact .flagged hv hc
    · rw [if_neg hc]
      dsimp only
      have hc' : s.hasChangedRecently=false := by simpa using hc
      by_cases hf : env.saveResult (w.saves+1)=0
      · rw [if_pos hf] at hfstored
        rw [if_pos hf,hfram,hfstored,hstored,hram]
        exact .saved hv hc' hf
      · rw [if_neg hf] at hfstored
        rw [if_neg hf,hfram,hfstored,hstored,hram]
        exact .flagUnsaved hv hc' hf
  · rw [if_neg hv] at hstored
    rw [if_pos hv]
    dsimp only
    rw [hram,hstored]
    exact .valueUnsaved hv

/-- A call that writes no bytes leaves the value in RAM and deletes its entry. -/
theorem set_empty (hq : Passive cb) (hs : w.getByKey s.key=some s) (hw : Writes s data 0)
    (hr : env.saveResult w.saves=0) :
    ram (prvUserSettingsSet env cb w s data 0).1 (.value,s.key)=ram w (.value,s.key) ∧
      stored (prvUserSettingsSet env cb w s data 0).1 (.value,s.key)=none := by
  have hne := cell_ne .value .changed (by decide) s.key s.key
  have hset : storedSet w s data 0 (.value,s.key)=none := Function.update_self ..
  have hout := set_outcome env hq hs hw
  revert hout
  generalize ram (prvUserSettingsSet env cb w s data 0).1=f
  generalize stored (prvUserSettingsSet env cb w s data 0).1=g
  generalize (prvUserSettingsSet env cb w s data 0).2=rc
  intro hout
  cases hout with
  | valueUnsaved hv => exact absurd hr hv
  | flagged => exact ⟨rfl,hset⟩
  | flagUnsaved =>
    rw [Function.update_of_ne hne]
    exact ⟨rfl,hset⟩
  | saved =>
    rw [Function.update_of_ne hne,Function.update_of_ne hne]
    exact ⟨rfl,hset⟩

/-- A call that writes a nonempty default value writes it to RAM, and to
storage if that succeeds. -/
theorem setDefault_cells (hs : w.getByKey s.key=some s) (hw : WritesDefault env s data len)
    (hn : len≠0) :
    ram (prvUserSettingsSetDefault env cb w s data len).1=
        Function.update (ram w) (.default,s.key) (some (bytesAt data len)) ∧
      stored (prvUserSettingsSetDefault env cb w s data len).1=
        if env.saveResult w.saves=0 then
          Function.update (stored w) (.default,s.key) (some (bytesAt data len)) else stored w := by
  have hf : (bytesAt data len).length ≤ s.maxSize := by
    rw [length_bytesAt]
    exact hw.fits
  have hmodify : stored (w.modify s.key (storeDefault (bytesAt data len)))=stored w :=
    stored_of_registrations (registrations_modify (fun _ => rfl) _ _) rfl
  have hd := decode_value data .default hw.fits (by decide)
  have hsave := stored_saveOne env
    (modify_self (storeDefault (bytesAt data len)) hs) .default data len
  rw [hmodify] at hsave
  rw [userSettingsSetDefault_writes hs hw]
  unfold defaultWritten
  rw [if_neg hn]
  dsimp only
  rw [ram_saveOne,ram_storeDefault hs hf]
  refine ⟨rfl,hsave.trans ?_⟩
  change (if env.saveResult w.saves=0 then _ else _)=_
  by_cases hr : env.saveResult w.saves=0
  · rw [if_pos hr,if_pos hr]
    refine congrArg _ (hd.trans ?_)
    rw [if_neg hn]
  · rw [if_neg hr,if_neg hr]

/-- A call that writes no bytes leaves the default value in RAM and deletes
its entry. -/
theorem setDefault_empty (hs : w.getByKey s.key=some s) (hw : WritesDefault env s data 0)
    (hr : env.saveResult w.saves=0) :
    ram (prvUserSettingsSetDefault env cb w s data 0).1 (.default,s.key)=
        ram w (.default,s.key) ∧
      stored (prvUserSettingsSetDefault env cb w s data 0).1 (.default,s.key)=none := by
  have hsave := stored_saveOne env hs .default data 0
  rw [if_pos hr] at hsave
  rw [userSettingsSetDefault_writes hs hw]
  unfold defaultWritten
  rw [if_pos rfl]
  dsimp only
  rw [ram_saveOne,hsave,Function.update_self]
  exact ⟨rfl,rfl⟩

/-- Setting a flag writes it to RAM, and to storage if it changed and storing
succeeds. -/
theorem flag_cells (hs : w.getByKey s.key=some s) (flag : Bool) :
    ram (prvSetChangedRecentlyFlag env cb w s flag).1=
        Function.update (ram w) (.changed,s.key) (flagContent flag) ∧
      stored (prvSetChangedRecentlyFlag env cb w s flag).1=
        if flag=s.hasChangedRecently ∨ env.saveResult w.saves≠0 then stored w
        else Function.update (stored w) (.changed,s.key) (flagContent flag) := by
  rw [setChangedRecentlyFlag_eq hs]
  by_cases hf : flag=s.hasChangedRecently
  · have hsame : ram w (.changed,s.key)=flagContent flag := by
      rw [ram_eq hs,hf]
      rfl
    rw [if_pos hf,if_pos (.inl hf),←hsame,Function.update_eq_self]
    exact ⟨rfl,rfl⟩
  · have hmodify : stored (w.modify s.key (storeFlag flag))=stored w :=
      stored_of_registrations (registrations_modify (fun _ => rfl) _ _) rfl
    have hd := decode_flag ((storeFlag flag).apply s).maxSize flag
    have hsave := stored_saveOne env (modify_self (storeFlag flag) hs) .changed
      (memOf [boolByte flag]) 1
    rw [hmodify] at hsave
    rw [if_neg hf]
    dsimp only
    rw [ram_saveOne,ram_storeFlag hs]
    refine ⟨rfl,hsave.trans ?_⟩
    change (if env.saveResult w.saves=0 then _ else _)=_
    by_cases hr : env.saveResult w.saves=0
    · have hno : ¬(flag=s.hasChangedRecently ∨ env.saveResult w.saves≠0) := by
        intro h
        cases h with
        | inl h => exact hf h
        | inr h => exact h hr
      rw [if_pos hr,if_neg hno]
      exact congrArg _ hd
    · rw [if_neg hr,if_pos (.inr hr)]

end UserSettings.Outcomes
