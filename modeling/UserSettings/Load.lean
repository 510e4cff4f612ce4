import UserSettings.Reactions

/-!
# Loading and rebooting

Loading visits the stored entries in the order of the backend; names are
distinct, so every record receives at most one entry of each subtree and the
order does not matter. A reboot is thereby a function of the registrations
and the entries: what was in RAM before has no influence.
-/

namespace UserSettings.Load

open Bytes Settings Storage Store Effects

/-- Lists of records are determined by their records. -/
theorem settingsList_ext {left right : SettingsList} (h : left.items=right.items) :
    left=right := by
  cases left
  cases right
  simp only at h
  subst h
  rfl

/-- Updates that agree on the record under the key change the state alike. -/
theorem modify_congr {w : World} {key : CString} {u v : Update}
    (h : ∀ s,w.getByKey key=some s → u.apply s=v.apply s) : w.modify key u=w.modify key v := by
  have hl : w.list.modify key u=w.list.modify key v := by
    apply settingsList_ext
    unfold SettingsList.modify
    dsimp only
    apply List.map_congr_left
    intro s hs
    split
    · rename_i hk
      exact h s (hk ▸ getByKey_of_mem hs)
    · rfl
  unfold World.modify
  rw [hl]

/-- The update that leaves every record as it is. -/
def keep : Update := ⟨id,fun _ => rfl,fun _ => rfl⟩

/-- Keeping a record changes nothing. -/
theorem modify_keep (w : World) (key : CString) : w.modify key keep=w := by
  have hl : w.list.modify key keep=w.list := by
    apply settingsList_ext
    unfold SettingsList.modify keep
    simp only [id_eq,ite_self,List.map_id']
  unfold World.modify
  rw [hl]

/-- An update that leaves the record under its key as it is changes nothing. -/
theorem modify_eq_self {w : World} {key : CString} {u : Update}
    (h : ∀ s,w.getByKey key=some s → u.apply s=s) : w.modify key u=w :=
  (modify_congr h).trans (modify_keep w key)

/-- What the handler of a subtree does with one stored entry at load. -/
def loadUpdate (subtree : Subtree) (entry : List UInt8) : Update where
  apply := fun s =>
    match subtree with
    | .default =>
      if s.maxSize<entry.length ∨ entry=[] then s else (storeDefault entry).apply s
    | .value => if s.maxSize<entry.length ∨ entry=[] then s else (storeValue entry).apply s
    | .changed =>
      match entry with
      | [] => s
      | byte::_ => (storeFlag (byte≠0)).apply s
  id_apply := by
    intro s
    cases subtree with
    | default =>
      dsimp only
      split <;> rfl
    | value =>
      dsimp only
      split <;> rfl
    | changed => cases entry <;> rfl
  key_apply := by
    intro s
    cases subtree with
    | default =>
      dsimp only
      split <;> rfl
    | value =>
      dsimp only
      split <;> rfl
    | changed => cases entry <;> rfl

/-- What the write of an accepted entry keeps is kept by loading any entry. -/
theorem loadUpdate_keeps {P : UserSetting → Prop} {subtree : Subtree} {entry : List UInt8}
    {s : UserSetting}
    (hvalue : subtree=.value → entry≠[] → entry.length ≤ s.maxSize →
      P ((storeValue entry).apply s))
    (hdefault : subtree=.default → entry≠[] → entry.length ≤ s.maxSize →
      P ((storeDefault entry).apply s))
    (hflag : subtree=.changed → ∀ flag,P ((storeFlag flag).apply s)) (hs : P s) :
    P ((loadUpdate subtree entry).apply s) := by
  unfold loadUpdate
  cases subtree with
  | default =>
    dsimp only
    split
    · exact hs
    · rename_i hc
      exact hdefault rfl (fun h => hc (.inr h)) (by omega)
  | value =>
    dsimp only
    split
    · exact hs
    · rename_i hc
      exact hvalue rfl (fun h => hc (.inr h)) (by omega)
  | changed =>
    cases entry with
    | nil => exact hs
    | cons byte rest => exact hflag rfl _

/-- Loading an entry keeps what was registered. -/
theorem plain_loadUpdate (subtree : Subtree) (entry : List UInt8) :
    Plain (loadUpdate subtree entry) := fun s =>
  loadUpdate_keeps (P:=fun t => registration t=registration s) (fun _ _ _ => rfl)
    (fun _ _ _ => rfl) (fun _ _ => rfl) rfl

/-- An entry that fits is read whole. -/
theorem storedReadCb_read {entry : List UInt8} {size : ℕ} (h : ¬size<entry.length) :
    (storedReadCb entry).read size=.ok entry := by
  dsimp only [storedReadCb]
  rw [List.take_of_length_le (Nat.not_lt.mp h)]

/-- Loading a default value changes the record of its key by the entry. -/
theorem prvDefaultSetCb_stored (w : World) (key : CString) (entry : List UInt8) :
    (prvDefaultSetCb w key entry.length (storedReadCb entry)).1=
      w.modify key (loadUpdate .default entry) := by
  unfold prvDefaultSetCb
  cases hs : userSettingsListGetByKey w.list key with
  | none => exact (modify_eq_self (by simp [World.getByKey,hs])).symm
  | some s =>
    dsimp only
    by_cases hf : s.maxSize<entry.length
    · rw [if_pos hf]
      exact (modify_eq_self (by simp [World.getByKey,hs,loadUpdate,hf])).symm
    · rw [if_neg hf,storedReadCb_read hf]
      by_cases he : entry=[]
      · rw [he]
        exact (modify_eq_self (by simp [World.getByKey,hs,loadUpdate])).symm
      · dsimp only
        rw [if_neg he]
        exact modify_congr (by simp [World.getByKey,hs,loadUpdate,hf,he])

/-- Loading a value changes the record of its key by the entry, and then calls
the callbacks if the entry is taken. -/
theorem prvValueSetCb_cases (cb : Callbacks) (w : World) (key : CString) (entry : List UInt8) :
    (prvValueSetCb cb w key entry.length (storedReadCb entry)).1=
        w.modify key (loadUpdate .value entry) ∨
      ∃ s,w.getByKey key=some s ∧ (prvValueSetCb cb w key entry.length (storedReadCb entry)).1=
        notifyOwn cb (notifyGlobal cb (w.modify key (loadUpdate .value entry)) s) s := by
  unfold prvValueSetCb
  cases hs : userSettingsListGetByKey w.list key with
  | none => exact .inl (modify_eq_self (by simp [World.getByKey,hs])).symm
  | some s =>
    dsimp only
    by_cases hf : s.maxSize<entry.length
    · rw [if_pos hf]
      exact .inl (modify_eq_self (by simp [World.getByKey,hs,loadUpdate,hf])).symm
    · rw [if_neg hf,storedReadCb_read hf]
      by_cases he : entry=[]
      · rw [he]
        exact .inl (modify_eq_self (by simp [World.getByKey,hs,loadUpdate])).symm
      · have hsame : w.modify key (storeValue entry)=w.modify key (loadUpdate .value entry) :=
          modify_congr (by simp [World.getByKey,hs,loadUpdate,hf,he])
        dsimp only
        rw [if_neg he,hsame]
        exact .inr ⟨s,hs,rfl⟩

/-- Callbacks are not called before the module is loaded. -/
theorem prvValueSetCb_stored (cb : Callbacks) {w : World} (hl : w.isLoaded=false)
    (key : CString) (entry : List UInt8) :
    (prvValueSetCb cb w key entry.length (storedReadCb entry)).1=
      w.modify key (loadUpdate .value entry) := by
  have hquiet : ∀ (u : World) (s : UserSetting),u.isLoaded=false →
      notifyOwn cb (notifyGlobal cb u s) s=u := by
    intro u s hu
    simp only [notifyGlobal,notifyOwn,hu,Bool.and_false,Bool.false_eq_true,if_false]
  rcases prvValueSetCb_cases cb w key entry with h|⟨s,_,h⟩
  · exact h
  · rw [h]
    exact hquiet _ s hl

/-- Loading a flag changes the record of its key by the entry. -/
theorem prvChangedFlagSetCb_stored (w : World) (key : CString) (entry : List UInt8) :
    (prvChangedFlagSetCb w key entry.length (storedReadCb entry)).1=
      w.modify key (loadUpdate .changed entry) := by
  unfold prvChangedFlagSetCb
  cases hs : userSettingsListGetByKey w.list key with
  | none => exact (modify_eq_self (by simp [World.getByKey,hs])).symm
  | some s =>
    cases entry with
    | nil => exact (modify_eq_self (fun _ _ => rfl)).symm
    | cons byte rest => exact modify_congr (fun _ _ => rfl)

/-- Before the module is loaded a handler only changes the record of its
key, and calls no callback. -/
theorem hSet_stored (cb : Callbacks) {w : World} (hl : w.isLoaded=false) (subtree : Subtree)
    (key : CString) (entry : List UInt8) :
    (hSet cb w subtree key entry.length (storedReadCb entry)).1=
      w.modify key (loadUpdate subtree entry) := by
  cases subtree with
  | default => exact prvDefaultSetCb_stored w key entry
  | value => exact prvValueSetCb_stored cb hl key entry
  | changed => exact prvChangedFlagSetCb_stored w key entry

/-- A handler does nothing, or loads the bytes that it reads; the one for
values then calls the callbacks if it has taken them. -/
theorem hSet_cases (cb : Callbacks) (w : World) (subtree : Subtree) (key : CString) (len : ℕ)
    (readCb : ReadCb) : (hSet cb w subtree key len readCb).1=w ∨
      ∃ s bytes,w.getByKey key=some s ∧
        ((hSet cb w subtree key len readCb).1=w.modify key (loadUpdate subtree bytes) ∨
          subtree=.value ∧ (hSet cb w subtree key len readCb).1=
            notifyOwn cb (notifyGlobal cb (w.modify key (loadUpdate subtree bytes)) s) s) := by
  cases hs : userSettingsListGetByKey w.list key with
  | none =>
    refine .inl ?_
    cases subtree <;> simp only [hSet,prvDefaultSetCb,prvValueSetCb,prvChangedFlagSetCb,hs]
  | some s =>
    have hfit : ∀ {bytes},readCb.read s.maxSize=.ok bytes → bytes≠[] →
        ¬(s.maxSize<bytes.length ∨ bytes=[]) := by
      intro bytes hread hn hc
      have hle := readCb.bounded _ _ hread
      exact hc.elim (fun h => by omega) hn
    cases subtree with
    | default =>
      dsimp only [hSet]
      unfold prvDefaultSetCb
      rw [hs]
      dsimp only
      split
      · exact .inl rfl
      · split
        · exact .inl rfl
        · rename_i bytes hread
          split
          · exact .inl rfl
          · rename_i hn
            refine .inr ⟨s,bytes,hs,.inl (modify_congr fun t ht => ?_)⟩
            cases Option.some.inj (hs.symm.trans ht)
            exact (if_neg (hfit hread hn)).symm
    | value =>
      dsimp only [hSet]
      unfold prvValueSetCb
      rw [hs]
      dsimp only
      split
      · exact .inl rfl
      · split
        · exact .inl rfl
        · rename_i bytes hread
          split
          · exact .inl rfl
          · rename_i hn
            have hsame : w.modify key (storeValue bytes)=
                w.modify key (loadUpdate .value bytes) := by
              refine modify_congr fun t ht => ?_
              cases Option.some.inj (hs.symm.trans ht)
              exact (if_neg (hfit hread hn)).symm
            dsimp only
            rw [hsame]
            exact .inr ⟨s,bytes,hs,.inr ⟨rfl,rfl⟩⟩
    | changed =>
      dsimp only [hSet]
      unfold prvChangedFlagSetCb
      rw [hs]
      dsimp only
      split
      · exact .inl rfl
      · exact .inl rfl
      · rename_i byte rest _
        exact .inr ⟨s,byte::rest,hs,.inl rfl⟩

/-- What every delivery keeps is kept by loading a subtree. -/
theorem loadSubtree_keeps {P : World → Prop} {cb : Callbacks} {subtree : Subtree}
    {loading : Loading} {w : World}
    (hstep : ∀ d∈loading.deliveries,∀ u,P u → P (hSet cb u subtree d.key d.len d.readCb).1)
    (hw : P w) : P (settingsLoadSubtree cb w subtree loading).1 :=
  List.foldlRecOn loading.deliveries _ hw fun u hu d hd => hstep d hd u hu

/-- What every subtree keeps is kept by a load, also when it stops half way. -/
theorem load_keeps {P : World → Prop} {env : Env} {w next : World}
    {backend : Subtree → Loading} {ret : ℤ}
    (hsubtree : ∀ subtree u,P u →
      P (settingsLoadSubtree env.callbacks u subtree (backend subtree)).1)
    (hloaded : ∀ u,P u → P {u with isLoaded := true}) (hw : P w)
    (h : userSettingsLoad env w backend=.ok (next,ret)) : P next := by
  have hdefaults := hsubtree .default w hw
  have hvalues := hsubtree .value _ hdefaults
  have hflags := hsubtree .changed _ hvalues
  unfold userSettingsLoad at h
  split at h
  · dsimp only at h
    split at h
    · cases h
      exact hdefaults
    · split at h
      · cases h
        exact hvalues
      · split at h
        · cases h
          exact hflags
        · cases h
          exact hloaded _ hflags
  · cases h

/-- What loading one subtree makes of a record. -/
def loadFrom (subtree : Subtree) (entries : List (Σ _ : CString,List UInt8)) (s : UserSetting) :
    UserSetting :=
  match entries.dlookup (keyWithPrefix subtree s.key) with
  | none => s
  | some entry => (loadUpdate subtree entry).apply s

/-- The key of a record stays while it is loaded. -/
@[simp] theorem loadFrom_key (subtree : Subtree) (entries : List (Σ _ : CString,List UInt8))
    (s : UserSetting) : (loadFrom subtree entries s).key=s.key := by
  unfold loadFrom
  split
  · rfl
  · exact (loadUpdate _ _).key_apply s

/-- An entry without a record of its own loads as if it were not there. -/
theorem loadFrom_cons_ne {subtree : Subtree} {name : CString} {bytes : List UInt8}
    {entries : List (Σ _ : CString,List UInt8)} {s : UserSetting}
    (h : keyWithPrefix subtree s.key≠name) :
    loadFrom subtree (⟨name,bytes⟩::entries) s=loadFrom subtree entries s := by
  have hd : List.dlookup (keyWithPrefix subtree s.key) (⟨name,bytes⟩::entries)=
      entries.dlookup (keyWithPrefix subtree s.key) :=
    List.dlookup_cons_ne (β:=fun _ : CString => List UInt8) _ ⟨name,bytes⟩ h
  unfold loadFrom
  rw [hd]

/-- The first entry of a record is the one that is loaded when names are distinct. -/
theorem loadFrom_cons_self {subtree : Subtree} {name : CString} {bytes : List UInt8}
    {entries : List (Σ _ : CString,List UInt8)} {s : UserSetting}
    (h : keyWithPrefix subtree s.key=name) (hn : name∉entries.keys) :
    loadFrom subtree entries ((loadUpdate subtree bytes).apply s)=
      loadFrom subtree (⟨name,bytes⟩::entries) s := by
  have hnone : entries.dlookup name=none := List.dlookup_eq_none.mpr hn
  unfold loadFrom
  rw [(loadUpdate subtree bytes).key_apply s,h,hnone,List.dlookup_cons_eq]

/-- Loading the entries of one subtree changes each record by its own entry. -/
theorem loadSubtree_items (cb : Callbacks) (subtree : Subtree)
    (entries : List (Σ _ : CString,List UInt8)) (hn : entries.NodupKeys) (w : World)
    (hl : w.isLoaded=false) :
    ∃ list,(settingsLoadSubtree cb w subtree (loadingOf entries subtree)).1={w with list := list} ∧
      list.items=w.list.items.map (loadFrom subtree entries) := by
  induction entries generalizing w with
  | nil =>
    refine ⟨w.list,rfl,?_⟩
    have hid : loadFrom subtree []=id := rfl
    rw [hid,List.map_id]
  | cons entry rest ih =>
    obtain ⟨name,bytes⟩ := entry
    obtain ⟨hhead,hrest⟩ := List.nodupKeys_cons.mp hn
    cases hk : keyAfterPrefix subtree name with
    | none =>
      obtain ⟨list,he,hi⟩ := ih hrest w hl
      refine ⟨list,?_,?_⟩
      · rw [←he]
        simp only [settingsLoadSubtree,loadingOf,List.filterMap_cons,hk,Option.map_none]
      · rw [hi]
        apply List.map_congr_left
        intro s _
        refine (loadFrom_cons_ne ?_).symm
        intro h
        rw [keyAfterPrefix_eq_some.mpr h.symm] at hk
        cases hk
    | some key =>
      have hname := keyAfterPrefix_eq_some.mp hk
      obtain ⟨list,he,hi⟩ := ih hrest (w.modify key (loadUpdate subtree bytes)) hl
      refine ⟨list,?_,?_⟩
      · have hfirst := hSet_stored cb hl subtree key bytes
        simp only [settingsLoadSubtree,loadingOf,List.filterMap_cons,hk,Option.map_some,
          List.foldl_cons,hfirst] at he ⊢
        rw [he]
        rfl
      · rw [hi]
        unfold World.modify SettingsList.modify
        dsimp only
        rw [List.map_map]
        apply List.map_congr_left
        intro s _
        rw [Function.comp_apply]
        by_cases hs : s.key=key
        · rw [if_pos hs]
          exact loadFrom_cons_self (by rw [hs,hname]) hhead
        · rw [if_neg hs]
          refine (loadFrom_cons_ne ?_).symm
          intro h
          rw [hname] at h
          exact hs (keyWithPrefix_inj.mp h).2

/-- What a full load makes of a record, subtree by subtree. -/
def loadRecord (nvs : Entries) (s : UserSetting) : UserSetting :=
  loadFrom .changed nvs.entries (loadFrom .value nvs.entries (loadFrom .default nvs.entries s))

/-- Loading an initialized module changes each record by its own entries and
nothing else. -/
theorem userSettingsLoad_eq (env : Env) {w : World} (hi : w.isInited=true)
    (hl : w.isLoaded=false) :
    ∃ list,userSettingsLoad env w (loadingOf w.nvs.entries)=
        .ok ({ w with list := list, isLoaded := true },0) ∧
      list.items=w.list.items.map (loadRecord w.nvs) := by
  have hn : w.nvs.entries.NodupKeys := w.nvs.nodupKeys
  obtain ⟨defaults,hd,hdi⟩ := loadSubtree_items env.callbacks .default w.nvs.entries hn w hl
  obtain ⟨values,hv,hvi⟩ := loadSubtree_items env.callbacks .value w.nvs.entries hn
    {w with list := defaults} hl
  obtain ⟨flags,hf,hfi⟩ := loadSubtree_items env.callbacks .changed w.nvs.entries hn
    {w with list := values} hl
  refine ⟨flags,?_,?_⟩
  · have herr : ∀ (u : World) (subtree : Subtree),(settingsLoadSubtree env.callbacks u subtree
        (loadingOf w.nvs.entries subtree)).2=0 := fun _ _ => rfl
    dsimp only at hv hf
    unfold userSettingsLoad
    simp only [hi,if_true,hd,herr,ne_eq,not_true_eq_false,if_false]
    rw [←hi,hv,hf]
  · rw [hfi,hvi,hdi,List.map_map,List.map_map]
    rfl

/-- The space of a registered setting: given by its type or by the application. -/
def space (r : Registration) : ℕ :=
  match prvTypeToSize r.type with
  | some size => size
  | none => r.size

/-- The record of a setting that was just registered. -/
def record (r : Registration) : UserSetting :=
  { UserSetting.fresh r.id r.key r.type (space r) with
    onChangeCb := r.onChangeCb
    validateCb := r.validateCb }

/-- Neither the identifier nor the key is in use. -/
def Fresh (list : SettingsList) (r : Registration) : Prop :=
  userSettingsListGetById list r.id=none ∧ userSettingsListGetByKey list r.key=none

/-- Adding a record to the list succeeds exactly when its names are new. -/
theorem prvUserSettingsListAdd_eq {list : SettingsList} {r : Registration} (h : Fresh list r)
    (size : ℕ) : ∃ added,prvUserSettingsListAdd list r.id r.key r.type size=.ok added ∧
      added.items=list.items++[UserSetting.fresh r.id r.key r.type size] := by
  exact ⟨_,dif_pos h,rfl⟩

/-- The add functions give a record the space of its registration. -/
theorem addSetting_eq {w : World} {r : Registration} (hi : w.isInited=true)
    (hf : Fresh w.list r) :
    ∃ added,Registration.addSetting w r=.ok {w with list := added} ∧
      added.items=w.list.items++[UserSetting.fresh r.id r.key r.type (space r)] := by
  obtain ⟨added,ha,hadded⟩ := prvUserSettingsListAdd_eq hf (space r)
  refine ⟨added,?_,hadded⟩
  unfold Registration.addSetting
  by_cases ht : r.type=.str ∨ r.type=.bytes
  · have hs : space r=r.size := by
      unfold space
      rcases ht with ht|ht <;> rw [ht] <;> rfl
    rw [if_pos ht]
    unfold userSettingsAddSized userSettingsListAddVariableSize
    rw [if_pos ⟨hi,ht⟩,if_pos ht,←hs,ha]
    rfl
  · have hs : prvTypeToSize r.type=some (space r) := by
      unfold space
      cases hty : r.type <;> simp_all [prvTypeToSize]
    rw [if_neg ht]
    unfold userSettingsAdd userSettingsListAddFixedSize
    rw [if_pos ⟨hi,fun h => ht (.inl h),fun h => ht (.inr h)⟩,hs]
    dsimp only
    rw [ha]
    rfl

/-- Changing the record that was added last leaves the earlier ones alone. -/
theorem modify_append {w : World} {items : List UserSetting} {s : UserSetting} (u : Update)
    (hw : w.list.items=items++[s]) (hf : ∀ t∈items,t.key≠s.key) :
    (w.modify s.key u).list.items=items++[u.apply s] := by
  unfold World.modify SettingsList.modify
  dsimp only
  rw [hw,List.map_append,List.map_singleton,if_pos rfl]
  have hid : ∀ t∈items,(if t.key=s.key then u.apply t else t)=t :=
    fun t ht => if_neg (hf t ht)
  rw [List.map_congr_left hid,List.map_id']

/-- Adding a setting with new names to an initialized module. -/
theorem add_eq {w : World} {r : Registration} (hi : w.isInited=true) (hf : Fresh w.list r) :
    ∃ list,Registration.add w r=.ok {w with list := list} ∧
      list.items=w.list.items++[record r] := by
  obtain ⟨added,ha,hadded⟩ := addSetting_eq hi hf
  have hkeys : ∀ t∈w.list.items,t.key≠r.key := by
    intro t ht hk
    have hn := List.find?_eq_none.mp hf.2 t ht
    simp [hk] at hn
  have hfound : ∀ {v : World} {s : UserSetting},v.list.items=w.list.items++[s] → s.key=r.key →
      (v.getByKey r.key).isSome=true := by
    intro v s hv hk
    have hs : s∈v.list.items := by
      rw [hv]
      exact List.mem_append_right _ List.mem_cons_self
    rw [←hk]
    unfold World.getByKey
    rw [getByKey_of_mem hs,Option.isSome_some]
  let first : World := {w with list := added}
  have hfirst : first.list.items=w.list.items++[UserSetting.fresh r.id r.key r.type (space r)] :=
    hadded
  have hsecond := modify_append (replaceOnChangeCb r.onChangeCb) hfirst hkeys
  have hthird := modify_append (replaceValidateCb r.validateCb) hsecond hkeys
  refine ⟨((first.modify r.key (replaceOnChangeCb r.onChangeCb)).modify r.key
    (replaceValidateCb r.validateCb)).list,?_,hthird⟩
  unfold Registration.add
  rw [ha]
  dsimp only [bind,Except.bind]
  unfold userSettingsSetOnChangeCbWithKey userSettingsSetValidateCbWithKey registerWithKey
  rw [if_pos ⟨hi,hfound hfirst rfl⟩]
  dsimp only
  rw [if_pos ⟨hi,hfound hsecond rfl⟩]
  rfl

/-- The list only takes new names. -/
theorem fresh_of_listAdd {list added : SettingsList} {r : Registration} {size : ℕ}
    (h : prvUserSettingsListAdd list r.id r.key r.type size=.ok added) : Fresh list r := by
  unfold prvUserSettingsListAdd at h
  split at h
  · assumption
  · cases h

/-- Adding only succeeds in an initialized module and with new names. -/
theorem fresh_of_addSetting {w next : World} {r : Registration}
    (h : Registration.addSetting w r=.ok next) : w.isInited=true ∧ Fresh w.list r := by
  unfold Registration.addSetting at h
  split at h
  · unfold userSettingsAddSized userSettingsListAddVariableSize at h
    split at h
    · rename_i hc
      cases ha : prvUserSettingsListAdd w.list r.id r.key r.type r.size with
      | error e =>
        rw [ha] at h
        cases h
      | ok added => exact ⟨hc.1,fresh_of_listAdd ha⟩
    · cases h
  · unfold userSettingsAdd userSettingsListAddFixedSize at h
    split at h
    · rename_i hc
      split at h
      · cases h
      · rename_i size _
        cases ha : prvUserSettingsListAdd w.list r.id r.key r.type size with
        | error e =>
          rw [ha] at h
          cases h
        | ok added => exact ⟨hc.1,fresh_of_listAdd ha⟩
    · cases h

/-- Registering callbacks as well needs no less. -/
theorem fresh_of_add {w next : World} {r : Registration} (h : Registration.add w r=.ok next) :
    w.isInited=true ∧ Fresh w.list r := by
  unfold Registration.add at h
  cases ha : Registration.addSetting w r with
  | error e =>
    rw [ha] at h
    cases h
  | ok v => exact fresh_of_addSetting ha

/-- Registrations that can be added once can be added again to an equal list
of any other state, with the same records. -/
theorem addAll_eq {regs : List Registration} {w v next : World}
    (h : regs.foldlM Registration.add w=.ok next) (hi : v.isInited=true)
    (hl : v.list.items=w.list.items) :
    ∃ list,regs.foldlM Registration.add v=.ok {v with list := list} ∧
      list.items=v.list.items++regs.map record := by
  induction regs generalizing w v with
  | nil =>
    refine ⟨v.list,rfl,?_⟩
    rw [List.map_nil,List.append_nil]
  | cons r rest ih =>
    rw [List.foldlM_cons] at h
    cases ha : Registration.add w r with
    | error e =>
      rw [ha] at h
      cases h
    | ok middle =>
      rw [ha] at h
      have hlist : v.list=w.list := settingsList_ext hl
      obtain ⟨hwi,hfresh⟩ := fresh_of_add ha
      obtain ⟨first,hfirst,hitems⟩ := add_eq hwi hfresh
      obtain ⟨other,hother,hotheritems⟩ := add_eq hi (hlist ▸ hfresh)
      have hmiddle : middle={w with list := first} := by
        rw [ha] at hfirst
        exact Except.ok.inj hfirst
      obtain ⟨list,hrun,hend⟩ := ih (w:=middle) (v:={v with list := other}) h hi
        (by rw [hmiddle]; dsimp only; rw [hotheritems,hitems,hl])
      refine ⟨list,?_,?_⟩
      · rw [List.foldlM_cons,hother]
        exact hrun
      · rw [hend]
        dsimp only
        rw [hotheritems,List.append_assoc]
        rfl

/-- The state after a start: registrations and entries decide all of it. -/
structure Booted (setup : Setup) (w next : World) : Prop where
  /-- Every record is what loading makes of a fresh one. -/
  items : next.list.items=setup.regs.map fun r => loadRecord w.nvs (record r)
  /-- The entries stay. -/
  nvs : next.nvs=w.nvs
  /-- The global callback is registered. -/
  globalOnChangeCb : next.globalOnChangeCb=setup.globalOnChangeCb
  /-- The module is initialized. -/
  isInited : next.isInited=true
  /-- The module is loaded. -/
  isLoaded : next.isLoaded=true
  /-- Nothing is stored. -/
  saves : next.saves=w.saves
  /-- No callback is called. -/
  trace : next.trace=w.trace

/-- What can be started once can be started again from any state. -/
theorem reboot_again {env other : Env} {setup : Setup} {w v next : World}
    (h : reboot env setup w=.ok next) :
    ∃ final,reboot other setup v=.ok final ∧ Booted setup v final := by
  let started : World → World := fun u =>
    {u.powerOff with list := userSettingsListInit, isInited := true}
  have hinit : ∀ u : World,userSettingsInit u.powerOff 0=.ok (started u,0) := fun _ => rfl
  unfold reboot at h ⊢
  rw [hinit] at h ⊢
  dsimp only [bind,Except.bind] at h ⊢
  cases ha : setup.regs.foldlM Registration.add (started w) with
  | error e =>
    rw [ha] at h
    cases h
  | ok added =>
    obtain ⟨list,hlist,hitems⟩ := addAll_eq (v:=started v) ha rfl rfl
    let ready : World :=
      { started v with
        list := list
        globalOnChangeCb := setup.globalOnChangeCb }
    obtain ⟨final,hload,hfinal⟩ := userSettingsLoad_eq other (w:=ready) rfl rfl
    refine ⟨{ready with list := final, isLoaded := true},?_,?_⟩
    · have hglobal : userSettingsSetGlobalOnChangeCb {started v with list := list}
          setup.globalOnChangeCb=.ok ready := rfl
      rw [hlist]
      dsimp only
      rw [hglobal]
      dsimp only
      rw [hload]
      rfl
    · refine ⟨?_,rfl,rfl,rfl,rfl,rfl,rfl⟩
      dsimp only
      rw [hfinal]
      change list.items.map _=_
      rw [hitems]
      change (([] : List UserSetting)++setup.regs.map record).map (loadRecord v.nvs)=_
      rw [List.nil_append,List.map_map]
      rfl

/-- A start gives the state that registrations and entries decide. -/
theorem reboot_ok {env : Env} {setup : Setup} {w next : World}
    (h : reboot env setup w=.ok next) : Booted setup w next := by
  obtain ⟨final,hf,hb⟩ := reboot_again (v:=w) h
  rw [h] at hf
  exact Except.ok.inj hf ▸ hb

end UserSettings.Load
