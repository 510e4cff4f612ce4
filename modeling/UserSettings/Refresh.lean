import UserSettings.StorageUse

/-!
# Loading a second time

A load of a module that is loaded already reads all entries again. An entry
that fits replaces the content of its cell in RAM, whether that was stored or
not; a cell without such an entry keeps its content, so nothing is ever unset.
Each value that is taken is announced, also when it is the one that was there.
-/

namespace UserSettings.Refresh

open Bytes Settings Storage Store Effects Setters Load Records Cells Outcomes Moves Transition
open Notices Durability Operations StorageUse Refinement

/-- The calls of callbacks when an entry is loaded. -/
def entryNotices (w : World) (subtree : Subtree) (entry : Σ _ : CString,List UInt8) : List Event :=
  match subtree,keyAfterPrefix subtree entry.1 with
  | .value,some key =>
    match w.getByKey key with
    | none => []
    | some s =>
      if s.maxSize<entry.2.length ∨ entry.2=[] then []
      else (if w.globalOnChangeCb.isSome then [⟨.global,s.id,s.key,some entry.2⟩] else [])++
        (if s.onChangeCb.isSome then [⟨.own,s.id,s.key,some entry.2⟩] else [])
  | _,_ => []

/-- The calls of callbacks when all entries are loaded, in their order. -/
def loadNotices (w : World) : List Event := w.nvs.entries.flatMap (entryNotices w .value)

/-- The content of a cell after a load. -/
def refreshed (subtree : Subtree) (size : ℕ) (old : Option (List UInt8)) :
    Option (List UInt8) → Option (List UInt8)
  | none => old
  | some entry =>
    match subtree with
    | .default | .value => if size<entry.length ∨ entry=[] then old else some entry
    | .changed =>
      match entry with
      | [] => old
      | byte::_ => flagContent (byte≠0)

variable {env : Env} {cb : Callbacks} {setup : Setup} {w v next : World} {s : UserSetting}

/-- Announcements depend on what is registered only. -/
theorem entryNotices_congr (hregs : registrations v=registrations w)
    (hglobal : v.globalOnChangeCb=w.globalOnChangeCb) (subtree : Subtree)
    (entry : Σ _ : CString,List UInt8) :
    entryNotices v subtree entry=entryNotices w subtree entry := by
  have hfound : ∀ key,(v.getByKey key).map registration=(w.getByKey key).map registration := by
    intro key
    rw [find_registrations,find_registrations,hregs]
  unfold entryNotices
  split
  · rename_i key _
    have hkey := hfound key
    cases hw : w.getByKey key with
    | none =>
      rw [hw,Option.map_none,Option.map_eq_none_iff] at hkey
      rw [hkey]
    | some s =>
      rw [hw] at hkey
      obtain ⟨t,ht,hr⟩ := Option.map_eq_some_iff.mp hkey
      have hid : t.id=s.id := congrArg Registration.id hr
      have hname : t.key=s.key := congrArg Registration.key hr
      have hsize : t.maxSize=s.maxSize := congrArg Registration.size hr
      have hown : t.onChangeCb=s.onChangeCb := congrArg Registration.onChangeCb hr
      rw [ht]
      dsimp only
      rw [hid,hname,hsize,hown,hglobal]
  · rfl

/-- A handler loads the entry and announces it. -/
theorem hSet_announced (hq : Passive cb) (hl : w.isLoaded=true) {subtree : Subtree}
    {name key : CString} (hname : keyAfterPrefix subtree name=some key) (bytes : List UInt8) :
    (hSet cb w subtree key bytes.length (storedReadCb bytes)).1=
      { w.modify key (loadUpdate subtree bytes) with
        trace := w.trace++entryNotices w subtree ⟨name,bytes⟩ } := by
  have hquiet : ∀ u : World,{u with trace := u.trace++[]}=u := by
    intro u
    rw [List.append_nil]
  unfold entryNotices
  dsimp only
  rw [hname]
  cases subtree with
  | default =>
    dsimp only
    exact (prvDefaultSetCb_stored w key bytes).trans (hquiet (w.modify key _)).symm
  | changed =>
    dsimp only
    exact (prvChangedFlagSetCb_stored w key bytes).trans (hquiet (w.modify key _)).symm
  | value =>
    dsimp only [hSet]
    unfold prvValueSetCb
    cases hs : userSettingsListGetByKey w.list key with
    | none =>
      have hfound : w.getByKey key=none := hs
      have hsame : w.modify key (loadUpdate .value bytes)=w :=
        modify_eq_self (by simp [World.getByKey,hs])
      rw [hfound,hsame]
      exact (hquiet w).symm
    | some s =>
      have hfound : w.getByKey key=some s := hs
      have hkey : s.key=key := key_of_getByKey hfound
      rw [hfound]
      dsimp only
      by_cases hf : s.maxSize<bytes.length
      · have hsame : w.modify key (loadUpdate .value bytes)=w :=
          modify_eq_self (by simp [World.getByKey,hs,loadUpdate,hf])
        rw [if_pos hf,if_pos (.inl hf),hsame]
        exact (hquiet w).symm
      · rw [if_neg hf,storedReadCb_read hf]
        dsimp only
        by_cases he : bytes=[]
        · have hsame : w.modify key (loadUpdate .value bytes)=w :=
            modify_eq_self (by simp [World.getByKey,hs,loadUpdate,he])
          rw [if_pos he,if_pos (.inr he),hsame]
          exact (hquiet w).symm
        · have hsame : w.modify key (loadUpdate .value bytes)=w.modify key (storeValue bytes) :=
            modify_congr (by simp [World.getByKey,hs,loadUpdate,hf,he])
          have hwritten := notices_written (w:=w) hl (hkey ▸ hfound) (Nat.not_lt.mp hf)
          rw [hkey] at hwritten
          rw [if_neg he,if_neg (not_or.mpr ⟨hf,he⟩),hsame,notify_passive hq,hwritten,hkey]
          rfl

/-- Loading one subtree again changes each record by its own entry, and
announces the values that are taken. -/
theorem refresh_subtree (hq : Passive cb) (subtree : Subtree)
    (entries : List (Σ _ : CString,List UInt8)) (hn : entries.NodupKeys)
    (hl : w.isLoaded=true) :
    ∃ list,(settingsLoadSubtree cb w subtree (loadingOf entries subtree)).1=
        { w with
          list := list
          trace := w.trace++entries.flatMap (entryNotices w subtree) } ∧
      list.items=w.list.items.map (loadFrom subtree entries) := by
  induction entries generalizing w with
  | nil =>
    refine ⟨w.list,?_,(List.map_id _).symm⟩
    rw [List.flatMap_nil,List.append_nil]
    rfl
  | cons entry rest ih =>
    obtain ⟨name,bytes⟩ := entry
    obtain ⟨hhead,hrest⟩ := List.nodupKeys_cons.mp hn
    cases hk : keyAfterPrefix subtree name with
    | none =>
      obtain ⟨list,he,hi⟩ := ih hrest hl
      have hsilent : entryNotices w subtree ⟨name,bytes⟩=[] := by
        unfold entryNotices
        dsimp only
        rw [hk]
        cases subtree <;> rfl
      refine ⟨list,?_,?_⟩
      · rw [List.flatMap_cons,hsilent,List.nil_append,←he]
        simp only [settingsLoadSubtree,loadingOf,List.filterMap_cons,hk,Option.map_none]
      · rw [hi]
        apply List.map_congr_left
        intro s _
        refine (loadFrom_cons_ne ?_).symm
        intro h
        rw [keyAfterPrefix_eq_some.mpr h.symm] at hk
        cases hk
    | some key =>
      have hname := keyAfterPrefix_eq_some.mp hk
      have hfirst := hSet_announced hq hl hk bytes
      let middle : World := { w.modify key (loadUpdate subtree bytes) with
        trace := w.trace++entryNotices w subtree ⟨name,bytes⟩ }
      have hregs : registrations middle=registrations w :=
        registrations_modify (plain_loadUpdate subtree bytes) w key
      obtain ⟨list,he,hi⟩ := ih (w:=middle) hrest hl
      refine ⟨list,?_,?_⟩
      · have hlater : ∀ other,entryNotices middle subtree other=entryNotices w subtree other :=
          entryNotices_congr hregs rfl subtree
        rw [funext hlater] at he
        simp only [settingsLoadSubtree,loadingOf,List.filterMap_cons,hk,Option.map_some,
          List.foldl_cons,hfirst] at he ⊢
        rw [he,List.flatMap_cons,List.append_assoc]
        rfl
      · rw [hi]
        change (w.list.modify key (loadUpdate subtree bytes)).items.map _=_
        unfold SettingsList.modify
        dsimp only
        rw [List.map_map]
        apply List.map_congr_left
        intro s _
        rw [Function.comp_apply]
        by_cases hs : s.key=key
        · rw [if_pos hs]
          exact loadFrom_cons_self (by rw [hs,hname]) hhead
        · rw [if_neg hs]
          refine (loadFrom_cons_ne ?_).symm
          intro h
          rw [hname] at h
          exact hs (keyWithPrefix_inj.mp h).2

/-- Loading again changes each record by its own entries and announces the
values that are taken; nothing else changes. -/
theorem refresh_load (hq : Passive env.callbacks) (hi : w.isInited=true) (hl : w.isLoaded=true) :
    ∃ list,userSettingsLoad env w (loadingOf w.nvs.entries)=
        .ok ({ w with list := list, trace := w.trace++loadNotices w },0) ∧
      list.items=w.list.items.map (loadRecord w.nvs) := by
  have hn : w.nvs.entries.NodupKeys := w.nvs.nodupKeys
  have hsilent : ∀ (u : World) (subtree : Subtree),subtree≠.value →
      ∀ entries : List (Σ _ : CString,List UInt8),entries.flatMap (entryNotices u subtree)=[] := by
    intro u subtree hne entries
    refine List.flatMap_eq_nil_iff.mpr fun entry _ => ?_
    cases subtree with
    | value => exact absurd rfl hne
    | default | changed => rfl
  obtain ⟨defaults,hd,hdi⟩ := refresh_subtree hq .default w.nvs.entries hn hl
  rw [hsilent _ .default (by decide),List.append_nil] at hd
  obtain ⟨values,hv,hvi⟩ := refresh_subtree (w:={w with list := defaults}) hq .value
    w.nvs.entries hn hl
  obtain ⟨flags,hf,hfi⟩ := refresh_subtree (w:={ w with
    list := values
    trace := w.trace++loadNotices w }) hq .changed w.nvs.entries hn hl
  rw [hsilent _ .changed (by decide),List.append_nil] at hf
  refine ⟨flags,?_,?_⟩
  · have hregs : registrations {w with list := defaults}=registrations w := by
      unfold registrations
      dsimp only
      rw [hdi,List.map_map]
      exact List.map_congr_left fun s _ => registration_loadFrom .default w.nvs.entries s
    have hnotices : w.nvs.entries.flatMap (entryNotices {w with list := defaults} .value)=
        loadNotices w :=
      congrArg w.nvs.entries.flatMap (funext (entryNotices_congr hregs rfl .value))
    have herr : ∀ (u : World) (subtree : Subtree),(settingsLoadSubtree env.callbacks u subtree
        (loadingOf w.nvs.entries subtree)).2=0 := fun _ _ => rfl
    rw [hnotices] at hv
    dsimp only at hv hf
    unfold userSettingsLoad
    simp only [hi,if_true,hd,herr,ne_eq,not_true_eq_false,if_false]
    rw [←hi,hv,hf]
    exact congrArg (fun loaded => Except.ok ({ w with
      list := flags
      isLoaded := loaded
      trace := w.trace++loadNotices w },(0 : ℤ))) (hi.trans hl.symm)
  · rw [hfi,hvi,hdi,List.map_map,List.map_map]
    rfl

/-- A cell after loading its subtree. -/
theorem content_loadFrom_refreshed (subtree : Subtree)
    (entries : List (Σ _ : CString,List UInt8)) (s : UserSetting) :
    content (loadFrom subtree entries s) subtree=refreshed subtree s.maxSize (content s subtree)
      (entries.dlookup (keyWithPrefix subtree s.key)) := by
  unfold loadFrom
  cases entries.dlookup (keyWithPrefix subtree s.key) with
  | none => rfl
  | some entry =>
    dsimp only [loadUpdate,refreshed]
    cases subtree with
    | default | value =>
      dsimp only
      by_cases hc : s.maxSize<entry.length ∨ entry=[]
      · rw [if_pos hc,if_pos hc]
      · have hf : entry.length ≤ s.maxSize := by omega
        rw [if_neg hc,if_neg hc]
        exact congrArg some (Buffer.take_write hf)
    | changed => cases entry <;> rfl

/-- A cell after a full load. -/
theorem content_refreshed (nvs : Entries) (s : UserSetting) (subtree : Subtree) :
    content (loadRecord nvs s) subtree=refreshed subtree s.maxSize (content s subtree)
      (nvs.lookup (keyWithPrefix subtree s.key)) := by
  have hsize : ∀ other t,(loadFrom other nvs.entries t).maxSize=t.maxSize :=
    fun other t => congrArg Registration.size (registration_loadFrom other nvs.entries t)
  unfold loadRecord
  cases subtree with
  | default =>
    rw [content_loadFrom_ne (by decide),content_loadFrom_ne (by decide),
      content_loadFrom_refreshed]
    rfl
  | value =>
    rw [content_loadFrom_ne (by decide),content_loadFrom_refreshed,hsize,loadFrom_key,
      content_loadFrom_ne (by decide)]
    rfl
  | changed =>
    rw [content_loadFrom_refreshed,hsize,hsize,loadFrom_key,loadFrom_key,
      content_loadFrom_ne (by decide),content_loadFrom_ne (by decide)]
    rfl

/-- An entry is taken once. -/
theorem refreshed_again (subtree : Subtree) (size : ℕ) (old entry : Option (List UInt8)) :
    refreshed subtree size (refreshed subtree size old entry) entry=
      refreshed subtree size old entry := by
  cases entry with
  | none => rfl
  | some entry =>
    cases subtree with
    | default | value =>
      dsimp only [refreshed]
      split <;> rfl
    | changed => cases entry <;> rfl

/-- A cell that shows its entry already stays. -/
theorem refreshed_decode (subtree : Subtree) (size : ℕ) (entry : Option (List UInt8)) :
    refreshed subtree size (decode subtree size entry) entry=decode subtree size entry := by
  cases entry with
  | none => rfl
  | some entry =>
    cases subtree with
    | default | value =>
      dsimp only [refreshed,decode]
      split
      · rfl
      · rfl
    | changed => cases entry <;> rfl

/-- A full load keeps what is registered. -/
theorem registrations_refreshed (hitems : next.list.items=w.list.items.map (loadRecord w.nvs)) :
    registrations next=registrations w := by
  unfold registrations
  rw [hitems,List.map_map]
  exact List.map_congr_left fun s _ => registration_loadRecord w.nvs s

/-- Devices with the same settings agree in RAM when all found records do. -/
theorem ram_ext (hregs : registrations next=registrations w)
    (h : ∀ key s,w.getByKey key=some s → ∀ subtree,ram next (subtree,key)=ram w (subtree,key)) :
    ram next=ram w := by
  funext cell
  obtain ⟨subtree,key⟩ := cell
  cases hs : w.getByKey key with
  | none =>
    have hnone := find_registrations next key
    rw [hregs,←find_registrations,hs,Option.map_none,Option.map_eq_none_iff] at hnone
    unfold ram
    rw [hnone,hs]
  | some s => exact h key s hs subtree

/-- The cells of RAM after a full load. -/
theorem ram_refreshed (hitems : next.list.items=w.list.items.map (loadRecord w.nvs))
    {key : CString} (hs : w.getByKey key=some s) (subtree : Subtree) :
    ram next (subtree,key)=refreshed subtree s.maxSize (ram w (subtree,key))
      (w.nvs.lookup (keyWithPrefix subtree key)) := by
  have hkey : s.key=key := key_of_getByKey hs
  have hmem : loadRecord w.nvs s∈next.list.items := by
    rw [hitems]
    exact List.mem_map_of_mem (getByKey_some hs).1
  have hsame : (loadRecord w.nvs s).key=s.key :=
    congrArg Registration.key (registration_loadRecord w.nvs s)
  have hfound : next.getByKey s.key=some (loadRecord w.nvs s) := hsame ▸ getByKey_of_mem hmem
  rw [←hkey,ram_eq hfound,ram_eq (hkey.symm ▸ hs),content_refreshed]

/-- When both copies agree a repeated load changes no cell. -/
theorem ram_refreshed_of_agree (hitems : next.list.items=w.list.items.map (loadRecord w.nvs))
    (ha : ram w=stored w) : ram next=ram w := by
  refine ram_ext (registrations_refreshed hitems) fun key s hs subtree => ?_
  rw [ram_refreshed hitems hs,ha,stored_eq hs,refreshed_decode]

/-- A move keeps a device serving. -/
theorem serving_move (hq : Passive env.callbacks) (hw : Serving setup w) {move : Move}
    (h : moveStep env setup w move=some next) : Serving setup next := by
  refine ⟨running_move hw.running h,?_⟩
  cases move with
  | call target call => exact (call_effects h).sameSetup.isInited.trans hw.isInited
  | reboot => exact (reboot_ok (toOption_eq_some.mp h)).isInited
  | load =>
    obtain ⟨list,hload,_⟩ := refresh_load hq hw.isInited hw.running.isLoaded
    obtain ⟨⟨loaded,ret⟩,hrun,rfl⟩ := Option.map_eq_some_iff.mp h
    cases hload.symm.trans (toOption_eq_some.mp hrun)
    exact hw.isInited

/-- Everything a device does keeps it serving. -/
theorem serving_actions (hq : Passive env.callbacks) {actions : List Action}
    (hw : Serving setup w) (h : run (actionStep env setup) w actions=some next) :
    Serving setup next :=
  run_invariant_always (fun _ _ _ hu hs => serving_move hq hu hs) hw (run_allMoves h)

/-- In every state that a device reaches, whichever storage calls failed, a
repeated load succeeds: each cell in RAM takes the entry that fits it, if there
is one, and each value that is taken is announced, in the order of the entries.
Storage stays, and a third load only announces the values again. -/
theorem repeated_load_exact (env : Env) (hquiet : ∀ n,env.react n=[]) (setup : Setup)
    (nvs : Entries) (start w : World) (actions : List Action) (hboot : boot env setup nvs=.ok start)
    (hrun : run (actionStep env setup) start actions=some w) :
    ∃ next again,userSettingsLoad env w (loadingOf w.nvs.entries)=.ok (next,0) ∧
      next.nvs=w.nvs ∧ next.saves=w.saves ∧ registrations next=registrations w ∧
      next.trace=w.trace++loadNotices w ∧
      (∀ key s,w.getByKey key=some s → ∀ subtree,ram next (subtree,key)=refreshed subtree s.maxSize
        (ram w (subtree,key)) (w.nvs.lookup (keyWithPrefix subtree key))) ∧
      userSettingsLoad env next (loadingOf next.nvs.entries)=.ok (again,0) ∧
      ram again=ram next ∧ again.trace=next.trace++loadNotices w := by
  have hq := passive_callbacks hquiet
  have hw : Serving setup w := serving_actions hq (serving_of_booted (reboot_ok hboot)) hrun
  obtain ⟨first,hfirst,hitems⟩ := refresh_load hq hw.isInited hw.running.isLoaded
  let next : World := { w with list := first, trace := w.trace++loadNotices w }
  have hregs : registrations next=registrations w := registrations_refreshed hitems
  have hcells : ∀ key s,w.getByKey key=some s → ∀ subtree,ram next (subtree,key)=refreshed subtree
      s.maxSize (ram w (subtree,key)) (w.nvs.lookup (keyWithPrefix subtree key)) :=
    fun _ _ hs subtree => ram_refreshed hitems hs subtree
  obtain ⟨second,hsecond,hagain⟩ := refresh_load (w:=next) hq hw.isInited hw.running.isLoaded
  let again : World := { next with list := second, trace := next.trace++loadNotices next }
  have hnotices : loadNotices next=loadNotices w :=
    congrArg w.nvs.entries.flatMap (funext (entryNotices_congr hregs rfl .value))
  refine ⟨next,again,hfirst,rfl,rfl,hregs,rfl,hcells,hsecond,?_,congrArg _ hnotices⟩
  refine ram_ext (registrations_refreshed hagain) fun key t ht subtree => ?_
  obtain ⟨s,hold,hreg⟩ := getByKey_of_registrations hregs.symm ht
  have hsize : s.maxSize=t.maxSize := maxSize_of_registration hreg
  have hsame : ram again (subtree,key)=refreshed subtree t.maxSize (ram next (subtree,key))
      (w.nvs.lookup (keyWithPrefix subtree key)) := ram_refreshed hagain ht subtree
  rw [hsame,hcells key s hold subtree,hsize]
  exact refreshed_again ..

/-- A value that could not be stored survives a repeated load, the entry of the
default value is taken again. -/
theorem repeated_load_exact_on_device :
    let setup := Operations.device .u8 0 none none
    let actions : List Action := [.device (.store (.setDefault (.key keyA) (memOf [7]) 1)),
      .device (.store (.set (.key keyA) (memOf [5]) 1))]
    ∃ start w,boot secondFails setup ∅=.ok start ∧
      run (actionStep secondFails setup) start actions=some w ∧
      w.nvs.lookup (keyWithPrefix .value keyA)=none ∧ ram w (.value,keyA)=some [5] ∧
      ∃ next again,userSettingsLoad secondFails w (loadingOf w.nvs.entries)=.ok (next,0) ∧
        next.nvs=w.nvs ∧ next.saves=w.saves ∧ registrations next=registrations w ∧
        next.trace=w.trace++loadNotices w ∧
        (∀ key s,w.getByKey key=some s → ∀ subtree,ram next (subtree,key)=
          refreshed subtree s.maxSize (ram w (subtree,key))
            (w.nvs.lookup (keyWithPrefix subtree key))) ∧
        userSettingsLoad secondFails next (loadingOf next.nvs.entries)=.ok (again,0) ∧
        ram again=ram next ∧ again.trace=next.trace++loadNotices w := by
  intro setup actions
  exact ⟨_,_,rfl,rfl,by decide +kernel,rfl,repeated_load_exact secondFails (fun _ => rfl) setup ∅
    _ _ actions rfl rfl⟩

end UserSettings.Refresh
