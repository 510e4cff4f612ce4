import UserSettings.Operations

/-!
# Loading whatever is stored

The first load of a device whose storage may have been written by other
firmware: entries may be unknown, too long or unreadable, and the backend may
enumerate them in any order. What cannot be loaded is skipped, so each record
becomes a function of its own three entries, and the order is forgotten.
-/

namespace UserSettings.LoadOrder

open Bytes Settings Storage Store Effects Load Records Cells Operations

/-- A list of entries as a backend enumerates it. -/
abbrev Enumerated := List (Σ _ : CString,List UInt8)

/-- The read callback for an entry that cannot be read. -/
def failingReadCb (rc : ℤ) : ReadCb where
  read := fun _ => .error rc
  bounded := by
    intro requested bytes h
    cases h

/-- Enumerate entries, of which some give an error when they are read. -/
def enumerate (fails : CString → Option ℤ) (entries : Enumerated) (subtree : Subtree) :
    Loading where
  deliveries := entries.filterMap fun entry =>
    (keyAfterPrefix subtree entry.1).map fun key =>
      ⟨key,entry.2.length,match fails entry.1 with
        | none => storedReadCb entry.2
        | some rc => failingReadCb rc⟩
  err := 0

/-- Start a device on a backend: initialize, add and register everything, load. -/
def startWith (env : Env) (setup : Setup) (w : World) (backend : Subtree → Loading) :
    Except Fault (World×ℤ) := do
  let (w,_) ← userSettingsInit w.powerOff 0
  let w ← setup.regs.foldlM Registration.add w
  let w ← userSettingsSetGlobalOnChangeCb w setup.globalOnChangeCb
  userSettingsLoad env w backend

/-- The entries that can be read. -/
def readable (fails : CString → Option ℤ) (entries : Enumerated) : Enumerated :=
  entries.filter fun entry => (fails entry.1).isNone

/-- The readable entry of a setting in a subtree. -/
def ownEntry (fails : CString → Option ℤ) (nvs : Entries) (key : CString) (subtree : Subtree) :
    Option (List UInt8) :=
  if (fails (keyWithPrefix subtree key)).isNone then nvs.lookup (keyWithPrefix subtree key)
  else none

/-- What the entry of a subtree makes of a record. -/
def loadOwn (subtree : Subtree) (entry : Option (List UInt8)) (s : UserSetting) : UserSetting :=
  match entry with
  | none => s
  | some entry => (loadUpdate subtree entry).apply s

/-- One half of a record after loading: filled by its entry if that fits. -/
structure LoadedHalf (own : Option (List UInt8)) {size : ℕ} (data : Buffer size) (len : ℕ)
    (isSet : Bool) : Prop where
  /-- An entry that fits is there with exactly its bytes. -/
  set : ∀ bytes,own=some bytes → bytes.length ≤ size →
    isSet=true ∧ len=bytes.length ∧ data.bytes.take len=bytes
  /-- Without such an entry the half stays empty. -/
  unset : (∀ bytes,own=some bytes → size<bytes.length) →
    isSet=false ∧ len=0 ∧ data=Buffer.zero size

/-- A record holds what its own entries say. -/
structure LoadedFrom (fails : CString → Option ℤ) (nvs : Entries) (s : UserSetting) : Prop where
  /-- The value. -/
  value : LoadedHalf (ownEntry fails nvs s.key .value) s.data s.dataLen s.isSet
  /-- The default value. -/
  default : LoadedHalf (ownEntry fails nvs s.key .default) s.defaultData s.defaultDataLen
    s.defaultIsSet
  /-- The changed flag. -/
  flag : s.hasChangedRecently=true ↔
    ∃ byte rest,ownEntry fails nvs s.key .changed=some (byte::rest) ∧ byte≠0

variable {fails : CString → Option ℤ} {cb : Callbacks} {subtree : Subtree}

/-- A handler leaves the state alone when reading fails. -/
theorem hSet_failing (w : World) (key : CString) (len : ℕ) (rc : ℤ) :
    (hSet cb w subtree key len (failingReadCb rc)).1=w := by
  cases subtree with
  | default =>
    dsimp only [hSet]
    unfold prvDefaultSetCb
    split
    · rfl
    · split <;> rfl
  | value =>
    dsimp only [hSet]
    unfold prvValueSetCb
    split
    · rfl
    · split <;> rfl
  | changed =>
    dsimp only [hSet]
    unfold prvChangedFlagSetCb
    split <;> rfl

/-- Entries that cannot be read are skipped. -/
theorem loadSubtree_readable (w : World) (entries : Enumerated) :
    settingsLoadSubtree cb w subtree (enumerate fails entries subtree)=
      settingsLoadSubtree cb w subtree (loadingOf (readable fails entries) subtree) := by
  induction entries generalizing w with
  | nil => rfl
  | cons entry rest ih =>
    have hrest := fun v => congrArg Prod.fst (ih v)
    simp only [settingsLoadSubtree] at hrest
    refine Prod.ext ?_ rfl
    cases hf : fails entry.1 with
    | none =>
      have hr : readable fails (entry::rest)=entry::readable fails rest :=
        List.filter_cons_of_pos (by rw [hf]; rfl)
      rw [hr]
      cases hk : keyAfterPrefix subtree entry.1 with
      | none =>
        simp only [settingsLoadSubtree,enumerate,loadingOf,List.filterMap_cons,hk,
          Option.map_none] at hrest ⊢
        exact hrest w
      | some key =>
        simp only [settingsLoadSubtree,enumerate,loadingOf,List.filterMap_cons,hk,
          Option.map_some,List.foldl_cons,hf] at hrest ⊢
        exact hrest _
    | some rc =>
      have hr : readable fails (entry::rest)=readable fails rest :=
        List.filter_cons_of_neg (by rw [hf]; exact Bool.false_ne_true)
      rw [hr]
      cases hk : keyAfterPrefix subtree entry.1 with
      | none =>
        simp only [settingsLoadSubtree,enumerate,loadingOf,List.filterMap_cons,hk,
          Option.map_none] at hrest ⊢
        exact hrest w
      | some key =>
        simp only [settingsLoadSubtree,enumerate,loadingOf,List.filterMap_cons,hk,
          Option.map_some,List.foldl_cons,hf,hSet_failing] at hrest ⊢
        exact hrest w

/-- The readable entry under a name. -/
theorem dlookup_readable (name : CString) (entries : Enumerated) :
    (readable fails entries).dlookup name=
      if (fails name).isNone then entries.dlookup name else none := by
  induction entries with
  | nil => split <;> rfl
  | cons entry rest ih =>
    unfold readable at ih ⊢
    obtain ⟨other,bytes⟩ := entry
    by_cases ho : name=other
    · subst ho
      by_cases hf : (fails name).isNone=true
      · rw [List.filter_cons_of_pos (by simpa using hf),List.dlookup_cons_eq,
          List.dlookup_cons_eq,if_pos hf]
      · rw [List.filter_cons_of_neg (by simpa using hf),ih,if_neg hf,if_neg hf]
    · have htail : List.dlookup name (⟨other,bytes⟩::rest)=rest.dlookup name :=
        List.dlookup_cons_ne (β:=fun _ : CString => List UInt8) rest ⟨other,bytes⟩ ho
      rw [htail,←ih]
      by_cases hf : (fails other).isNone=true
      · rw [List.filter_cons_of_pos (by simpa using hf)]
        exact List.dlookup_cons_ne (β:=fun _ : CString => List UInt8) _ ⟨other,bytes⟩ ho
      · rw [List.filter_cons_of_neg (by simpa using hf)]

/-- Every enumeration of the store loads the own entry of a record. -/
theorem loadFrom_readable {nvs : Entries} {entries : Enumerated}
    (hp : entries.Perm nvs.entries) (s : UserSetting) :
    loadFrom subtree (readable fails entries) s=
      loadOwn subtree (ownEntry fails nvs s.key subtree) s := by
  have hn : entries.NodupKeys := (List.perm_nodupKeys hp).mpr nvs.nodupKeys
  unfold loadFrom
  rw [dlookup_readable,List.perm_dlookup _ hn hp]
  rfl

/-- Loading an entry does not rename a record. -/
@[simp] theorem loadOwn_key (entry : Option (List UInt8)) (s : UserSetting) :
    (loadOwn subtree entry s).key=s.key := by
  cases entry with
  | none => rfl
  | some entry => exact (loadUpdate subtree entry).key_apply s

/-- What a load makes of a record, entry by entry. -/
def loadAll (own : CString → Subtree → Option (List UInt8)) (s : UserSetting) : UserSetting :=
  loadOwn .changed (own s.key .changed) (loadOwn .value (own s.key .value)
    (loadOwn .default (own s.key .default) s))

/-- Loading an entry keeps what was registered. -/
theorem registration_loadOwn (subtree : Subtree) (entry : Option (List UInt8))
    (s : UserSetting) : registration (loadOwn subtree entry s)=registration s := by
  cases entry with
  | none => rfl
  | some entry => exact plain_loadUpdate subtree entry s

/-- So does a whole load. -/
theorem registration_loadAll (own : CString → Subtree → Option (List UInt8)) (s : UserSetting) :
    registration (loadAll own s)=registration s := by
  unfold loadAll
  rw [registration_loadOwn,registration_loadOwn,registration_loadOwn]

/-- A first load changes each record by its own readable entries and nothing
else, in whatever order the entries come. -/
theorem load_eq (fails : CString → Option ℤ) (env : Env) {w : World} (hi : w.isInited=true)
    (hl : w.isLoaded=false) {order : Subtree → Enumerated}
    (ho : ∀ subtree,(order subtree).Perm w.nvs.entries) :
    ∃ list,userSettingsLoad env w (fun subtree => enumerate fails (order subtree) subtree)=
        .ok ({ w with list := list, isLoaded := true },0) ∧
      list.items=w.list.items.map (loadAll (ownEntry fails w.nvs)) := by
  have hn : ∀ subtree,(readable fails (order subtree)).NodupKeys := fun subtree =>
    ((List.perm_nodupKeys (ho subtree)).mpr w.nvs.nodupKeys).sublist List.filter_sublist
  obtain ⟨defaults,hd,hdi⟩ := loadSubtree_items env.callbacks .default
    (readable fails (order .default)) (hn .default) w hl
  obtain ⟨values,hv,hvi⟩ := loadSubtree_items env.callbacks .value
    (readable fails (order .value)) (hn .value) {w with list := defaults} hl
  obtain ⟨flags,hf,hfi⟩ := loadSubtree_items env.callbacks .changed
    (readable fails (order .changed)) (hn .changed) {w with list := values} hl
  refine ⟨flags,?_,?_⟩
  · have herr : ∀ (u : World) (entries : Enumerated) (subtree : Subtree),(settingsLoadSubtree
        env.callbacks u subtree (loadingOf entries subtree)).2=0 := fun _ _ _ => rfl
    dsimp only at hv hf
    unfold userSettingsLoad
    simp only [hi,if_true,loadSubtree_readable,hd,herr,ne_eq,not_true_eq_false,if_false]
    rw [←hi,hv,hf]
  · rw [hfi,hvi,hdi,List.map_map,List.map_map]
    apply List.map_congr_left
    intro s _
    rw [Function.comp_apply,Function.comp_apply,loadFrom_readable (ho .default),
      loadFrom_readable (ho .value),loadFrom_readable (ho .changed)]
    simp only [loadOwn_key]
    rfl

/-- A device behind user_settings_init. -/
def initialized (w : World) : World :=
  {w.powerOff with list := userSettingsListInit, isInited := true}

/-- The additions of a setup pass their checks, one after another on an empty list. -/
def CanBeAdded (setup : Setup) : Prop :=
  ∃ added,setup.regs.foldlM Registration.add (initialized (World.unstarted ∅))=.ok added

/-- A start whose additions pass comes to load what was registered. -/
theorem startWith_ready {setup : Setup} (h : CanBeAdded setup) (w : World) :
    ∃ ready : World,ready.isInited=true ∧ ready.isLoaded=false ∧ ready.nvs=w.nvs ∧
      ready.trace=w.trace ∧ ready.list.items=setup.regs.map record ∧
      ∀ env backend,startWith env setup w backend=userSettingsLoad env ready backend := by
  obtain ⟨added,hadded⟩ := h
  have hinit : userSettingsInit w.powerOff 0=.ok (initialized w,0) := rfl
  obtain ⟨list,hlist,hitems⟩ := addAll_eq (v:=initialized w) hadded rfl rfl
  let ready : World :=
    { initialized w with
      list := list
      globalOnChangeCb := setup.globalOnChangeCb }
  have hglobal : userSettingsSetGlobalOnChangeCb {initialized w with list := list}
      setup.globalOnChangeCb=.ok ready := rfl
  refine ⟨ready,rfl,rfl,rfl,rfl,hitems,fun env backend => ?_⟩
  unfold startWith
  rw [hinit]
  dsimp only [bind,Except.bind]
  rw [hlist]
  dsimp only
  rw [hglobal]

/-- A start on a backend whose additions pass succeeds, and gives the state that
registrations and readable entries decide. -/
theorem startWith_ok {setup : Setup} (h : CanBeAdded setup) (env : Env) {w : World}
    (fails : CString → Option ℤ) {order : Subtree → Enumerated}
    (ho : ∀ subtree,(order subtree).Perm w.nvs.entries) :
    ∃ next,startWith env setup w (fun subtree => enumerate fails (order subtree) subtree)=
        .ok (next,0) ∧ next.trace=w.trace ∧
      next.list.items=setup.regs.map fun r => loadAll (ownEntry fails w.nvs) (record r) := by
  obtain ⟨ready,hi,hl,hnvs,htrace,hitems,hstart⟩ := startWith_ready h w
  rw [←hnvs] at ho
  obtain ⟨list,hload,hloaded⟩ := load_eq fails env hi hl ho
  refine ⟨_,(hstart env _).trans hload,htrace,?_⟩
  dsimp only
  rw [hloaded,hitems,hnvs,List.map_map]
  rfl

/-- The order of enumeration does not matter. -/
theorem startWith_order {setup : Setup} (h : CanBeAdded setup) (env : Env) (w : World)
    {order other : Subtree → Enumerated} (ho : ∀ subtree,(order subtree).Perm w.nvs.entries)
    (hother : ∀ subtree,(other subtree).Perm w.nvs.entries) :
    startWith env setup w (fun subtree => enumerate fails (order subtree) subtree)=
      startWith env setup w (fun subtree => enumerate fails (other subtree) subtree) := by
  obtain ⟨ready,hi,hl,hnvs,_,_,hstart⟩ := startWith_ready h w
  rw [←hnvs] at ho hother
  obtain ⟨first,hfirst,hitems⟩ := load_eq fails env hi hl ho
  obtain ⟨second,hsecond,hothers⟩ := load_eq fails env hi hl hother
  have hlists : first=second := settingsList_ext (hitems.trans hothers.symm)
  rw [hstart,hstart,hfirst,hsecond,hlists]

section Halves

variable {own : Option (List UInt8)} {s : UserSetting}

/-- An entry that fits fills an empty half. -/
theorem loadedHalf_write {size : ℕ} {data : Buffer size} {bytes : List UInt8}
    (hf : bytes.length ≤ size) :
    LoadedHalf (some bytes) (data.write bytes) bytes.length true := by
  constructor
  · rintro _ ⟨⟩ _
    exact ⟨rfl,rfl,Buffer.take_write hf⟩
  · intro h
    have hlt := h bytes rfl
    omega

/-- An entry that does not fit leaves a half empty. -/
theorem LoadedHalf.of_long {size len : ℕ} {data : Buffer size} {isSet : Bool}
    {bytes : List UInt8} (h : LoadedHalf none data len isSet) (hf : size<bytes.length) :
    LoadedHalf (some bytes) data len isSet := by
  constructor
  · rintro _ ⟨⟩ hle
    omega
  · exact fun _ => h.unset (fun _ hn => absurd hn (by simp))

/-- Loading its own entry fills the value of a record. -/
theorem loadedHalf_value (hne : ∀ bytes,own=some bytes → bytes≠[])
    (h : LoadedHalf none s.data s.dataLen s.isSet) :
    LoadedHalf own (loadOwn .value own s).data (loadOwn .value own s).dataLen
      (loadOwn .value own s).isSet := by
  cases own with
  | none => exact h
  | some bytes =>
    unfold loadOwn loadUpdate
    dsimp only
    by_cases hc : s.maxSize<bytes.length ∨ bytes=[]
    · rw [if_pos hc]
      exact h.of_long (hc.resolve_right (hne bytes rfl))
    · have hfit : bytes.length ≤ s.maxSize := by omega
      rw [if_neg hc]
      exact loadedHalf_write hfit

/-- Loading its own entry fills the default value of a record. -/
theorem loadedHalf_default (hne : ∀ bytes,own=some bytes → bytes≠[])
    (h : LoadedHalf none s.defaultData s.defaultDataLen s.defaultIsSet) :
    LoadedHalf own (loadOwn .default own s).defaultData (loadOwn .default own s).defaultDataLen
      (loadOwn .default own s).defaultIsSet := by
  cases own with
  | none => exact h
  | some bytes =>
    unfold loadOwn loadUpdate
    dsimp only
    by_cases hc : s.maxSize<bytes.length ∨ bytes=[]
    · rw [if_pos hc]
      exact h.of_long (hc.resolve_right (hne bytes rfl))
    · have hfit : bytes.length ≤ s.maxSize := by omega
      rw [if_neg hc]
      exact loadedHalf_write hfit

/-- A property of values survives the entries of the other subtrees. -/
theorem loadOwn_value_ne {P : ∀ size,Buffer size → ℕ → Bool → Prop}
    {entry : Option (List UInt8)} (hs : subtree≠.value) (h : P s.maxSize s.data s.dataLen s.isSet) :
    P (loadOwn subtree entry s).maxSize (loadOwn subtree entry s).data
      (loadOwn subtree entry s).dataLen (loadOwn subtree entry s).isSet := by
  cases entry with
  | none => exact h
  | some bytes =>
    exact loadUpdate_keeps (P:=fun t => P t.maxSize t.data t.dataLen t.isSet)
      (fun he => absurd he hs) (fun _ _ _ => h) (fun _ _ => h) h

/-- A property of default values survives the entries of the other subtrees. -/
theorem loadOwn_default_ne {P : ∀ size,Buffer size → ℕ → Bool → Prop}
    {entry : Option (List UInt8)} (hs : subtree≠.default)
    (h : P s.maxSize s.defaultData s.defaultDataLen s.defaultIsSet) :
    P (loadOwn subtree entry s).maxSize (loadOwn subtree entry s).defaultData
      (loadOwn subtree entry s).defaultDataLen (loadOwn subtree entry s).defaultIsSet := by
  cases entry with
  | none => exact h
  | some bytes =>
    exact loadUpdate_keeps (P:=fun t => P t.maxSize t.defaultData t.defaultDataLen t.defaultIsSet)
      (fun _ _ _ => h) (fun he => absurd he hs) (fun _ _ => h) h

/-- The flag of a record is loaded from its own entry only. -/
theorem loadOwn_flag (entry : Option (List UInt8)) :
    (loadOwn subtree entry s).hasChangedRecently=true ↔
      if subtree=.changed ∧ entry≠none ∧ entry≠some [] then
        ∃ byte rest,entry=some (byte::rest) ∧ byte≠0
      else s.hasChangedRecently=true := by
  cases entry with
  | none => simp [loadOwn]
  | some bytes =>
    unfold loadOwn loadUpdate
    cases subtree with
    | default =>
      dsimp only
      split <;> simp [storeDefault]
    | value =>
      dsimp only
      split <;> simp [storeValue]
    | changed =>
      cases bytes with
      | nil => simp
      | cons byte rest => simp [storeFlag]

end Halves

/-- A fully loaded record holds what its own entries say. -/
theorem loadedFrom_loadAll {nvs : Entries} {r : Registration}
    (hne : ∀ entry∈nvs.entries,entry.2≠[]) :
    LoadedFrom fails nvs (loadAll (ownEntry fails nvs) (record r)) := by
  have hkey : (loadAll (ownEntry fails nvs) (record r)).key=(record r).key := by
    unfold loadAll
    simp only [loadOwn_key]
  have hown : ∀ subtree bytes,ownEntry fails nvs (record r).key subtree=some bytes → bytes≠[] := by
    intro subtree bytes h
    unfold ownEntry at h
    split at h
    · exact hne _ (List.of_mem_dlookup h)
    · cases h
  have hempty : ∀ size,LoadedHalf none (Buffer.zero size) 0 false := fun size =>
    ⟨fun _ hn => absurd hn (by simp),fun _ => ⟨rfl,rfl,rfl⟩⟩
  refine ⟨?_,?_,?_⟩
  · rw [hkey]
    unfold loadAll
    refine loadOwn_value_ne (P:=fun _ => LoadedHalf _) (by decide) ?_
    refine loadedHalf_value (hown .value) ?_
    exact loadOwn_value_ne (P:=fun _ => LoadedHalf _) (by decide) (hempty _)
  · rw [hkey]
    unfold loadAll
    refine loadOwn_default_ne (P:=fun _ => LoadedHalf _) (by decide) ?_
    refine loadOwn_default_ne (P:=fun _ => LoadedHalf _) (by decide) ?_
    exact loadedHalf_default (hown .default) (hempty _)
  · rw [hkey]
    unfold loadAll
    rw [loadOwn_flag,loadOwn_flag,loadOwn_flag]
    have hfresh : (record r).hasChangedRecently=false := rfl
    have hn := hown .changed
    cases he : ownEntry fails nvs (record r).key .changed with
    | none => simp [hfresh]
    | some bytes =>
      have hbytes := hn bytes he
      simp [hbytes]

/-- The loaded record under a key. -/
theorem getByKey_loaded {own : CString → Subtree → Option (List UInt8)} {w : World}
    {regs : List Registration}
    (h : w.list.items=regs.map fun r => loadAll own (record r)) (key : CString) :
    w.getByKey key=
      (regs.find? fun r => decide (key=r.key)).map fun r => loadAll own (record r) := by
  have hkey : (fun s : UserSetting => decide (key=s.key)) ∘ (fun r => loadAll own (record r))=
      fun r => decide (key=r.key) := by
    funext r
    have hr : (loadAll own (record r)).key=r.key := by
      unfold loadAll
      simp only [loadOwn_key]
      rfl
    simp only [Function.comp_apply,hr]
  unfold World.getByKey userSettingsListGetByKey
  rw [h,List.find?_map,hkey]

/-- For every setup whose additions pass and every store of nonempty entries,
whichever of them cannot be read: the first load succeeds with the same state for
every two orders of enumeration of each subtree; no callback is called; the records
are those of the setup, each with what its own three entries say; and on any other
store and state of the device the load succeeds too, with the same record wherever
these three entries are the same. -/
theorem load_local (env : Env) (setup : Setup) (hadd : CanBeAdded setup) (w : World)
    (fails : CString → Option ℤ) (hne : ∀ entry∈w.nvs.entries,entry.2≠[])
    (order other : Subtree → Enumerated) (ho : ∀ subtree,(order subtree).Perm w.nvs.entries)
    (hother : ∀ subtree,(other subtree).Perm w.nvs.entries) :
    ∃ next,startWith env setup w (fun subtree => enumerate fails (order subtree) subtree)=
        .ok (next,0) ∧
      startWith env setup w (fun subtree => enumerate fails (other subtree) subtree)=
        .ok (next,0) ∧
      next.trace=w.trace ∧ registrations next=registered setup ∧
      (∀ s∈next.list.items,LoadedFrom fails w.nvs s) ∧
      ∀ (env' : Env) (v : World) (fails' : CString → Option ℤ) (order' : Subtree → Enumerated),
        (∀ subtree,(order' subtree).Perm v.nvs.entries) →
        ∃ last,startWith env' setup v
            (fun subtree => enumerate fails' (order' subtree) subtree)=.ok (last,0) ∧
          ∀ key,(∀ subtree,ownEntry fails' v.nvs key subtree=ownEntry fails w.nvs key subtree) →
            last.getByKey key=next.getByKey key := by
  obtain ⟨next,hnext,htrace,hitems⟩ := startWith_ok hadd env fails ho
  refine ⟨next,hnext,(startWith_order hadd env w ho hother).symm.trans hnext,htrace,?_,?_,?_⟩
  · unfold registrations registered
    rw [hitems,List.map_map]
    exact List.map_congr_left fun r _ => registration_loadAll _ _
  · intro s hs
    rw [hitems] at hs
    obtain ⟨r,_,rfl⟩ := List.mem_map.mp hs
    exact loadedFrom_loadAll hne
  · intro env' v fails' order' hp
    obtain ⟨last,hlast,_,hothers⟩ := startWith_ok hadd env' fails' hp
    refine ⟨last,hlast,fun key hown => ?_⟩
    rw [getByKey_loaded hothers,getByKey_loaded hitems]
    cases hf : setup.regs.find? (fun r => decide (key=r.key)) with
    | none => rfl
    | some r =>
      have hkey : key=r.key := by simpa using List.find?_some hf
      have hr : (record r).key=key := hkey.symm
      rw [Option.map_some,Option.map_some]
      unfold loadAll
      rw [hr,hown,hown,hown]

/-- A store of the device with one byte setting, written by other firmware: a
value that is too long, a default, an unknown key. -/
def foreignEntries : Entries :=
  ((((∅ : Entries).insert (keyWithPrefix .value keyA) [1,2]).insert
    (keyWithPrefix .default keyA) [7]).insert
    (keyWithPrefix .value ⟨CString.ascii ['c'],by decide⟩) [9])

/-- A device loads these entries alike in either order: the setting has the default
value 7 and no value. -/
theorem load_local_on_device : ∃ next s,
    startWith calm (device .u8 0 none none) (World.unstarted foreignEntries)
        (fun subtree => enumerate (fun _ => none) foreignEntries.entries subtree)=.ok (next,0) ∧
      startWith calm (device .u8 0 none none) (World.unstarted foreignEntries)
        (fun subtree => enumerate (fun _ => none) foreignEntries.entries.reverse subtree)=
          .ok (next,0) ∧
      next.getByKey keyA=some s ∧ s.isSet=false ∧ s.defaultIsSet=true ∧ s.defaultValue=[7] := by
  obtain ⟨next,hnext,hreverse,_⟩ := load_local calm (device .u8 0 none none) ⟨_,rfl⟩
    (World.unstarted foreignEntries) (fun _ => none) (by decide)
    (fun _ => foreignEntries.entries) (fun _ => foreignEntries.entries.reverse)
    (fun _ => List.Perm.refl _) (fun _ => List.reverse_perm _)
  have hrecord : (startWith calm (device .u8 0 none none) (World.unstarted foreignEntries)
        (fun subtree => enumerate (fun _ => none) foreignEntries.entries subtree)).toOption.bind
      (fun r => (r.1.getByKey keyA).map fun s => (s.isSet,s.defaultIsSet,s.defaultValue))=
      some (false,true,[7]) := by decide +kernel
  rw [hnext] at hrecord
  obtain ⟨s,hs,hcheck⟩ := Option.map_eq_some_iff.mp hrecord
  obtain ⟨hunset,hset,hvalue⟩ : s.isSet=false ∧ s.defaultIsSet=true ∧ s.defaultValue=[7] := by
    simpa only [Prod.mk.injEq] using hcheck
  exact ⟨next,s,hnext,hreverse,hs,hunset,hset,hvalue⟩

end UserSettings.LoadOrder
