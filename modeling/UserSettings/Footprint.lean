import UserSettings.Moves

/-!
# What the module keeps in storage

Persistent storage is shared with the rest of the firmware. Whatever is called,
fails or is called back, the module writes under the three names of each of its
settings only, never more than the setting has room for. So the entries of
others stay as they are, and the space that the module needs is known from what
is registered.
-/

namespace UserSettings.Footprint

open Bytes Settings Storage Store Effects Setters Reactions Load Cells Outcomes Operations
open Transition Device Moves

section Budget

variable {α : Type*}

/-- Sizes with distinct names that are each covered by an item of a budget are
not more than the budget, in number and in sum. -/
theorem covered_by_budget {sizes budget : List (α×ℕ)} (hnames : (sizes.map Prod.fst).Nodup)
    (h : ∀ size∈sizes,∃ item∈budget,item.1=size.1 ∧ size.2 ≤ item.2) :
    sizes.length ≤ budget.length ∧ (sizes.map Prod.snd).sum ≤ (budget.map Prod.snd).sum := by
  induction sizes generalizing budget with
  | nil => exact ⟨Nat.zero_le _,Nat.zero_le _⟩
  | cons size rest ih =>
    rw [List.map_cons,List.nodup_cons] at hnames
    obtain ⟨item,hitem,hname,hle⟩ := h size List.mem_cons_self
    obtain ⟨before,behind,rfl⟩ := List.append_of_mem hitem
    -- the item is used up, and the other sizes have other names
    have hrest : ∀ other∈rest,∃ item∈before++behind,item.1=other.1 ∧ other.2 ≤ item.2 := by
      intro other hother
      obtain ⟨cover,hcover,hcoverName,hcoverLe⟩ := h other (List.mem_cons_of_mem size hother)
      have hne : cover≠item := by
        rintro rfl
        exact hnames.1 (hname.symm.trans hcoverName ▸ List.mem_map_of_mem hother)
      simp only [List.mem_append,List.mem_cons] at hcover ⊢
      exact ⟨cover,hcover.imp_right fun hc => hc.resolve_left hne,hcoverName,hcoverLe⟩
    obtain ⟨hcount,hsum⟩ := ih hnames.2 hrest
    simp only [List.length_append,List.map_append,List.sum_append,List.length_cons,List.map_cons,
      List.sum_cons] at hcount hsum ⊢
    constructor <;> omega

end Budget

/-- The most that an entry of a setting holds. -/
def room (r : Registration) : Subtree → ℕ
  | .default | .value => r.size
  | .changed => 1

/-- An entry is what it was before, or one of the entries of a setting with no
more bytes than there is room for. -/
def Tidy (known : List Registration) (nvs : Entries) (w : World) (name : CString) : Prop :=
  w.nvs.lookup name=nvs.lookup name ∨
    ∃ r∈known,∃ subtree,name=keyWithPrefix subtree r.key ∧
      ∀ entry,w.nvs.lookup name=some entry → entry.length ≤ room r subtree

/-- The settings and the entries of a device. -/
structure Kept (known : List Registration) (nvs : Entries) (w : World) : Prop where
  /-- The settings are those that are registered. -/
  regs : registrations w=known
  /-- The entries are tidy. -/
  tidy : ∀ name,Tidy known nvs w name

variable {env : Env} {cb : Callbacks} {known : List Registration} {nvs : Entries}
  {setup : Setup} {w next : World} {s : UserSetting} {data : Mem} {len : ℕ}

/-- Writes to RAM leave the entries alone. -/
theorem kept_modify {u : Update} (hu : Plain u) (hw : Kept known nvs w) (key : CString) :
    Kept known nvs (w.modify key u) :=
  ⟨(registrations_modify hu w key).trans hw.regs,hw.tidy⟩

/-- A call of settings_save_one for a setting writes one of its entries. -/
theorem kept_saveOne (hw : Kept known nvs w) (hs : registration s∈known) (subtree : Subtree)
    (hfits : len ≤ room (registration s) subtree) :
    Kept known nvs (settingsSaveOne env w (keyWithPrefix subtree s.key) data len).1 := by
  refine ⟨(sameSetup_saveOne env w _ data len).regs.trans hw.regs,fun name => ?_⟩
  have hlookup := saveOne_lookup env w (keyWithPrefix subtree s.key) name data len
  by_cases hname : name=keyWithPrefix subtree s.key ∧ env.saveResult w.saves=0
  · refine .inr ⟨registration s,hs,subtree,hname.1,fun entry hentry => ?_⟩
    rw [hlookup,if_pos hname] at hentry
    split at hentry
    · cases hentry
    · cases hentry
      rw [length_bytesAt]
      exact hfits
  · unfold Tidy
    rw [hlookup,if_neg hname]
    exact hw.tidy name

/-- A listed setting is registered. -/
theorem registered_of_found (hw : Kept known nvs w) (hs : w.getByKey s.key=some s) :
    registration s∈known :=
  hw.regs ▸ List.mem_map_of_mem (getByKey_some hs).1

/-- Setting a flag keeps the entries tidy. -/
theorem kept_flag (hw : Kept known nvs w) (hs : w.getByKey s.key=some s) (flag : Bool) :
    Kept known nvs (prvSetChangedRecentlyFlag env cb w s flag).1 := by
  rw [setChangedRecentlyFlag_eq hs]
  split
  · exact hw
  · exact kept_saveOne (kept_modify (fun _ => rfl) hw s.key) (registered_of_found hw hs) .changed
      (le_refl 1)

section Set

variable (hglobal : ∀ u,Kept known nvs u → Kept known nvs (cb.global u))
  (hown : ∀ u,Kept known nvs u → Kept known nvs (cb.own u))

include hglobal hown

/-- Notifying keeps the entries tidy when the callbacks do. -/
theorem kept_notify (hw : Kept known nvs w) (s : UserSetting) :
    Kept known nvs (notifyOwn cb (notifyGlobal cb w s) s) := by
  have htold : Kept known nvs (notifyGlobal cb w s) := by
    unfold notifyGlobal
    split
    · exact hglobal _ ⟨hw.regs,hw.tidy⟩
    · exact hw
  unfold notifyOwn
  split
  · exact hown _ ⟨htold.regs,htold.tidy⟩
  · exact htold

/-- So does a set call. -/
theorem kept_set {p : Pointer} (hw : Kept known nvs w) (hs : w.getByKey s.key=some s) :
    Kept known nvs (prvUserSettingsSetFrom env cb w s p len).1 := by
  by_cases hwrites : Writes s (p w) len
  · have hwritten : Kept known nvs (valueWritten cb w s (p w) len) := by
      unfold valueWritten
      split
      · exact hw
      · exact kept_notify hglobal hown (kept_modify (fun _ => rfl) hw s.key) s
    have hstored : Kept known nvs (valueStoredFrom env cb w s p len) :=
      kept_saveOne hwritten (registered_of_found hw hs) .value hwrites.fits
    rw [userSettingsSetFrom_writes hs hwrites]
    dsimp only
    split
    · exact hstored
    · obtain ⟨t,ht,hreg⟩ := getByKey_of_registrations (hstored.regs.trans hw.regs.symm) hs
      have hself : (valueStoredFrom env cb w s p len).getByKey t.key=some t := by
        rw [key_of_registration hreg,ht]
      rw [deref_eq ht]
      exact kept_flag hstored hself true
  · rw [userSettingsSetFrom_keeps hwrites]
    exact hw

/-- A delivery of an entry keeps the entries tidy. -/
theorem kept_hSet (hw : Kept known nvs w) (subtree : Subtree) (key : CString) (readCb : ReadCb) :
    Kept known nvs (hSet cb w subtree key len readCb).1 := by
  have hloaded : ∀ bytes,Kept known nvs (w.modify key (loadUpdate subtree bytes)) :=
    fun bytes => kept_modify (plain_loadUpdate subtree bytes) hw key
  rcases hSet_cases cb w subtree key len readCb with h|⟨s,bytes,_,h|⟨_,h⟩⟩ <;> rw [h]
  · exact hw
  · exact hloaded bytes
  · exact kept_notify hglobal hown (hloaded bytes) s

end Set

mutual

/-- A call made by a callback keeps the entries tidy. -/
theorem kept_exec (env : Env) : ∀ (reaction : Reaction) (w : World),
    Kept known nvs w → Kept known nvs (Reaction.exec env reaction w)
  | .set target p len onGlobal onOwn,w,hw => by
    unfold Reaction.exec
    cases hf : w.find target with
    | none => exact hw
    | some s =>
      exact kept_set (fun u hu => kept_execAll env onGlobal u hu)
        (fun u hu => kept_execAll env onOwn u hu) hw (getByKey_of_find hf)

/-- All calls made by a callback keep the entries tidy. -/
theorem kept_execAll (env : Env) : ∀ (reactions : List Reaction) (w : World),
    Kept known nvs w → Kept known nvs (Reaction.execAll env reactions w)
  | [],_,hw => hw
  | reaction::rest,w,hw => by
    unfold Reaction.execAll
    exact kept_execAll env rest _ (kept_exec env reaction w hw)

end

/-- The callbacks of an application keep the entries tidy, whatever they do. -/
theorem kept_callbacks (env : Env) : ∀ u,Kept known nvs u →
    Kept known nvs (env.callbacks.global u) ∧ Kept known nvs (env.callbacks.own u) :=
  fun u hu => ⟨kept_execAll env _ u hu,kept_execAll env _ u hu⟩

/-- What a call does with the record of its setting keeps the entries tidy. -/
theorem kept_visit (hw : Kept known nvs w) (hs : w.getByKey s.key=some s) (call : SettingCall) :
    Kept known nvs (call.visit env w s) := by
  have hglobal : ∀ u,Kept known nvs u → Kept known nvs (env.callbacks.global u) :=
    fun u hu => (kept_callbacks env u hu).1
  have hown : ∀ u,Kept known nvs u → Kept known nvs (env.callbacks.own u) :=
    fun u hu => (kept_callbacks env u hu).2
  cases call with
  | set data len => exact kept_set (p:=fun _ => data) hglobal hown hw hs
  | setDefault data len =>
    change Kept known nvs (prvUserSettingsSetDefault env env.callbacks w s data len).1
    by_cases hwrites : WritesDefault env s data len
    · have hwritten : Kept known nvs (defaultWritten w s data len) := by
        unfold defaultWritten
        split
        · exact hw
        · exact kept_modify (fun _ => rfl) hw s.key
      rw [userSettingsSetDefault_writes hs hwrites]
      exact kept_saveOne hwritten (registered_of_found hw hs) .default hwrites.fits
    · rw [userSettingsSetDefault_keeps hwrites]
      exact hw
  | restoreDefault =>
    change Kept known nvs (prvSettingsRestore env env.callbacks w s)
    unfold prvSettingsRestore
    split
    · exact kept_set hglobal hown hw hs
    · exact hw
  | setChanged => exact kept_flag hw hs true
  | clearChanged => exact kept_flag hw hs false

/-- Every step of a device keeps the entries tidy. -/
theorem kept_move {move : Move} (hw : Kept (registered setup) nvs w)
    (h : moveStep env setup w move=some next) : Kept (registered setup) nvs next := by
  cases move with
  | call target call =>
    obtain ⟨_,s,hs,rfl⟩ := moveStep_call.mp h
    exact kept_visit hw (getByKey_of_find hs) call
  | reboot =>
    have hbooted := reboot_ok (toOption_eq_some.mp h)
    refine ⟨booted_registrations hbooted,fun name => ?_⟩
    unfold Tidy
    rw [hbooted.nvs]
    exact hw.tidy name
  | load =>
    obtain ⟨⟨loaded,ret⟩,hrun,rfl⟩ := Option.map_eq_some_iff.mp h
    refine load_keeps (fun subtree u hu => ?_) (fun _ hu => ⟨hu.regs,hu.tidy⟩) hw
      (toOption_eq_some.mp hrun)
    exact loadSubtree_keeps (fun d _ v hv => kept_hSet (fun x hx => (kept_callbacks env x hx).1)
      (fun x hx => (kept_callbacks env x hx).2) hv subtree d.key d.readCb) hu

/-- The names in storage with the sizes of their entries. -/
def sizes (nvs : Entries) : List (CString×ℕ) :=
  nvs.entries.map fun entry => (entry.1,entry.2.length)

/-- The names that settings are stored under, with the most that each holds. -/
def spaces (regs : List Registration) : List (CString×ℕ) :=
  regs.flatMap fun r => [Subtree.default,.value,.changed].map fun subtree =>
    (keyWithPrefix subtree r.key,room r subtree)

/-- Settings have three names each, and room for two values and a flag. -/
theorem spaces_total (regs : List Registration) :
    (spaces regs).length=3*regs.length ∧
      ((spaces regs).map Prod.snd).sum=(regs.map fun r => 2*r.size+1).sum := by
  induction regs with
  | nil => exact ⟨rfl,rfl⟩
  | cons r rest ih =>
    have hcons : spaces (r::rest)=[(keyWithPrefix .default r.key,r.size),
      (keyWithPrefix .value r.key,r.size),(keyWithPrefix .changed r.key,1)]++spaces rest := rfl
    rw [hcons,List.length_append,List.map_append,List.sum_append,ih.1,ih.2]
    simp only [List.length_cons,List.length_nil,List.map_cons,List.map_nil,List.sum_cons,
      List.sum_nil]
    constructor <;> omega

/-- For every device, whatever storage answers, whatever its callbacks do, also
calls within calls, and every run of calls, imports, commands, loads and reboots:
entries under names that are not those of its settings are as they were before
the first start, and storage has at most three entries for each setting more than
before, with no more bytes than two values and a flag of each. -/
theorem storage_bounded (env : Env) (setup : Setup) (nvs : Entries) (start w : World)
    (actions : List Action) (hboot : boot env setup nvs=.ok start)
    (hrun : run (actionStep env setup) start actions=some w) :
    (∀ name,(∀ r∈registered setup,∀ subtree,name≠keyWithPrefix subtree r.key) →
        w.nvs.lookup name=nvs.lookup name) ∧
      w.nvs.entries.length ≤ nvs.entries.length+3*setup.regs.length ∧
      ((sizes w.nvs).map Prod.snd).sum ≤
        ((sizes nvs).map Prod.snd).sum+((registered setup).map fun r => 2*r.size+1).sum := by
  have hstart : Kept (registered setup) nvs start := by
    have hbooted := reboot_ok hboot
    exact ⟨booted_registrations hbooted,fun name => .inl (congrArg (AList.lookup name) hbooted.nvs)⟩
  have hend : Kept (registered setup) nvs w :=
    run_invariant_always (fun _ _ _ hu hs => kept_move hu hs) hstart (run_allMoves hrun)
  have hnames : ((sizes w.nvs).map Prod.fst).Nodup := by
    unfold sizes
    rw [List.map_map]
    exact w.nvs.nodupKeys
  have hcovered : ∀ size∈sizes w.nvs,∃ item∈sizes nvs++spaces (registered setup),
      item.1=size.1 ∧ size.2 ≤ item.2 := by
    intro size hsize
    obtain ⟨⟨name,entry⟩,hmem,rfl⟩ := List.mem_map.mp hsize
    have hlookup : w.nvs.lookup name=some entry := AList.mem_lookup_iff.mpr hmem
    rcases hend.tidy name with hsame|⟨r,hr,subtree,rfl,hfits⟩
    · have hold : nvs.lookup name=some entry := hsame.symm.trans hlookup
      exact ⟨_,List.mem_append_left _ (List.mem_map_of_mem (AList.mem_lookup_iff.mp hold)),rfl,
        le_refl _⟩
    · have hspace : (keyWithPrefix subtree r.key,room r subtree)∈spaces (registered setup) :=
        List.mem_flatMap.mpr ⟨r,hr,List.mem_map.mpr ⟨subtree,by cases subtree <;> simp,rfl⟩⟩
      exact ⟨_,List.mem_append_right _ hspace,rfl,hfits entry hlookup⟩
  obtain ⟨hcount,hsum⟩ := covered_by_budget hnames hcovered
  obtain ⟨hspaces,htotal⟩ := spaces_total (registered setup)
  refine ⟨fun name hforeign => ?_,?_,?_⟩
  · exact (hend.tidy name).resolve_right fun ⟨r,hr,subtree,hname,_⟩ => hforeign r hr subtree hname
  · rw [List.length_append,hspaces] at hcount
    unfold sizes registered at hcount
    rw [List.length_map,List.length_map,List.length_map] at hcount
    exact hcount
  · rw [List.map_append,List.sum_append,htotal] at hsum
    exact hsum

/-- A setting of one byte needs three entries of one byte. -/
theorem storage_bounded_on_device : ∃ start w,boot calm (device .u8 0 none none) ∅=.ok start ∧
    run (actionStep calm (device .u8 0 none none)) start
      [.device (.store (.set (.key keyA) (memOf [7]) 1)),.load]=some w ∧
    w.nvs.entries.length≤3 ∧ ((sizes w.nvs).map Prod.snd).sum≤3 := by
  obtain ⟨start,w,hboot,hrun⟩ : ∃ start w,boot calm (device .u8 0 none none) ∅=.ok start ∧
      run (actionStep calm (device .u8 0 none none)) start
        [.device (.store (.set (.key keyA) (memOf [7]) 1)),.load]=some w := ⟨_,_,rfl,rfl⟩
  obtain ⟨_,hcount,hsum⟩ := storage_bounded calm (device .u8 0 none none) ∅ start w _ hboot hrun
  exact ⟨start,w,hboot,hrun,hcount,hsum⟩

end UserSettings.Footprint
