import UserSettings.Operations

/-!
# RAM and persistent storage along runs

With storage that does not fail and callbacks that do not modify settings,
every write goes to both copies, with one exception: bytes of length zero do
not reach RAM but delete the entry. A run shows the same settings after a
reboot at each of its points exactly when no call writes nothing over
something.
-/

namespace UserSettings.Durability

open Bytes Settings Storage Store Effects Setters Reactions Load Records Cells Outcomes
open Operations Transition

/-- An operation that writes no bytes over a value, or over a default value,
of the record, with the consent of its validate callback. -/
def LosesEntry (env : Env) (op : StoreOp) (s : UserSetting) : Prop :=
  match op with
  | .set _ data len => len=0 ∧ s.isSet=true ∧ s.validates data len=true
  | .setDefault _ data len =>
    len=0 ∧ s.defaultIsSet=true ∧ env.defaultOverwrite=true ∧ s.validates data len=true
  | .restoreDefaults | .restoreDefault _ =>
    s.isSet=true ∧ s.defaultIsSet=false ∧ s.validates s.defaultData.mem 0=true
  | .setChanged _ | .clearChangedOne _ | .clearChanged => False

/-- No record that the operation is about loses an entry. -/
def NoEmptyWrite (env : Env) (w : World) (op : StoreOp) : Prop :=
  ∀ s,w.getByKey s.key=some s → (∀ target,target? op=some target → w.find target=some s) →
    ¬LosesEntry env op s

/-- Both copies of the cells of a setting agree. -/
def AgreeAt (key : CString) (w : World) : Prop :=
  ∀ subtree,ram w (subtree,key)=stored w (subtree,key)

variable {env : Env} {w next : World} {s : UserSetting}

/-- Writing the same content to both copies keeps their agreement. -/
theorem agree_update {f g : Copy} {key : CString} (h : ∀ subtree,f (subtree,key)=g (subtree,key))
    (cell : Cell) (c : Option (List UInt8)) (subtree : Subtree) :
    Function.update f cell c (subtree,key)=Function.update g cell c (subtree,key) := by
  by_cases hc : (subtree,key)=cell
  · rw [hc,Function.update_self,Function.update_self]
  · rw [Function.update_of_ne hc,Function.update_of_ne hc,h]

/-- A set value is not the empty value. -/
theorem not_sameValue_empty (hok : RecordOk s) (hi : s.isSet=true) (data : Mem) :
    ¬SameValue s data 0 := by
  intro h
  have hp := hok.value.isSet_iff.mp hi
  have hz := h.2
  omega

/-- Bytes of length zero are written only over a set value. -/
theorem isSet_of_writes_empty {data : Mem} (hok : RecordOk s) (hw : Writes s data 0) :
    s.isSet=true := by
  cases hi : s.isSet with
  | true => rfl
  | false => exact absurd ⟨rfl,(hok.value.len_eq_zero hi).symm⟩ hw.differs

/-- Setting a value keeps the agreement unless it deletes the entry. -/
theorem set_agree_iff (hq : Passive env.callbacks) (hsave : ∀ n,env.saveResult n=0)
    (hok : RecordOk s) (hs : w.getByKey s.key=some s) (ha : AgreeAt s.key w) (data : Mem)
    (len : ℕ) : AgreeAt s.key (prvUserSettingsSet env env.callbacks w s data len).1 ↔
      ¬(len=0 ∧ s.isSet=true ∧ s.validates data len=true) := by
  by_cases hw : Writes s data len
  · by_cases hn : len=0
    · subst hn
      have hi := isSet_of_writes_empty hok hw
      obtain ⟨hram,hstored⟩ := set_empty hq hs hw (hsave w.saves)
      constructor
      · intro h
        have he := h .value
        rw [hram,hstored,ram_eq hs] at he
        dsimp only [content] at he
        rw [if_pos hi] at he
        cases he
      · exact fun h => absurd ⟨rfl,hi,hw.valid⟩ h
    · have hout := set_outcome env hq hs hw
      have hset : ∀ subtree,ramSet w s data len (subtree,s.key)=
          storedSet w s data len (subtree,s.key) := by
        unfold ramSet storedSet
        rw [if_neg hn,if_neg hn]
        exact agree_update ha _ _
      refine ⟨fun _ h => hn h.1,fun _ => ?_⟩
      unfold AgreeAt
      revert hout
      generalize ram (prvUserSettingsSet env env.callbacks w s data len).1=f
      generalize stored (prvUserSettingsSet env env.callbacks w s data len).1=g
      generalize (prvUserSettingsSet env env.callbacks w s data len).2=rc
      intro hout
      cases hout with
      | valueUnsaved hv => exact absurd (hsave _) hv
      | flagged => exact hset
      | flagUnsaved _ _ hf => exact absurd (hsave _) hf
      | saved => exact agree_update hset _ _
  · rw [userSettingsSet_keeps hw]
    refine ⟨fun _ h => ?_,fun _ => ha⟩
    obtain ⟨hn,hi,hv⟩ := h
    subst hn
    exact hw ⟨Nat.zero_le _,not_sameValue_empty hok hi data,hv⟩

/-- Setting a default value keeps the agreement unless it deletes the entry. -/
theorem setDefault_agree_iff (hsave : ∀ n,env.saveResult n=0) (hok : RecordOk s)
    (hs : w.getByKey s.key=some s) (ha : AgreeAt s.key w) (data : Mem) (len : ℕ) :
    AgreeAt s.key (prvUserSettingsSetDefault env env.callbacks w s data len).1 ↔
      ¬(len=0 ∧ s.defaultIsSet=true ∧ env.defaultOverwrite=true ∧
        s.validates data len=true) := by
  by_cases hw : WritesDefault env s data len
  · by_cases hn : len=0
    · subst hn
      have hi : s.defaultIsSet=true := by
        cases hi : s.defaultIsSet with
        | true => rfl
        | false =>
          have hz := hok.default.len_eq_zero hi
          refine absurd ⟨hz.symm,?_⟩ hw.differs
          rw [hz,bytesAt_zero,bytesAt_zero]
      have ho : env.defaultOverwrite=true := by
        cases hw.unlocked with
        | inl h => exact h
        | inr h =>
          rw [hi] at h
          cases h
      obtain ⟨hram,hstored⟩ := setDefault_empty hs hw (hsave w.saves)
      constructor
      · intro h
        have he := h .default
        rw [hram,hstored,ram_eq hs] at he
        dsimp only [content] at he
        rw [if_pos hi] at he
        cases he
      · exact fun h => absurd ⟨rfl,hi,ho,hw.valid⟩ h
    · obtain ⟨hram,hstored⟩ := setDefault_cells hs hw hn
      rw [if_pos (hsave _)] at hstored
      refine ⟨fun _ h => hn h.1,fun _ => ?_⟩
      unfold AgreeAt
      rw [hram,hstored]
      exact agree_update ha _ _
  · rw [userSettingsSetDefault_keeps hw]
    refine ⟨fun _ h => ?_,fun _ => ha⟩
    obtain ⟨hn,hi,ho,hv⟩ := h
    subst hn
    have hp := hok.default.isSet_iff.mp hi
    refine hw ⟨fun hd => ?_,.inl ho,Nat.zero_le _,hv⟩
    have hz := hd.1
    omega

/-- Setting a flag keeps the agreement. -/
theorem flag_agree (hsave : ∀ n,env.saveResult n=0) (hs : w.getByKey s.key=some s)
    (ha : AgreeAt s.key w) (flag : Bool) :
    AgreeAt s.key (prvSetChangedRecentlyFlag env env.callbacks w s flag).1 := by
  obtain ⟨hram,hstored⟩ := flag_cells hs flag
  unfold AgreeAt
  by_cases hf : flag=s.hasChangedRecently
  · have hsame : ram w (.changed,s.key)=flagContent flag := by
      rw [ram_eq hs,hf]
      rfl
    rw [if_pos (.inl hf)] at hstored
    rw [hram,hstored,←hsame,Function.update_eq_self]
    exact ha
  · have hno : ¬(flag=s.hasChangedRecently ∨ env.saveResult w.saves≠0) := by
      intro h
      cases h with
      | inl h => exact hf h
      | inr h => exact h (hsave _)
    rw [if_neg hno] at hstored
    rw [hram,hstored]
    exact agree_update ha _ _

/-- Restoring a setting keeps the agreement unless it deletes the entry. -/
theorem restore_agree_iff (hq : Passive env.callbacks) (hsave : ∀ n,env.saveResult n=0)
    (hok : RecordOk s) (hs : w.getByKey s.key=some s) (ha : AgreeAt s.key w) :
    AgreeAt s.key (prvSettingsRestore env env.callbacks w s) ↔
      ¬(s.isSet=true ∧ s.defaultIsSet=false ∧ s.validates s.defaultData.mem 0=true) := by
  unfold prvSettingsRestore
  by_cases hi : s.isSet=true
  · rw [if_pos hi,set_agree_iff hq hsave hok hs ha]
    have hd : s.defaultDataLen=0 ↔ s.defaultIsSet=false := by
      constructor
      · intro hz
        cases hset : s.defaultIsSet with
        | false => rfl
        | true =>
          have hp := hok.default.isSet_iff.mp hset
          omega
      · exact hok.default.len_eq_zero
    constructor
    · intro h k
      refine h ⟨hd.mpr k.2.1,hi,?_⟩
      rw [hd.mpr k.2.1]
      exact k.2.2
    · intro h k
      refine h ⟨hi,hd.mp k.1,?_⟩
      rw [←k.1]
      exact k.2.2
  · rw [if_neg hi]
    exact ⟨fun _ k => hi k.1,fun _ => ha⟩

/-- A visit keeps the agreement unless it deletes an entry. -/
theorem visit_agree_iff (hq : Passive env.callbacks) (hsave : ∀ n,env.saveResult n=0)
    (op : StoreOp) (hok : RecordOk s) (hs : w.getByKey s.key=some s) (ha : AgreeAt s.key w) :
    AgreeAt s.key (visit env op w s) ↔ ¬LosesEntry env op s := by
  cases op with
  | set _ data len => exact set_agree_iff hq hsave hok hs ha data len
  | setDefault _ data len => exact setDefault_agree_iff hsave hok hs ha data len
  | restoreDefaults => exact restore_agree_iff hq hsave hok hs ha
  | restoreDefault => exact restore_agree_iff hq hsave hok hs ha
  | setChanged => exact ⟨fun _ h => h,fun _ => flag_agree hsave hs ha true⟩
  | clearChangedOne => exact ⟨fun _ h => h,fun _ => flag_agree hsave hs ha false⟩
  | clearChanged => exact ⟨fun _ h => h,fun _ => flag_agree hsave hs ha false⟩

/-- A setting that is not registered has no cells. -/
theorem agreeAt_of_missing {key : CString} (h : w.getByKey key=none) : AgreeAt key w := by
  intro subtree
  unfold ram stored
  rw [h]

/-- Both copies agree when they agree at every registered setting, listed as
they were before. -/
theorem ram_eq_stored_iff (hregs : registrations next=registrations w) :
    ram next=stored next ↔ ∀ s,w.getByKey s.key=some s → AgreeAt s.key next := by
  constructor
  · intro h s _ subtree
    rw [h]
  · intro h
    funext cell
    obtain ⟨subtree,key⟩ := cell
    cases hk : next.getByKey key with
    | none => exact agreeAt_of_missing hk subtree
    | some t =>
      obtain ⟨s,hs,_⟩ := getByKey_of_registrations hregs.symm hk
      have hkey := key_of_getByKey hs
      subst hkey
      exact h s hs subtree

/-- A visit of the one setting that an operation names keeps the agreement
exactly when it deletes no entry of it. -/
theorem one_agree_iff (hq : Passive env.callbacks) (hsave : ∀ n,env.saveResult n=0)
    {op : StoreOp} {target : Target} (hok : RecordOk s) (ht : target? op=some target)
    (hf : w.find target=some s) (ha : ram w=stored w) :
    (∀ t,w.getByKey t.key=some t → AgreeAt t.key (visit env op w s)) ↔
      NoEmptyWrite env w op := by
  have hs := getByKey_of_find hf
  have hat : ∀ key,AgreeAt key w := fun key subtree => congrFun ha (subtree,key)
  have hiff := visit_agree_iff hq hsave op hok hs (hat s.key)
  constructor
  · intro hall t _ htarget
    have hts : t=s := by
      have h := htarget target ht
      rw [hf] at h
      exact (Option.some.inj h).symm
    subst hts
    exact hiff.mp (hall t hs)
  · intro hno t _
    by_cases htk : t.key=s.key
    · rw [htk]
      refine hiff.mpr (hno s hs fun other ho => ?_)
      rw [ht] at ho
      exact Option.some.inj ho ▸ hf
    · intro subtree
      obtain ⟨hram,hstored⟩ := (visit_onlyAt hq op hs).cells (subtree,t.key) htk
      rw [hram,hstored,ha]

/-- Visits of all settings keep the agreement exactly when none deletes an entry. -/
theorem each_agree_iff (hq : Passive env.callbacks) (hsave : ∀ n,env.saveResult n=0)
    {op : StoreOp} (hok : AllRecords RecordOk w) (ht : target? op=none) (ha : ram w=stored w) :
    (∀ t,w.getByKey t.key=some t → AgreeAt t.key (forEachSetting (visit env op) w)) ↔
      NoEmptyWrite env w op := by
  refine forall_congr' fun t => forall_congr' fun hk => ?_
  -- the visits before and after that of the setting itself leave its cells alone
  obtain ⟨u,hu,hut,hend⟩ := forEachSetting_at (fun _ _ hx => visit_onlyAt hq op hx) hk
  have hau : AgreeAt t.key u := by
    intro subtree
    obtain ⟨hram,hstored⟩ := hu.cells subtree
    rw [hram,hstored,ha]
  have hiff : AgreeAt t.key (forEachSetting (visit env op) w) ↔ ¬LosesEntry env op t := by
    rw [←visit_agree_iff hq hsave op (hok.getByKey hk) hut hau]
    unfold AgreeAt
    simp only [fun subtree => (hend.cells subtree).1,fun subtree => (hend.cells subtree).2]
  rw [hiff]
  refine ⟨fun h _ => h,fun h => h fun target htarget => ?_⟩
  rw [ht] at htarget
  cases htarget

/-- One step from agreeing copies: they agree afterwards exactly when the
operation deletes no entry of a record it is about. -/
theorem step_agree_iff (hq : Passive env.callbacks) (hsave : ∀ n,env.saveResult n=0)
    {setup : Setup} (hrun : Running setup w) (ha : ram w=stored w) (op : StoreOp) :
    (∀ next,step env w op=some next → ram next=stored next) ↔ NoEmptyWrite env w op := by
  cases hstep : step env w op with
  | none =>
    obtain ⟨target,ht,hf⟩ := step_none hrun.isLoaded hstep
    refine ⟨fun _ s _ hs => ?_,fun _ next h => by cases h⟩
    rw [hs target ht] at hf
    cases hf
  | some next =>
    simp only [Option.some.injEq,forall_eq']
    rw [ram_eq_stored_iff (step_effects hstep).sameSetup.regs]
    cases step_cases hstep with
    | inl hone =>
      obtain ⟨target,s,ht,hf,rfl⟩ := hone
      exact one_agree_iff hq hsave (hrun.records.getByKey (getByKey_of_find hf)) ht hf ha
    | inr hall =>
      obtain ⟨ht,rfl⟩ := hall
      exact each_agree_iff hq hsave hrun.records ht ha

/-- A reboot succeeds and shows every setting as RAM holds it. -/
def RebootAgrees (env : Env) (setup : Setup) (w : World) : Prop :=
  ∃ next,reboot env setup w=.ok next ∧ views next=views w

/-- What is seen of a record determines its cells. -/
theorem content_eq_of_view {t : UserSetting} (h : view s=view t) (subtree : Subtree) :
    content s subtree=content t subtree := by
  have h1 := congrArg View.isSet h
  have h2 := congrArg View.value h
  have h3 := congrArg View.defaultIsSet h
  have h4 := congrArg View.defaultValue h
  have h5 := congrArg View.hasChangedRecently h
  dsimp only [view] at h1 h2 h3 h4 h5
  cases subtree with
  | default =>
    dsimp only [content]
    rw [h3,h4]
  | value =>
    dsimp only [content]
    rw [h1,h2]
  | changed =>
    dsimp only [content]
    rw [h5]

/-- A reboot shows the settings as they are exactly when both copies agree. -/
theorem rebootAgrees_iff {setup : Setup} {before started : World}
    (hboot : reboot env setup before=.ok started) (hrun : Running setup w) :
    RebootAgrees env setup w ↔ ram w=stored w := by
  obtain ⟨final,hfinal,hb⟩ := reboot_again (v:=w) hboot
  constructor
  · intro h
    obtain ⟨next,hnext,hviews⟩ := h
    rw [hfinal] at hnext
    cases hnext
    rw [←booted_stored hb hrun.regs,←booted_ram hb]
    funext cell
    obtain ⟨subtree,key⟩ := cell
    have hv := congrFun hviews key
    unfold views at hv
    unfold ram
    dsimp only
    cases hw : w.getByKey key with
    | none =>
      rw [hw,Option.map_none,Option.map_eq_none_iff] at hv
      rw [hv]
    | some s =>
      rw [hw,Option.map_some] at hv
      obtain ⟨t,ht,hts⟩ := Option.map_eq_some_iff.mp hv
      rw [ht]
      exact content_eq_of_view hts.symm subtree
  · exact fun ha => ⟨final,hfinal,booted_views hb hrun.regs hrun.records ha⟩

/-- Along every run after a load, with storage that does not fail and callbacks
that do not modify settings: a reboot shows the same settings at every point
of the run exactly when no call writes no bytes over a set value or default. -/
theorem reboot_agrees_always_iff (env : Env) (setup : Setup) (nvs : Entries) (start : World)
    (hq : ∀ n,env.react n=[]) (hsave : ∀ n,env.saveResult n=0)
    (hboot : boot env setup nvs=.ok start) (ops : List StoreOp) :
    Always (step env) (RebootAgrees env setup) start ops ↔
      Meets (step env) (NoEmptyWrite env) start ops := by
  have hpassive := passive_callbacks hq
  have hb := reboot_ok hboot
  let Inv : World → Prop := fun w => Running setup w ∧ ram w=stored w
  let Agrees : World → StoreOp → Prop :=
    fun w op => ∀ next,step env w op=some next → ram next=stored next
  have hstart : Inv start := ⟨running_of_booted hb,booted_ram hb⟩
  have hpres : Preserves (step env) Agrees Inv :=
    fun w op next hw hc hs => ⟨hw.1.effects (step_effects hs),hc next hs⟩
  have hlocal : ∀ w op,Inv w → (Agrees w op ↔ NoEmptyWrite env w op) :=
    fun w op hw => step_agree_iff hpassive hsave hw.1 hw.2 op
  rw [always_iff,rebootAgrees_iff hboot hstart.1,←meets_iff hpres hlocal hstart ops]
  have hreboot : Meets (step env) (fun w op => ∀ next,step env w op=some next →
      RebootAgrees env setup next) start ops ↔ Meets (step env) Agrees start ops := by
    refine meets_iff ?_ ?_ hstart.1 ops
    · exact fun w op next hw _ hs => hw.effects (step_effects hs)
    · intro w op hw
      constructor
      · exact fun h next hs =>
          (rebootAgrees_iff hboot (hw.effects (step_effects hs))).mp (h next hs)
      · exact fun h next hs =>
          (rebootAgrees_iff hboot (hw.effects (step_effects hs))).mpr (h next hs)
  rw [hreboot]
  exact ⟨fun h => h.2,fun h => ⟨hstart.2,h⟩⟩

/-- On a new device with one byte setting, a single set call meets the condition. -/
theorem reboot_agrees_after_set : ∃ start,boot calm (device .u8 0 none none) ∅=.ok start ∧
    (Always (step calm) (RebootAgrees calm (device .u8 0 none none)) start
        [.set (.key keyA) (memOf [5]) 1] ↔
      Meets (step calm) (NoEmptyWrite calm) start [.set (.key keyA) (memOf [5]) 1]) :=
  ⟨_,rfl,reboot_agrees_always_iff calm (device .u8 0 none none) ∅ _ (fun _ => rfl)
    (fun _ => rfl) rfl _⟩

/-- Restoring a set byte setting that has no default: RAM keeps the value,
the entry is deleted, and after a reboot the setting is not set. -/
theorem reboot_disagrees_after_restore :
    ¬∀ (env : Env) (setup : Setup) (nvs : Entries) (start : World),(∀ n,env.react n=[]) →
      (∀ n,env.saveResult n=0) → boot env setup nvs=.ok start →
      ∀ ops,Always (step env) (RebootAgrees env setup) start ops := by
  intro h
  let setup := device .u8 0 none none
  let ops : List StoreOp := [.set (.key keyA) (memOf [5]) 1,.restoreDefault (.key keyA)]
  have hrun : (runFrom calm setup ops).bind (fun w =>
      (reboot calm setup w).toOption.map fun next => decide (views next keyA=views w keyA))=
      some false := by decide +kernel
  obtain ⟨w,hw,hcheck⟩ := Option.bind_eq_some_iff.mp hrun
  obtain ⟨start,hboot,hsteps⟩ := runFrom_some hw
  obtain ⟨next,hnext,hviews⟩ := h calm setup ∅ start (fun _ => rfl) (fun _ => rfl) hboot ops ops w
    (List.prefix_refl ops) hsteps
  rw [hnext] at hcheck
  change some (decide (views next keyA=views w keyA))=some false at hcheck
  rw [hviews] at hcheck
  simp at hcheck

end UserSettings.Durability
